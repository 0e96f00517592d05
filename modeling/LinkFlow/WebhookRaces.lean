/-
Incoming webhook requests next to activations and deactivations of their workflows.

A deactivation saves every webhook of the workflow as inactive and takes it out of the cache. A
request that had found the webhook before saves the record it holds, to count the call, and with
it the row is active again: later requests are accepted (`deactivated_accepts`). "Activated again"
is read as: an activation of the workflow has begun. `refuses_of_apart` says what keeps requests
out: no request saves a record after a deactivation has passed its row, activations and
deactivations of one workflow do not overlap, and the calls of a deactivation to the repository do
not fail.
-/
import LinkFlow.WebhookSections
import LinkFlow.Lib.Interleaving
import LinkFlow.Lib.Runs

set_option autoImplicit false

namespace LinkFlow.Webhooks

open List Option GoMap

open Interleaving (Race System Outline)

/-! ## Requests and handlers -/

inductive Arrival
  | request (path : String) (r : Request)
  | activated (workflowID : String)
  | deactivated (workflowID : String)

def Arrival.first : Arrival → Section
  | request path r => .find path r
  | activated workflowID => .list true workflowID
  | deactivated workflowID => .list false workflowID

namespace Section

/-- The handler that the section belongs to: whether it activates, and which workflow. -/
def handler : Section → Option (Bool × String)
  | .list on workflowID | .update on workflowID _ | .cache on workflowID _ _ =>
    some (on, workflowID)
  | _ => none

def closes : Section → Option String
  | .update false workflowID [] => some workflowID
  | _ => none

def accepts : Section → Option Webhook
  | .record _ _ wh _ _ => some wh
  | _ => none

def Spares (wh : Webhook) : Section → Prop
  | .update false workflowID todo => workflowID = wh.workflowID → wh.id ∈ todo.map Webhook.id
  | .cache false workflowID _ rest => workflowID = wh.workflowID → wh.id ∈ rest.map Webhook.id
  | _ => True

instance (wh : Webhook) : (p : Section) → Decidable (p.Spares wh)
  | .update false workflowID todo =>
    inferInstanceAs (Decidable (workflowID = wh.workflowID → wh.id ∈ todo.map Webhook.id))
  | .cache false workflowID _ rest =>
    inferInstanceAs (Decidable (workflowID = wh.workflowID → wh.id ∈ rest.map Webhook.id))
  | .update true _ _ | .cache true _ _ _ | .find _ _ | .getByPath _ _ | .record _ _ _ _ _
  | .save _ _ _ | .processed _ | .failed _ | .list _ _ => isTrue trivial

end Section

/-- A call in progress, with the step in which it arrived. -/
structure Call where
  next : Section
  arrived : ℕ

/-- An accepted request: when it arrived, and since when the workflow of its webhook has been
deactivated, if it is. -/
structure Accepted where
  arrived : ℕ
  closedAt : Option ℕ

/-- The service. Not in the program are the number of steps, the workflows for which a deactivation
has returned and no activation has begun since, with its step, and the accepted requests. -/
structure Shared where
  state : State
  now : ℕ := 0
  closed : GoMap String ℕ := ∅
  accepted : List Accepted := []

namespace Shared

def enter (s : Shared) (a : Arrival) : Shared × Call :=
  let closed := match a with
    | .activated workflowID => s.closed.erase workflowID
    | _ => s.closed
  ({ s with now := s.now + 1, closed }, { next := a.first, arrived := s.now })

def settle (s : Shared) (c : Call) (r : State × Next) : Shared × Option Call :=
  ({ state := r.1
     now := s.now + 1
     closed := match c.next.closes with
       | some workflowID =>
         if workflowID ∈ s.closed then s.closed else s.closed.insert workflowID s.now
       | none => s.closed
     accepted := match c.next.accepts with
       | some wh => ⟨c.arrived, s.closed.lookup wh.workflowID⟩ :: s.accepted
       | none => s.accepted }, match r.2 with
    | .next p => some { c with next := p }
    | _ => none)

/-- No accepted request arrived after the deactivation of its workflow had returned. -/
def Refuses (s : Shared) : Prop := ∀ a ∈ s.accepted, ∀ n, a.closedAt = some n → a.arrived < n

instance (s : Shared) : Decidable s.Refuses :=
  decidable_of_iff (∀ a ∈ s.accepted, ∀ n ∈ a.closedAt, a.arrived < n) Iff.rfl

end Shared

def system (lib : Library) : System Shared Call Arrival Turn Empty where
  enter := Shared.enter
  advance t s c := s.settle c (advance lib t s.state c.next)
  disturb s _ := s

abbrev Event := Interleaving.Event Arrival Turn Empty

/-- A request saves no webhook whose workflow has been deactivated, nor one that a deactivation in
progress has saved. What a deactivation does in the repository succeeds. -/
def Section.Careful (t : Turn) (closed : GoMap String ℕ) (calls : List Section) : Section → Prop
  | .save _ wh _ => t.updateFails = false → wh.workflowID ∉ closed ∧ ∀ p ∈ calls, p.Spares wh
  | .list false _ => t.listFails = false
  | .update false _ (_ :: _) => t.updateFails = false
  | _ => True

instance (t : Turn) (closed : GoMap String ℕ) (calls : List Section) :
    (p : Section) → Decidable (p.Careful t closed calls)
  | .save _ wh _ => inferInstanceAs
      (Decidable (t.updateFails = false → wh.workflowID ∉ closed ∧ ∀ p ∈ calls, p.Spares wh))
  | .list false _ => inferInstanceAs (Decidable (t.listFails = false))
  | .update false _ (_ :: _) => inferInstanceAs (Decidable (t.updateFails = false))
  | .update false _ [] | .update true _ _ | .list true _ | .cache _ _ _ _ | .find _ _
  | .getByPath _ _ | .record _ _ _ _ _ | .processed _ | .failed _ => isTrue trivial

def sections (s : Race Shared Call) : List Section := s.calls.entries.map (fun e => e.2.next)

/-- Besides, a handler begins only while no handler of the other kind is at work on the
workflow. -/
def Apart (s : Race Shared Call) : Event → Prop
  | .begin _ (.activated workflowID) => ∀ p ∈ sections s, p.handler ≠ some (false, workflowID)
  | .begin _ (.deactivated workflowID) => ∀ p ∈ sections s, p.handler ≠ some (true, workflowID)
  | .begin _ (.request _ _) => True
  | .next i t => ∀ c ∈ s.calls.lookup i, c.next.Careful t s.shared.closed (sections s)
  | .outside _ => True

instance (s : Race Shared Call) : (e : Event) → Decidable (Apart s e)
  | .begin _ (.activated workflowID) =>
    inferInstanceAs (Decidable (∀ p ∈ sections s, p.handler ≠ some (false, workflowID)))
  | .begin _ (.deactivated workflowID) =>
    inferInstanceAs (Decidable (∀ p ∈ sections s, p.handler ≠ some (true, workflowID)))
  | .begin _ (.request _ _) => isTrue trivial
  | .next i t => inferInstanceAs (Decidable
      (∀ c ∈ s.calls.lookup i, c.next.Careful t s.shared.closed (sections s)))
  | .outside _ => isTrue trivial

theorem mem_sections {s : Race Shared Call} {i : ℕ} {c : Call} (h : s.calls.lookup i = some c) :
    c.next ∈ sections s :=
  mem_map.mpr ⟨⟨i, c⟩, AList.mem_lookup_iff.mp h, rfl⟩

/-! ## Assertions -/

namespace State

def Known (s : State) (wh : Webhook) : Prop :=
  ∃ row, s.rows.lookup wh.id = some row ∧ row.workflowID = wh.workflowID ∧ row.path = wh.path

/-- Rows are stored under their IDs. -/
def Keyed (s : State) : Prop := ∀ id row, s.rows.lookup id = some row → row.id = id

/-- A handler that still has to save `rows` and to treat the cache for `cached`. -/
structure Handles (s : State) (closed : GoMap String ℕ) (on : Bool) (workflowID : String)
    (rows cached : List Webhook) : Prop where
  known : ∀ wh ∈ cached, s.Known wh ∧ wh.workflowID = workflowID
  subset : rows ⊆ cached
  opened : on = true → workflowID ∉ closed
  rows : on = false → ∀ id row, s.rows.lookup id = some row → row.workflowID = workflowID →
    row.isActive = true → id ∈ rows.map Webhook.id
  cache : on = false → ∀ path o, s.webhooks.lookup path = some o → o.workflowID = workflowID →
    path ∈ cached.map Webhook.path

def Place (s : State) (closed : GoMap String ℕ) (arrived : ℕ) : Section → Prop
  | .record _ _ wh _ _ => s.Known wh ∧ ∀ n, closed.lookup wh.workflowID = some n → arrived < n
  | .save _ wh _ => s.Known wh
  | .list on workflowID => on = true → workflowID ∉ closed
  | .update on workflowID todo => s.Handles closed on workflowID todo todo
  | .cache on workflowID wh rest => s.Handles closed on workflowID rest (wh :: rest)
  | _ => True

end State

/-- The rows and cached records of a deactivated workflow. -/
structure Shared.Inv (s : Shared) : Prop where
  keyed : s.state.Keyed
  cached : ∀ path o, s.state.webhooks.lookup path = some o → o.path = path ∧ s.state.Known o
  closedRows : ∀ id row, s.state.rows.lookup id = some row → row.workflowID ∈ s.closed →
    row.isActive = false
  closedCache : ∀ path o, s.state.webhooks.lookup path = some o → o.workflowID ∉ s.closed
  refuses : s.Refuses

def outline : Outline Shared Call where
  inv := Shared.Inv
  sound s c := c.arrived < s.now ∧ s.state.Place s.closed c.arrived c.next
  apart p q := ∀ workflowID, p.next.handler = some (true, workflowID) →
    q.next.handler ≠ some (false, workflowID)

/-! ## Interference -/

namespace State

variable {s s' : State} {saved put : Option Webhook} {closed closed' : GoMap String ℕ}
  {arrived : ℕ} {p : Section}

theorem Known.congr {a b : Webhook} (h : s.Known a) (hab : a.Same b) : s.Known b := by
  obtain ⟨row, hrow, hworkflow, hpath⟩ := h
  exact ⟨row, hab.id ▸ hrow, hworkflow.trans hab.workflowID, hpath.trans hab.path⟩

theorem Known.effect {wh : Webhook} (h : s.Known wh) (hrows : RowsEffect s.rows s'.rows saved)
    (hsaved : ∀ x, saved = some x → s.Known x) : s'.Known wh := by
  obtain ⟨row, hrow, hworkflow, hpath⟩ := h
  rcases hrows.kept wh.id row hrow with hkept | ⟨x, hx, hid⟩
  · exact ⟨row, hkept, hworkflow, hpath⟩
  -- the saved record is of the same webhook
  obtain ⟨old, hold, holdWorkflow, holdPath⟩ := hsaved x hx
  obtain ⟨row', hrow', hsame, -⟩ := hrows.written x hx
  rw [← hid] at hold hrow'
  rw [hrow] at hold
  cases hold
  refine ⟨row', hrow', ?_, ?_⟩
  · rw [hsame.workflowID, ← holdWorkflow, hworkflow]
  · rw [hsame.path, ← holdPath, hpath]

/-- Where a call stands at `p`, another opens no workflow that the call activates, closes workflows
later than the call arrived, activates no row that the call has saved as inactive, and caches
nothing of a workflow that the call deactivates. -/
structure Harmless (s s' : State) (closed closed' : GoMap String ℕ) (arrived : ℕ) (p : Section) :
    Prop where
  known : ∀ wh, s.Known wh → s'.Known wh
  closedAt : ∀ w n, closed'.lookup w = some n → closed.lookup w = some n ∨ arrived < n
  opened : ∀ w, p.handler = some (true, w) → w ∉ closed → w ∉ closed'
  rows : ∀ w, p.handler = some (false, w) → ∀ id row, s'.rows.lookup id = some row →
    row.workflowID = w → row.isActive = true →
    s.rows.lookup id = some row ∨ ∃ wh, id = wh.id ∧ w = wh.workflowID ∧ p.Spares wh
  cache : ∀ w, p.handler = some (false, w) → ∀ path o, s'.webhooks.lookup path = some o →
    o.workflowID = w → ∃ o', s.webhooks.lookup path = some o' ∧ o'.workflowID = w

theorem Harmless.handles (h : s.Harmless s' closed closed' arrived p) {on : Bool} {w : String}
    (hp : p.handler = some (on, w)) {rows cached : List Webhook}
    (hspares : ∀ wh, on = false → w = wh.workflowID → p.Spares wh → wh.id ∈ rows.map Webhook.id)
    (hplace : s.Handles closed on w rows cached) : s'.Handles closed' on w rows cached where
  known := fun wh hwh => ⟨h.known wh (hplace.known wh hwh).1, (hplace.known wh hwh).2⟩
  subset := hplace.subset
  opened := fun hon => h.opened w (hon ▸ hp) (hplace.opened hon)
  rows := by
    rintro rfl id row hrow hworkflow hactive
    rcases h.rows w hp id row hrow hworkflow hactive with hold | ⟨wh, rfl, hw, hsp⟩
    · exact hplace.rows rfl id row hold hworkflow hactive
    · exact hspares wh rfl hw hsp
  cache := by
    rintro rfl path o ho hworkflow
    obtain ⟨o', ho', hworkflow'⟩ := h.cache w hp path o ho hworkflow
    exact hplace.cache rfl path o' ho' hworkflow'

theorem Harmless.place (h : s.Harmless s' closed closed' arrived p)
    (hplace : s.Place closed arrived p) : s'.Place closed' arrived p := by
  cases p with
  | record path r wh body payload =>
    refine ⟨h.known wh hplace.1, fun n hn => ?_⟩
    rcases h.closedAt wh.workflowID n hn with hold | hlt
    · exact hplace.2 n hold
    · exact hlt
  | save path wh e => exact h.known wh hplace
  | list on w =>
    intro hon
    exact h.opened w (by rw [hon]; rfl) (hplace hon)
  | update on w todo =>
    refine h.handles rfl ?_ hplace
    rintro wh rfl hw hsp
    exact hsp hw
  | cache on w wh rest =>
    refine h.handles rfl ?_ hplace
    rintro x rfl hw hsp
    exact hsp hw
  | find path r => exact trivial
  | getByPath path r => exact trivial
  | processed e => exact trivial
  | failed e => exact trivial

end State

theorem Section.eq_of_closes {p : Section} {w : String} (h : p.closes = some w) :
    p = .update false w [] := by
  unfold Section.closes at h
  split at h
  · rw [some.inj h]
  · cases h

namespace Shared

variable {s : Shared} {c : Call} {r : State × Next}

theorem lookup_closed_settle {w : String} {n : ℕ} (h : (s.settle c r).1.closed.lookup w = some n) :
    s.closed.lookup w = some n ∨ c.next.closes = some w ∧ n = s.now := by
  simp only [settle] at h
  split at h
  · next w' hw' =>
      split_ifs at h with hmem
      · exact .inl h
      rw [lookup_insert] at h
      split_ifs at h with heq
      · exact .inr ⟨heq ▸ hw', (some.inj h).symm⟩
      · exact .inl h
  · exact .inl h

theorem mem_closed_settle {w : String} (h : w ∈ (s.settle c r).1.closed) :
    w ∈ s.closed ∨ c.next.closes = some w := by
  obtain ⟨n, hn⟩ := isSome_iff_exists.mp (AList.lookup_isSome.mpr h)
  rcases lookup_closed_settle hn with hold | ⟨hcloses, -⟩
  · exact .inl (AList.lookup_isSome.mp (isSome_of_eq_some hold))
  · exact .inr hcloses

theorem exists_of_settle {c' : Call} (h : (s.settle c r).2 = some c') :
    ∃ p, r.2 = .next p ∧ c' = { c with next := p } := by
  obtain ⟨state, p | o | _⟩ := r
  · exact ⟨p, rfl, (some.inj h).symm⟩
  · cases h
  · cases h

/-- What a section may save and put into the cache. -/
structure Writes (s : Shared) (c : Call) (saves puts : Option Webhook) : Prop where
  saved : ∀ x, saves = some x → s.state.Known x ∧ (x.isActive = true → x.workflowID ∉ s.closed)
  put : ∀ x, puts = some x → s.state.Known x ∧ x.workflowID ∉ s.closed ∧
    c.next.handler = some (true, x.workflowID)
  closing : ∀ w, c.next.closes = some w → saves = none ∧ puts = none

/-- A section keeps rows and cache without open webhooks of closed workflows. -/
theorem Inv.settle (h : s.Inv) (hplace : s.state.Place s.closed c.arrived c.next)
    {saved put : Option Webhook} (heffect : Effect s.state r.1 saved put)
    (hwrites : s.Writes c saved put) : (s.settle c r).1.Inv := by
  have hknown : ∀ wh, s.state.Known wh → r.1.Known wh :=
    fun wh hwh => hwh.effect heffect.rows (fun x hx => (hwrites.saved x hx).1)
  constructor
  · intro id row hrow
    rcases heffect.rows.changed id row hrow with hold | ⟨wh, -, hid, hsame, -⟩
    · exact h.keyed id row hold
    · exact hsame.id.trans hid.symm
  · intro path o ho
    rcases heffect.cache path o ho with ⟨o', ho', hsame⟩ | ⟨hput, hpath⟩
    · obtain ⟨hpath', hknown'⟩ := h.cached path o' ho'
      exact ⟨hsame.path.symm.trans hpath', hknown o (hknown'.congr hsame)⟩
    · exact ⟨hpath.symm, hknown o (hwrites.put o hput).1⟩
  · intro id row hrow hclosed
    rcases heffect.rows.changed id row hrow with hold | ⟨wh, hsaved, -, hsame, hactive⟩
    · rcases mem_closed_settle hclosed with hmem | hcloses
      · exact h.closedRows id row hold hmem
      · -- the deactivation has saved all rows of the workflow
        rw [Section.eq_of_closes hcloses] at hplace
        by_contra hon
        have hnone := hplace.rows rfl id row hold rfl (Bool.not_eq_false _ ▸ hon)
        cases hnone
    · rcases mem_closed_settle hclosed with hmem | hcloses
      · by_contra hon
        rw [Bool.not_eq_false, hactive] at hon
        exact (hwrites.saved wh hsaved).2 hon (hsame.workflowID ▸ hmem)
      · rw [(hwrites.closing _ hcloses).1] at hsaved
        cases hsaved
  · intro path o ho hclosed
    rcases heffect.cache path o ho with ⟨o', ho', hsame⟩ | ⟨hput, -⟩
    · rcases mem_closed_settle hclosed with hmem | hcloses
      · exact h.closedCache path o' ho' (hsame.workflowID ▸ hmem)
      · rw [Section.eq_of_closes hcloses] at hplace
        have hnone := hplace.cache rfl path o' ho' hsame.workflowID
        cases hnone
    · rcases mem_closed_settle hclosed with hmem | hcloses
      · exact (hwrites.put o hput).2.1 hmem
      · rw [(hwrites.closing _ hcloses).2] at hput
        cases hput
  · intro a ha
    simp only [Shared.settle] at ha
    split at ha
    · next wh hwh =>
        rcases mem_cons.mp ha with rfl | hmem
        · unfold Section.accepts at hwh
          split at hwh
          · next p hp =>
              rw [hp] at hplace
              cases hwh
              exact hplace.2
          · cases hwh
        · exact h.refuses a hmem
    · exact h.refuses a ha

theorem harmless_settle {saved put : Option Webhook} (heffect : Effect s.state r.1 saved put)
    (hwrites : s.Writes c saved put) {q : Call} (hq : q.arrived < s.now)
    (hcq : ∀ w, c.next.handler = some (true, w) → q.next.handler ≠ some (false, w))
    (hqc : ∀ w, q.next.handler = some (true, w) → c.next.handler ≠ some (false, w))
    (hspares : ∀ x, saved = some x → x.isActive = true →
      q.next.handler = some (false, x.workflowID) → q.next.Spares x) :
    s.state.Harmless r.1 s.closed (s.settle c r).1.closed q.arrived q.next where
  known := fun wh hwh => hwh.effect heffect.rows (fun x hx => (hwrites.saved x hx).1)
  closedAt := by
    intro w n hn
    rcases lookup_closed_settle hn with hold | ⟨-, rfl⟩
    · exact .inl hold
    · exact .inr hq
  opened := by
    intro w hw hnot hmem
    rcases mem_closed_settle hmem with hold | hcloses
    · exact hnot hold
    · refine hqc w hw ?_
      rw [Section.eq_of_closes hcloses]
      rfl
  rows := by
    intro w hw id row hrow hworkflow hactive
    rcases heffect.rows.changed id row hrow with hold | ⟨wh, hsaved, hid, hsame, hsameActive⟩
    · exact .inl hold
    · have hwh : w = wh.workflowID := hworkflow.symm.trans hsame.workflowID
      exact .inr ⟨wh, hid, hwh, hspares wh hsaved (hsameActive ▸ hactive) (hwh ▸ hw)⟩
  cache := by
    intro w hw path o ho hworkflow
    rcases heffect.cache path o ho with ⟨o', ho', hsame⟩ | ⟨hput, -⟩
    · exact ⟨o', ho', hsame.workflowID.trans hworkflow⟩
    · have hhandler := (hwrites.put o hput).2.2
      rw [hworkflow] at hhandler
      exact absurd hw (hcq w hhandler)

end Shared

/-! ## Where a section leads -/

namespace State

variable {s s' : State} {closed : GoMap String ℕ} {w : String}

theorem known_of_row (h : s.Keyed) {id : String} {row : Webhook}
    (hrow : s.rows.lookup id = some row) : s.Known row := by
  obtain rfl := h id row hrow
  exact ⟨row, hrow, rfl, rfl⟩

theorem mem_listByWorkflow {rank : Webhook → ℕ} {wh : Webhook} : wh ∈ s.listByWorkflow rank w ↔
      (∃ id, s.rows.lookup id = some wh) ∧ wh.workflowID = w := by
  rw [listByWorkflow, Sql.mem_orderBy, List.mem_filter, List.mem_map, decide_eq_true_iff]
  refine and_congr_left (fun _ => ⟨?_, ?_⟩)
  · rintro ⟨e, he, rfl⟩
    exact ⟨e.1, lookup_of_entry he⟩
  · rintro ⟨id, hid⟩
    exact ⟨⟨id, wh⟩, AList.mem_lookup_iff.mp hid, rfl⟩

theorem handles_list (hkeyed : s.Keyed)
    (hcached : ∀ path o, s.webhooks.lookup path = some o → o.path = path ∧ s.Known o) {on : Bool}
    (hopened : on = true → w ∉ closed) (rank : Webhook → ℕ) :
    s.Handles closed on w (s.listByWorkflow rank w) (s.listByWorkflow rank w) where
  known := by
    intro wh hwh
    obtain ⟨⟨id, hid⟩, hworkflow⟩ := mem_listByWorkflow.mp hwh
    exact ⟨known_of_row hkeyed hid, hworkflow⟩
  subset := List.Subset.refl _
  opened := hopened
  rows := by
    intro _ id row hrow hworkflow _
    exact mem_map.mpr ⟨row, mem_listByWorkflow.mpr ⟨⟨id, hrow⟩, hworkflow⟩, hkeyed id row hrow⟩
  cache := by
    intro _ path o ho hworkflow
    obtain ⟨hpath, row, hrow, hrowWorkflow, hrowPath⟩ := hcached path o ho
    have hmem : row ∈ s.listByWorkflow rank w :=
      mem_listByWorkflow.mpr ⟨⟨o.id, hrow⟩, hrowWorkflow.trans hworkflow⟩
    exact mem_map.mpr ⟨row, hmem, hrowPath.trans hpath⟩

theorem handles_nil (hopened : true = true → w ∉ closed) : s.Handles closed true w [] [] where
  known := fun _ hwh => nomatch hwh
  subset := List.Subset.refl _
  opened := hopened
  rows := fun hoff => nomatch hoff
  cache := fun hoff => nomatch hoff

theorem Handles.update {on : Bool} {wh : Webhook} {rest : List Webhook}
    (h : s.Handles closed on w (wh :: rest) (wh :: rest)) (hcache : s'.webhooks = s.webhooks)
    {saved : Option Webhook} (hrows : RowsEffect s.rows s'.rows saved)
    (hsaved : ∀ x, saved = some x → x.Same wh ∧ x.isActive = on)
    (hsome : on = false → saved.isSome) {wh' : Webhook} (hwh' : wh.Same wh') :
    s'.Handles closed on w rest (wh' :: rest) where
  known := by
    have hknown : ∀ x, s.Known x → s'.Known x := by
      intro x hx
      refine hx.effect hrows (fun y hy => ?_)
      obtain ⟨hid, hworkflow, hpath⟩ := (hsaved y hy).1
      exact (h.known wh mem_cons_self).1.congr ⟨hid.symm, hworkflow.symm, hpath.symm⟩
    intro x hx
    rcases mem_cons.mp hx with rfl | hmem
    · obtain ⟨hk, hworkflow⟩ := h.known wh mem_cons_self
      exact ⟨hknown x (hk.congr hwh'), hwh'.workflowID.symm.trans hworkflow⟩
    · obtain ⟨hk, hworkflow⟩ := h.known x (mem_cons_of_mem wh hmem)
      exact ⟨hknown x hk, hworkflow⟩
  subset := subset_cons_self _ _
  opened := h.opened
  rows := by
    rintro rfl id row hrow hworkflow hactive
    rcases hrows.changed id row hrow with hold | ⟨x, hx, -, -, hsame⟩
    · rcases mem_cons.mp (h.rows rfl id row hold hworkflow hactive) with hid | hmem
      · -- the row would be the saved one
        obtain ⟨x, hx⟩ := isSome_iff_exists.mp (hsome rfl)
        obtain ⟨hsame, hinactive⟩ := hsaved x hx
        obtain ⟨row', hrow', -, hrowActive⟩ := hrows.written x hx
        rw [hsame.id, ← hid, hrow] at hrow'
        cases hrow'
        rw [hrowActive, hinactive] at hactive
        cases hactive
      · exact hmem
    · rw [hsame, (hsaved x hx).2] at hactive
      cases hactive
  cache := by
    intro hoff path o ho hworkflow
    rw [hcache] at ho
    have hmem := h.cache hoff path o ho hworkflow
    rw [map_cons, ← hwh'.path]
    exact hmem

theorem Handles.cached {on : Bool} {wh : Webhook} {rest : List Webhook}
    (h : s.Handles closed on w rest (wh :: rest)) (hrows : s'.rows = s.rows)
    (hcache : on = false → s'.webhooks = s.webhooks.erase wh.path) :
    s'.Handles closed on w rest rest where
  known := by
    intro x hx
    obtain ⟨hk, hworkflow⟩ := h.known x (mem_cons_of_mem wh hx)
    exact ⟨by rw [Known, hrows]; exact hk, hworkflow⟩
  subset := List.Subset.refl _
  opened := h.opened
  rows := by
    rw [hrows]
    exact h.rows
  cache := by
    intro hoff path o ho hworkflow
    rw [hcache hoff, lookup_erase] at ho
    split_ifs at ho with hpath
    rcases mem_cons.mp (h.cache hoff path o ho hworkflow) with heq | hmem
    · exact absurd heq hpath
    · exact hmem

end State

namespace Shared

variable {lib : Library} {t : Turn} {s : Shared} {c : Call} {calls : List Section}

theorem writes_of_place (hplace : s.state.Place s.closed c.arrived c.next)
    (hcareful : c.next.Careful t s.closed calls) : s.Writes c (c.next.saved t) c.next.put := by
  obtain ⟨p, arrived⟩ := c
  cases p with
  | save path wh e =>
    refine ⟨?_, fun _ hx => (nomatch hx), fun _ hw => (nomatch hw)⟩
    intro x hx
    simp only [Section.saved] at hx
    split_ifs at hx with hfails
    cases hx
    exact ⟨hplace, fun _ => (hcareful (Bool.not_eq_true _ ▸ hfails)).1⟩
  | update on w todo =>
    cases todo with
    | nil => exact ⟨fun _ hx => (nomatch hx), fun _ hx => (nomatch hx), fun _ _ => ⟨rfl, rfl⟩⟩
    | cons wh rest =>
      refine ⟨?_, fun _ hx => (nomatch hx), ?_⟩
      · intro x hx
        simp only [Section.saved] at hx
        split_ifs at hx
        cases hx
        obtain ⟨hknown, hworkflow⟩ := hplace.known wh mem_cons_self
        refine ⟨hknown, fun hon => ?_⟩
        change wh.workflowID ∉ s.closed
        rw [hworkflow]
        exact hplace.opened hon
      · intro w' hw'
        cases on <;> cases hw'
  | cache on w wh rest =>
    refine ⟨fun _ hx => (nomatch hx), ?_, fun _ hw => (nomatch hw)⟩
    intro x hx
    cases on with
    | false => cases hx
    | true =>
      cases hx
      obtain ⟨hknown, hworkflow⟩ := hplace.known wh mem_cons_self
      refine ⟨hknown, ?_, ?_⟩
      · rw [hworkflow]
        exact hplace.opened rfl
      · rw [hworkflow]
        rfl
  | _ => exact ⟨fun _ hx => (nomatch hx), fun _ hx => (nomatch hx), fun _ hw => (nomatch hw)⟩

theorem place_found (path : String) (r : Request) {wh : Webhook} (hknown : s.state.Known wh)
    (hclosed : wh.isActive = true → wh.workflowID ∉ s.closed) {p : Section}
    (hp : (found lib t.toEnv path r wh s.state).2 = .next p) (arrived : ℕ) :
    (found lib t.toEnv path r wh s.state).1.Place s.closed arrived p := by
  obtain ⟨redis, hredis⟩ := found_eq t.toEnv s.state lib path r wh
  have hactive := (checkRequest_spec lib path r wh s.state t.toEnv).2
  rw [hredis]
  unfold found at hp
  rcases hchecked : checkRequest lib t.toEnv path r wh s.state with ⟨o | ⟨body, payload⟩, s'⟩
  · rw [hchecked] at hp
    cases hp
  rw [hchecked] at hp hactive
  obtain rfl := Next.next.inj hp
  refine ⟨hknown, fun n hn => ?_⟩
  have hmem : wh.workflowID ∈ s.closed := AList.lookup_isSome.mp (isSome_of_eq_some hn)
  exact absurd hmem (hclosed (hactive _ rfl))

/-- Where a call stands after its section, and what it relies on there. -/
theorem place_advance (h : s.Inv) (hplace : s.state.Place s.closed c.arrived c.next)
    (hcareful : c.next.Careful t s.closed calls) {p : Section}
    (hp : (advance lib t s.state c.next).2 = .next p) :
    (advance lib t s.state c.next).1.Place s.closed c.arrived p := by
  obtain ⟨q, arrived⟩ := c
  have heffect := effect_advance lib t s.state q
  cases q with
  | find path r =>
    cases hcached : s.state.webhooks.lookup path with
    | some wh =>
      simp only [advance, hcached] at hp ⊢
      exact place_found path r (h.cached path wh hcached).2
        (fun _ => h.closedCache path wh hcached) hp arrived
    | none =>
      simp only [advance, hcached] at hp
      obtain rfl := Next.next.inj hp
      exact trivial
  | getByPath path r =>
    cases hrow : if t.getByPathFails then none
      else (s.state.rows.entries.map Sigma.snd).find? (fun wh => wh.path = path) with
    | none =>
      simp only [advance, hrow] at hp
      cases hp
    | some wh =>
      simp only [advance, hrow] at hp ⊢
      have hmem : wh ∈ s.state.rows.entries.map Sigma.snd := by
        split_ifs at hrow
        exact mem_of_find?_eq_some hrow
      obtain ⟨e, he, rfl⟩ := mem_map.mp hmem
      have hrow := lookup_of_entry he
      refine place_found path r (State.known_of_row h.keyed hrow) ?_ hp arrived
      intro hon hclosed
      rw [h.closedRows e.1 e.2 hrow hclosed] at hon
      cases hon
  | record path r wh body payload =>
    have hknown : (advance lib t s.state (.record path r wh body payload)).1.Known wh :=
      hplace.1.effect heffect.rows (fun x hx => absurd hx (by simp [Section.saved]))
    simp only [advance] at hp
    split at hp
    · obtain rfl := Next.next.inj hp
      exact trivial
    · obtain rfl := Next.next.inj hp
      exact hknown
  | save path wh e =>
    obtain rfl := Next.next.inj hp
    exact trivial
  | processed e => cases hp
  | failed e => cases hp
  | list on w =>
    obtain rfl := Next.next.inj hp
    by_cases hfails : t.listFails = true
    · simp only [advance, State.Place, if_pos hfails]
      cases on with
      | true => exact State.handles_nil hplace
      | false => exact absurd hfails (Bool.not_eq_true _ ▸ hcareful)
    · simp only [advance, State.Place, if_neg hfails]
      exact State.handles_list h.keyed h.cached hplace t.rank
  | update on w todo =>
    cases todo with
    | nil => cases hp
    | cons wh rest =>
      obtain rfl := Next.next.inj hp
      refine hplace.update (webhooks_updateWebhook _ _ _) heffect.rows ?_ ?_ ⟨rfl, rfl, rfl⟩
      · intro x hx
        simp only [Section.saved] at hx
        split_ifs at hx
        cases hx
        exact ⟨⟨rfl, rfl, rfl⟩, rfl⟩
      · rintro rfl
        have hok : t.updateFails = false := hcareful
        simp [Section.saved, hok]
  | cache on w wh rest =>
    obtain rfl := Next.next.inj hp
    refine hplace.cached rfl ?_
    rintro rfl
    rfl

end Shared

/-! ## Whole runs -/

variable {lib : Library}

/-- A careful section leaves the other calls where they stand. -/
theorem spares_of_careful {s : Race Shared Call} (h : outline.Holds s) {i j : ℕ} {c q : Call}
    (hc : s.calls.lookup i = some c) (hq : s.calls.lookup j = some q) (hne : j ≠ i) {t : Turn}
    (hcareful : c.next.Careful t s.shared.closed (sections s)) {x : Webhook}
    (hx : c.next.saved t = some x) (hactive : x.isActive = true)
    (hoff : q.next.handler = some (false, x.workflowID)) : q.next.Spares x := by
  obtain ⟨p, arrived⟩ := c
  have hplace := (h.calls i _ hc).2
  cases p with
  | save path wh e =>
    simp only [Section.saved] at hx
    split_ifs at hx with hfails
    cases hx
    exact (hcareful (Bool.not_eq_true _ ▸ hfails)).2 q.next (mem_sections hq)
  | update on w todo =>
    cases todo with
    | nil => cases hx
    | cons wh rest =>
      simp only [Section.saved] at hx
      split_ifs at hx
      cases hx
      obtain rfl : on = true := hactive
      -- the other handler would deactivate what this one activates
      have hworkflow : wh.workflowID = w := (hplace.known wh mem_cons_self).2
      refine absurd hoff (h.pairs i j _ q (Ne.symm hne) hc hq _ ?_)
      change some (true, w) = some (true, wh.workflowID)
      rw [hworkflow]
  | _ => cases hx

theorem handler_advance {t : Turn} {s : State} {q p : Section}
    (hp : (advance lib t s q).2 = .next p) : p.handler = q.handler := by
  have hfound : ∀ path r wh, (found lib t.toEnv path r wh s).2 = .next p → p.handler = none := by
    intro path r wh h
    unfold found at h
    split at h
    · cases h
    · rw [← Next.next.inj h]
      rfl
  cases q with
  | find path r =>
    simp only [advance] at hp
    split at hp
    · exact hfound path r _ hp
    · rw [← Next.next.inj hp]
      rfl
  | getByPath path r =>
    simp only [advance] at hp
    split at hp
    · cases hp
    · exact hfound path r _ hp
  | record path r wh body payload =>
    simp only [advance] at hp
    split at hp <;> (rw [← Next.next.inj hp]; rfl)
  | update on w todo =>
    cases todo with
    | nil => cases hp
    | cons wh rest =>
      rw [← Next.next.inj hp]
      rfl
  | processed e => cases hp
  | failed e => cases hp
  | save path wh e =>
    rw [← Next.next.inj hp]
    rfl
  | list on w =>
    rw [← Next.next.inj hp]
    rfl
  | cache on w wh rest =>
    rw [← Next.next.inj hp]
    rfl

theorem outline_begin {s : Race Shared Call} (h : outline.Holds s) (i : ℕ) (a : Arrival)
    (hapart : Apart s (.begin i a)) : outline.Holds ((system lib).step s (.begin i a)) := by
  have hsubset : ∀ w n, (s.shared.enter a).1.closed.lookup w = some n →
      s.shared.closed.lookup w = some n := by
    intro w n hn
    cases a with
    | request path r => exact hn
    | deactivated w' => exact hn
    | activated w' =>
      change (s.shared.closed.erase w').lookup w = some n at hn
      rw [lookup_erase] at hn
      split_ifs at hn
      exact hn
  have hmem : ∀ w, w ∈ (s.shared.enter a).1.closed → w ∈ s.shared.closed := by
    intro w hw
    obtain ⟨n, hn⟩ := isSome_iff_exists.mp (AList.lookup_isSome.mpr hw)
    exact AList.lookup_isSome.mp (isSome_of_eq_some (hsubset w n hn))
  refine h.begin ⟨?_, ?_, ?_, ?_⟩
  · exact ⟨h.shared.keyed, h.shared.cached,
      fun id row hrow hclosed => h.shared.closedRows id row hrow (hmem _ hclosed),
      fun path o ho hclosed => h.shared.closedCache path o ho (hmem _ hclosed), h.shared.refuses⟩
  · intro c hc
    cases hc
    refine ⟨Nat.lt_succ_self _, ?_⟩
    cases a with
    | request path r => exact trivial
    | activated w => exact fun _ => AList.mem_erase.not.mpr (fun hw => hw.1 rfl)
    | deactivated w => exact fun hon => nomatch hon
  · intro j q _ hq
    obtain ⟨harrived, hplace⟩ := h.calls j q hq
    refine ⟨Nat.lt_succ_of_lt harrived, ?_⟩
    have hharmless : s.shared.state.Harmless s.shared.state s.shared.closed
        (s.shared.enter a).1.closed q.arrived q.next :=
      ⟨fun _ hwh => hwh, fun w n hn => .inl (hsubset w n hn),
        fun w _ hnot hw => hnot (hmem w hw), fun _ _ _ _ hrow _ _ => .inl hrow,
        fun _ _ _ o ho hworkflow => ⟨o, ho, hworkflow⟩⟩
    exact hharmless.place hplace
  · intro c j q hc _ hq
    cases hc
    have hsections := mem_sections hq
    cases a with
    | request path r => exact ⟨fun _ hon => (nomatch hon), fun _ _ hoff => (nomatch hoff)⟩
    | activated w =>
      refine ⟨?_, fun _ _ hoff => nomatch hoff⟩
      intro w' hw'
      cases hw'
      exact hapart q.next hsections
    | deactivated w =>
      refine ⟨fun _ hon => (nomatch hon), ?_⟩
      rintro w' hon hoff
      cases hoff
      exact hapart q.next hsections hon

/-- Steps that are apart keep what each call relies on. -/
theorem outline_step (s : Race Shared Call) (e : Event) (h : outline.Holds s) (hapart : Apart s e) :
    outline.Holds ((system lib).step s e) := by
  cases e with
  | begin i a => exact outline_begin h i a hapart
  | outside o => exact o.elim
  | next i t =>
    refine h.next (fun c hc => ?_)
    obtain ⟨harrived, hplace⟩ := h.calls i c hc
    have hcareful := hapart c hc
    have heffect := effect_advance lib t s.shared.state c.next
    have hwrites := Shared.writes_of_place hplace hcareful
    refine ⟨h.shared.settle hplace heffect hwrites, ?_, ?_, ?_⟩
    · intro c' hc'
      obtain ⟨p, hp, rfl⟩ := Shared.exists_of_settle hc'
      refine ⟨Nat.lt_succ_of_lt harrived, ?_⟩
      have hclosed : c.next.closes = none := by
        rw [eq_none_iff_forall_not_mem]
        intro w hw
        rw [Section.eq_of_closes hw] at hp
        cases hp
      have hsame : ((system lib).advance t s.shared c).1.closed = s.shared.closed := by
        simp only [system, Shared.settle, hclosed]
      rw [hsame]
      exact Shared.place_advance h.shared hplace hcareful hp
    · intro j q hne hq
      obtain ⟨harrived', hplace'⟩ := h.calls j q hq
      refine ⟨Nat.lt_succ_of_lt harrived', ?_⟩
      refine (Shared.harmless_settle heffect hwrites harrived' ?_ ?_ ?_).place hplace'
      · exact h.pairs i j c q (Ne.symm hne) hc hq
      · exact h.pairs j i q c hne hq hc
      · intro x hx hactive hoff
        exact spares_of_careful h hc hq hne hcareful hx hactive hoff
    · intro c' j q hc' hne hq
      obtain ⟨p, hp, rfl⟩ := Shared.exists_of_settle hc'
      have hhandler := handler_advance hp
      refine ⟨fun w hon => ?_, fun w hon hoff => ?_⟩
      · exact h.pairs i j c q (Ne.symm hne) hc hq w (hhandler.symm.trans hon)
      · exact h.pairs j i q c hne hq hc w hon (hhandler.symm.trans hoff)

theorem inv_start {s : State} (hrows : s.Keyed) (hcache : s.webhooks = ∅) (rank : Webhook → ℕ) :
    Shared.Inv { state := s.loadWebhooks rank } where
  keyed := hrows
  cached := by
    intro path o ho
    rcases GoMap.mem_of_lookup_index ho with ⟨hmem, hpath⟩ | hold
    · rw [Sql.mem_orderBy, List.mem_filter, List.mem_map] at hmem
      obtain ⟨⟨e, he, rfl⟩, -⟩ := hmem
      exact ⟨hpath, State.known_of_row hrows (lookup_of_entry he)⟩
    · rw [hcache, AList.lookup_empty] at hold
      cases hold
  closedRows := fun _ _ _ hclosed => absurd hclosed (AList.notMem_empty _)
  closedCache := fun _ _ _ hclosed => absurd hclosed (AList.notMem_empty _)
  refuses := fun _ ha => nomatch ha

/-- **Deactivated webhooks.** If requests save no record after a deactivation has passed its row,
activations and deactivations of one workflow do not overlap and those calls to the repository
succeed, then no request is accepted that arrived after a deactivation of its workflow had returned
and before an activation began. -/
theorem refuses_of_apart {s : State} (hrows : s.Keyed) (hcache : s.webhooks = ∅)
    (rank : Webhook → ℕ) {es : List Event}
    (h : Runs.Along (system lib).step Apart { shared := { state := s.loadWebhooks rank } } es) :
    Runs.Always (system lib).step (fun r => r.shared.Refuses)
      { shared := { state := s.loadWebhooks rank } } es := by
  intro pre hpre
  have h0 := Outline.Holds.start (A := outline) (inv_start hrows hcache rank)
  exact (h.always outline_step h0 pre hpre).shared.refuses

/-- A service with one webhook of the workflow `w`. -/
def hookRow : Webhook where
  id := "h"
  workflowID := "w"
  path := "p"

def hookState : State where
  rows := GoMap.ofPairs [("h", hookRow)]

def hookStart : Race Shared Call := { shared := { state := hookState.loadWebhooks (fun _ => 0) } }

/-- The next `k` sections of a call, without errors. -/
def turns (i k : ℕ) : List Event := List.replicate k (.next i {})

/-- A request and a deactivation, one after the other, and another request. -/
def oneByOne : List Event :=
  List.flatten
    [[.begin 0 (.request "p" bareRequest)], turns 0 4, [.begin 1 (.deactivated "w")], turns 1 4,
      [.begin 2 (.request "p" bareRequest)], turns 2 2]

theorem keyed_hookState : hookState.Keyed := by
  intro id row h
  have hmem := mem_of_lookup_ofPairs h
  obtain ⟨rfl, rfl⟩ := Prod.mk.inj (mem_singleton.mp hmem)
  rfl

theorem refuses_oneByOne :
    Runs.Always (system zeroLibrary).step (fun r => r.shared.Refuses) hookStart oneByOne :=
  refuses_of_apart keyed_hookState rfl (fun _ => 0) (by decide +kernel)

/-- The deactivation comes between the event of a request and its `Update`. -/
def overtakenRequest : List Event :=
  List.flatten
    [[.begin 0 (.request "p" bareRequest)], turns 0 2, [.begin 1 (.deactivated "w")], turns 1 4,
      turns 0 2, [.begin 2 (.request "p" bareRequest)], turns 2 3]

/-- The second request is accepted. -/
theorem deactivated_accepts :
    ¬ Runs.Always (system zeroLibrary).step (fun r => r.shared.Refuses) hookStart
        overtakenRequest := by
  intro h
  exact absurd h.last (by decide +kernel)

end LinkFlow.Webhooks
