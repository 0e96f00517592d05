/-
`saga.TwoPhaseCommit` of `pkg/saga/saga.go`: a coordinator of transactions that are
begun, prepared, and committed or aborted.

Each method holds the transaction's lock while it reads and writes it, so a call is
one step. Participants are not called in the source either: preparing, committing
and aborting set their flags.

`Commit` asks for a prepared transaction. `Prepare` and `Abort` ask for nothing, so
a decision stands only as long as nobody calls them on a decided transaction
(`irrevocable_iff`).
-/
import LinkFlow.Lib.GoMap
import LinkFlow.Lib.Runs

set_option autoImplicit false

namespace LinkFlow.TwoPhaseCommit

/-! ## The coordinator -/

inductive TransactionState
  | initial | preparing | prepared | committing | committed | aborting | aborted
deriving DecidableEq, Repr

structure Participant where
  (id service : String)
  (prepared committed : Bool := false)
deriving DecidableEq, Repr

structure Transaction where
  id : String
  participants : List Participant
  state : TransactionState
deriving DecidableEq, Repr

/-- `TwoPhaseCommit` -/
structure Coordinator where
  transactions : GoMap String Transaction

def newTwoPhaseCommit : Coordinator := ⟨∅⟩

/-- A transaction of the same ID is replaced. -/
def begin (transactionID : String) (participants : List String) (c : Coordinator) : Coordinator :=
  let transaction : Transaction :=
    { id := transactionID
      participants := participants.mapIdx fun i p =>
        { id := transactionID ++ "-" ++ toString i, service := p }
      state := .initial }
  ⟨c.transactions.insert transactionID transaction⟩

/-- `Prepare`, on its transaction. -/
def Transaction.prepare (t : Transaction) : Option String × Transaction :=
  -- whatever state the transaction is in
  let participants := t.participants.map fun p => { p with prepared := true }
  if participants.all Participant.prepared then
    (none, { t with participants := participants, state := .prepared })
  else
    (some "some participants failed to prepare",
      { t with participants := participants, state := .aborting })

/-- `Commit`, on its transaction. -/
def Transaction.commit (t : Transaction) : Option String × Transaction :=
  if t.state ≠ .prepared then (some "transaction not in prepared state", t)
  else
    (none, { t with
      participants := t.participants.map fun p => { p with committed := true }
      state := .committed })

/-- `Abort`, on its transaction. -/
def Transaction.abort (t : Transaction) : Option String × Transaction :=
  -- no look at the state here either
  (none, { t with
    participants := t.participants.map fun p => { p with prepared := false, committed := false }
    state := .aborted })

/-- The lookup that `Prepare`, `Commit` and `Abort` share. -/
def onTransaction (f : Transaction → Option String × Transaction) (transactionID : String)
    (c : Coordinator) : Option String × Coordinator :=
  match c.transactions.lookup transactionID with
  | none => (some ("transaction not found: " ++ transactionID), c)
  | some t => ((f t).1, ⟨c.transactions.insert transactionID (f t).2⟩)

def prepare : String → Coordinator → Option String × Coordinator :=
  onTransaction Transaction.prepare

def commit : String → Coordinator → Option String × Coordinator := onTransaction Transaction.commit

def abort : String → Coordinator → Option String × Coordinator := onTransaction Transaction.abort

/-! ## Runs -/

inductive Call
  | begin (transactionID : String) (participants : List String)
  | prepare (transactionID : String)
  | commit (transactionID : String)
  | abort (transactionID : String)
deriving DecidableEq, Repr

def apply (c : Coordinator) : Call → Coordinator
  | .begin id participants => begin id participants c
  | .prepare id => (prepare id c).2
  | .commit id => (commit id c).2
  | .abort id => (abort id c).2

/-- The coordinator after a sequence of calls on a new one. -/
def run (calls : List Call) : Coordinator := calls.foldl apply newTwoPhaseCommit

/-- The transaction that a call begins. -/
def Call.begun : Call → Option String
  | .begin id _ => some id
  | _ => none

/-- The transaction is in the given state. -/
def InState (c : Coordinator) (id : String) (s : TransactionState) : Prop :=
  ∃ t, c.transactions.lookup id = some t ∧ t.state = s

instance (c : Coordinator) (id : String) (s : TransactionState) : Decidable (InState c id s) :=
  decidable_of_iff ((c.transactions.lookup id).map Transaction.state = some s)
    Option.map_eq_some_iff

/-! ## One call -/

section lookup

variable {c : Coordinator} {id id' : String}

theorem lookup_begin (participants : List String) (h : id' ≠ id) :
    (begin id participants c).transactions.lookup id' = c.transactions.lookup id' :=
  AList.lookup_insert_ne h

theorem lookup_onTransaction (f : Transaction → Option String × Transaction) :
    (onTransaction f id c).2.transactions.lookup id' =
      if id' = id then (c.transactions.lookup id').map fun t => (f t).2
      else c.transactions.lookup id' := by
  unfold onTransaction
  by_cases h : id' = id
  · subst h
    cases hl : c.transactions.lookup id' with
    | none => simp [hl]
    | some t => simp
  · cases c.transactions.lookup id with
    | none => simp [h]
    | some t => simp [h, AList.lookup_insert_ne h]

theorem inState_onTransaction (f : Transaction → Option String × Transaction)
    (s : TransactionState) : InState (onTransaction f id c).2 id' s ↔
      if id' = id then ∃ t, c.transactions.lookup id' = some t ∧ (f t).2.state = s
      else InState c id' s := by
  unfold InState
  rw [lookup_onTransaction]
  by_cases h : id' = id
  · simp [h]
  · simp [h]

end lookup

theorem Transaction.prepare_state (t : Transaction) : t.prepare.2.state = .prepared := by
  have hall : (t.participants.map fun p => { p with prepared := true }).all
      Participant.prepared = true := by simp
  rw [prepare, if_pos hall]

theorem Transaction.commit_state (t : Transaction) :
    t.commit.2.state = if t.state = .prepared then .committed else t.state := by
  unfold commit
  by_cases h : t.state = .prepared
  · simp [h]
  · simp [h]

/-! ## The participants of a committed transaction -/

def AllCommitted (c : Coordinator) : Prop :=
  ∀ id t, c.transactions.lookup id = some t → t.state = .committed →
    ∀ p ∈ t.participants, p.committed = true

variable {c : Coordinator} {id : String}

theorem AllCommitted.onTransaction (h : AllCommitted c)
    (f : Transaction → Option String × Transaction) (id : String)
    (hf : ∀ t, (t.state = .committed → ∀ p ∈ t.participants, p.committed = true) →
      (f t).2.state = .committed → ∀ p ∈ (f t).2.participants, p.committed = true) :
    AllCommitted (onTransaction f id c).2 := by
  intro id' t ht
  rw [lookup_onTransaction] at ht
  by_cases heq : id' = id
  · rw [if_pos heq, Option.map_eq_some_iff] at ht
    obtain ⟨t₀, ht₀, rfl⟩ := ht
    exact hf t₀ (h id' t₀ ht₀)
  · rw [if_neg heq] at ht
    exact h id' t ht

/-- A committed transaction has only committed participants, after each call. -/
theorem AllCommitted.apply (h : AllCommitted c) (a : Call) : AllCommitted (apply c a) := by
  cases a with
  | begin id participants =>
    refine GoMap.forall_insert h ?_
    intro hstate
    cases hstate
  | prepare id =>
    refine h.onTransaction _ id ?_
    intro t _ hstate
    rw [t.prepare_state] at hstate
    cases hstate
  | commit id =>
    refine h.onTransaction _ id ?_
    intro t ht hstate p hp
    by_cases hprepared : t.state = .prepared
    · simp only [Transaction.commit, hprepared, ne_eq, not_true_eq_false, if_false,
        List.mem_map] at hp
      obtain ⟨q, -, rfl⟩ := hp
      rfl
    · simp only [Transaction.commit, hprepared, ne_eq, not_false_eq_true, if_true]
        at hstate hp
      exact ht hstate p hp
  | abort id =>
    refine h.onTransaction _ id ?_
    intro t _ hstate
    cases hstate

theorem run_allCommitted (calls : List Call) : AllCommitted (run calls) := by
  refine List.foldlRecOn calls apply ?_ fun c h a _ => h.apply a
  intro id t ht
  rw [newTwoPhaseCommit, AList.lookup_empty] at ht
  cases ht

/-! ## Decisions -/

def DecisionsStand (c c' : Coordinator) : Prop :=
  ∀ id, (InState c id .committed → InState c' id .committed) ∧
    (InState c id .aborted → InState c' id .aborted)

def FreshBegin (c : Coordinator) : Call → Prop
  | .begin id _ => id ∉ c.transactions
  | _ => True

/-- The call does not prepare a decided transaction or abort a committed one. -/
def Respects (c : Coordinator) : Call → Prop
  | .prepare id => ¬ InState c id .committed ∧ ¬ InState c id .aborted
  | .abort id => ¬ InState c id .committed
  | _ => True

instance (c : Coordinator) : ∀ a, Decidable (Respects c a)
  | .begin _ _ | .commit _ => isTrue trivial
  | .prepare id => inferInstanceAs (Decidable (¬ InState c id _ ∧ ¬ InState c id _))
  | .abort id => inferInstanceAs (Decidable (¬ InState c id _))

theorem InState.unique {s s' : TransactionState} (h : InState c id s) (h' : InState c id s') :
    s = s' := by
  obtain ⟨t, ht, rfl⟩ := h
  obtain ⟨t', ht', rfl⟩ := h'
  rw [ht] at ht'
  cases ht'
  rfl

theorem decisionsStand_begin (participants : List String) (h : id ∉ c.transactions) :
    DecisionsStand c (begin id participants c) := by
  have hkeep : ∀ id' s, InState c id' s → InState (begin id participants c) id' s := by
    rintro id' s ⟨t, ht, hs⟩
    have hne : id' ≠ id := by
      rintro rfl
      exact h (AList.lookup_isSome.mp (by rw [ht]; rfl))
    exact ⟨t, by rw [lookup_begin participants hne, ht], hs⟩
  exact fun id' => ⟨hkeep id' _, hkeep id' _⟩

theorem decisionsStand_prepare_iff (c : Coordinator) (id : String) :
    DecisionsStand c (prepare id c).2 ↔ ¬ InState c id .committed ∧ ¬ InState c id .aborted := by
  have hafter : ∀ s, InState (prepare id c).2 id s → s = .prepared := by
    intro s hs
    rw [prepare, inState_onTransaction, if_pos rfl] at hs
    obtain ⟨t, -, rfl⟩ := hs
    exact t.prepare_state
  constructor
  · intro h
    refine ⟨fun hc => ?_, fun ha => ?_⟩
    · cases hafter _ ((h id).1 hc)
    · cases hafter _ ((h id).2 ha)
  · rintro ⟨hc, ha⟩ id'
    by_cases heq : id' = id
    · subst heq
      exact ⟨fun h => absurd h hc, fun h => absurd h ha⟩
    · simp only [prepare, inState_onTransaction, if_neg heq, imp_self, and_self]

theorem decisionsStand_commit (c : Coordinator) (id : String) :
    DecisionsStand c (commit id c).2 := by
  have hkeep : ∀ id' s, s ≠ TransactionState.prepared →
      InState c id' s → InState (commit id c).2 id' s := by
    rintro id' s hs ⟨t, ht, rfl⟩
    rw [commit, inState_onTransaction]
    by_cases heq : id' = id
    · rw [if_pos heq]
      exact ⟨t, ht, by rw [t.commit_state, if_neg hs]⟩
    · rw [if_neg heq]
      exact ⟨t, ht, rfl⟩
  exact fun id' => ⟨hkeep id' _ (by decide), hkeep id' _ (by decide)⟩

theorem decisionsStand_abort_iff (c : Coordinator) (id : String) :
    DecisionsStand c (abort id c).2 ↔ ¬ InState c id .committed := by
  have hafter : ∀ s, InState (abort id c).2 id s → s = .aborted := by
    intro s hs
    rw [abort, inState_onTransaction, if_pos rfl] at hs
    obtain ⟨t, -, rfl⟩ := hs
    rfl
  constructor
  · intro h hc
    cases hafter _ ((h id).1 hc)
  intro hc id'
  by_cases heq : id' = id
  · subst heq
    refine ⟨fun h => absurd h hc, ?_⟩
    rintro ⟨t, ht, -⟩
    rw [abort, inState_onTransaction, if_pos rfl]
    exact ⟨t, ht, rfl⟩
  · simp only [abort, inState_onTransaction, if_neg heq, imp_self, and_self]

/-- A call takes no decision back exactly if it respects them. -/
theorem decisionsStand_apply_iff (c : Coordinator) (a : Call) (h : FreshBegin c a) :
    DecisionsStand c (apply c a) ↔ Respects c a := by
  cases a with
  | begin id participants => exact iff_of_true (decisionsStand_begin participants h) trivial
  | prepare id => exact decisionsStand_prepare_iff c id
  | commit id => exact iff_of_true (decisionsStand_commit c id) trivial
  | abort id => exact decisionsStand_abort_iff c id

/-! ## Distinct transactions -/

theorem mem_apply {a : Call} (h : id ∈ (apply c a).transactions) :
    id ∈ c.transactions ∨ a.begun = some id := by
  have hon : ∀ (f : Transaction → Option String × Transaction) (id' : String),
      id ∈ (onTransaction f id' c).2.transactions → id ∈ c.transactions := by
    intro f id' h'
    rw [← AList.lookup_isSome, lookup_onTransaction] at h'
    rw [← AList.lookup_isSome]
    by_cases heq : id = id'
    · rwa [if_pos heq, Option.isSome_map] at h'
    · rwa [if_neg heq] at h'
  cases a with
  | begin id' participants =>
    rcases (AList.mem_insert c.transactions).mp h with rfl | h
    · exact .inr rfl
    · exact .inl h
  | prepare id' => exact .inl (hon _ id' h)
  | commit id' => exact .inl (hon _ id' h)
  | abort id' => exact .inl (hon _ id' h)

theorem along_freshBegin {calls : List Call} (hnodup : (calls.filterMap Call.begun).Nodup)
    (hnew : ∀ id ∈ calls.filterMap Call.begun, id ∉ c.transactions) :
    Runs.Along apply FreshBegin c calls := by
  induction calls generalizing c with
  | nil => exact trivial
  | cons a calls ih =>
    have hsub : (calls.filterMap Call.begun).Sublist ((a :: calls).filterMap Call.begun) :=
      (List.sublist_cons_self a calls).filterMap _
    refine ⟨?_, ih (hnodup.sublist hsub) ?_⟩
    · cases a with
      | begin id participants => exact hnew id (by simp [Call.begun])
      | _ => exact trivial
    · intro id hid hmem
      rcases mem_apply hmem with h | h
      · exact hnew id (hsub.subset hid) h
      · -- begun by this very call, and so by none of the later ones
        rw [List.filterMap_cons_some h] at hnodup
        exact (List.nodup_cons.mp hnodup).1 hid

/-! ## Irrevocable decisions -/

/-- A committed transaction stays committed with all its participants, and an aborted one stays
aborted. -/
def Irrevocable (calls : List Call) : Prop :=
  ∀ pre mid post, calls = pre ++ mid ++ post → ∀ id,
    (InState (run pre) id .committed → ∃ t, (run (pre ++ mid)).transactions.lookup id = some t ∧
      t.state = .committed ∧ ∀ p ∈ t.participants, p.committed = true) ∧
    (InState (run pre) id .aborted → InState (run (pre ++ mid)) id .aborted)

theorem irrevocable_iff_stand (calls : List Call) :
    Irrevocable calls ↔ ∀ pre mid post, calls = pre ++ mid ++ post →
      DecisionsStand (run pre) (run (pre ++ mid)) := by
  constructor
  · intro h pre mid post heq id
    obtain ⟨hc, ha⟩ := h pre mid post heq id
    refine ⟨fun hpre => ?_, ha⟩
    obtain ⟨t, ht, hstate, -⟩ := hc hpre
    exact ⟨t, ht, hstate⟩
  · intro h pre mid post heq id
    obtain ⟨hc, ha⟩ := h pre mid post heq id
    refine ⟨fun hpre => ?_, ha⟩
    obtain ⟨t, ht, hstate⟩ := hc hpre
    exact ⟨t, ht, hstate, run_allCommitted _ id t ht hstate⟩

/-- **Decisions are irrevocable** in a run over distinct transactions exactly when no
call prepares a decided transaction or aborts a committed one. -/
theorem irrevocable_iff (calls : List Call) (hdistinct : (calls.filterMap Call.begun).Nodup) :
    Irrevocable calls ↔
      ∀ pre a post, calls = pre ++ a :: post → Respects (run pre) a := by
  have hfresh : Runs.Along apply FreshBegin newTwoPhaseCommit calls :=
    along_freshBegin hdistinct fun id _ => AList.notMem_empty id
  rw [irrevocable_iff_stand]
  refine (Runs.later_iff_along (R := DecisionsStand) ?_ ?_).trans
    (Iff.trans ?_ Runs.along_iff)
  · exact fun c id => ⟨fun h => h, fun h => h⟩
  · intro c c' c'' h h' id
    exact ⟨fun hc => (h' id).1 ((h id).1 hc), fun ha => (h' id).2 ((h id).2 ha)⟩
  · -- among fresh begins, to leave decisions standing is to respect them
    exact Runs.along_congr (P := fun _ => True) (fun _ _ _ _ => trivial)
      (fun c a _ ha => decisionsStand_apply_iff c a ha) trivial hfresh

/-- Two transactions, one committed and one aborted, whose decisions stand. -/
theorem irrevocable_two :
    (([.begin "t" ["a"], .begin "u" ["b"], .prepare "t", .commit "t", .abort "u", .commit "t"] :
      List Call).filterMap Call.begun).Nodup ∧
    Irrevocable
      [.begin "t" ["a"], .begin "u" ["b"], .prepare "t", .commit "t", .abort "u", .commit "t"] :=
  ⟨by decide, (irrevocable_iff _ (by decide)).mpr (Runs.along_iff.mp (by decide))⟩

/-- A committed transaction is aborted, and an aborted one prepared and committed. -/
def revokedCalls : List Call :=
  [.begin "t" ["a", "b"], .prepare "t", .commit "t", .abort "t", .prepare "t", .commit "t"]

theorem revokedCalls_revoke : InState (run (revokedCalls.take 3)) "t" .committed ∧
      InState (run (revokedCalls.take 4)) "t" .aborted ∧
      InState (run revokedCalls) "t" .committed ∧ ¬ Irrevocable revokedCalls := by
  have hcommitted : InState (run (revokedCalls.take 3)) "t" .committed := ⟨_, rfl, rfl⟩
  have haborted : InState (run (revokedCalls.take 4)) "t" .aborted := ⟨_, rfl, rfl⟩
  refine ⟨hcommitted, haborted, ⟨_, rfl, rfl⟩, ?_⟩
  intro h
  have hstands := (h (revokedCalls.take 3) [.abort "t"] (revokedCalls.drop 4) rfl "t").1
  obtain ⟨t, ht, hstate, -⟩ := hstands hcommitted
  cases (show InState (run (revokedCalls.take 4)) "t" .committed from ⟨t, ht, hstate⟩).unique
    haborted

end LinkFlow.TwoPhaseCommit
