/-
Concurrent calls of `WorkflowService.UpdateWorkflow`, one repository call at a time.

A call reads the row and compares its version with the one the request expects; the
transaction that writes comes later and looks at the version records only, so a row that
was changed in between is overwritten (`overlappingSchedule_lost`). A call that has passed
the comparison succeeds unless its transaction fails. Hence one call succeeds at most if no
call reads the row while another is between its reading and its writing
(`update_once_of_orderly`): the winner's row then has a version that no other call expects.
-/
import LinkFlow.WorkflowRuns

set_option autoImplicit false

namespace LinkFlow.WorkflowStore

variable {D ι : Type} [DecidableEq ι]

/-! ## One repository call -/

/-- Where a call of `UpdateWorkflow` stands. -/
inductive Phase
  | called
  | prepared (wf : Workflow)
  | done (result : Except Failure Workflow)

namespace Phase

def pending : Phase → Bool
  | .prepared _ => true
  | _ => false

def waiting : Phase → Bool
  | .called => true
  | _ => false

/-- The workflow that the call has returned. -/
def success : Phase → Option Workflow
  | .done (.ok w) => some w
  | _ => none

end Phase

def advance (js : Codec Workflow D) (env : Env) (req : UpdateWorkflowRequest) (db : DB D) :
    Phase → Phase × DB D
  | .called =>
    match prepareUpdate env req db with
    | .error e => (.done (.error e), db)
    | .ok wf => (.prepared wf, db)
  | .prepared wf =>
    match updateWithVersion js env wf "Updated" db with
    | .error e => (.done (.error e), db)
    | .ok (wf, db) => (.done (.ok wf), db)
  | .done result => (.done result, db)

theorem advance_alone (js : Codec Workflow D) (env : Env) (req : UpdateWorkflowRequest)
    (db : DB D) :
    advance js env req (advance js env req db .called).2 (advance js env req db .called).1 =
      match updateWorkflow js env req db with
      | .error e => (.done (.error e), db)
      | .ok (w, db') => (.done (.ok w), db') := by
  rw [updateWorkflow]
  cases hprep : prepareUpdate env req db <;> simp [advance, hprep]

theorem advance_cases (js : Codec Workflow D) (env : Env) (req : UpdateWorkflowRequest)
    (db : DB D) (p : Phase) : (∃ result, p = .done result ∧ advance js env req db p = (p, db)) ∨
      (∃ e, p.success = none ∧ advance js env req db p = (.done (.error e), db)) ∨
      (∃ wf, p = .called ∧ prepareUpdate env req db = .ok wf ∧
        advance js env req db p = (.prepared wf, db)) ∨
      ∃ wf w db', p = .prepared wf ∧ updateWithVersion js env wf "Updated" db = .ok (w, db') ∧
        advance js env req db p = (.done (.ok w), db') := by
  cases p with
  | called =>
    rw [advance]
    cases hprep : prepareUpdate env req db with
    | error e => exact .inr (.inl ⟨e, rfl, rfl⟩)
    | ok wf => exact .inr (.inr (.inl ⟨wf, rfl, rfl, rfl⟩))
  | prepared wf =>
    rw [advance]
    cases hsave : updateWithVersion js env wf "Updated" db with
    | error e => exact .inr (.inl ⟨e, rfl, rfl⟩)
    | ok x => exact .inr (.inr (.inr ⟨wf, x.1, x.2, rfl, hsave, rfl⟩))
  | done result => exact .inl ⟨result, rfl, rfl⟩

/-! ## Interleavings -/

/-- The database with updates in flight. -/
structure Race (ι D : Type) where
  db : DB D
  calls : ι → Phase

namespace Race

/-- All calls have been made and none has read. -/
def start (db : DB D) : Race ι D := ⟨db, fun _ => .called⟩

/-- One of the calls makes its next repository call. -/
def step (js : Codec Workflow D) (req : ι → UpdateWorkflowRequest) (r : Race ι D) (a : ι × Env) :
    Race ι D where
  db := (advance js a.2 (req a.1) r.db (r.calls a.1)).2
  calls := Function.update r.calls a.1 (advance js a.2 (req a.1) r.db (r.calls a.1)).1

/-- The race after the given steps, from the database that the calls `before` have made. -/
def after (js : Codec Workflow D) (before : List (Op × Env)) (req : ι → UpdateWorkflowRequest)
    (as : List (ι × Env)) : Race ι D :=
  as.foldl (step js req) (start (before.foldl (WorkflowStore.step js) DB.empty))

/-- A call that reads does so while no other is between its reading and its writing. -/
def Orderly (r : Race ι D) (a : ι × Env) : Prop :=
  (r.calls a.1).waiting = true → ∀ j, (r.calls j).pending = false

instance [Fintype ι] (r : Race ι D) (a : ι × Env) : Decidable (r.Orderly a) :=
  inferInstanceAs (Decidable (_ → _))

/-- No call has succeeded: the database is as it was, and one call at most is about to
write, having read the version that all calls expect. -/
structure Open (db₀ : DB D) (id : String) (version : ℤ) (r : Race ι D) : Prop where
  db : r.db = db₀
  unwon : ∀ i, (r.calls i).success = none
  one : ∀ i j, (r.calls i).pending = true → (r.calls j).pending = true → i = j
  read : ∀ i wf, r.calls i = .prepared wf →
    wf.id = id ∧ ∃ w, db₀.workflows.lookup id = some w ∧ w.version = version

/-- Call `i` has succeeded, and the row it wrote has a version that no call expects. -/
structure Closed (id : String) (version : ℤ) (i : ι) (w : Workflow) (r : Race ι D) : Prop where
  won : (r.calls i).success = some w
  only : ∀ j, j ≠ i → (r.calls j).success = none
  idle : ∀ j, (r.calls j).pending = false
  row : r.db.workflows.lookup id = some w
  moved : w.version ≠ version

end Race

/-! ## One success -/

section Steps

variable {js : Codec Workflow D} {req : ι → UpdateWorkflowRequest} {db₀ : DB D} {id : String}
  {version : ℤ} {r : Race ι D} {a : ι × Env}

namespace Race

omit [DecidableEq ι] in
theorem open_start (db : DB D) : Open db id version (start db : Race ι D) where
  db := rfl
  unwon _ := rfl
  one := by simp [start, Phase.pending]
  read := by simp [start]

theorem step_eq {p : Phase} (h : advance js a.2 (req a.1) r.db (r.calls a.1) = (p, r.db)) :
    step js req r a = ⟨r.db, Function.update r.calls a.1 p⟩ := by
  rw [step, h]

theorem step_of_done (h : advance js a.2 (req a.1) r.db (r.calls a.1) = (r.calls a.1, r.db)) :
    step js req r a = r := by
  rw [step_eq h, Function.update_eq_self]

theorem Open.update (h : Open db₀ id version r) (i : ι) {p : Phase} (hunwon : p.success = none)
    (hone : ∀ j k, (Function.update r.calls i p j).pending = true →
      (Function.update r.calls i p k).pending = true → j = k) (hread : ∀ wf, p = .prepared wf →
      wf.id = id ∧ ∃ w, db₀.workflows.lookup id = some w ∧ w.version = version) :
    Open db₀ id version ⟨r.db, Function.update r.calls i p⟩ where
  db := h.db
  unwon := (Function.forall_update_iff r.calls (fun _ p => p.success = none)).mpr
    ⟨hunwon, fun j _ => h.unwon j⟩
  one := hone
  read := (Function.forall_update_iff r.calls (fun _ p => ∀ wf, p = .prepared wf →
      wf.id = id ∧ ∃ w, db₀.workflows.lookup id = some w ∧ w.version = version)).mpr
    ⟨hread, fun j _ => h.read j⟩

theorem Open.fail (h : Open db₀ id version r) (i : ι) (e : Failure) :
    Open db₀ id version ⟨r.db, Function.update r.calls i (.done (.error e))⟩ := by
  have hpending : ∀ j, (Function.update r.calls i (.done (.error e)) j).pending = true →
      (r.calls j).pending = true := by
    refine (Function.forall_update_iff r.calls
      (fun j p => p.pending = true → (r.calls j).pending = true)).mpr ⟨?_, fun j _ hj => hj⟩
    intro hfalse
    cases hfalse
  refine h.update i rfl (fun j k hj hk => h.one j k (hpending j hj) (hpending k hk)) ?_
  intro wf hwf
  cases hwf

theorem Open.prepare (h : Open db₀ id version r) (hnone : ∀ j, (r.calls j).pending = false)
    (i : ι) {wf : Workflow} (hid : wf.id = id)
    (hread : ∃ w, db₀.workflows.lookup id = some w ∧ w.version = version) :
    Open db₀ id version ⟨r.db, Function.update r.calls i (.prepared wf)⟩ := by
  have hpending : ∀ j, (Function.update r.calls i (.prepared wf) j).pending = true → j = i := by
    refine (Function.forall_update_iff r.calls (fun j p => p.pending = true → j = i)).mpr
      ⟨fun _ => rfl, ?_⟩
    intro j _ hj
    rw [hnone j] at hj
    cases hj
  refine h.update i rfl (fun j k hj hk => (hpending j hj).trans (hpending k hk).symm) ?_
  intro wf' hwf
  injection hwf with hwf
  rw [← hwf]
  exact ⟨hid, hread⟩

/-- The call that was ready writes: its row gets the number after the last record, which is
not the one it read. -/
theorem Open.close (h : Open db₀ id version r) (hver : Versioned js db₀ id) {env : Env} {i : ι}
    {wf w : Workflow} {db' : DB D} (hp : r.calls i = .prepared wf)
    (hsave : updateWithVersion js env wf "Updated" r.db = .ok (w, db')) :
    Closed id version i w ⟨db', Function.update r.calls i (.done (.ok w))⟩ := by
  obtain ⟨hid, w₀, hrow, hw₀⟩ := h.read i wf hp
  rw [h.db] at hsave
  obtain ⟨m, v, hmax, hw, rfl, -⟩ := updateWithVersion_eq_ok hsave
  have hwid : w.id = id := by rw [hw, ← hid]
  constructor
  · dsimp only
    rw [Function.update_self]
    rfl
  · intro j hj
    dsimp only
    rw [Function.update_of_ne hj]
    exact h.unwon j
  · refine (Function.forall_update_iff r.calls (fun _ p => p.pending = false)).mpr ⟨rfl, ?_⟩
    intro j hj
    by_contra hpending
    rw [Bool.not_eq_false] at hpending
    exact hj (h.one j i hpending (by rw [hp]; rfl))
  · rw [← hwid]
    exact DB.lookup_put_self w v db₀
  · rw [hid] at hmax
    have hm := hver.eq_length hmax
    have hlen := hver.row w₀ hrow
    rw [hw]
    dsimp only
    omega

/-- A step leaves the race open, or the call that made it has saved. -/
theorem Open.step (h : Open db₀ id version r) (hver : Versioned js db₀ id) (hpos : 0 < version)
    (hreq : (req a.1).workflowID = id ∧ (req a.1).version = version) (hok : r.Orderly a) :
    Open db₀ id version (step js req r a) ∨
      ∃ w, Closed id version a.1 w (step js req r a) := by
  rcases advance_cases js a.2 (req a.1) r.db (r.calls a.1) with ⟨-, -, heq⟩ |
    ⟨e, -, heq⟩ | ⟨wf, hp, hprep, heq⟩ | ⟨wf, w, db', hp, hsave, heq⟩
  · rw [step_of_done heq]
    exact .inl h
  · rw [step_eq heq]
    exact .inl (h.fail a.1 e)
  · obtain ⟨w₀, hrow, hid, hread, rfl, -⟩ := prepareUpdate_eq_ok hprep
    rw [step_eq heq]
    refine .inl (h.prepare (hok (by rw [hp]; rfl)) a.1 (hid.trans hreq.1) ⟨w₀, ?_, ?_⟩)
    · rw [← h.db, ← hreq.1, hrow]
    · rw [hread (by rw [hreq.2]; exact hpos), hreq.2]
  · refine .inr ⟨w, ?_⟩
    rw [Race.step, heq]
    exact h.close hver hp hsave

/-- After it no update with the same version succeeds. -/
theorem Closed.step {i : ι} {w : Workflow} (h : Closed id version i w r) (hpos : 0 < version)
    (hreq : (req a.1).workflowID = id ∧ (req a.1).version = version) :
    Closed id version i w (step js req r a) := by
  rcases advance_cases js a.2 (req a.1) r.db (r.calls a.1) with ⟨-, -, heq⟩ |
    ⟨e, hnone, heq⟩ | ⟨wf, hp, hprep, heq⟩ | ⟨wf, w, db', hp, hsave, heq⟩
  · rw [step_of_done heq]
    exact h
  · have hne : i ≠ a.1 := by
      rintro rfl
      rw [h.won] at hnone
      cases hnone
    rw [step_eq heq]
    refine ⟨?_, ?_, ?_, h.row, h.moved⟩
    · dsimp only
      rw [Function.update_of_ne hne]
      exact h.won
    · exact (Function.forall_update_iff r.calls (fun j p => j ≠ i → p.success = none)).mpr
        ⟨fun _ => rfl, fun j _ => h.only j⟩
    · exact (Function.forall_update_iff r.calls (fun _ p => p.pending = false)).mpr
        ⟨rfl, fun j _ => h.idle j⟩
  · obtain ⟨w₀, hrow, -, hread, -, -⟩ := prepareUpdate_eq_ok hprep
    rw [hreq.1, h.row, Option.some_inj] at hrow
    rw [hreq.2, ← hrow] at hread
    exact absurd (hread hpos) h.moved
  · have hidle := h.idle a.1
    rw [hp] at hidle
    cases hidle

end Race

/-- **One update wins.** Of calls of `UpdateWorkflow` that all expect the same positive version and
never read while another is about to write, one succeeds at most and the row is what it returned; if
none does the database is unchanged. -/
theorem update_once_of_orderly (js : Codec Workflow D) (before : List (Op × Env)) (id : String)
    (version : ℤ) (hpos : 0 < version) (req : ι → UpdateWorkflowRequest)
    (hreq : ∀ i, (req i).workflowID = id ∧ (req i).version = version) (as : List (ι × Env))
    (horder : Runs.Along (Race.step js req) Race.Orderly
      (Race.start (before.foldl (step js) DB.empty)) as) :
    (∀ i w, ((Race.after js before req as).calls i).success = some w →
        (Race.after js before req as).db.workflows.lookup id = some w ∧
        ∀ j, j ≠ i → ((Race.after js before req as).calls j).success = none) ∧
      ((∀ i, ((Race.after js before req as).calls i).success = none) →
        (Race.after js before req as).db = before.foldl (step js) DB.empty) := by
  rw [Race.after]
  generalize hdb : before.foldl (step js) DB.empty = db₀ at horder ⊢
  have hver : Versioned js db₀ id := by
    rw [← hdb]
    exact versioned_run js before id
  have hlast := (horder.always
    (P := fun r => Race.Open db₀ id version r ∨ ∃ i w, Race.Closed id version i w r)
    (by
      rintro r a (h | ⟨i, w, h⟩) hok
      · exact (h.step hver hpos (hreq a.1) hok).imp_right (fun h => ⟨a.1, h⟩)
      · exact .inr ⟨i, w, h.step hpos (hreq a.1)⟩)
    (.inl (Race.open_start db₀))).last
  generalize as.foldl (Race.step js req) (Race.start db₀) = r at hlast ⊢
  rcases hlast with h | ⟨i, w, h⟩
  · refine ⟨?_, fun _ => h.db⟩
    intro i w hw
    rw [h.unwon i] at hw
    cases hw
  · refine ⟨?_, ?_⟩
    · intro k w' hw'
      by_cases hk : k = i
      · subst hk
        rw [h.won, Option.some_inj] at hw'
        rw [← hw']
        exact ⟨h.row, h.only⟩
      · rw [h.only k hk] at hw'
        cases hw'
    · intro hnone
      have := h.won
      rw [hnone i] at this
      cases this

end Steps

/-- A stored workflow of version 1. -/
def storedOrders : List (Op × Env) :=
  [(.create { userID := "u", name := "orders", nodes := some [startNode] },
    { uuid := "w", versionUUID := "v1" })]

/-- Two updates that expect version 1. -/
def twoUpdates (i : Fin 2) : UpdateWorkflowRequest :=
  if i = 0 then { workflowID := "w", userID := "u", description := "daily", version := 1 }
  else { workflowID := "w", userID := "u", name := "invoices", version := 1 }

def twoEnvs (i : Fin 2) : Env := { uuid := "", versionUUID := if i = 0 then "v2" else "v3" }

/-- The first update runs to its end before the second reads. -/
def orderlySchedule : List (Fin 2 × Env) :=
  [(0, twoEnvs 0), (0, twoEnvs 0), (1, twoEnvs 1), (1, twoEnvs 1)]

theorem orderlySchedule_once : ∃ w, ((Race.after (Codec.plain Workflow) storedOrders twoUpdates
        orderlySchedule).calls 0).success = some w ∧
      (Race.after (Codec.plain Workflow) storedOrders twoUpdates
        orderlySchedule).db.workflows.lookup "w" = some w ∧
      ∀ j, j ≠ 0 → ((Race.after (Codec.plain Workflow) storedOrders twoUpdates
        orderlySchedule).calls j).success = none := by
  have hwon : (((Race.after (Codec.plain Workflow) storedOrders twoUpdates
      orderlySchedule).calls 0).success).isSome = true := by
    decide +kernel
  obtain ⟨w, hw⟩ := Option.isSome_iff_exists.mp hwon
  exact ⟨w, hw, (update_once_of_orderly (Codec.plain Workflow) storedOrders "w" 1 (by decide)
    twoUpdates (by decide) orderlySchedule (by decide +kernel)).1 0 w hw⟩

/-- Both updates read before either writes. -/
def overlappingSchedule : List (Fin 2 × Env) :=
  [(0, twoEnvs 0), (1, twoEnvs 1), (0, twoEnvs 0), (1, twoEnvs 1)]

/-- Both succeed, and the description that the first wrote is gone. -/
theorem overlappingSchedule_lost : (((Race.after (Codec.plain Workflow) storedOrders twoUpdates
        overlappingSchedule).calls 0).success.map
          (fun w => (w.name, w.description, w.version)) = some ("orders", "daily", 2)) ∧
      (((Race.after (Codec.plain Workflow) storedOrders twoUpdates
        overlappingSchedule).calls 1).success.map
          (fun w => (w.name, w.description, w.version)) = some ("invoices", "", 3)) ∧
      ((Race.after (Codec.plain Workflow) storedOrders twoUpdates
        overlappingSchedule).db.workflows.lookup "w").map
          (fun w => (w.name, w.description, w.version)) = some ("invoices", "", 3) := by
  refine ⟨?_, ?_, ?_⟩
  · decide +kernel
  · decide +kernel
  · decide +kernel

end LinkFlow.WorkflowStore
