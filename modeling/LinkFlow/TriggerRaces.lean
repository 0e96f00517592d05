/-
Calls of the trigger manager that overlap.

Between two sections of a call other calls may run. Two calls of `ActivateTrigger` that both read
an inactive row leave two jobs, of which the map knows one (`overlap_fails`). If the calls on a
trigger do not overlap, the engine holds exactly its job whenever no call on it is in progress,
however the calls on other triggers interleave (`exact_of_serial`).
-/
import LinkFlow.TriggerSections

set_option autoImplicit false

namespace LinkFlow

open GoMap

/-! ## Calls in progress -/

/-- The manager and the calls in progress, by a number. -/
structure TriggerRace where
  manager : TriggerManager
  calls : GoMap ℕ Section := ∅

/-- A call begins, or a call runs its next section. -/
inductive RaceEvent
  | begin (n : ℕ) (r : Request)
  | next (n : ℕ) (fault : Option String)

namespace TriggerRace

/-- The state after a section of call `n`. -/
def settle (s : TriggerRace) (n : ℕ) : TriggerManager × Option Section → TriggerRace
  | (tm, some p) => { manager := tm, calls := s.calls.insert n p }
  | (tm, none) => { manager := tm, calls := s.calls.erase n }

def step (env : TriggerEnv) (s : TriggerRace) : RaceEvent → TriggerRace
  | .begin n r => if n ∈ s.calls then s else { s with calls := s.calls.insert n (.get r) }
  | .next n fault => match s.calls.lookup n with
      | none => s
      | some p => s.settle n (s.manager.advance env fault p)

def Quiet (s : TriggerRace) (id : String) : Prop := ∀ e ∈ s.calls.entries, e.2.triggerID ≠ id

instance (s : TriggerRace) (id : String) : Decidable (s.Quiet id) :=
  inferInstanceAs (Decidable (∀ e ∈ s.calls.entries, e.2.triggerID ≠ id))

/-- Whenever no call on a trigger is in progress, the engine holds exactly one job for it if it
is a schedule trigger stored as active, and none otherwise. -/
def Exact (s : TriggerRace) : Prop :=
  ∀ id, s.Quiet id → (s.manager.jobsOf id).length = if s.manager.scheduled id then 1 else 0

/-- A call on a trigger begins only while no other call on it is in progress, and no write of a
status fails. -/
def Serial (s : TriggerRace) : RaceEvent → Prop
  | .begin _ r => s.Quiet r.triggerID
  | .next n fault => ∀ p ∈ s.calls.lookup n, p.writesStatus = true → fault = none

instance (s : TriggerRace) (e : RaceEvent) : Decidable (s.Serial e) :=
  match e with
  | .begin _ r => inferInstanceAs (Decidable (s.Quiet r.triggerID))
  | .next n fault => inferInstanceAs
      (Decidable (∀ p ∈ s.calls.lookup n, p.writesStatus = true → fault = none))

/-! ## Whole runs -/

/-- Every call is where it may be, no two are on one trigger, and a trigger without a call is
settled. -/
structure Inv (env : TriggerEnv) (s : TriggerRace) : Prop where
  wired : s.manager.Wired env
  sound : ∀ n p, s.calls.lookup n = some p → s.manager.Sound env p
  alone : ∀ n n' p p', s.calls.lookup n = some p → s.calls.lookup n' = some p' →
    p.triggerID = p'.triggerID → n = n'
  settled : ∀ id, s.Quiet id → s.manager.Settled id

theorem quiet_iff {s : TriggerRace} {id : String} :
    s.Quiet id ↔ ∀ n p, s.calls.lookup n = some p → p.triggerID ≠ id := by
  constructor
  · intro h n p hp
    exact h ⟨n, p⟩ (AList.mem_lookup_iff.mp hp)
  · intro h e he
    exact h e.1 e.2 (lookup_of_entry he)

variable {env : TriggerEnv} {s : TriggerRace}

theorem lookup_settle (s : TriggerRace) (n m : ℕ) (r : TriggerManager × Option Section) :
    (s.settle n r).calls.lookup m = if m = n then r.2 else s.calls.lookup m := by
  obtain ⟨tm, q⟩ := r
  cases q with
  | some q => exact lookup_insert _ _ _ _
  | none => exact lookup_erase _ _ _

theorem alone_of_lookup {calls calls' : GoMap ℕ Section} {n : ℕ} {q : Option Section}
    (hlookup : ∀ m, calls'.lookup m = if m = n then q else calls.lookup m)
    (halone : ∀ m m' p p', calls.lookup m = some p → calls.lookup m' = some p' →
      p.triggerID = p'.triggerID → m = m')
    (hothers : ∀ p, q = some p → ∀ m p', m ≠ n → calls.lookup m = some p' →
      p'.triggerID ≠ p.triggerID) :
    ∀ m m' p p', calls'.lookup m = some p → calls'.lookup m' = some p' →
      p.triggerID = p'.triggerID → m = m' := by
  intro m m' p p' hp hp' heq
  rw [hlookup] at hp hp'
  split_ifs at hp hp' with hm hm'
  · rw [hm, hm']
  · exact absurd heq.symm (hothers p hp m' p' hm' hp')
  · exact absurd heq (hothers p' hp' m p hm hp)
  · exact halone m m' p p' hp hp' heq

/-- A call may begin where no other call on the trigger is in progress. -/
theorem Inv.begin (h : s.Inv env) {n : ℕ} {r : Request} (hquiet : s.Quiet r.triggerID) :
    (s.step env (.begin n r)).Inv env := by
  rw [step]
  split_ifs with hn
  · exact h
  have hothers := quiet_iff.mp hquiet
  refine ⟨h.wired, forall_insert h.sound (h.settled _ hquiet), ?_, ?_⟩
  · refine alone_of_lookup (fun m => lookup_insert _ _ _ _) h.alone ?_
    intro p hp m p' _ hp'
    cases hp
    exact hothers m p' hp'
  · intro id hid
    refine h.settled id (quiet_iff.mpr (fun m p hp => quiet_iff.mp hid m p ?_))
    have hne : m ≠ n := by
      rintro rfl
      exact hn (AList.lookup_isSome.mp (by rw [hp]; rfl))
    rw [lookup_insert, if_neg hne]
    exact hp

/-- A section keeps its own trigger agreed and the others as they are. -/
theorem Inv.settle (h : s.Inv env) {n : ℕ} {p : Section} (hp : s.calls.lookup n = some p)
    {r : TriggerManager × Option Section} (hr : s.manager.Advanced env p.triggerID r) :
    (s.settle n r).Inv env := by
  have hmanager : (s.settle n r).manager = r.1 := by
    obtain ⟨tm, q⟩ := r
    cases q <;> rfl
  have hothers : ∀ m p', m ≠ n → s.calls.lookup m = some p' → p'.triggerID ≠ p.triggerID :=
    fun m p' hne hp' heq => hne (h.alone m n p' p hp' hp heq)
  refine ⟨hmanager ▸ hr.wired, ?_, ?_, ?_⟩
  · intro m p' hp'
    rw [lookup_settle] at hp'
    rw [hmanager]
    split_ifs at hp' with hm
    · exact (hr.next p' hp').2
    · exact (h.sound m p' hp').congr (hr.same _ (hothers m p' hm hp'))
  · refine alone_of_lookup (lookup_settle s n · r) h.alone ?_
    intro q hq m p' hm hp'
    rw [(hr.next q hq).1]
    exact hothers m p' hm hp'
  · intro id hid
    have hquiet := quiet_iff.mp hid
    rw [hmanager]
    by_cases heq : id = p.triggerID
    · -- the call is over, or it would still be on the trigger
      rw [heq]
      refine hr.last (Option.eq_none_iff_forall_not_mem.mpr (fun q hq => ?_))
      refine hquiet n q ?_ ((hr.next q hq).1.trans heq.symm)
      rw [lookup_settle, if_pos rfl]
      exact hq
    · refine (hr.same id heq).settled (h.settled id (quiet_iff.mpr (fun m p' hp' => ?_)))
      by_cases hm : m = n
      · rw [hm, hp, Option.some.injEq] at hp'
        rw [← hp']
        exact Ne.symm heq
      · refine hquiet m p' ?_
        rw [lookup_settle, if_neg hm]
        exact hp'

/-- Calls on one trigger one after the other keep map, engine and rows agreed. -/
theorem inv_step (env : TriggerEnv) (s : TriggerRace) (e : RaceEvent) (h : s.Inv env)
    (hserial : s.Serial e) : (s.step env e).Inv env := by
  cases e with
  | begin n r => exact h.begin hserial
  | next n fault =>
    rw [step]
    split
    · exact h
    · next p hp => exact h.settle hp ((h.sound n p hp).advanced h.wired (hserial p hp))

theorem Inv.exact (h : s.Inv env) : s.Exact :=
  fun id hid => TriggerManager.length_jobsOf_of_agree (h.settled id hid)

/-- **Calls that do not overlap.** From a manager in order, if no two calls on a trigger overlap and
no write of a status fails, the engine holds exactly one job for every active schedule trigger
without a call in progress and none for any other. -/
theorem exact_of_serial {env : TriggerEnv} {tm : TriggerManager} (hwired : tm.Wired env)
    (hsettled : ∀ id, tm.Settled id) {es : List RaceEvent}
    (h : Runs.Along (step env) Serial { manager := tm } es) :
    Runs.Always (step env) Exact { manager := tm } es := by
  have h0 : Inv env { manager := tm } := by
    refine ⟨hwired, ?_, ?_, fun id _ => hsettled id⟩
    · intro n p hp
      cases hp
    · intro n n' p p' hp
      cases hp
  intro pre hpre
  exact (h.always (inv_step env) h0 pre hpre).exact

def nightly : WorkflowTrigger where
  id := "t1"
  workflowID := "workflow"
  type := .schedule
  name := "nightly"
  description := ""
  status := .inactive
  config := GoMap.ofPairs [("cronExpression", .string "0 0 * * *"), ("timezone", .string "UTC")]

def nightlyManager : TriggerManager := { triggers := GoMap.ofPairs [("t1", nightly)] }

theorem lookup_nightly {id : String} {row : WorkflowTrigger}
    (h : nightlyManager.triggers.lookup id = some row) : id = "t1" ∧ row = nightly := by
  have hmem := (lookup_ofPairs (by simp) id row).mp h
  simpa using hmem

theorem wired_nightlyManager : nightlyManager.Wired plainEnv where
  fresh := by simp [nightlyManager]
  nodup := by simp [nightlyManager]
  known := fun id entryID h => by cases h
  owned := fun id entryID h => by cases h
  keyed := by
    intro id row h
    obtain ⟨rfl, rfl⟩ := lookup_nightly h
    rfl
  loadable := by
    intro id row h _
    obtain ⟨rfl, rfl⟩ := lookup_nightly h
    exact ⟨_, rfl, rfl⟩

theorem settled_nightlyManager (id : String) : nightlyManager.Settled id := by
  have hnot : nightlyManager.scheduled id = false := by
    cases hrow : nightlyManager.triggers.lookup id with
    | none => exact TriggerManager.scheduled_of_none hrow
    | some row =>
      obtain ⟨rfl, rfl⟩ := lookup_nightly hrow
      rw [TriggerManager.scheduled, hrow]
      rfl
  rw [TriggerManager.Settled, hnot]
  exact ⟨rfl, rfl⟩

theorem activate_nightly_alone :
    TriggerManager.alone plainEnv {} 6 (nightlyManager, some (.get (.activate "t1"))) =
      (nightlyManager.step plainEnv (.activate {} "t1"), none) :=
  TriggerManager.alone_call plainEnv {} nightlyManager (.activate "t1") wired_nightlyManager.keyed

/-- The sections of a call, `k` of them, without errors. -/
def sections (n k : ℕ) : List RaceEvent := List.replicate k (.next n none)

theorem exact_activate_then_delete : Runs.Always (step plainEnv) Exact { manager := nightlyManager }
      (.begin 0 (.activate "t1") :: sections 0 4 ++ .begin 1 (.delete "t1") :: sections 1 5) :=
  exact_of_serial wired_nightlyManager settled_nightlyManager (by decide +kernel)

/-- Two calls of `ActivateTrigger` that read the same row leave two jobs; and an `UpdateTrigger`
that read it writes it back over the status of an `ActivateTrigger`. -/
theorem overlap_fails : ¬ Runs.Always (step plainEnv) Exact { manager := nightlyManager }
        ([.begin 0 (.activate "t1"), .begin 1 (.activate "t1"), .next 0 none, .next 1 none] ++
          sections 0 3 ++ sections 1 3) ∧
      ¬ Runs.Always (step plainEnv) Exact { manager := nightlyManager }
        ([.begin 0 (.update "t1" ∅), .next 0 none, .begin 1 (.activate "t1")] ++
          sections 1 4 ++ sections 0 1) := by
  constructor
  · intro h
    exact absurd (h.last "t1" (by decide +kernel)) (by decide +kernel)
  · intro h
    exact absurd (h.last "t1" (by decide +kernel)) (by decide +kernel)

end TriggerRace

end LinkFlow
