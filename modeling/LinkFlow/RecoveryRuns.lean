/-
Interleaved recoveries (`execution/app/recovery/manager.go`).

`RecoverExecution` refuses an execution whose task is in progress, and nothing else. A task is
pending before its goroutine has set the status, and again between two attempts: a call then starts
a second recovery. And a call that comes after a recovery has completed, but before it has removed
its task, has its own task removed in its place; the next call does not see it. These are all the
ways to two recoveries at once (`exclusive_iff`), and a run that keeps clear of both has one at a
time (`exclusive_of_settled`).

The number of recoveries that were started is at every moment the number of those that succeeded,
failed and are still active (`started_eq`). `totalRecoveries` is another number, since
`updateTaskStatus` counts every status of every attempt (`total_eq`): it agrees with the other
counters throughout only if no recovery is ever started (`balanced_iff`).
-/
import LinkFlow.Lib.Runs
import LinkFlow.Recovery

set_option autoImplicit false

namespace LinkFlow.Recovery

open Manager Runs List

/-! ## One section -/

/-- The recovery is pending or running. -/
def Worker.active (r : Worker) : Bool := r.task.status = .pending || r.task.status = .inProgress

/-- The status that belongs to a place. -/
def Worker.Sound (r : Worker) : Prop :=
  match r.place with
  | .starting | .waiting => r.task.status = .pending
  | .recovering => r.task.status = .inProgress
  | .cleaning => r.task.status = .completed
  | .returned => r.task.status = .completed ∨ r.task.status = .failed

/-- A number for every status. -/
def Worker.is (status : RecoveryStatus) (r : Worker) : ℤ := if r.task.status = status then 1 else 0

/-- A section keeps the execution and revives nothing; it counts a result when it gives one; and the
count of statuses goes up by what it adds to attempts and results. -/
structure Advances (r r' : Worker) (e : Effect) : Prop where
  sound : r'.Sound
  executionID : r'.task.executionID = r.task.executionID
  active : r'.active = true → r.active = true
  successful : e.successful = r'.is .completed - r.is .completed
  failed : e.failed = r'.is .failed - r.is .failed
  total : e.total = 2 * (e.successful + (r'.task.attempts - r.task.attempts)) +
    (r'.is .inProgress - r.is .inProgress)
  delete : e.delete = true → r.place = .cleaning
  cleaning : r'.place = .cleaning → r.active = true

theorem Worker.Sound.advances {r : Worker} (h : r.Sound) (maxRecoveryAttempts : ℤ)
    (outside : Outside) : Advances r (r.advance maxRecoveryAttempts outside).1
      (r.advance maxRecoveryAttempts outside).2 := by
  obtain ⟨task, place⟩ := r
  cases place with
  | starting =>
    simp only [Worker.Sound] at h
    constructor <;> simp [Worker.advance, Worker.Sound, Worker.active, Worker.is, h]
  | recovering =>
    simp only [Worker.Sound] at h
    simp only [Worker.advance]
    split
    · split
      · constructor <;> simp [Worker.Sound, Worker.active, Worker.is, h]
      · constructor <;> simp [Worker.Sound, Worker.active, Worker.is, h]
    · constructor <;> simp [Worker.Sound, Worker.active, Worker.is, h]
  | waiting =>
    simp only [Worker.Sound] at h
    constructor <;> simp [Worker.advance, Worker.Sound, Worker.active, Worker.is, h]
  | cleaning =>
    simp only [Worker.Sound] at h
    constructor <;> simp [Worker.advance, Worker.Sound, Worker.active, Worker.is, h]
  | returned =>
    exact ⟨h, rfl, id, (sub_self _).symm, (sub_self _).symm, by simp [Worker.advance], nofun, nofun⟩

/-! ## What a step can do -/

/-- The call is one of `RecoverExecution` that starts a recovery of the execution. -/
def Manager.Starts (m : Manager) (executionID : String) : Event → Prop
  | .recoverExecution id _ (.ok _) => id = executionID ∧ m.recovering id = false
  | _ => False

theorem step_cases (maxRecoveryAttempts : ℤ) (m : Manager) (a : Event) :
    ((∀ id, ¬ m.Starts id a) ∧ m.step maxRecoveryAttempts a = m) ∨
    (∃ id strategy checkpoint, a = .recoverExecution id strategy (.ok checkpoint) ∧
      m.recovering id = false ∧
      m.step maxRecoveryAttempts a = m.start id strategy checkpoint) ∨
    ∃ i outside r, a = .next i outside ∧ m.recoveries[i]? = some r ∧
      m.step maxRecoveryAttempts a = m.settle i (r.advance maxRecoveryAttempts outside) := by
  cases a with
  | recoverExecution id strategy checkpoint =>
    cases hrec : m.recovering id with
    | true =>
      refine .inl ⟨fun id' h => ?_, ?_⟩
      · cases checkpoint with
        | error e => exact h
        | ok checkpoint => exact absurd (hrec.symm.trans h.2) (by decide)
      · simp [Manager.step, Manager.recoverExecution, hrec]
    | false =>
      cases checkpoint with
      | error e =>
        refine .inl ⟨fun id' h => h, ?_⟩
        simp [Manager.step, Manager.recoverExecution, hrec]
      | ok checkpoint =>
        refine .inr (.inl ⟨id, strategy, checkpoint, rfl, hrec, ?_⟩)
        simp [Manager.step, Manager.recoverExecution, hrec]
  | next i outside =>
    cases hi : m.recoveries[i]? with
    | none => exact .inl ⟨fun id' h => h, by simp [Manager.step, hi]⟩
    | some r => exact .inr (.inr ⟨i, outside, r, rfl, hi, by simp [Manager.step, hi]⟩)

/-! ## Counting -/

def Manager.sum (m : Manager) (f : Worker → ℤ) : ℤ := (m.recoveries.map f).sum

section Sums

variable {m : Manager} {i : ℕ} {r : Worker}

theorem sum_start (f : Worker → ℤ) (id : String) (strategy : RecoveryStrategy)
    (checkpoint : Checkpoint) : (m.start id strategy checkpoint).sum f = m.sum f +
      f { task := { executionID := id, checkpoint := checkpoint,
                    recoveryStrategy := strategy } } := by
  simp [Manager.sum, Manager.start]

theorem sum_settle (f : Worker → ℤ) (hi : m.recoveries[i]? = some r) (r' : Worker × Effect) :
    (m.settle i r').sum f = m.sum f + (f r'.1 - f r) := by
  obtain ⟨hlt, hr⟩ := List.getElem?_eq_some_iff.mp hi
  rw [Manager.sum, Manager.settle, List.map_set, List.sum_set', dif_pos (by simpa using hlt)]
  simp only [getElem_map, hr, Manager.sum]
  ring

end Sums

/-! ## Every run -/

/-- What holds in every state: places and statuses fit, the map has tasks of their executions, and
the counters count statuses. -/
structure Manager.Inv (m : Manager) : Prop where
  sound : ∀ r ∈ m.recoveries, r.Sound
  mapped : ∀ id i, m.recoveringExecutions.lookup id = some i →
    ∃ r, m.recoveries[i]? = some r ∧ r.task.executionID = id
  successful : m.successfulRecoveries = m.sum (Worker.is .completed)
  failed : m.failedRecoveries = m.sum (Worker.is .failed)
  total : m.totalRecoveries = 2 * (m.successfulRecoveries + m.sum (fun r => r.task.attempts)) +
    m.sum (Worker.is .inProgress)

theorem inv_empty : Manager.Inv {} :=
  ⟨nofun, nofun, rfl, rfl, rfl⟩

section Steps

variable {m : Manager}

theorem Manager.Inv.start (h : m.Inv) (id : String) (strategy : RecoveryStrategy)
    (checkpoint : Checkpoint) : (m.start id strategy checkpoint).Inv where
  sound := by
    intro r hr
    rcases mem_append.mp hr with hr | hr
    · exact h.sound r hr
    · rw [mem_singleton.mp hr]
      rfl
  mapped := by
    intro id' i hi
    rw [Manager.start, GoMap.lookup_insert] at hi
    split at hi
    · rename_i heq
      cases hi
      exact ⟨_, getElem?_concat_length, heq.symm⟩
    · obtain ⟨r, hr, hid⟩ := h.mapped id' i hi
      refine ⟨r, ?_, hid⟩
      rw [Manager.start, List.getElem?_append_left (List.getElem?_eq_some_iff.mp hr).1, hr]
  successful := by
    rw [sum_start, ← h.successful]
    simp [Manager.start, Worker.is]
  failed := by
    rw [sum_start, ← h.failed]
    simp [Manager.start, Worker.is]
  total := by
    rw [sum_start, sum_start]
    simpa [Manager.start, Worker.is] using h.total

theorem getElem?_settle {i j : ℕ} {r' : Worker × Effect} {s : Worker}
    (hs : (m.settle i r').recoveries[j]? = some s) :
    (j = i ∧ s = r'.1) ∨ (j ≠ i ∧ m.recoveries[j]? = some s) := by
  rw [Manager.settle, getElem?_set] at hs
  split at hs
  · rename_i heq
    split at hs
    · exact .inl ⟨heq.symm, (Option.some.inj hs).symm⟩
    · contradiction
  · rename_i hne
    exact .inr ⟨fun heq => hne heq.symm, hs⟩

/-- A recovery that goes on keeps the counters. -/
theorem Manager.Inv.settle (h : m.Inv) {i : ℕ} {r r' : Worker} {e : Effect}
    (hi : m.recoveries[i]? = some r) (ha : Advances r r' e) : (m.settle i (r', e)).Inv where
  sound := by
    intro s hs
    obtain ⟨j, hj⟩ := mem_iff_getElem?.mp hs
    rcases getElem?_settle hj with ⟨-, rfl⟩ | ⟨-, hj⟩
    · exact ha.sound
    · exact h.sound s (mem_of_getElem? hj)
  mapped := by
    intro id j hj
    have hold : m.recoveringExecutions.lookup id = some j := by
      rw [Manager.settle] at hj
      split at hj
      · rw [GoMap.lookup_erase] at hj
        split at hj
        · contradiction
        · exact hj
      · exact hj
    obtain ⟨s, hs, hid⟩ := h.mapped id j hold
    obtain ⟨hlt, -⟩ := List.getElem?_eq_some_iff.mp hs
    by_cases hji : j = i
    · subst hji
      rw [hi, Option.some.injEq] at hs
      subst hs
      exact ⟨r', by simp [Manager.settle, hlt], ha.executionID.trans hid⟩
    · exact ⟨s, by rw [Manager.settle, getElem?_set_ne (Ne.symm hji), hs], hid⟩
  successful := by
    rw [sum_settle _ hi, ← h.successful, ← ha.successful]
    rfl
  failed := by
    rw [sum_settle _ hi, ← h.failed, ← ha.failed]
    rfl
  total := by
    rw [sum_settle _ hi, sum_settle _ hi]
    have htotal := h.total
    have heffect := ha.total
    simp only [Manager.settle]
    linarith

/-- The counters count the recoveries by their state, after each event. -/
theorem Manager.Inv.step (h : m.Inv) (maxRecoveryAttempts : ℤ) (a : Event) :
    (m.step maxRecoveryAttempts a).Inv := by
  rcases step_cases maxRecoveryAttempts m a with ⟨-, heq⟩ |
    ⟨id, strategy, checkpoint, -, -, heq⟩ | ⟨i, outside, r, -, hi, heq⟩
  · rw [heq]
    exact h
  · rw [heq]
    exact h.start id strategy checkpoint
  · rw [heq]
    exact h.settle hi ((h.sound r (mem_of_getElem? hi)).advances maxRecoveryAttempts outside)

end Steps

theorem inv_run (maxRecoveryAttempts : ℤ) (as : List Event) :
    (as.foldl (Manager.step maxRecoveryAttempts) {}).Inv :=
  (always_of_step (fun _ a h => h.step maxRecoveryAttempts a) inv_empty).last

def Manager.activeCount (m : Manager) : ℕ := m.recoveries.countP Worker.active

/-! ## One recovery at a time -/

/-- At most one recovery of an execution is pending or running. -/
def Manager.Exclusive (m : Manager) : Prop :=
  ∀ (i j : ℕ) (r s : Worker), m.recoveries[i]? = some r → m.recoveries[j]? = some s →
    r.task.executionID = s.task.executionID → r.active = true → s.active = true → i = j

theorem exclusive_empty : Manager.Exclusive {} := by
  intro i j r s hr
  contradiction

/-- The task in the map is not pending, and it is the active recovery if there is one. -/
structure Manager.Clear (m : Manager) (id : String) : Prop where
  notPending : ∀ (i : ℕ) (r : Worker), m.recoveringExecutions.lookup id = some i →
    m.recoveries[i]? = some r → r.task.status ≠ .pending
  mapped : ∀ (i : ℕ) (r : Worker), m.recoveries[i]? = some r → r.task.executionID = id →
    r.active = true → m.recoveringExecutions.lookup id = some i

section Exclusion

variable {m : Manager}

theorem getElem?_settle_active {i j : ℕ} {r r' s : Worker} {e : Effect}
    (hi : m.recoveries[i]? = some r) (ha : Advances r r' e)
    (hs : (m.settle i (r', e)).recoveries[j]? = some s) (hactive : s.active = true) :
    ∃ s', m.recoveries[j]? = some s' ∧ s'.active = true ∧
      s'.task.executionID = s.task.executionID := by
  rcases getElem?_settle hs with ⟨rfl, rfl⟩ | ⟨-, hs⟩
  · exact ⟨r, hi, ha.active hactive, ha.executionID.symm⟩
  · exact ⟨s, hs, hactive, rfl⟩

theorem Manager.Exclusive.settle (h : m.Exclusive) {i : ℕ} {r r' : Worker} {e : Effect}
    (hi : m.recoveries[i]? = some r) (ha : Advances r r' e) : (m.settle i (r', e)).Exclusive := by
  intro j k s t hs ht hid hactive hactive'
  obtain ⟨s', hs', hsactive, hsid⟩ := getElem?_settle_active hi ha hs hactive
  obtain ⟨t', ht', htactive, htid⟩ := getElem?_settle_active hi ha ht hactive'
  exact h j k s' t' hs' ht' (hsid.trans (hid.trans htid.symm)) hsactive htactive

theorem getElem?_start {id : String} {strategy : RecoveryStrategy} {checkpoint : Checkpoint} {i : ℕ}
    {r : Worker} (hr : (m.start id strategy checkpoint).recoveries[i]? = some r) :
    m.recoveries[i]? = some r ∨
      (i = m.recoveries.length ∧ r.task.executionID = id ∧ r.place = .starting) := by
  rcases Nat.lt_trichotomy i m.recoveries.length with hlt | heq | hgt
  · rw [Manager.start, getElem?_append_left hlt] at hr
    exact .inl hr
  · rw [heq, Manager.start, getElem?_concat_length, Option.some.injEq] at hr
    rw [← hr]
    exact .inr ⟨heq, rfl, rfl⟩
  · rw [getElem?_eq_none (by simpa [Manager.start] using hgt)] at hr
    contradiction

theorem exclusive_start_iff (h : m.Exclusive) (id : String) (strategy : RecoveryStrategy)
    (checkpoint : Checkpoint) : (m.start id strategy checkpoint).Exclusive ↔
      ∀ (i : ℕ) (r : Worker), m.recoveries[i]? = some r → r.task.executionID = id →
        r.active = false := by
  have hnew : (m.start id strategy checkpoint).recoveries[m.recoveries.length]? =
      some { task := { executionID := id, checkpoint := checkpoint,
                       recoveryStrategy := strategy } } := getElem?_concat_length
  constructor
  · intro hexclusive i r hr hid
    rw [Bool.eq_false_iff]
    intro hactive
    obtain ⟨hlt, -⟩ := List.getElem?_eq_some_iff.mp hr
    have hr' : (m.start id strategy checkpoint).recoveries[i]? = some r := by
      rw [Manager.start, getElem?_append_left hlt, hr]
    have heq := hexclusive i _ r _ hr' hnew hid hactive rfl
    omega
  · intro hnone i j r s hr hs hid hactive hactive'
    rcases getElem?_start hr with hr | ⟨hi, hrid, -⟩ <;>
      rcases getElem?_start hs with hs | ⟨hj, hsid, -⟩
    · exact h i j r s hr hs hid hactive hactive'
    · rw [hnone i r hr (hid.trans hsid)] at hactive
      contradiction
    · rw [hnone j s hs (hid.symm.trans hrid)] at hactive'
      contradiction
    · rw [hi, hj]

theorem Manager.Inv.clear_iff (h : m.Inv) {id : String} (hid : m.recovering id = false) :
    m.Clear id ↔ ∀ (i : ℕ) (r : Worker), m.recoveries[i]? = some r → r.task.executionID = id →
      r.active = false := by
  constructor
  · intro hclear i r hr hrid
    rw [Bool.eq_false_iff]
    intro hactive
    have hmap := hclear.mapped i r hr hrid hactive
    have hpending := hclear.notPending i r hmap hr
    have hprogress : r.task.status ≠ .inProgress := by
      simpa [Manager.recovering, hmap, hr] using hid
    simp [Worker.active, hpending, hprogress] at hactive
  · intro hnone
    refine ⟨fun i r hmap hr hpending => ?_, fun i r hr hrid hactive => ?_⟩
    · obtain ⟨s, hs, hsid⟩ := h.mapped id i hmap
      rw [hr, Option.some.injEq] at hs
      subst hs
      have hinactive := hnone i r hr hsid
      simp [Worker.active, hpending] at hinactive
    · rw [hnone i r hr hrid] at hactive
      contradiction

/-- A start keeps recoveries exclusive exactly if no other one may be active. -/
theorem exclusive_step_iff (hinv : m.Inv) (h : m.Exclusive) (maxRecoveryAttempts : ℤ) (a : Event) :
    (m.step maxRecoveryAttempts a).Exclusive ↔ ∀ id, m.Starts id a → m.Clear id := by
  rcases step_cases maxRecoveryAttempts m a with ⟨hnot, heq⟩ |
    ⟨id, strategy, checkpoint, rfl, hrec, heq⟩ | ⟨i, outside, r, rfl, hi, heq⟩
  · rw [heq]
    exact iff_of_true h (fun id hid => absurd hid (hnot id))
  · rw [heq, exclusive_start_iff h, ← hinv.clear_iff hrec]
    constructor
    · rintro hclear id' ⟨rfl, -⟩
      exact hclear
    · intro hclear
      exact hclear id ⟨rfl, hrec⟩
  · rw [heq]
    have hsound := hinv.sound r (mem_of_getElem? hi)
    exact iff_of_true (h.settle hi (hsound.advances maxRecoveryAttempts outside))
      (fun id hid => hid.elim)

end Exclusion

/-- **One recovery at a time.** The runs in which no execution ever has two are those in which
every recovery that is started finds its execution clear. -/
theorem exclusive_iff (maxRecoveryAttempts : ℤ) (as : List Event) :
    Always (Manager.step maxRecoveryAttempts) Manager.Exclusive {} as ↔
      Along (Manager.step maxRecoveryAttempts) (fun m a => ∀ id, m.Starts id a → m.Clear id)
        {} as := by
  have hstep : ∀ (m : Manager) a, (m.Inv ∧ m.Exclusive) → (∀ id, m.Starts id a → m.Clear id) →
      (m.step maxRecoveryAttempts a).Inv ∧ (m.step maxRecoveryAttempts a).Exclusive :=
    fun m a h hclear => ⟨h.1.step maxRecoveryAttempts a,
      (exclusive_step_iff h.1 h.2 maxRecoveryAttempts a).mpr hclear⟩
  refine always_iff_along_of_strengthen (fun m h => h.2) hstep ?_ ⟨inv_empty, exclusive_empty⟩
  intro m a h hexclusive
  exact (exclusive_step_iff h.1 h.2 maxRecoveryAttempts a).mp hexclusive

/-! ### Enough

It is enough that a recovery is not started while the task in the map is pending, nor between the
completion of an earlier one and the removal of its task. -/

structure Manager.Settled (m : Manager) (id : String) : Prop where
  notPending : ∀ (i : ℕ) (r : Worker), m.recoveringExecutions.lookup id = some i →
    m.recoveries[i]? = some r → r.task.status ≠ .pending
  removed : ∀ (i : ℕ) (r : Worker), m.recoveries[i]? = some r → r.task.executionID = id →
    r.place ≠ .cleaning

/-- The active recoveries are in the map, and none is left to be removed beside one. -/
structure Manager.Tracked (m : Manager) : Prop where
  inv : m.Inv
  exclusive : m.Exclusive
  mapped : ∀ (i : ℕ) (r : Worker), m.recoveries[i]? = some r → r.active = true →
    m.recoveringExecutions.lookup r.task.executionID = some i
  apart : ∀ (i j : ℕ) (r s : Worker), m.recoveries[i]? = some r → m.recoveries[j]? = some s →
    r.task.executionID = s.task.executionID → r.place = .cleaning → s.active = false

section Enough

variable {m : Manager}

theorem tracked_empty : Manager.Tracked {} where
  inv := inv_empty
  exclusive := exclusive_empty
  mapped := by
    intro i r hr
    contradiction
  apart := by
    intro i j r s hr
    contradiction

theorem Manager.Tracked.clear (h : m.Tracked) {id : String} (hid : m.Settled id) : m.Clear id where
  notPending := hid.notPending
  mapped := by
    rintro i r hr rfl hactive
    exact h.mapped i r hr hactive

theorem Manager.Tracked.start (h : m.Tracked) {id : String} (hid : m.Settled id)
    (hrec : m.recovering id = false) (strategy : RecoveryStrategy) (checkpoint : Checkpoint) :
    (m.start id strategy checkpoint).Tracked where
  inv := h.inv.start id strategy checkpoint
  exclusive :=
    (exclusive_start_iff h.exclusive id strategy checkpoint).mpr
      ((h.inv.clear_iff hrec).mp (h.clear hid))
  mapped := by
    intro i r hr hactive
    rw [Manager.start, GoMap.lookup_insert]
    rcases getElem?_start hr with hr | ⟨rfl, hrid, -⟩
    · have hne : r.task.executionID ≠ id := by
        intro hrid
        rw [(h.inv.clear_iff hrec).mp (h.clear hid) i r hr hrid] at hactive
        contradiction
      rw [if_neg hne]
      exact h.mapped i r hr hactive
    · rw [if_pos hrid]
  apart := by
    intro i j r s hr hs hrs hplace
    rcases getElem?_start hr with hr | ⟨-, -, hstarting⟩
    · rcases getElem?_start hs with hs | ⟨-, hsid, -⟩
      · exact h.apart i j r s hr hs hrs hplace
      · exact absurd hplace (hid.removed i r hr (hrs.trans hsid))
    · rw [hstarting] at hplace
      contradiction

theorem Manager.Tracked.settle (h : m.Tracked) {i : ℕ} {r r' : Worker} {e : Effect}
    (hi : m.recoveries[i]? = some r) (ha : Advances r r' e) : (m.settle i (r', e)).Tracked where
  inv := h.inv.settle hi ha
  exclusive := h.exclusive.settle hi ha
  mapped := by
    intro j s hs hactive
    obtain ⟨s', hs', hsactive, hsid⟩ := getElem?_settle_active hi ha hs hactive
    have hmap := h.mapped j s' hs' hsactive
    rw [hsid] at hmap
    rw [Manager.settle]
    split
    · rename_i hdelete
      have hne : s.task.executionID ≠ r'.task.executionID := by
        intro heq
        have hinactive := h.apart i j r s' hi hs'
          (ha.executionID.symm.trans (heq.symm.trans hsid.symm)) (ha.delete hdelete)
        rw [hsactive] at hinactive
        contradiction
      rw [GoMap.lookup_erase, if_neg hne]
      exact hmap
    · exact hmap
  apart := by
    intro j k s t hs ht hst hplace
    rw [Bool.eq_false_iff]
    intro hactive
    obtain ⟨t', ht', htactive, htid⟩ := getElem?_settle_active hi ha ht hactive
    rcases getElem?_settle hs with ⟨rfl, rfl⟩ | ⟨-, hs⟩
    · -- The task that has just completed was the only active one.
      have hkj := h.exclusive k j t' r ht' hi
        (htid.trans (hst.symm.trans ha.executionID)) htactive (ha.cleaning hplace)
      rcases getElem?_settle ht with ⟨-, rfl⟩ | ⟨hne, -⟩
      · have hstatus := ha.sound
        simp only [Worker.Sound, hplace] at hstatus
        simp [Worker.active, hstatus] at hactive
      · exact hne hkj
    · have hinactive := h.apart j k s t' hs ht' (hst.trans htid.symm) hplace
      rw [htactive] at hinactive
      contradiction

end Enough

/-- A run that starts recoveries only of settled executions has one of each at a time. -/
theorem exclusive_of_settled {maxRecoveryAttempts : ℤ} {as : List Event}
    (h : Along (Manager.step maxRecoveryAttempts) (fun m a => ∀ id, m.Starts id a → m.Settled id)
      {} as) : Always (Manager.step maxRecoveryAttempts) Manager.Exclusive {} as := by
  have htracked : Always (Manager.step maxRecoveryAttempts) Manager.Tracked {} as := by
    refine h.always ?_ tracked_empty
    intro m a hm hsettled
    rcases step_cases maxRecoveryAttempts m a with ⟨-, heq⟩ |
      ⟨id, strategy, checkpoint, rfl, hrec, heq⟩ | ⟨i, outside, r, rfl, hi, heq⟩
    · rw [heq]
      exact hm
    · rw [heq]
      exact hm.start (hsettled id ⟨rfl, hrec⟩) hrec strategy checkpoint
    · rw [heq]
      exact hm.settle hi
        ((hm.inv.sound r (mem_of_getElem? hi)).advances maxRecoveryAttempts outside)
  exact fun pre hpre => (htracked pre hpre).exclusive

/-! ## The counters -/

/-- total started = successful + failed + still active -/
def Manager.Balanced (m : Manager) : Prop :=
  m.totalRecoveries = m.successfulRecoveries + m.failedRecoveries + m.activeCount

/-- **Started recoveries.** Each has succeeded, has failed or is still active. -/
theorem started_eq (maxRecoveryAttempts : ℤ) (as : List Event) :
    let m := as.foldl (Manager.step maxRecoveryAttempts) {}
    (m.recoveries.length : ℤ) = m.successfulRecoveries + m.failedRecoveries + m.activeCount := by
  intro m
  have hinv : m.Inv := inv_run maxRecoveryAttempts as
  have hsum : ∀ l : List Worker, (l.length : ℤ) = (l.map (Worker.is .completed)).sum +
      (l.map (Worker.is .failed)).sum + l.countP Worker.active := by
    intro l
    induction l with
    | nil => rfl
    | cons r l ih =>
      obtain ⟨⟨_, _, _, _, _, status⟩, _⟩ := r
      simp only [length_cons, map_cons, sum_cons, countP_cons, Nat.cast_add, ih, Worker.is,
        Worker.active]
      cases status <;> simp <;> ring
  rw [hinv.successful, hinv.failed]
  exact hsum m.recoveries

/-- **Counted statuses.** `totalRecoveries` counts every attempt that has ended twice and every one
that is running once. -/
theorem total_eq (maxRecoveryAttempts : ℤ) (as : List Event) :
    let m := as.foldl (Manager.step maxRecoveryAttempts) {}
    m.totalRecoveries = 2 * (m.successfulRecoveries + m.sum (fun r => r.task.attempts)) +
      m.sum (Worker.is .inProgress) :=
  (inv_run maxRecoveryAttempts as).total

/-- **The counters.** They agree throughout exactly if no recovery is ever started. -/
theorem balanced_iff (maxRecoveryAttempts : ℤ) (as : List Event) :
    Always (Manager.step maxRecoveryAttempts) Manager.Balanced {} as ↔
      Along (Manager.step maxRecoveryAttempts) (fun m a => ∀ id, ¬ m.Starts id a) {} as := by
  -- Until then the manager is as it was made.
  refine always_iff_along_of_strengthen (fun m (h : m = {}) => by rw [h]; rfl) ?_ ?_ rfl
  · rintro m a rfl hnot
    rcases step_cases maxRecoveryAttempts {} a with ⟨-, heq⟩ |
      ⟨id, strategy, checkpoint, rfl, hrec, -⟩ | ⟨i, outside, r, -, hi, -⟩
    · exact heq
    · exact absurd ⟨rfl, hrec⟩ (hnot id)
    · contradiction
  · rintro m a rfl hbalanced id hid
    rcases step_cases maxRecoveryAttempts {} a with ⟨hnot, -⟩ |
      ⟨id', strategy, checkpoint, rfl, hrec, heq⟩ | ⟨i, outside, r, -, hi, -⟩
    · exact hnot id hid
    · rw [heq] at hbalanced
      exact absurd hbalanced (by simp [Manager.Balanced, Manager.start, Manager.activeCount,
        Worker.active])
    · contradiction

/-- **Interleaved recoveries.** No execution has two recoveries at a time exactly if every one that
is started finds its execution clear, and the counters agree exactly if none is ever started. -/
theorem recoveries_right_iff (maxRecoveryAttempts : ℤ) (as : List Event) :
    (Always (Manager.step maxRecoveryAttempts) Manager.Exclusive {} as ↔
      Along (Manager.step maxRecoveryAttempts) (fun m a => ∀ id, m.Starts id a → m.Clear id)
        {} as) ∧
    (Always (Manager.step maxRecoveryAttempts) Manager.Balanced {} as ↔
      Along (Manager.step maxRecoveryAttempts) (fun m a => ∀ id, ¬ m.Starts id a) {} as) :=
  ⟨exclusive_iff maxRecoveryAttempts as, balanced_iff maxRecoveryAttempts as⟩

/-! ## Runs -/

def call : Event := .recoverExecution "e" .resume (.ok {})

def after (as : List Event) : Manager := as.foldl (Manager.step 3) {}

/-- Two calls in a row start two recoveries. One between the completion of another and the removal
of its task is lost from the map, and a third starts beside it. One that succeeds is counted twice.
-/
theorem two_recoveries : ¬ (after [call, call]).Exclusive ∧
    ¬ (after [call, .next 0 {}, .next 0 {}, call, .next 0 {}, .next 1 {}, call]).Exclusive ∧
    (after [call, .next 0 {}, .next 0 {}, .next 0 {}]).totalRecoveries = 2 ∧
    ¬ (after [call, .next 0 {}, .next 0 {}, .next 0 {}]).Balanced := by
  refine ⟨fun h => ?_, fun h => ?_, by decide, ?_⟩
  · exact absurd (h 0 1 _ _ rfl rfl rfl rfl rfl) (by decide)
  · exact absurd (h 1 2 _ _ rfl rfl rfl rfl rfl) (by decide)
  · unfold Manager.Balanced
    decide

end LinkFlow.Recovery
