/-
Leader election between the instances of the cron scheduler (`tryBecomeLeader` in
`internal/schedule/app/scheduler/cron.go`).

An instance takes the key `scheduler:leader` with `SetNX` for ten seconds and leads if the
command set it. The value it writes is a fresh UUID that nothing reads again, so that an instance
cannot tell its own key from that of another one: the first call that finds the key there ends
the caller's leadership, whoever set it. A call has two parts, the command in Redis and what
the instance does with the answer, and other instances may act between them.

While the key is there no other instance can win it. So the election is right as long as every
command that reaches Redis finds the key of whoever leads, and does not come from the leader
itself; and a command for which this is not so can be followed by answers that make it wrong
(`exclusive_and_stable_iff`).
-/
import LinkFlow.CronScheduler
import LinkFlow.Lib.Expiring

set_option autoImplicit false

namespace LinkFlow.Cron

open Expiring

/-! ## The instances -/

/-- An answer of `SetNX` not acted on yet. `held` is not in the program: the caller led and the
unexpired key was its own. -/
structure Answer where
  (ok held : Bool)
deriving DecidableEq, Repr

/-- An instance, with its call of `tryBecomeLeader` if there is one; `blocked` is a call that
waits for a lock which it holds itself. -/
structure Instance where
  scheduler : CronScheduler
  answer : Option Answer := none
  blocked : Bool := false

/-- What a call does with the answer of `SetNX`; `active` is what `GetActive` returns. To clear the
map the call takes the lock and calls `removeFromCron`, which takes it again. -/
def Instance.act [Parsers] (x : Instance) (ok : Bool) (active : Except String (List Schedule)) :
    Instance :=
  if ok = true ∧ x.scheduler.isLeader = false then
    let leader := { x.scheduler with isLeader := true }
    match active with
    | .ok schedules => { x with scheduler := leader.loadSchedules schedules, answer := none }
    | .error _ => { x with scheduler := leader, answer := none }
  else if ok = false ∧ x.scheduler.isLeader = true then
    { scheduler := { x.scheduler with isLeader := false }, answer := none,
      blocked := x.scheduler.schedules.keys ≠ [] }
  else { x with answer := none }

/-! ## The cluster -/

/-- Instances that share one Redis; a value stands for the UUID of the instance that wrote it.
Times are nanoseconds. -/
structure Cluster (I : Type) where
  now : ℕ := 0
  redis : Store String I ℕ := ∅
  instances : I → Instance

/-- The lifetime of the key, `10*time.Second`. -/
@[irreducible] def leaderTTL : ℕ := 10 * 1000000000

theorem leaderTTL_pos : 0 < leaderTTL := by
  unfold leaderTTL
  norm_num

def leaderKey : String := "scheduler:leader"

/-- What happens in the cluster: time passes, the `SetNX` of an instance is executed or fails,
and an instance goes on with the answer. -/
inductive Event (I : Type)
  | wait (d : ℕ)
  | setNX (i : I) (fails : Bool)
  | proceed (i : I) (active : Except String (List Schedule))

namespace Cluster

variable {I : Type} [DecidableEq I]

def leads (c : Cluster I) (i : I) : Bool := (c.instances i).scheduler.isLeader

/-- The key is there and `i` has set it. -/
def holdsKey (c : Cluster I) (i : I) : Bool :=
  (c.redis.lookup leaderKey).any (fun e => Store.live c.now e && e.value = i)

def put (c : Cluster I) (i : I) (x : Instance) : Cluster I :=
  { c with instances := Function.update c.instances i x }

/-- `tryBecomeLeader` up to the answer; an error ends the call. -/
def setNX (c : Cluster I) (i : I) (fails : Bool) : Cluster I :=
  let x := c.instances i
  if x.blocked = true ∨ x.answer.isSome = true ∨ fails = true then c
  else
    let r := c.redis.setNX c.now leaderKey i (c.now + leaderTTL)
    { c with redis := r.2 }.put i
      { x with answer := some { ok := r.1, held := c.leads i && c.holdsKey i } }

/-- `tryBecomeLeader` from the answer on. -/
def proceed [Parsers] (c : Cluster I) (i : I) (active : Except String (List Schedule)) :
    Cluster I :=
  match (c.instances i).answer with
  | none => c
  | some answer => c.put i ((c.instances i).act answer.ok active)

def step [Parsers] (c : Cluster I) : Event I → Cluster I
  | .wait d => { c with now := c.now + d }
  | .setNX i fails => c.setNX i fails
  | .proceed i active => c.proceed i active

/-- The cluster when its instances start: none leads. -/
def start (now : ℕ) (redis : Store String I ℕ) (schedulers : I → CronScheduler) : Cluster I where
  now := now
  redis := redis
  instances i := { scheduler := { schedulers i with isLeader := false } }

/-! ## What an election is for -/

/-- At most one instance considers itself leader. -/
def Exclusive (c : Cluster I) : Prop := ∀ i j, c.leads i = true → c.leads j = true → i = j

/-- A leader that held the unexpired key when its call asked for it is still leader after the
call. -/
def Stable [Parsers] (c : Cluster I) : Event I → Prop
  | .proceed i active => ∀ answer ∈ (c.instances i).answer, answer.held = true →
      (c.proceed i active).leads i = true
  | _ => True

/-- At most one leader at every moment of a run, and every leader with the unexpired key stays
leader. -/
def Right [Parsers] (c : Cluster I) (es : List (Event I)) : Prop :=
  Runs.Always step Exclusive c es ∧ Runs.Along step Stable c es

/-! ## The key and the calls -/

/-- The instance leads, or will when it reads the answer that it has got. -/
def claims (c : Cluster I) (i : I) : Bool := c.leads i || (c.instances i).answer.any Answer.ok

/-- The command of the instance reaches Redis. -/
def Reaches (c : Cluster I) (i : I) (fails : Bool) : Prop :=
  (c.instances i).blocked = false ∧ (c.instances i).answer = none ∧ fails = false

/-- A command that reaches Redis does not come from a leader whose key has not expired, and any
other instance that leads, or has won the key and does not know it yet, has a key that has not
expired. -/
def Keyed (c : Cluster I) : Event I → Prop
  | .setNX i fails => c.Reaches i fails → (c.leads i && c.holdsKey i) = false ∧
      ∀ j, j ≠ i → c.claims j = true → c.holdsKey j = true
  | _ => True

end Cluster

/-! ## One step -/

theorem Instance.isLeader_act [Parsers] (x : Instance) (ok : Bool)
    (active : Except String (List Schedule)) : (x.act ok active).scheduler.isLeader = ok := by
  rw [act]
  split_ifs with hwon hlost
  · cases active with
    | ok schedules => exact (CronScheduler.isLeader_loadSchedules _ _).trans hwon.1.symm
    | error err => exact hwon.1.symm
  · exact hlost.1.symm
  · cases ok <;> simp_all

theorem Instance.answer_act [Parsers] (x : Instance) (ok : Bool)
    (active : Except String (List Schedule)) : (x.act ok active).answer = none := by
  rw [act]
  split_ifs
  · cases active <;> rfl
  · rfl
  · rfl

namespace Cluster

section Steps

variable {I : Type} [DecidableEq I] (c : Cluster I) (i j : I)

theorem instances_put (x : Instance) :
    (c.put i x).instances j = if j = i then x else c.instances j :=
  Function.update_apply c.instances i x j

theorem leads_setNX (fails : Bool) : (c.setNX i fails).leads j = c.leads j := by
  rw [setNX]
  split_ifs
  · rfl
  rw [leads, instances_put]
  split_ifs with hj
  · rw [hj, leads]
  · rfl

theorem leads_proceed [Parsers] {answer : Answer} (h : (c.instances i).answer = some answer)
    (active : Except String (List Schedule)) :
    (c.proceed i active).leads j = if j = i then answer.ok else c.leads j := by
  simp only [proceed, h]
  rw [leads, instances_put]
  split_ifs
  · exact Instance.isLeader_act _ _ _
  · rfl

theorem proceed_of_none [Parsers] (h : (c.instances i).answer = none)
    (active : Except String (List Schedule)) : c.proceed i active = c := by
  simp only [proceed, h]

end Steps

variable {I : Type} [DecidableEq I]

theorem holdsKey_iff {c : Cluster I} {i : I} : c.holdsKey i = true ↔
    ∃ e, c.redis.lookup leaderKey = some e ∧ Store.live c.now e = true ∧ e.value = i := by
  rw [holdsKey, Option.any_eq_true]
  simp only [Bool.and_eq_true, decide_eq_true_eq]

omit [DecidableEq I] in
theorem has_iff {c : Cluster I} : c.redis.has c.now leaderKey = true ↔
    ∃ e, c.redis.lookup leaderKey = some e ∧ Store.live c.now e = true := by
  rw [Store.has, Option.any_eq_true]

theorem has_of_holdsKey {c : Cluster I} {i : I} (h : c.holdsKey i = true) :
    c.redis.has c.now leaderKey = true := by
  obtain ⟨e, he, hlive, -⟩ := holdsKey_iff.mp h
  exact has_iff.mpr ⟨e, he, hlive⟩

omit [DecidableEq I] in
/-- A key that is there later is there now. -/
theorem live_of_le {now later : ℕ} (hle : now ≤ later) {e : Expiring.Entry I ℕ}
    (h : Store.live later e = true) : Store.live now e = true := by
  rw [Store.live, Option.all_eq_true] at h ⊢
  intro deadline hdeadline
  have hlt := of_decide_eq_true (h deadline hdeadline)
  exact decide_eq_true (hle.trans_lt hlt)

omit [DecidableEq I] in
theorem live_leaderTTL (now : ℕ) (i : I) :
    Store.live now ⟨i, some (now + leaderTTL)⟩ = true := by
  rw [Store.live, Option.all_some, decide_eq_true_eq]
  exact Nat.lt_add_of_pos_right leaderTTL_pos

theorem setNX_of_not_reaches {c : Cluster I} {i : I} {fails : Bool} (h : ¬ c.Reaches i fails) :
    c.setNX i fails = c := by
  rw [setNX, if_pos]
  by_contra hnot
  push Not at hnot
  exact h ⟨by simpa using hnot.1, by simpa using hnot.2.1, by simpa using hnot.2.2⟩

/-- The answer to a command that reaches Redis: whether the key was not there. -/
theorem setNX_of_reaches {c : Cluster I} {i : I} {fails : Bool} (h : c.Reaches i fails) :
    c.setNX i fails =
      { c with redis := (c.redis.setNX c.now leaderKey i (c.now + leaderTTL)).2 }.put i
        { c.instances i with answer := some { ok := !c.redis.has c.now leaderKey,
                                              held := c.leads i && c.holdsKey i } } := by
  obtain ⟨hblocked, hanswer, rfl⟩ := h
  rw [setNX, if_neg (by simp [hblocked, hanswer])]
  cases hhas : c.redis.has c.now leaderKey <;> simp [Store.setNX, hhas]

/-- What holds in the runs whose commands are keyed: at most one instance leads or will, the key is
its own if it is there, and no leader that held it was answered. -/
structure Inv (c : Cluster I) : Prop where
  one : ∀ i j, c.claims i = true → c.claims j = true → i = j
  key : ∀ i, c.claims i = true → c.redis.has c.now leaderKey = true → c.holdsKey i = true
  held : ∀ i, ∀ answer ∈ (c.instances i).answer, answer.held = false

section Runs

variable [Parsers]

theorem Inv.wait {c : Cluster I} (h : c.Inv) (d : ℕ) : (c.step (.wait d)).Inv := by
  refine ⟨h.one, fun i hi hhas => ?_, h.held⟩
  obtain ⟨e, he, hlive⟩ := has_iff.mp hhas
  obtain ⟨e', he', -, hvalue⟩ :=
    holdsKey_iff.mp (h.key i hi (has_iff.mpr ⟨e, he, live_of_le (Nat.le_add_right _ _) hlive⟩))
  obtain rfl := Option.some.inj (he.symm.trans he')
  exact holdsKey_iff.mpr ⟨e, he, hlive, hvalue⟩

/-- Going on with an answer, an instance claims no more than before. -/
theorem claims_of_proceed {c : Cluster I} {i j : I} {active : Except String (List Schedule)}
    (h : (c.proceed i active).claims j = true) : c.claims j = true := by
  cases ha : (c.instances i).answer with
  | none => rwa [c.proceed_of_none i ha active] at h
  | some answer =>
    rw [claims, c.leads_proceed i j ha active] at h
    simp only [proceed, ha] at h
    rw [instances_put] at h
    rw [claims]
    split_ifs at h with hj
    · subst hj
      rw [Instance.answer_act] at h
      simp only [Option.any_none, Bool.or_false] at h
      simp [ha, h]
    · exact h

/-- An instance that reads its answer claims no more than before. -/
theorem Inv.proceed {c : Cluster I} (h : c.Inv) (i : I) (active : Except String (List Schedule)) :
    (c.step (.proceed i active)).Inv := by
  have hredis : (c.proceed i active).redis = c.redis ∧ (c.proceed i active).now = c.now := by
    rw [Cluster.proceed]
    split <;> exact ⟨rfl, rfl⟩
  refine ⟨fun j k hj hk => h.one j k (claims_of_proceed hj) (claims_of_proceed hk),
    fun j hj hhas => ?_, fun j answer hanswer => ?_⟩
  · rw [step, holdsKey, hredis.1, hredis.2] at *
    exact h.key j (claims_of_proceed hj) hhas
  · rw [step, Cluster.proceed] at hanswer
    split at hanswer
    · exact h.held j answer hanswer
    · rw [instances_put] at hanswer
      split_ifs at hanswer with hj
      · rw [Instance.answer_act] at hanswer
        cases hanswer
      · exact h.held j answer hanswer

omit [Parsers] in
/-- What a command that reaches Redis changes in the claims: those of the caller. -/
theorem claims_setNX {c : Cluster I} {i j : I} {fails : Bool} (h : c.Reaches i fails) :
    (c.setNX i fails).claims j =
      if j = i then c.leads i || !c.redis.has c.now leaderKey else c.claims j := by
  rw [claims, leads_setNX, setNX_of_reaches h, instances_put]
  split_ifs with hj
  · rw [hj]
    rfl
  · rfl

/-- A keyed command is answered with the key only if nobody else claims it. -/
theorem Inv.setNX {c : Cluster I} (h : c.Inv) (i : I) (fails : Bool)
    (hkeyed : c.Keyed (.setNX i fails)) : (c.step (.setNX i fails)).Inv := by
  by_cases hreaches : c.Reaches i fails
  case neg => rwa [step, setNX_of_not_reaches hreaches]
  obtain ⟨hcaller, hothers⟩ := hkeyed hreaches
  rw [step]
  have hheld : ∀ j, ∀ answer ∈ ((c.setNX i fails).instances j).answer, answer.held = false := by
    intro j answer hanswer
    rw [setNX_of_reaches hreaches, instances_put] at hanswer
    split_ifs at hanswer with hj
    · cases hanswer
      exact hcaller
    · exact h.held j answer hanswer
  cases hhas : c.redis.has c.now leaderKey with
  | true =>
    -- the command is refused: nothing is claimed, and the key stays
    have hclaims : ∀ j, (c.setNX i fails).claims j = true → c.claims j = true := by
      intro j hj
      rw [claims_setNX hreaches, hhas] at hj
      split_ifs at hj with hji
      · rw [claims, hji]
        simpa using Or.inl (by simpa using hj)
      · exact hj
    refine ⟨fun j k hj hk => h.one j k (hclaims j hj) (hclaims k hk), fun j hj _ => ?_, hheld⟩
    have hredis := h.key j (hclaims j hj) hhas
    rw [setNX_of_reaches hreaches, Store.setNX, if_pos hhas]
    exact hredis
  | false =>
    -- the command sets the key: no other instance has one
    have hclaims : ∀ j, (c.setNX i fails).claims j = true → j = i := by
      intro j hj
      by_contra hji
      rw [claims_setNX hreaches, if_neg hji] at hj
      have := has_of_holdsKey (hothers j hji hj)
      rw [hhas] at this
      cases this
    refine ⟨fun j k hj hk => (hclaims j hj).trans (hclaims k hk).symm, fun j hj _ => ?_, hheld⟩
    rw [hclaims j hj, setNX_of_reaches hreaches, Store.setNX, if_neg (by simp [hhas])]
    exact holdsKey_iff.mpr ⟨_, Store.lookup_set _ _ _, live_leaderTTL c.now i, rfl⟩

/-- Keyed steps keep at most one claim, with the key. -/
theorem Inv.step {c : Cluster I} {e : Event I} (h : c.Inv) (hkeyed : c.Keyed e) :
    (c.step e).Inv := by
  cases e with
  | wait d => exact h.wait d
  | setNX i fails => exact h.setNX i fails hkeyed
  | proceed i active => exact h.proceed i active

omit [Parsers] in
theorem Inv.exclusive {c : Cluster I} (h : c.Inv) : c.Exclusive :=
  fun i j hi hj => h.one i j (by simp [claims, hi]) (by simp [claims, hj])

theorem Inv.stable {c : Cluster I} (h : c.Inv) (e : Event I) : c.Stable e := by
  cases e with
  | wait d => trivial
  | setNX i fails => trivial
  | proceed i active =>
    intro answer hanswer hheld
    rw [h.held i answer hanswer] at hheld
    cases hheld

omit [Parsers] in
theorem inv_start (now : ℕ) (redis : Store String I ℕ) (schedulers : I → CronScheduler) :
    (start now redis schedulers).Inv :=
  ⟨fun i j hi => by simp [claims, leads, start] at hi,
    fun i hi => by simp [claims, leads, start] at hi, fun i answer h => by cases h⟩

/-! ## Whole runs -/

theorem right_of_keyed {c : Cluster I} {es : List (Event I)} (h : c.Inv)
    (hkeyed : Runs.Along step Keyed c es) : c.Right es := by
  have hinv : Runs.Always step Inv c es := hkeyed.always (fun c e hc he => hc.step he) h
  refine ⟨fun pre hpre => (hinv pre hpre).exclusive, Runs.along_iff.mpr fun pre e post heq => ?_⟩
  exact (hinv pre ⟨e :: post, heq.symm⟩).stable e

/-- The end of a run that is right is right. -/
theorem Right.of_append {c : Cluster I} {es es' : List (Event I)} (h : c.Right (es ++ es')) :
    (es.foldl step c).Right es' := by
  refine ⟨fun pre hpre => ?_, (Runs.along_append.mp h.2).2⟩
  rw [← List.foldl_append]
  exact h.1 (es ++ pre) ((List.prefix_append_right_inj es).mpr hpre)

/-- The instances that go on with the answers they have got. -/
def goOn (acts : List (I × Except String (List Schedule))) : List (Event I) :=
  acts.map (fun a => .proceed a.1 a.2)

theorem along_goOn (c : Cluster I) (acts : List (I × Except String (List Schedule))) :
    Runs.Along step Keyed c (goOn acts) := by
  refine Runs.along_iff.mpr fun pre e post heq => ?_
  have hmem : e ∈ goOn acts := heq ▸ List.mem_append_right pre List.mem_cons_self
  obtain ⟨a, -, rfl⟩ := List.mem_map.mp hmem
  trivial

section Unkeyed

variable {c : Cluster I} {i j : I} {fails : Bool}

omit [Parsers] in
theorem answer_setNX (h : c.Reaches i fails) : ((c.setNX i fails).instances i).answer =
    some { ok := !c.redis.has c.now leaderKey, held := c.leads i && c.holdsKey i } := by
  rw [setNX_of_reaches h, instances_put, if_pos rfl]

omit [Parsers] in
theorem answer_setNX_ne (hj : j ≠ i) :
    ((c.setNX i fails).instances j).answer = (c.instances j).answer := by
  by_cases h : c.Reaches i fails
  · rw [setNX_of_reaches h, instances_put, if_neg hj]
  · rw [setNX_of_not_reaches h]

/-- A leader with the key steps down when it reads the answer. -/
theorem not_right_of_held (h : c.Reaches i fails) (hheld : (c.leads i && c.holdsKey i) = true) :
    ¬ c.Right [.setNX i fails, .proceed i (.ok [])] := by
  intro hright
  have hstays := hright.2.2.1 _ (answer_setNX h) hheld
  have hhas := has_of_holdsKey (Bool.and_eq_true_iff.mp hheld).2
  rw [step, leads_proceed _ _ _ (answer_setNX h), if_pos rfl, hhas] at hstays
  cases hstays

/-- Where the key has expired the caller wins it, whoever else leads or will. -/
theorem not_right_of_expired (h : c.Reaches i fails)
    (hhas : c.redis.has c.now leaderKey = false) (hj : j ≠ i) (hclaims : c.claims j = true) :
    ∃ acts, ¬ c.Right (.setNX i fails :: goOn acts) := by
  have hwon : ∀ k, ((c.setNX i fails).proceed i (.ok [])).leads k =
      if k = i then true else c.leads k := by
    intro k
    rw [leads_proceed _ _ _ (answer_setNX h), hhas, leads_setNX]
    rfl
  by_cases hleads : c.leads j = true
  · refine ⟨[(i, .ok [])], fun hright => hj (hright.1.last j i ?_ ?_)⟩
    · exact (hwon j).trans (by rw [if_neg hj, hleads])
    · exact (hwon i).trans (if_pos rfl)
  · -- the other instance has an answer to read
    rw [claims, Bool.eq_false_iff.mpr hleads, Bool.false_or, Option.any_eq_true] at hclaims
    obtain ⟨answer, hanswer, hok⟩ := hclaims
    have hpending : (((c.setNX i fails).proceed i (.ok [])).instances j).answer = some answer := by
      rw [proceed, answer_setNX h]
      dsimp only
      rw [instances_put, if_neg hj, answer_setNX_ne hj, hanswer]
    have hboth := fun k =>
      leads_proceed ((c.setNX i fails).proceed i (.ok [])) j k hpending (.ok [])
    refine ⟨[(i, .ok []), (j, .ok [])], fun hright => hj (hright.1.last j i ?_ ?_)⟩
    · exact (hboth j).trans (by rw [if_pos rfl, hok])
    · exact (hboth i).trans (by rw [if_neg hj.symm, hwon, if_pos rfl])

/-- A command that is not keyed can be followed by answers that are read such that a leader with the
key steps down, or two instances lead. -/
theorem not_right_of_not_keyed (hinv : c.Inv) {e : Event I} (hnot : ¬ c.Keyed e) :
    ∃ acts, ¬ c.Right (e :: goOn acts) := by
  cases e with
  | wait d => exact absurd trivial hnot
  | proceed i active => exact absurd trivial hnot
  | setNX i fails =>
    rw [Keyed] at hnot
    push Not at hnot
    obtain ⟨hreaches, hcommand⟩ := hnot
    by_cases hheld : (c.leads i && c.holdsKey i) = true
    · exact ⟨[(i, .ok [])], not_right_of_held hreaches hheld⟩
    · obtain ⟨j, hj, hclaims, hkey⟩ := hcommand (Bool.eq_false_iff.mpr hheld)
      refine not_right_of_expired hreaches ?_ hj hclaims
      by_contra hhas
      exact hkey (hinv.key j hclaims (by simpa using hhas))

end Unkeyed

/-- **Leader election.** Any number of instances that call `tryBecomeLeader` again and again, whose
calls may fail, have at most one leader at every moment, and a leader with the unexpired key stays
leader, whichever answers are read after any of the steps, exactly if every command that reaches
Redis is keyed. -/
theorem exclusive_and_stable_iff (now : ℕ) (redis : Store String I ℕ)
    (schedulers : I → CronScheduler) (es : List (Event I)) :
    (∀ pre, pre <+: es → ∀ acts, (start now redis schedulers).Right (pre ++ goOn acts)) ↔
      Runs.Along step Keyed (start now redis schedulers) es := by
  have hinv := inv_start now redis schedulers
  constructor
  · intro hright
    induction es using List.reverseRecOn with
    | nil => trivial
    | append_singleton es e ih =>
      have hkeyed := ih (fun pre hpre => hright pre (hpre.trans (List.prefix_append es [e])))
      have hstate := (hkeyed.always (fun c e hc he => hc.step he) hinv).last
      refine Runs.along_append.mpr ⟨hkeyed, ?_, trivial⟩
      by_contra hnot
      obtain ⟨acts, hwrong⟩ := not_right_of_not_keyed hstate hnot
      refine hwrong (Right.of_append ?_)
      rw [← List.singleton_append, ← List.append_assoc]
      exact hright _ (List.prefix_refl _) acts
  · intro hkeyed pre hpre acts
    obtain ⟨post, rfl⟩ := hpre
    exact right_of_keyed hinv
      (Runs.along_append.mpr ⟨(Runs.along_append.mp hkeyed).1, along_goOn _ acts⟩)

end Runs

/-- Two instances, neither of which leads, and no key. -/
def pair : Cluster Bool := start 0 ∅ (fun _ => {})

/-- An instance calls `tryBecomeLeader`, and Redis answers. -/
def calls (i : Bool) : List (Event Bool) := [.setNX i false, .proceed i (.ok [])]

/-- The leader's second call ends its leadership although the key is its own; and if it fails, the
key expires and both lead. -/
theorem election_fails :
    ¬ Runs.Along step Stable pair (calls true ++ .wait 5000000000 :: calls true) ∧
      ¬ Runs.Always step Exclusive pair (calls true ++ .wait 5000000000 :: .setNX true true ::
        .wait 5000000000 :: calls false) := by
  constructor
  · intro h
    have hlast := Runs.along_iff.mp h (calls true ++ [.wait 5000000000, .setNX true false])
      (.proceed true (.ok [])) [] rfl
    exact absurd (hlast ⟨false, true⟩ (by decide +kernel) rfl) (by decide +kernel)
  · intro h
    exact absurd (h.last true false (by decide +kernel) (by decide +kernel)) (by decide)

end Cluster

end LinkFlow.Cron
