/-
What becomes of a request in the queue manager.

A request that `Enqueue` has accepted is in a queue, in the hands of the `processNextItem`
call that took it, with the worker pool, or reported. `tally` counts these places; along a
run it agrees with the number of times a request was accepted until a request is dropped,
which happens where `processNextItem` re-queues what the pool did not take and `Enqueue`
refuses it (`step_balance`). A failed request is in the dead letter queue exactly if its
record was still in Redis when the failure was reported; but `Dequeue` deletes that record
(`never_lost_iff`).
-/
import LinkFlow.QueueManager
import LinkFlow.Lib.Runs

set_option autoImplicit false

namespace LinkFlow.Queue.World

open List Option

variable {D : Type} {js : Json D} {ρ : RangeOrder} {w : World D}

/-! ## Where a request is -/

def held (w : World D) : List ExecutionRequest := w.calls.filterMap Call.holds

/-- In how many places a request is: queued, in the hands of a call, with the pool, or
reported. -/
def tally (w : World D) (r : ExecutionRequest) : ℕ :=
  w.qm.requests.count r + w.held.count r + w.pool.count r + w.finished.count r

def Conserved (w : World D) : Prop := ∀ r, w.accepted.count r = w.tally r

/-- `Enqueue` refuses at this section. -/
def refuses (w : World D) : Call → Bool
  | .enqueue _ _ => w.qm.stopped
  | .running _ _ => w.qm.maxQueueSize ≤ w.qm.getQueueSize
  | _ => false

/-- The request that a section loses: a re-queued one that `Enqueue` refuses. -/
def dropped (w : World D) : Action → Option ExecutionRequest
  | .advance c _ _ => if c ∈ w.calls ∧ w.refuses c = true then c.holds else none
  | _ => none

theorem count_held_call (c : Call) (r : ExecutionRequest) :
    (w.call c).held.count r = w.held.count r + c.holds.toList.count r := by
  have hlist : (w.call c).held = w.held ++ c.holds.toList := by
    rw [held, held, call_calls, filterMap_append]
    cases hc : c.holds with
    | none => simp [hc]
    | some request => simp [hc]
  rw [hlist, count_append]

variable {c : Call} {w' : World D} {id : String}

theorem count_held_erase (h : c ∈ w.calls) (r : ExecutionRequest) :
    (w.leave c).held.count r + c.holds.toList.count r = w.held.count r := by
  have hperm : w.held.Perm (c.holds.toList ++ (w.calls.erase c).filterMap Call.holds) := by
    refine ((perm_cons_erase h).filterMap Call.holds).trans ?_
    cases hc : c.holds with
    | none => simp [hc]
    | some request => simp [hc]
  rw [hperm.count_eq, count_append, held, leave_calls]
  omega

theorem tally_call (c : Call) (r : ExecutionRequest) :
    (w.call c).tally r = w.tally r + c.holds.toList.count r := by
  rw [tally, tally, count_held_call, call_qm, call_pool, call_finished]
  omega

theorem tally_erase (h : c ∈ w.calls) (r : ExecutionRequest) :
    (w.leave c).tally r + c.holds.toList.count r = w.tally r := by
  have := count_held_erase h r
  rw [tally, tally, leave_qm, leave_pool, leave_finished]
  omega

theorem count_cons_eq (request r : ExecutionRequest) (l : List ExecutionRequest) :
    (request :: l).count r = l.count r + [request].count r := by
  rw [count_cons, count_singleton]

theorem count_insert (now : ℤ) (request : ExecutionRequest) (qm : QueueManager)
    (r : ExecutionRequest) :
    (qm.insert now request).2.requests.count r = qm.requests.count r + [request].count r := by
  rw [(qm.requests_insert now request).count_eq, count_cons_eq]

theorem count_dequeue {qm qm' : QueueManager} {request : ExecutionRequest}
    (h : qm.dequeue = .ok (request, qm')) (r : ExecutionRequest) :
    qm'.requests.count r + [request].count r = qm.requests.count r := by
  rw [(QueueManager.dequeue_eq_ok h).1.count_eq]
  exact (count_cons_eq request r qm'.requests).symm

theorem refuses_leave (c : Call) : (w.leave c).refuses c = w.refuses c := by
  cases c with
  | enqueue request requeue | running request requeue | admitted request requeue => rfl
  | dequeued request | failing id | found id request => rfl

theorem resume_of_refuses (js : Json D) (h : w.refuses c = true) (now : ℤ) (submitted : Bool) :
    resume js now submitted w c = w := by
  cases c with
  | enqueue request requeue => exact if_pos h
  | running request requeue => exact if_pos (of_decide_eq_true h)
  | admitted request requeue | dequeued request | failing id | found id request => cases h

theorem tally_returnFailure (w : World D) (id : String) (r : ExecutionRequest) :
    (w.returnFailure id).tally r = w.tally r := by
  rw [tally, tally, held, held, returnFailure_qm, returnFailure_calls, returnFailure_pool,
    returnFailure_finished]

/-- A section that refuses nothing counts its request once, before and after. -/
theorem resume_balance (js : Json D) (h : w.refuses c = false) (now : ℤ) (submitted : Bool)
    (r : ExecutionRequest) :
    (resume js now submitted w c).accepted.count r + w.tally r + c.holds.toList.count r =
      w.accepted.count r + (resume js now submitted w c).tally r := by
  cases c with
  | enqueue request requeue =>
    have hstop : ¬ w.qm.stopped = true := by
      rw [refuses] at h
      rw [h]
      exact Bool.false_ne_true
    rw [resume, if_neg hstop, tally_call, call_accepted, Nat.add_assoc]
    cases requeue with
    | true => rfl
    | false => rfl
  | running request requeue =>
    rw [resume, if_neg (of_decide_eq_false h), tally_call, call_accepted, Nat.add_assoc]
    cases requeue with
    | true => rfl
    | false => rfl
  | admitted request requeue =>
    have hcount := count_insert now request w.qm r
    rw [resume, tally, tally, held, held]
    simp only [spawn_accepted, spawn_qm, spawn_calls, spawn_pool, spawn_finished, hcount]
    cases requeue with
    | true =>
      simp only [Call.holds, toList_some, if_true]
      omega
    | false =>
      simp only [Call.holds, toList_none, count_nil, if_neg Bool.false_ne_true, count_append]
      omega
  | dequeued request =>
    rw [resume]
    split_ifs
    · simp only [tally, held, Call.holds, toList_some, count_append]
      omega
    · rw [tally_call, call_accepted, Nat.add_assoc]
      rfl
  | failing executionID =>
    rw [resume]
    split
    · rw [tally_call, call_accepted, Nat.add_assoc]
      rfl
    · rw [tally_returnFailure, returnFailure_accepted]
      rfl
  | found executionID request =>
    rw [resume]
    split
    · rw [tally_returnFailure, returnFailure_accepted]
      rfl
    · rfl

theorem tally_dequeue {request : ExecutionRequest} (h : w.dequeue = (some request, w'))
    (r : ExecutionRequest) :
    w'.tally r + [request].count r = w.tally r ∧ w'.accepted = w.accepted := by
  rw [dequeue] at h
  split at h
  · cases h
  rename_i request' qm hdeq
  obtain ⟨hrequest, rfl⟩ := Prod.mk.inj h
  rw [some_inj] at hrequest
  subst hrequest
  have hcount := count_dequeue hdeq r
  refine ⟨?_, by rw [spawn_accepted]⟩
  simp only [tally, held, spawn_qm, spawn_calls, spawn_pool, spawn_finished]
  omega

theorem dequeue_none (h : w.dequeue = (none, w')) : w' = w := by
  rw [dequeue] at h
  split at h
  · exact (Prod.mk.inj h).2.symm
  · cases h

theorem tally_finish (w : World D) (executionID : String) (r : ExecutionRequest) :
    (w.finish executionID).tally r = w.tally r := by
  rw [finish]
  split
  · rename_i request hfind
    have hcount := (perm_cons_erase (mem_of_find?_eq_some hfind)).count_eq r
    rw [count_cons_eq] at hcount
    simp only [tally, held, count_append]
    omega
  · rfl

/-- **The balance of one section.** What is accepted comes into a place, what moves keeps its
count, and only a refused request that was re-queued goes. -/
theorem step_balance (js : Json D) (ρ : RangeOrder) (w : World D) (a : Action)
    (r : ExecutionRequest) : (step js ρ w a).accepted.count r + w.tally r =
      w.accepted.count r + (step js ρ w a).tally r + (w.dropped a).toList.count r := by
  cases a with
  | enqueue request =>
    rw [step, tally_call, call_accepted]
    rfl
  | process available =>
    rw [step]
    split_ifs
    · split
      · rename_i request w' hdeq
        obtain ⟨htally, haccepted⟩ := tally_dequeue hdeq r
        rw [tally_call, call_accepted, haccepted, ← htally]
        rfl
      · rename_i w' hdeq
        rw [dequeue_none hdeq]
        rfl
    · rfl
  | advance c now submitted =>
    rw [step, dropped]
    by_cases hmem : c ∈ w.calls
    · have herase := tally_erase hmem r
      rw [if_pos hmem]
      cases hrefuses : w.refuses c with
      | true =>
        rw [resume_of_refuses js ((refuses_leave c).trans hrefuses), if_pos ⟨hmem, rfl⟩,
          leave_accepted]
        omega
      | false =>
        have hbalance :=
          resume_balance js ((refuses_leave c).trans hrefuses) now submitted r
        rw [if_neg (by simp), toList_none, count_nil]
        rw [leave_accepted] at hbalance
        omega
    · rw [if_neg hmem, if_neg (fun h => hmem h.1)]
      rfl
  | background task now =>
    rw [step]
    split_ifs
    · rfl
    · rfl
  | stop => rfl
  | report executionID success =>
    have htally : (({ w with qm := w.qm.countReport success } : World D).finish
        executionID).tally r = w.tally r := by
      rw [tally_finish, tally, tally, held, held]
      simp only [QueueManager.countReport_requests]
    rw [step]
    split_ifs
    · rw [tally_call, call_accepted, finish_accepted, htally]
      rfl
    · rw [finish_accepted, htally]
      rfl

/-- A step loses a request exactly if it drops one. -/
theorem conserved_step_iff (h : Conserved w) (a : Action) :
    Conserved (step js ρ w a) ↔ w.dropped a = none := by
  constructor
  · intro hafter
    cases hdrop : w.dropped a with
    | none => rfl
    | some r =>
      have hbalance := step_balance js ρ w a r
      rw [hdrop, toList_some, count_singleton_self, h r, hafter r] at hbalance
      omega
  · intro hnone r
    have hbalance := step_balance js ρ w a r
    rw [hnone, toList_none, count_nil, h r] at hbalance
    omega

/-! ## Dead letters -/

/-- A record in Redis is the record of the request it is named after. -/
def Tracked (js : Json D) (redis : Redis D) : Prop :=
  ∀ id e, redis.lookup (.item id) = some e →
    ∀ item, js.item.decode e.value = some item → item.request.id = id

/-- Every accepted request whose failure was reported is in the dead letter queue, if there
is one. -/
def DeadLettered (w : World D) : Prop :=
  ∀ dlq, w.qm.deadLetterQueue = some dlq → ∀ id ∈ w.failed, dlq.has id = true

/-- A report of a failure of an accepted request that finds no record, and the request is
not in the dead letter queue already. -/
def forgets (js : Json D) (w : World D) : Action → Bool
  | .advance (.failing id) now _ =>
    .failing id ∈ w.calls ∧ w.accepted.any (fun r => r.id = id) ∧
      (retrieveRequest js now id w.redis).isNone ∧
      w.qm.deadLetterQueue.any (fun dlq => dlq.has id = false)
  | _ => false

theorem forgets_failing_iff (js : Json D) (w : World D) (id : String) (now : ℤ) (submitted : Bool) :
    w.forgets js (.advance (.failing id) now submitted) = true ↔
      .failing id ∈ w.calls ∧ w.accepted.any (fun r => r.id = id) = true ∧
        retrieveRequest js now id w.redis = none ∧
        ∃ dlq, w.qm.deadLetterQueue = some dlq ∧ dlq.has id = false := by
  rw [forgets, decide_eq_true_iff, Option.isNone_iff_eq_none, Option.any_eq_true]
  simp only [decide_eq_true_eq]

/-- What makes a record that is found the right one. -/
structure Sound (js : Json D) (w : World D) : Prop where
  tracked : Tracked js w.redis
  found : ∀ id r, Call.found id r ∈ w.calls → r.id = id

theorem Tracked.retrieve {redis : Redis D} (h : Tracked js redis) {now : ℤ} {r : ExecutionRequest}
    (hr : retrieveRequest js now id redis = some r) : r.id = id := by
  rw [retrieveRequest] at hr
  obtain ⟨e, he, hr⟩ := bind_eq_some_iff.mp hr
  obtain ⟨item, hitem, hr⟩ := bind_eq_some_iff.mp hr
  have hlookup := (filter_eq_some_iff.mp he).1
  rw [← some.inj hr]
  exact h id e hlookup item hitem

theorem Tracked.congr {redis redis' : Redis D} (h : Tracked js redis)
    (heq : ∀ id, redis'.lookup (.item id) = redis.lookup (.item id)) : Tracked js redis' := by
  intro id e he
  rw [heq id] at he
  exact h id e he

theorem Tracked.run {redis : Redis D} (h : Tracked js redis) (now : ℤ) (task : Task) :
    Tracked js (task.run js now redis) := by
  cases task with
  | persist item =>
    rw [Task.run]
    split
    · exact h
    rename_i data hdata
    intro id e he item' hitem'
    by_cases hid : id = item.request.id
    · subst hid
      rw [Expiring.Store.lookup_set, some_inj] at he
      subst he
      rw [js.item.decode_encode _ _ hdata, some_inj] at hitem'
      rw [← hitem']
    · rw [Expiring.Store.lookup_set_ne (by simpa using hid)] at he
      exact h id e he item' hitem'
  | remove id =>
    intro id' e he
    rw [Task.run] at he
    by_cases hid : id' = id
    · rw [hid, Expiring.Store.del, AList.lookup_erase] at he
      cases he
    · rw [Expiring.Store.lookup_del_ne (by simpa using hid)] at he
      exact h id' e he

theorem lookup_saveQueues (queues : List (Key × PriorityQueue)) (redis : Redis D) {key : Key}
    (hkey : ∀ q ∈ queues, key ≠ q.1) :
    (saveQueues js redis queues).lookup key = redis.lookup key := by
  induction queues generalizing redis with
  | nil => rfl
  | cons q queues ih =>
    have hrest : ∀ q ∈ queues, key ≠ q.1 := fun q hq => hkey q (mem_cons_of_mem _ hq)
    rw [saveQueues]
    split_ifs
    · exact ih redis hrest
    split
    · rfl
    · rw [ih _ hrest]
      exact AList.lookup_insert_ne (hkey q mem_cons_self)

theorem Sound.of_eq (h : Sound js w) (hredis : w'.redis = w.redis) (hcalls : w'.calls = w.calls) :
    Sound js w' := by
  refine ⟨?_, ?_⟩
  · rw [hredis]
    exact h.tracked
  · rw [hcalls]
    exact h.found

theorem Sound.call (h : Sound js w) (hc : ∀ id r, c = .found id r → r.id = id) :
    Sound js (w.call c) := by
  refine ⟨h.tracked, ?_⟩
  intro id r hmem
  rw [call_calls, mem_append, mem_singleton] at hmem
  rcases hmem with hmem | heq
  · exact h.found id r hmem
  · exact hc id r heq.symm

theorem Sound.leave (h : Sound js w) (c : Call) : Sound js (w.leave c) :=
  ⟨h.tracked, fun id r hmem => h.found id r (mem_of_mem_erase hmem)⟩

theorem Sound.dequeue (h : Sound js w) : Sound js w.dequeue.2 := by
  rw [World.dequeue]
  split
  · exact h
  · exact h.of_eq (spawn_redis _ _) (spawn_calls _ _)

theorem Sound.resume (h : Sound js w) (now : ℤ) (submitted : Bool) (c : Call) :
    Sound js (resume js now submitted w c) := by
  cases c with
  | enqueue request requeue =>
    rw [World.resume]
    split_ifs
    · exact h
    · exact h.call (by simp)
  | running request requeue =>
    rw [World.resume]
    split_ifs
    · exact h
    · exact h.call (by simp)
  | admitted request requeue => exact h.of_eq (spawn_redis _ _) (spawn_calls _ _)
  | dequeued request =>
    rw [World.resume]
    split_ifs
    · exact h.of_eq rfl rfl
    · exact h.call (by simp)
  | failing executionID =>
    rw [World.resume]
    split
    · rename_i request hfound
      refine h.call ?_
      intro id r heq
      injection heq with hid hr
      rw [← hid, ← hr]
      exact h.tracked.retrieve hfound
    · exact h.of_eq (returnFailure_redis _ _) (returnFailure_calls _ _)
  | found executionID request =>
    rw [World.resume]
    split
    · refine ⟨?_, ?_⟩
      · rw [returnFailure_redis]
        refine h.tracked.congr ?_
        intro id
        dsimp only
        rw [persistDeadLetter]
        split
        · rfl
        · exact Expiring.Store.lookup_set_ne (by simp) _ _ _
      · rw [returnFailure_calls]
        exact h.found
    · exact h

/-- A record is found under its own ID, after each step. -/
theorem Sound.step (h : Sound js w) (a : Action) : Sound js (step js ρ w a) := by
  cases a with
  | enqueue request => exact h.call (by simp)
  | process available =>
    rw [World.step]
    split_ifs
    · have hdeq := h.dequeue
      split
      · rename_i heq
        rw [heq] at hdeq
        exact hdeq.call (by simp)
      · rename_i heq
        rw [heq] at hdeq
        exact hdeq
    · exact h
  | advance c now submitted =>
    rw [World.step]
    split_ifs
    · exact (h.leave c).resume now submitted c
    · exact h
  | background task now =>
    rw [World.step]
    split_ifs
    · exact ⟨h.tracked.run now task, h.found⟩
    · exact h
  | stop =>
    refine ⟨?_, h.found⟩
    rw [World.step]
    dsimp only
    split_ifs
    · refine h.tracked.congr ?_
      intro id
      refine lookup_saveQueues _ _ ?_
      intro q hq
      rw [RangeOrder.mem_run] at hq
      simp only [mem_cons, not_mem_nil, or_false] at hq
      rcases hq with rfl | rfl | rfl
      all_goals simp
    · exact h.tracked
  | report executionID success =>
    have hdone : Sound js (({ w with qm := w.qm.countReport success } : World D).finish
        executionID) := h.of_eq (finish_redis _ _) (finish_calls _ _)
    rw [World.step]
    split_ifs
    · exact hdone.call (by simp)
    · exact hdone

theorem DeadLettered.of_eq (h : DeadLettered w)
    (hdlq : w'.qm.deadLetterQueue = w.qm.deadLetterQueue) (hfailed : w'.failed = w.failed) :
    DeadLettered w' := by
  intro dlq heq id hid
  rw [hdlq] at heq
  rw [hfailed] at hid
  exact h dlq heq id hid

theorem DeadLettered.returnFailure (h : DeadLettered w)
    (hid : w.accepted.any (fun r => r.id = id) = true →
      ∀ dlq, w.qm.deadLetterQueue = some dlq → dlq.has id = true) :
    DeadLettered (w.returnFailure id) := by
  rw [World.returnFailure]
  split_ifs with haccepted
  · intro dlq heq id' hid'
    rcases mem_append.mp hid' with hid' | hid'
    · exact h dlq heq id' hid'
    · rw [mem_singleton.mp hid']
      exact hid haccepted dlq heq
  · exact h

theorem DeadLettered.dequeue (h : DeadLettered w) : DeadLettered w.dequeue.2 := by
  rw [World.dequeue]
  split
  · exact h
  rename_i hdeq
  refine h.of_eq ?_ (spawn_failed _ _)
  rw [spawn_qm]
  exact (QueueManager.dequeue_eq_ok hdeq).2.2.2.1

theorem DeadLettered.resume (h : DeadLettered w) (now : ℤ) (submitted : Bool)
    (hfound : ∀ id r, c = .found id r → r.id = id)
    (hfailing : ∀ id, c = .failing id → w.accepted.any (fun r => r.id = id) = true →
      retrieveRequest js now id w.redis = none →
      ∀ dlq, w.qm.deadLetterQueue = some dlq → dlq.has id = true) :
    DeadLettered (resume js now submitted w c) := by
  cases c with
  | enqueue request requeue =>
    rw [World.resume]
    split_ifs
    · exact h
    · exact h.of_eq rfl rfl
  | running request requeue =>
    rw [World.resume]
    split_ifs
    · exact h
    · exact h.of_eq rfl rfl
  | admitted request requeue =>
    refine h.of_eq ?_ (spawn_failed _ _)
    rw [World.resume, spawn_qm]
    exact (QueueManager.insert_settings now request w.qm).2.2.1
  | dequeued request =>
    rw [World.resume]
    split_ifs
    · exact h.of_eq rfl rfl
    · exact h.of_eq rfl rfl
  | failing executionID =>
    rw [World.resume]
    split
    · exact h.of_eq rfl rfl
    · rename_i hnone
      exact h.returnFailure (fun haccepted => hfailing executionID rfl haccepted hnone)
  | found executionID request =>
    rw [World.resume]
    split
    · rename_i dlq hdlq
      have hhas := dlq.has_add now request "execution failed"
      refine DeadLettered.returnFailure ?_ ?_
      · intro dlq' heq id hid
        rw [← some.inj heq]
        exact (hhas id).mpr (.inr (h dlq hdlq id hid))
      · intro _ dlq' heq
        rw [← some.inj heq]
        exact (hhas executionID).mpr (.inl (hfound executionID request rfl))
    · exact h

/-- A step that forgets nothing dead-letters what has failed too often. -/
theorem DeadLettered.step {a : Action} (h : DeadLettered w) (hs : Sound js w)
    (hok : w.forgets js a = false) : DeadLettered (step js ρ w a) := by
  cases a with
  | enqueue request => exact h.of_eq rfl rfl
  | process available =>
    rw [World.step]
    split_ifs
    · have hdeq := h.dequeue
      split
      · rename_i heq
        rw [heq] at hdeq
        exact hdeq.of_eq rfl rfl
      · rename_i heq
        rw [heq] at hdeq
        exact hdeq
    · exact h
  | advance c now submitted =>
    rw [World.step]
    split_ifs with hmem
    · have hleave : DeadLettered (w.leave c) := h.of_eq rfl rfl
      refine hleave.resume now submitted ?_ ?_
      · rintro id r rfl
        exact hs.found id r hmem
      rintro id rfl haccepted hnone dlq hdlq
      by_contra hhas
      rw [Bool.not_eq_true] at hhas
      have hforgets := (w.forgets_failing_iff js id now submitted).mpr
        ⟨hmem, haccepted, hnone, dlq, hdlq, hhas⟩
      rw [hok] at hforgets
      cases hforgets
    · exact h
  | background task now =>
    rw [World.step]
    split_ifs
    · exact h.of_eq rfl rfl
    · exact h
  | stop => exact h.of_eq rfl rfl
  | report executionID success =>
    have hdone : DeadLettered (({ w with qm := w.qm.countReport success } : World D).finish
        executionID) := by
      refine h.of_eq ?_ (finish_failed _ _)
      rw [finish_qm]
      exact QueueManager.countReport_deadLetterQueue success w.qm
    rw [World.step]
    split_ifs
    · exact hdone.of_eq rfl rfl
    · exact hdone

theorem not_deadLettered_of_forgets {now : ℤ} {submitted : Bool}
    (h : w.forgets js (.advance (.failing id) now submitted) = true) :
    ¬ DeadLettered (step js ρ w (.advance (.failing id) now submitted)) := by
  obtain ⟨hmem, haccepted, hnone, dlq, hdlq, hhas⟩ := (w.forgets_failing_iff js id now _).mp h
  have hstep : step js ρ w (.advance (.failing id) now submitted) =
      { w.leave (.failing id) with failed := w.failed ++ [id] } := by
    rw [World.step, if_pos hmem, World.resume, leave_redis, hnone]
    exact if_pos haccepted
  intro hafter
  have hin : dlq.has id = true := by
    rw [hstep] at hafter
    exact hafter dlq hdlq id (mem_append_right _ (mem_singleton_self id))
  rw [hhas] at hin
  cases hin

theorem not_forgets_of_deadLettered {a : Action} (h : DeadLettered (step js ρ w a)) :
    w.forgets js a = false := by
  by_contra hforgets
  rw [Bool.not_eq_false] at hforgets
  unfold forgets at hforgets
  split at hforgets
  · exact not_deadLettered_of_forgets hforgets h
  · cases hforgets

/-! ## No request is lost -/

/-- Accepted requests are where they belong, and failed ones in the dead letter queue. -/
def Safe (w : World D) : Prop := w.Conserved ∧ w.DeadLettered

/-- **When no request is lost**: exactly as long as `Enqueue` takes back what the worker pool
refuses, and a report of a failure finds the request's record. -/
theorem never_lost_iff (js : Json D) (ρ : RangeOrder) (config : QueueConfig) (redis : Redis D)
    (hredis : Tracked js redis) (as : List Action) :
    Runs.Always (step js ρ) Safe (start config redis) as ↔
      Runs.Along (step js ρ) (fun w a => w.dropped a = none ∧ w.forgets js a = false)
        (start config redis) as := by
  refine Runs.always_iff_along_of_strengthen (Q := fun w => Safe w ∧ Sound js w) ?_ ?_ ?_
    ⟨⟨?_, ?_⟩, ?_⟩
  · exact fun w h => h.1
  · rintro w a ⟨⟨hconserved, hdead⟩, hs⟩ ⟨hdropped, hforgets⟩
    exact ⟨⟨(conserved_step_iff hconserved a).mpr hdropped, hdead.step hs hforgets⟩, hs.step a⟩
  · rintro w a ⟨⟨hconserved, -⟩, -⟩ ⟨hafter, hdead⟩
    exact ⟨(conserved_step_iff hconserved a).mp hafter, not_forgets_of_deadLettered hdead⟩
  · intro r
    rfl
  · intro dlq _ id hid
    cases hid
  · refine ⟨hredis, ?_⟩
    intro id r hmem
    cases hmem

/-- JSON texts for runs on given inputs: the values themselves. -/
inductive PlainText
  | item (x : QueueItem)
  | items (xs : List QueueItem)
  | deadLetter (x : DeadLetterItem)
deriving DecidableEq

def plainJson : Json PlainText where
  item :=
    { encode := fun x => some (.item x)
      decode := fun d => match d with | .item x => some x | _ => none
      decode_encode := by rintro a d ⟨⟩; rfl }
  items :=
    { encode := fun xs => some (.items xs)
      decode := fun d => match d with | .items xs => some xs | _ => none
      decode_encode := by rintro a d ⟨⟩; rfl }
  deadLetter :=
    { encode := fun x => some (.deadLetter x)
      decode := fun d => match d with | .deadLetter x => some x | _ => none
      decode_encode := by rintro a d ⟨⟩; rfl }

/-- Persistence and dead letters on. -/
def testConfig : QueueConfig :=
  { maxQueueSize := 10, persistToRedis := true, enableDeadLetter := true, maxRetries := 3 }

def testRequest : ExecutionRequest := { id := "e", workflowID := "w" }

/-- A call of `Enqueue` that runs alone. -/
def enqueueSections (request : ExecutionRequest) (now : ℤ) : List Action :=
  [.enqueue request, .advance (.enqueue request false) now true,
    .advance (.running request false) now true, .advance (.admitted request false) now true]

/-- The failure is reported before the record is deleted. -/
def promptReport : List Action :=
  enqueueSections testRequest 0 ++
    [.background (.persist { request := testRequest, enqueuedAt := 0 }) 1, .process true,
      .advance (.dequeued testRequest) 2 true, .report "e" false,
      .advance (.failing "e") 3 true, .advance (.found "e" testRequest) 4 true,
      .background (.remove "e") 5]

theorem promptReport_safe :
    Runs.Always (step plainJson RangeOrder.stored) Safe (start testConfig ∅) promptReport := by
  have hredis : Tracked plainJson (∅ : Redis PlainText) := by
    intro id e he
    cases he
  exact (never_lost_iff plainJson RangeOrder.stored testConfig ∅ hredis promptReport).mpr
    (by decide +kernel)

/-- The pool refuses the request, and the manager is stopped before it is queued again. -/
def stoppedRun : List Action :=
  enqueueSections testRequest 0 ++ [.process true, .advance (.dequeued testRequest) 1 false, .stop,
      .advance (.enqueue testRequest true) 2 true]

def lateReport : List Action :=
  enqueueSections testRequest 0 ++
    [.background (.persist { request := testRequest, enqueuedAt := 0 }) 1, .process true,
      .background (.remove "e") 2, .advance (.dequeued testRequest) 3 true, .report "e" false,
      .advance (.failing "e") 4 true]

/-- After the first run the accepted request is nowhere; after the second the failed one is
not in the dead letter queue. -/
theorem requests_lost :
    ((stoppedRun.foldl (step plainJson RangeOrder.stored) (start testConfig ∅)).accepted =
          [testRequest] ∧
        (stoppedRun.foldl (step plainJson RangeOrder.stored) (start testConfig ∅)).tally
          testRequest = 0) ∧
      (lateReport.foldl (step plainJson RangeOrder.stored) (start testConfig ∅)).failed = ["e"] ∧
      (lateReport.foldl (step plainJson RangeOrder.stored)
        (start testConfig ∅)).qm.deadLetterQueue = some { items := [], maxRetries := 3 } := by
  refine ⟨⟨?_, ?_⟩, ?_, ?_⟩
  · decide +kernel
  · decide +kernel
  · decide +kernel
  · decide +kernel

end LinkFlow.Queue.World
