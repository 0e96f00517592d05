/-
The channels of a `WorkerPool` (`internal/execution/app/queue/worker_pool.go`): `Submit` calls,
worker loops (`run`, `processTask`) and `Stop` calls, interleaved at their channel operations.

`Stop` closes the task queue that `Submit` sends on and, once the loops have returned or its
context has expired, the result queue that the loops send on. Nothing keeps a `Submit` call or
a loop from sending afterwards. What the callers would have to ensure is stated exactly
(`never_panics_iff`).
-/
import LinkFlow.Lib.Runs
import LinkFlow.Lib.Channel
import Mathlib

set_option autoImplicit false

namespace LinkFlow.Pool.Shutdown

open Channel List

/-! ## The pool -/

/-- Where a worker's loop stands. `WorkerTask` and `WorkerResult` are named by the task's ID. -/
inductive Loop
  | waiting
  | executing (task : String)
  | sending (task : String)
  | returned
deriving DecidableEq, Repr

structure Worker where
  loop : Loop := .waiting
  stopCh : Chan Unit := { cap := 0 }
deriving DecidableEq, Repr

/-- Where a call of `Stop` stands: what it does next. -/
inductive StopCall
  | closeStop
  | closeTasks
  | closeWorkers (i : ℕ)
  | wait
  | closeResults
  | returned
deriving DecidableEq, Repr

/-- The pool's channels, its workers, and the calls of `Submit` and `Stop` in flight. -/
structure State where
  taskQueue : Chan String
  resultQueue : Chan String := { cap := 100 }
  stopCh : Chan Unit := { cap := 0 }
  workers : List Worker
  submits : List String := []
  stops : List StopCall := []
  panic : Option Panic := none
deriving DecidableEq, Repr

/-- The pool after `Start` with `minWorkers` workers. -/
def start (taskQueueSize minWorkers : ℕ) : State :=
  { taskQueue := { cap := taskQueueSize }, workers := List.replicate minWorkers {} }

/-- One of the cases of the `select` of `run`, the return of the executor, or one of the cases of
the `select` that ends `processTask`. -/
inductive Move
  | take
  | stop
  | finish
  | sendResult
  | timeout
deriving DecidableEq, Repr

inductive Action
  /-- `Submit` is called -/
  | submit (task : String)
  /-- the `i`th `Submit` in flight sends its task -/
  | send (i : ℕ)
  | giveUp (i : ℕ)
  | loop (w : ℕ) (move : Move)
  /-- `processResults` takes a result -/
  | result
  /-- `Stop` is called -/
  | stop
  /-- the `j`th `Stop` call goes on -/
  | stopNext (j : ℕ)
  /-- the context of the `j`th `Stop` call expires while it waits -/
  | expire (j : ℕ)
deriving DecidableEq, Repr

/-- The actions of goroutines under way, which the runtime schedules as it likes. The others are
calls from outside, and the clock. -/
def Action.scheduled : Action → Bool
  | .submit _ | .stop | .expire _ => false
  | .send _ | .giveUp _ | .loop _ _ | .result | .stopNext _ => true

namespace State

def setLoop (s : State) (w : ℕ) (worker : Worker) (loop : Loop) : State :=
  { s with workers := s.workers.set w { worker with loop } }

/-- `run` and `processTask` -/
def moveLoop (s : State) (w : ℕ) (worker : Worker) : Move → Except Panic State
  | .take => match worker.loop with
      | .waiting => match s.taskQueue.recv with
          | none => .ok s
          | some (some task, taskQueue) =>
            .ok ({ s with taskQueue }.setLoop w worker (.executing task))
          | some (none, _) => .ok (s.setLoop w worker .returned)
      | _ => .ok s
  | .stop => match worker.loop with
      | .waiting =>
        if worker.stopCh.closed = true ∨ s.stopCh.closed = true then
          .ok (s.setLoop w worker .returned)
        else .ok s
      | _ => .ok s
  | .finish => match worker.loop with
      | .executing task => .ok (s.setLoop w worker (.sending task))
      | _ => .ok s
  | .sendResult => match worker.loop with
      | .sending task => match s.resultQueue.send task with
          | .error p => .error p
          | .ok none => .ok s
          | .ok (some resultQueue) => .ok ({ s with resultQueue }.setLoop w worker .waiting)
      | _ => .ok s
  | .timeout => match worker.loop with
      | .sending _ => .ok (s.setLoop w worker .waiting)
      | _ => .ok s

/-- `Stop` from one channel operation to the next. -/
def stopStep (s : State) : StopCall → Except Panic (State × StopCall)
  | .closeStop => s.stopCh.close.map (fun stopCh => ({ s with stopCh }, .closeTasks))
  | .closeTasks => s.taskQueue.close.map (fun taskQueue => ({ s with taskQueue }, .closeWorkers 0))
  | .closeWorkers i => match s.workers[i]? with
      | none => .ok (s, .wait)
      | some worker => worker.stopCh.close.map (fun stopCh =>
        ({ s with workers := s.workers.set i { worker with stopCh } }, .closeWorkers (i + 1)))
  | .wait =>
    if ∀ worker ∈ s.workers, worker.loop = .returned then .ok (s, .closeResults)
    else .ok (s, .wait)
  | .closeResults =>
    s.resultQueue.close.map (fun resultQueue => ({ s with resultQueue }, .returned))
  | .returned => .ok (s, .returned)

def act (s : State) : Action → Except Panic State
  | .submit task => .ok { s with submits := s.submits ++ [task] }
  | .send i => match s.submits[i]? with
      | none => .ok s
      | some task => match s.taskQueue.send task with
          | .error p => .error p
          | .ok none => .ok s
          | .ok (some taskQueue) => .ok { s with taskQueue, submits := s.submits.eraseIdx i }
  | .giveUp i => .ok { s with submits := s.submits.eraseIdx i }
  | .loop w move => match s.workers[w]? with
      | none => .ok s
      | some worker => s.moveLoop w worker move
  | .result => match s.resultQueue.recv with
      | none => .ok s
      | some (_, resultQueue) => .ok { s with resultQueue }
  | .stop => .ok { s with stops := s.stops ++ [.closeStop] }
  | .stopNext j => match s.stops[j]? with
      | none => .ok s
      | some call => (s.stopStep call).map (fun (s, call) => { s with stops := s.stops.set j call })
  | .expire j => match s.stops[j]? with
      | some .wait => .ok { s with stops := s.stops.set j .closeResults }
      | _ => .ok s

/-- A panic in any goroutine ends the process. -/
def step (s : State) (a : Action) : State :=
  match s.panic with
  | some _ => s
  | none => match s.act a with
      | .error p => { s with panic := some p }
      | .ok s => s

/-! ## What the callers have to ensure -/

def Quiet (s : State) : Prop :=
  (∀ worker ∈ s.workers, worker.loop = .waiting ∨ worker.loop = .returned) ∧
    (s.taskQueue.buf = [] ∨ ∀ worker ∈ s.workers, worker.loop = .returned)

instance (s : State) : Decidable s.Quiet := inferInstanceAs (Decidable (_ ∧ _))

/-- `Stop` is called once and with no `Submit` in flight, `Submit` not after it, and its context
does not expire while a loop has a task or can get one. -/
def Orderly (s : State) : Action → Prop
  | .submit _ => s.stops = []
  | .stop => s.stops = [] ∧ s.submits = []
  | .expire j => s.stops[j]? = some .wait → s.Quiet
  | _ => True

instance (s : State) : ∀ a, Decidable (s.Orderly a)
  | .submit _ => inferInstanceAs (Decidable (_ = _))
  | .stop => inferInstanceAs (Decidable (_ ∧ _))
  | .expire _ => inferInstanceAs (Decidable (_ → _))
  | .send _ | .giveUp _ | .loop _ _ | .result | .stopNext _ => isTrue trivial

/-- However the goroutines under way are scheduled from here, none of them panics. -/
def Safe (s : State) : Prop :=
  ∀ as : List Action, (∀ a ∈ as, a.scheduled = true) → (as.foldl step s).panic = none

end State

/-! ## The phases of `Stop` -/

namespace StopCall

/-- The channels that a call of `Stop` has closed. -/
def stopClosed : StopCall → Bool
  | .closeStop => false
  | _ => true

def tasksClosed : StopCall → Bool
  | .closeStop | .closeTasks => false
  | _ => true

def workerClosed (i : ℕ) : StopCall → Bool
  | .closeStop | .closeTasks => false
  | .closeWorkers k => decide (i < k)
  | _ => true

def resultsClosed : StopCall → Bool
  | .returned => true
  | _ => false

end StopCall

namespace State

/-- Where the first call of `Stop` stands, as if one was about to begin where there is none. -/
def phase (s : State) : StopCall := s.stops.headD .closeStop

/-- The channels are closed as far as the only call of `Stop` has come, and whoever could send
on them has finished. -/
structure Inv (s : State) : Prop where
  alive : s.panic = none
  once : s.stops.length ≤ 1
  stopCh : s.stopCh.closed = s.phase.stopClosed
  tasks : s.taskQueue.closed = s.phase.tasksClosed
  workers : ∀ i worker, s.workers[i]? = some worker → worker.stopCh.closed = s.phase.workerClosed i
  results : s.resultQueue.closed = s.phase.resultsClosed
  submitted : s.stops ≠ [] → s.submits = []
  quiet : s.phase = .closeResults ∨ s.phase = .returned → s.Quiet

theorem inv_start (taskQueueSize minWorkers : ℕ) : (start taskQueueSize minWorkers).Inv := by
  refine ⟨rfl, Nat.zero_le 1, rfl, rfl, ?_, rfl, fun _ => rfl, ?_⟩
  · intro i worker hworker
    rw [eq_of_mem_replicate (mem_of_getElem? hworker)]
    rfl
  · rintro (hend | hend) <;> cases hend

variable {a : Action} {s : State} {call : StopCall}

theorem step_ok {s t : State} (hpanic : s.panic = none) (h : s.act a = .ok t) : s.step a = t := by
  rw [step, hpanic]
  simp only [h]

theorem step_error {p : Panic} (hpanic : s.panic = none) (h : s.act a = .error p) :
    s.step a = { s with panic := some p } := by
  rw [step, hpanic]
  simp only [h]

theorem Inv.of_act {s t : State} (h : s.Inv) (hact : s.act a = .ok t) (ht : t.Inv) :
    (s.step a).Inv := by
  rw [step_ok h.alive hact]
  exact ht

/-! ## Steps -/

/-- What keeps the invariant: nobody closes a channel, and where the results are about to be
closed the pool stays quiet. -/
theorem Inv.moved {s s' : State} (h : s.Inv) (hpanic : s'.panic = s.panic)
    (hstops : s'.stops = s.stops) (hstopCh : s'.stopCh = s.stopCh)
    (htasks : s'.taskQueue.closed = s.taskQueue.closed)
    (hresults : s'.resultQueue.closed = s.resultQueue.closed)
    (hworkers : ∀ (i : ℕ) (worker' : Worker), s'.workers[i]? = some worker' →
      ∃ worker, s.workers[i]? = some worker ∧ worker'.stopCh = worker.stopCh)
    (hsubmits : s.stops ≠ [] → s'.submits = []) (hquiet : s.Quiet → s'.Quiet) : s'.Inv := by
  have hphase : s'.phase = s.phase := by rw [phase, hstops, phase]
  refine ⟨hpanic.trans h.alive, hstops ▸ h.once, ?_, ?_, ?_, ?_, hstops ▸ hsubmits, ?_⟩
  · rw [hstopCh, h.stopCh, hphase]
  · rw [htasks, h.tasks, hphase]
  · intro i worker' hworker'
    obtain ⟨worker, hworker, heq⟩ := hworkers i worker' hworker'
    rw [heq, h.workers i worker hworker, hphase]
  · rw [hresults, h.results, hphase]
  · rw [hphase]
    exact fun hend => hquiet (h.quiet hend)

theorem stopCh_set {workers : List Worker} {w : ℕ} {worker : Worker} {loop : Loop}
    (hw : workers[w]? = some worker) (i : ℕ) (worker' : Worker)
    (hi : (workers.set w { worker with loop })[i]? = some worker') :
    ∃ worker, workers[i]? = some worker ∧ worker'.stopCh = worker.stopCh := by
  by_cases hwi : w = i
  · subst hwi
    rw [List.getElem?_set_self (List.getElem?_eq_some_iff.mp hw).1] at hi
    obtain rfl := Option.some.inj hi
    exact ⟨worker, hw, rfl⟩
  · rw [getElem?_set_ne hwi] at hi
    exact ⟨worker', hi, rfl⟩

/-- What a loop can do: nothing, panic because the results are closed, or go on, where a loop
that waits returns or takes a task. -/
theorem moveLoop_cases (s : State) (w : ℕ) (worker : Worker) (move : Move) :
    s.moveLoop w worker move = .ok s ∨
      (∃ p task, s.moveLoop w worker move = .error p ∧ worker.loop = .sending task ∧
        s.resultQueue.closed = true) ∨
      ∃ taskQueue resultQueue loop, s.moveLoop w worker move =
          .ok ({ s with taskQueue, resultQueue }.setLoop w worker loop) ∧
        taskQueue.closed = s.taskQueue.closed ∧ resultQueue.closed = s.resultQueue.closed ∧
        (worker.loop = .waiting → s.taskQueue.buf = [] → loop = .returned ∧ taskQueue.buf = []) ∧
        worker.loop ≠ .returned := by
  cases move with
  | take =>
    rw [moveLoop]
    split
    · rename_i hloop
      split
      · exact .inl rfl
      · rename_i task taskQueue hrecv
        refine .inr (.inr ⟨taskQueue, s.resultQueue, .executing task, rfl, ?_⟩)
        obtain ⟨x, buf, hbuf, -, rfl⟩ | ⟨-, -, hnone, -⟩ := Chan.recv_eq_some hrecv
        · exact ⟨rfl, rfl, fun _ hempty => by simp [hempty] at hbuf, by simp [hloop]⟩
        · cases hnone
      · exact .inr (.inr ⟨s.taskQueue, s.resultQueue, .returned, rfl, rfl, rfl,
          fun _ hempty => ⟨rfl, hempty⟩, by simp [hloop]⟩)
    · exact .inl rfl
  | stop =>
    rw [moveLoop]
    split
    · rename_i hloop
      split_ifs
      · exact .inr (.inr ⟨s.taskQueue, s.resultQueue, .returned, rfl, rfl, rfl,
          fun _ hempty => ⟨rfl, hempty⟩, by simp [hloop]⟩)
      · exact .inl rfl
    · exact .inl rfl
  | finish =>
    rw [moveLoop]
    split
    · rename_i task hloop
      exact .inr (.inr ⟨s.taskQueue, s.resultQueue, .sending task, rfl, rfl, rfl,
        by simp [hloop], by simp [hloop]⟩)
    · exact .inl rfl
  | sendResult =>
    rw [moveLoop]
    split
    · rename_i task hloop
      split
      · rename_i p hsend
        exact .inr (.inl ⟨p, task, rfl, hloop, Chan.send_eq_error hsend⟩)
      · exact .inl rfl
      · rename_i resultQueue hsend
        exact .inr (.inr ⟨s.taskQueue, resultQueue, .waiting, rfl, rfl,
          Chan.closed_of_send hsend, by simp [hloop], by simp [hloop]⟩)
    · exact .inl rfl
  | timeout =>
    rw [moveLoop]
    split
    · rename_i task hloop
      exact .inr (.inr ⟨s.taskQueue, s.resultQueue, .waiting, rfl, rfl, rfl,
        by simp [hloop], by simp [hloop]⟩)
    · exact .inl rfl

/-- A worker takes a task, reports a result or stops. -/
theorem Inv.loop (h : s.Inv) (w : ℕ) (move : Move) : (s.step (.loop w move)).Inv := by
  cases hw : s.workers[w]? with
  | none =>
    exact h.of_act (by simp only [act, hw]) h
  | some worker =>
    have hact : s.act (.loop w move) = s.moveLoop w worker move := by simp only [act, hw]
    have hmem := mem_of_getElem? hw
    obtain hmove | ⟨p, task, -, hloop, hclosed⟩ |
      ⟨taskQueue, resultQueue, loop, hmove, htasks, hresults, hwaiting, hreturned⟩ :=
        moveLoop_cases s w worker move
    · exact h.of_act (hact.trans hmove) h
    · -- the results are closed only when no loop has a task
      have hphase : s.phase = .returned := by
        rw [h.results] at hclosed
        cases hp : s.phase <;> simp [hp, StopCall.resultsClosed] at hclosed ⊢
      rcases (h.quiet (.inr hphase)).1 worker hmem with hq | hq <;> simp [hq] at hloop
    · refine h.of_act (hact.trans hmove)
        (h.moved rfl rfl rfl htasks hresults (stopCh_set hw) h.submitted ?_)
      rintro ⟨hidle, hempty⟩
      have hwait : worker.loop = .waiting := (hidle worker hmem).resolve_right hreturned
      have hbuf : s.taskQueue.buf = [] :=
        hempty.resolve_right (fun hall => hreturned (hall worker hmem))
      obtain ⟨rfl, hbuf'⟩ := hwaiting hwait hbuf
      refine ⟨?_, .inl hbuf'⟩
      intro worker' hworker'
      rcases mem_or_eq_of_mem_set hworker' with hmem' | rfl
      · exact hidle worker' hmem'
      · exact .inr rfl

theorem Inv.send (h : s.Inv) (i : ℕ) : (s.step (.send i)).Inv := by
  cases hi : s.submits[i]? with
  | none =>
    exact h.of_act (by simp only [act, hi]) h
  | some task =>
    -- a call of `Submit` is in flight, so `Stop` has not been called
    have hstops : s.stops = [] := by
      by_contra hne
      rw [h.submitted hne] at hi
      cases hi
    have hopen : s.taskQueue.closed = false := by
      rw [h.tasks, phase, hstops]
      rfl
    cases hsend : s.taskQueue.send task with
    | error p =>
      rw [Chan.send_eq_error hsend] at hopen
      cases hopen
    | ok sent =>
      cases sent with
      | none =>
        exact h.of_act (by simp only [act, hi, hsend]) h
      | some taskQueue =>
        refine h.of_act (t := { s with taskQueue, submits := s.submits.eraseIdx i })
          (by simp only [act, hi, hsend])
          ⟨h.alive, h.once, h.stopCh, ?_, h.workers, h.results, ?_, ?_⟩
        · exact (Chan.closed_of_send hsend).trans h.tasks
        · exact fun hne => absurd hstops hne
        · simp [phase, hstops]

theorem Inv.stops_eq (h : s.Inv) {j : ℕ} (hj : s.stops[j]? = some call) :
    s.stops = [call] ∧ j = 0 := by
  have hlt := (List.getElem?_eq_some_iff.mp hj).1
  have hone := h.once
  obtain ⟨only, honly⟩ := length_eq_one_iff.mp (by omega : s.stops.length = 1)
  obtain rfl : j = 0 := by omega
  rw [honly] at hj
  exact ⟨honly.trans (congrArg (fun c => [c]) (Option.some.inj hj)), rfl⟩

/-- `Stop` closes the channels one after the other. -/
theorem Inv.stopStep (h : s.Inv) (hstops : s.stops = [call]) :
    ∃ r, s.stopStep call = .ok r ∧ r.1.stops = s.stops ∧ { r.1 with stops := [r.2] }.Inv := by
  have hphase : s.phase = call := by rw [phase, hstops]; rfl
  obtain ⟨halive, -, hstopCh, htasks, hworkers, hresults, hsubmitted, hquiet⟩ := h
  have hnone : s.submits = [] := hsubmitted (by simp [hstops])
  rw [hphase] at hstopCh htasks hworkers hresults hquiet
  cases call with
  | closeStop =>
    refine ⟨_, by rw [State.stopStep, Chan.close_open hstopCh]; rfl, rfl, ?_⟩
    exact ⟨halive, le_refl 1, rfl, htasks, hworkers, hresults, fun _ => hnone, by simp [phase]⟩
  | closeTasks =>
    refine ⟨_, by rw [State.stopStep, Chan.close_open htasks]; rfl, rfl, ?_⟩
    refine ⟨halive, le_refl 1, hstopCh, rfl, ?_, hresults, fun _ => hnone, by simp [phase]⟩
    intro i worker hworker
    rw [hworkers i worker hworker]
    simp [phase, StopCall.workerClosed]
  | closeWorkers k =>
    cases hk : s.workers[k]? with
    | none =>
      refine ⟨_, by rw [State.stopStep, hk], rfl, ?_⟩
      refine ⟨halive, le_refl 1, hstopCh, htasks, ?_, hresults, fun _ => hnone, by simp [phase]⟩
      -- the loop over the workers has come to their end
      intro i worker hworker
      have hlt : i < s.workers.length := (List.getElem?_eq_some_iff.mp hworker).1
      have hle := List.getElem?_eq_none_iff.mp hk
      rw [hworkers i worker hworker]
      exact decide_eq_true (by omega)
    | some worker =>
      have hopen : worker.stopCh.closed = false := by
        rw [hworkers k worker hk]
        exact decide_eq_false (lt_irrefl k)
      refine ⟨_, by rw [State.stopStep, hk]; simp only [Chan.close_open hopen]; rfl, rfl, ?_⟩
      refine ⟨halive, le_refl 1, hstopCh, htasks, ?_, hresults, fun _ => hnone, by simp [phase]⟩
      intro i worker' hworker'
      dsimp only at hworker'
      by_cases hki : k = i
      · subst hki
        rw [List.getElem?_set_self (List.getElem?_eq_some_iff.mp hk).1] at hworker'
        obtain rfl := Option.some.inj hworker'
        exact (decide_eq_true (Nat.lt_succ_self k)).symm
      · rw [getElem?_set_ne hki] at hworker'
        rw [hworkers i worker' hworker']
        exact decide_eq_decide.mpr (by omega)
  | wait =>
    by_cases hall : ∀ worker ∈ s.workers, worker.loop = .returned
    · refine ⟨_, by rw [State.stopStep, if_pos hall], rfl, ?_⟩
      exact ⟨halive, le_refl 1, hstopCh, htasks, hworkers, hresults, fun _ => hnone,
        fun _ => ⟨fun worker hworker => .inr (hall worker hworker), .inr hall⟩⟩
    · refine ⟨_, by rw [State.stopStep, if_neg hall], rfl, ?_⟩
      exact ⟨halive, le_refl 1, hstopCh, htasks, hworkers, hresults, fun _ => hnone,
        by simp [phase]⟩
  | closeResults =>
    refine ⟨_, by rw [State.stopStep, Chan.close_open hresults]; rfl, rfl, ?_⟩
    exact ⟨halive, le_refl 1, hstopCh, htasks, hworkers, rfl, fun _ => hnone,
      fun _ => hquiet (.inl rfl)⟩
  | returned =>
    refine ⟨_, rfl, rfl, ?_⟩
    exact ⟨halive, le_refl 1, hstopCh, htasks, hworkers, hresults, fun _ => hnone,
      fun _ => hquiet (.inr rfl)⟩

theorem Inv.stopNext (h : s.Inv) (j : ℕ) : (s.step (.stopNext j)).Inv := by
  cases hj : s.stops[j]? with
  | none =>
    exact h.of_act (by simp only [act, hj]) h
  | some call =>
    obtain ⟨hstops, rfl⟩ := h.stops_eq hj
    obtain ⟨r, hstep, hkeep, hinv⟩ := h.stopStep hstops
    refine h.of_act ?_ hinv
    simp only [act, hj, hstep, Except.map]
    rw [hkeep, hstops]
    rfl

/-- **One step.** An orderly step keeps the invariant. -/
theorem Inv.step (h : s.Inv) (ha : s.Orderly a) : (s.step a).Inv := by
  cases a with
  | submit task =>
    exact h.of_act rfl ⟨h.alive, h.once, h.stopCh, h.tasks, h.workers, h.results,
      fun hne => absurd ha hne, h.quiet⟩
  | send i => exact h.send i
  | giveUp i =>
    refine h.of_act rfl
      (h.moved rfl rfl rfl rfl rfl (fun i worker hi => ⟨worker, hi, rfl⟩) (fun hne => ?_) id)
    simp [h.submitted hne]
  | loop w move => exact h.loop w move
  | result =>
    cases hrecv : s.resultQueue.recv with
    | none => exact h.of_act (by simp only [act, hrecv]) h
    | some received =>
      refine h.of_act (t := { s with resultQueue := received.2 }) (by simp only [act, hrecv])
        (h.moved rfl rfl rfl rfl ?_ (fun i worker hi => ⟨worker, hi, rfl⟩) h.submitted id)
      obtain ⟨x, buf, -, -, hc⟩ | ⟨-, -, -, hc⟩ := Chan.recv_eq_some (v := received.1) hrecv
      · simp [hc]
      · simp [hc]
  | stop =>
    obtain ⟨hstops, hnone⟩ := ha
    have hphase : s.phase = .closeStop := by rw [phase, hstops]; rfl
    obtain ⟨halive, -, hstopCh, htasks, hworkers, hresults, -, -⟩ := h
    rw [hphase] at hstopCh htasks hworkers hresults
    rw [step_ok halive (t := { s with stops := [.closeStop] }) (by rw [act, hstops]; rfl)]
    exact ⟨halive, le_refl 1, hstopCh, htasks, hworkers, hresults, fun _ => hnone, by simp [phase]⟩
  | stopNext j => exact h.stopNext j
  | expire j =>
    by_cases hj : s.stops[j]? = some .wait
    · obtain ⟨hstops, rfl⟩ := h.stops_eq hj
      have hphase : s.phase = .wait := by rw [phase, hstops]; rfl
      have hquiet : s.Quiet := ha hj
      obtain ⟨halive, -, hstopCh, htasks, hworkers, hresults, hsubmitted, -⟩ := h
      rw [hphase] at hstopCh htasks hworkers hresults
      rw [step_ok halive (t := { s with stops := [.closeResults] })
        (by simp only [act, hj]; rw [hstops]; rfl)]
      exact ⟨halive, le_refl 1, hstopCh, htasks, hworkers, hresults,
        fun _ => hsubmitted (by simp [hstops]), fun _ => hquiet⟩
    · refine h.of_act ?_ h
      rw [act]
      split
      · rename_i hwait
        exact absurd hwait hj
      · rfl

/-! ## What goes wrong otherwise -/

theorem orderly_of_scheduled (ha : a.scheduled = true) : s.Orderly a := by
  cases a <;> trivial

theorem Inv.safe (h : s.Inv) : s.Safe := by
  intro as has
  have halong : Runs.Along State.step Orderly s as := by
    rw [Runs.along_iff]
    intro pre a post heq
    exact orderly_of_scheduled (has a (by simp [heq]))
  exact (halong.always (fun _ _ hs ha => hs.step ha) h).last.alive

/-- No scheduled step of a safe pool panics. -/
theorem Safe.step (h : s.Safe) (ha : a.scheduled = true) : (s.step a).Safe := by
  intro as has
  exact h (a :: as) (forall_mem_cons.mpr ⟨ha, has⟩)

theorem Safe.not_error (h : s.Safe) (ha : a.scheduled = true) {p : Panic} : s.act a ≠ .error p := by
  intro herror
  have hpanic : s.panic = none := h [] (by simp)
  have hnext := h [a] (by simpa using ha)
  rw [foldl_cons, foldl_nil, step_error hpanic herror] at hnext
  cases hnext

theorem Safe.step_ok {s s' : State} (h : s.Safe) (ha : a.scheduled = true)
    (hact : s.act a = .ok s') : s'.Safe := by
  have hpanic : s.panic = none := h [] (by simp)
  rw [← State.step_ok hpanic hact]
  exact h.step ha

theorem not_safe_of_send {task : String} {rest : List String} (hsubmits : s.submits = task :: rest)
    (hclosed : s.taskQueue.closed = true) : ¬ s.Safe := by
  intro h
  refine h.not_error (a := .send 0) rfl (p := .sendOnClosedChannel) ?_
  simp only [act, hsubmits, getElem?_cons_zero, Chan.send_closed hclosed]

theorem not_safe_of_submits {task : String} {rest : List String}
    (hsubmits : s.submits = task :: rest) (hstops : s.stops = [call])
    (hstopCh : s.stopCh.closed = call.stopClosed) (htasks : s.taskQueue.closed = call.tasksClosed) :
    ¬ s.Safe := by
  -- from `closeTasks` the queue is closed next, and from `closeStop` one step later
  have hnext : ∀ s : State, s.submits = task :: rest → s.stops = [.closeTasks] →
      s.taskQueue.closed = false → ¬ s.Safe := by
    intro s hsubmits hstops htasks h
    refine not_safe_of_send (s := { s with
        taskQueue := { s.taskQueue with closed := true }, stops := [.closeWorkers 0] })
      hsubmits rfl (h.step_ok (a := .stopNext 0) rfl ?_)
    simp only [act, hstops, getElem?_cons_zero, stopStep, Chan.close_open htasks, Except.map,
      set_cons_zero]
  cases call with
  | closeStop =>
    intro h
    refine hnext { s with stopCh := { s.stopCh with closed := true }, stops := [.closeTasks] }
      hsubmits rfl htasks (h.step_ok (a := .stopNext 0) rfl ?_)
    simp only [act, hstops, getElem?_cons_zero, stopStep, Chan.close_open hstopCh,
      Except.map, set_cons_zero]
  | closeTasks => exact hnext s hsubmits hstops htasks
  | closeWorkers i => exact not_safe_of_send hsubmits htasks
  | wait => exact not_safe_of_send hsubmits htasks
  | closeResults => exact not_safe_of_send hsubmits htasks
  | returned => exact not_safe_of_send hsubmits htasks

theorem not_safe_of_stops (hstops : s.stops = [call, .closeStop])
    (hstopCh : s.stopCh.closed = call.stopClosed) : ¬ s.Safe := by
  have hagain : ∀ s : State, s.stops[1]? = some .closeStop → s.stopCh.closed = true → ¬ s.Safe := by
    intro s hsecond hclosed h
    refine h.not_error (a := .stopNext 1) rfl (p := .closeOfClosedChannel) ?_
    simp only [act, hsecond, stopStep, Chan.close_closed hclosed, Except.map]
  by_cases hfirst : call = .closeStop
  · subst hfirst
    intro h
    refine hagain { s with
        stopCh := { s.stopCh with closed := true }, stops := [.closeTasks, .closeStop] }
      rfl rfl (h.step_ok (a := .stopNext 0) rfl ?_)
    simp only [act, hstops, getElem?_cons_zero, stopStep, Chan.close_open hstopCh,
      Except.map, set_cons_zero]
  · refine hagain s (by rw [hstops]; rfl) (hstopCh.trans ?_)
    cases call with
    | closeStop => exact absurd rfl hfirst
    | _ => rfl

/-- A busy worker can go on to send on the closed channel, and panic. -/
theorem not_safe_of_busy (hclosed : s.resultQueue.closed = true) (hbusy : ¬ s.Quiet) :
    ¬ s.Safe := by
  have hsending : ∀ (s : State) (w : ℕ) (worker : Worker) (task : String),
      s.resultQueue.closed = true → s.workers[w]? = some worker →
      worker.loop = .sending task → ¬ s.Safe := by
    intro s w worker task hclosed hw hloop h
    refine h.not_error (a := .loop w .sendResult) rfl (p := .sendOnClosedChannel) ?_
    simp only [act, hw, moveLoop, hloop, Chan.send_closed hclosed]
  have hexecuting : ∀ (s : State) (w : ℕ) (worker : Worker) (task : String),
      s.resultQueue.closed = true → s.workers[w]? = some worker →
      worker.loop = .executing task → ¬ s.Safe := by
    intro s w worker task hclosed hw hloop h
    refine hsending (s.setLoop w worker (.sending task)) w { worker with loop := .sending task }
      task hclosed ?_ rfl (h.step_ok (a := .loop w .finish) rfl ?_)
    · exact List.getElem?_set_self (List.getElem?_eq_some_iff.mp hw).1
    · simp only [act, hw, moveLoop, hloop]
  -- a loop with a task in hand, or one that waits for a queue that still holds some
  obtain ⟨worker, hworker, hnot, hcan⟩ : ∃ worker ∈ s.workers, worker.loop ≠ .returned ∧
      (worker.loop = .waiting → s.taskQueue.buf ≠ []) := by
    by_contra hnone
    push Not at hnone
    refine hbusy ⟨fun worker hworker => ?_, ?_⟩
    · by_contra hstate
      push Not at hstate
      exact hstate.1 (hnone worker hworker hstate.2).1
    · by_cases hall : ∀ worker ∈ s.workers, worker.loop = .returned
      · exact .inr hall
      · push Not at hall
        obtain ⟨worker, hworker, hnot⟩ := hall
        exact .inl (hnone worker hworker hnot).2
  obtain ⟨w, hw⟩ := getElem?_of_mem hworker
  cases hloop : worker.loop with
  | waiting =>
    obtain ⟨task, buf, hbuf⟩ := exists_cons_of_ne_nil (hcan hloop)
    intro h
    refine hexecuting ({ s with taskQueue := { s.taskQueue with buf } }.setLoop w worker
        (.executing task)) w { worker with loop := .executing task } task hclosed ?_ rfl
      (h.step_ok (a := .loop w .take) rfl ?_)
    · exact List.getElem?_set_self (List.getElem?_eq_some_iff.mp hw).1
    · simp only [act, hw, moveLoop, hloop, Chan.recv, hbuf]
  | executing task => exact hexecuting s w worker task hclosed hw hloop
  | sending task => exact hsending s w worker task hclosed hw hloop
  | returned => exact absurd hloop hnot

/-- What leads to a safe pool was an orderly step. -/
theorem Inv.orderly (h : s.Inv) (hsafe : (s.step a).Safe) : s.Orderly a := by
  have hcall : s.stops ≠ [] → ∃ call, s.stops = [call] ∧ s.phase = call := by
    intro hne
    obtain ⟨call, rest, hstops⟩ := exists_cons_of_ne_nil hne
    have hone := h.once
    rw [hstops, length_cons] at hone
    obtain rfl := length_eq_zero_iff.mp (by omega : rest.length = 0)
    exact ⟨call, hstops, by rw [phase, hstops]; rfl⟩
  cases a with
  | submit task =>
    by_contra hne
    obtain ⟨call, hstops, hphase⟩ := hcall hne
    rw [State.step_ok h.alive rfl] at hsafe
    have hsubmits : s.submits ++ [task] = [task] := by simp [h.submitted hne]
    exact absurd hsafe (not_safe_of_submits hsubmits hstops (hphase ▸ h.stopCh)
      (hphase ▸ h.tasks))
  | stop =>
    rw [State.step_ok h.alive rfl] at hsafe
    have hfirst : s.stops = [] := by
      by_contra hne
      obtain ⟨call, hstops, hphase⟩ := hcall hne
      exact not_safe_of_stops (by simp [hstops]) (hphase ▸ h.stopCh) hsafe
    refine ⟨hfirst, ?_⟩
    by_contra hne
    obtain ⟨task, rest, hsubmits⟩ := exists_cons_of_ne_nil hne
    have hphase : s.phase = .closeStop := by rw [phase, hfirst]; rfl
    exact absurd hsafe (not_safe_of_submits hsubmits (by simp [hfirst]) (hphase ▸ h.stopCh)
      (hphase ▸ h.tasks))
  | expire j =>
    intro hj
    by_contra hbusy
    obtain ⟨hstops, rfl⟩ := h.stops_eq hj
    have hphase : s.phase = .wait := by rw [phase, hstops]; rfl
    have hopen : s.resultQueue.closed = false := by rw [h.results, hphase]; rfl
    rw [State.step_ok h.alive (t := { s with stops := [.closeResults] })
      (by simp only [act, hj]; rw [hstops]; rfl)] at hsafe
    refine not_safe_of_busy (s := { s with
        resultQueue := { s.resultQueue with closed := true }, stops := [.returned] })
      rfl hbusy (hsafe.step_ok (a := .stopNext 0) rfl ?_)
    simp only [act, getElem?_cons_zero, State.stopStep, Chan.close_open hopen, Except.map,
      set_cons_zero]
  | send i => trivial
  | giveUp i => trivial
  | loop w move => trivial
  | result => trivial
  | stopNext j => trivial

/-- **Channel safety.** Over any interleaving no goroutine sends on a closed channel or closes one
again, and none can be scheduled to, exactly when `Stop` is called once and with no `Submit` call in
flight, `Submit` is not called after it, and its context does not expire while a loop has a task or
can get one. -/
theorem never_panics_iff (taskQueueSize minWorkers : ℕ) (as : List Action) :
    Runs.Always step Safe (start taskQueueSize minWorkers) as ↔
      Runs.Along step Orderly (start taskQueueSize minWorkers) as :=
  Runs.always_iff_along_of_strengthen (fun _ => Inv.safe) (fun _ _ => Inv.step)
    (fun _ _ => Inv.orderly) (inv_start taskQueueSize minWorkers)

/-- A task is submitted while `Stop` is about to close the queue; the context of `Stop` expires
while the only worker executes a task; `Stop` is called twice. -/
theorem pool_panics : (List.foldl step (start 1000 1)
        [.submit "t", .stop, .stopNext 0, .stopNext 0, .send 0]).panic = some .sendOnClosedChannel ∧
    (List.foldl step (start 1000 1)
        [.submit "t", .send 0, .loop 0 .take, .stop, .stopNext 0, .stopNext 0, .stopNext 0,
          .stopNext 0, .expire 0, .stopNext 0, .loop 0 .finish, .loop 0 .sendResult]).panic =
      some .sendOnClosedChannel ∧
    (List.foldl step (start 1000 1) [.stop, .stopNext 0, .stop, .stopNext 1]).panic =
      some .closeOfClosedChannel := by
  decide

end State

end LinkFlow.Pool.Shutdown
