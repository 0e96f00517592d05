/-
The pending-request table of `execution/app/orchestrator/orchestrator.go`, where
calls of `sendToExecutorService` wait for the responses that
`HandleNodeExecuteResponse` hands out.

Parties. A *waiter* is one call of `sendToExecutorService`: it registers a request
ID with a channel of capacity one, publishes its request, waits for the channel,
the context or a timer, and removes its table entry on the way out. A *handler* is
one call of `HandleNodeExecuteResponse`: it parses the event, takes the table entry
in `resolvePending`'s locked section, and then offers the result to the channel
without blocking. Waiters and handlers are numbered in order of arrival, so the
waiter's number is also its channel's.

Steps. `step` is one action of one party: the locked sections of
`registerPending`, `resolvePending` and `rejectPending`, which hold the mutex for a
few map operations only, and the channel operations between them. A run is any
sequence of actions; an action that its party cannot take changes nothing. Request
IDs are fresh UUIDs, so `register` is not possible for an ID in use.

`received` and `resolved` are histories, for the statements: who received which
response, and for whom a response was taken out of the table.
-/
import LinkFlow.Lib.GoMap

set_option autoImplicit false

namespace LinkFlow.Pending

open Option

variable {R : Type}

/-! ## Parties -/

/-- A dynamic value in an event's payload, as far as its type matters; `R` are the
result maps. -/
inductive Field (R : Type)
  | str (s : String)
  | map (r : R)
  | other

abbrev Payload (R : Type) := GoMap String (Field R)

/-- The checks of `HandleNodeExecuteResponse`: the request ID and the result. -/
def parseResponse (payload : Payload R) : Except String (String × R) :=
  let reqID := match payload.lookup "requestId" with
    | some (.str s) => s
    | _ => ""
  if reqID = "" then .error "missing requestId in node.execute.response"
  else
    match payload.lookup "result" with
    | none => .error "missing result in node.execute.response"
    | some (.map res) => .ok (reqID, res)
    | some _ => .error "invalid result type in node.execute.response"

/-- Where a waiter is: publishing its request, in the `select`, about to run its
deferred `rejectPending`, or returned. -/
inductive WaiterPhase
  | sending | waiting | leaving | returned
deriving DecidableEq, Repr

/-- What a waiter returns. -/
inductive Outcome (R : Type)
  | answered (response : ℕ) (result : R)
  | failed (err : String)

/-- A waiter; `buffer` is its channel, with the number of the response in it. -/
structure Waiter (R : Type) where
  requestID : String
  phase : WaiterPhase := .sending
  buffer : Option (ℕ × R) := none
  outcome : Option (Outcome R) := none

def Waiter.answer (w : Waiter R) : Option (ℕ × R) :=
  match w.outcome with
  | some (.answered k r) => some (k, r)
  | _ => none

/-- Where a handler is: not yet in `resolvePending`, between its locked section and
the offer to the channel, or returned. -/
inductive HandlerPhase (R : Type)
  | arrived
  | holding (ch : ℕ) (result : R)
  | finished (err : Option String)

/-- A handler and its event. -/
structure Handler (R : Type) where
  event : Payload R
  phase : HandlerPhase R

/-! ## Steps -/

structure State (R : Type) where
  pending : GoMap String ℕ
  waiters : List (Waiter R)
  handlers : List (Handler R)
  (resolved received : List (ℕ × ℕ))

/-- `NewOrchestrator` -/
def State.init : State R := ⟨∅, [], [], [], []⟩

/-- A waiter registers, its `Publish` returns, it receives, sees its context done or its timer, or
leaves; an event arrives, its handler runs the locked section of `resolvePending`, or offers the
result. -/
inductive Action (R : Type)
  | register (requestID : String)
  | published (i : ℕ) (err : Option String)
  | receive (i : ℕ)
  | cancelled (i : ℕ) (err : String)
  | timeout (i : ℕ)
  | reject (i : ℕ)
  | arrive (event : Payload R)
  | resolve (k : ℕ)
  | send (k : ℕ)

namespace State

def registerPending (requestID : String) (s : State R) : State R :=
  { s with
    pending := s.pending.insert requestID s.waiters.length,
    waiters := s.waiters ++ [{ requestID := requestID }] }

/-- Waiter `i` leaves its `select`, or its `Publish`, with an outcome. -/
def leave (i : ℕ) (w : Waiter R) (o : Outcome R) (s : State R) : State R :=
  { s with waiters := s.waiters.set i { w with phase := .leaving, outcome := some o } }

/-- `result := <-ch` -/
def receive (i : ℕ) (w : Waiter R) (k : ℕ) (r : R) (s : State R) : State R :=
  { s with
    waiters := s.waiters.set i
      { w with phase := .leaving, buffer := none, outcome := some (.answered k r) }
    received := s.received ++ [(i, k)] }

/-- `rejectPending`, deferred by waiter `i`. -/
def rejectPending (i : ℕ) (w : Waiter R) (s : State R) : State R :=
  { s with
    pending := s.pending.erase w.requestID,
    waiters := s.waiters.set i { w with phase := .returned } }

/-- Handler `k` goes to a new phase. -/
def setHandler (k : ℕ) (h : Handler R) (phase : HandlerPhase R) (s : State R) : State R :=
  { s with handlers := s.handlers.set k { h with phase := phase } }

/-- Handler `k` parses its event and runs the locked section of `resolvePending`. -/
def resolvePending (k : ℕ) (h : Handler R) (s : State R) : State R :=
  match parseResponse h.event with
  | .error err => s.setHandler k h (.finished (some err))
  | .ok (requestID, result) =>
    match s.pending.lookup requestID with
    | none => s.setHandler k h (.finished none)
    | some ch =>
      { s.setHandler k h (.holding ch result) with
        pending := s.pending.erase requestID, resolved := s.resolved ++ [(ch, k)] }

/-- `select { case ch <- result: default: }` -/
def offer (k : ℕ) (h : Handler R) (ch : ℕ) (result : R) (s : State R) : State R :=
  let s := s.setHandler k h (.finished none)
  match s.waiters[ch]? with
  | some w =>
    match w.buffer with
    | none => { s with waiters := s.waiters.set ch { w with buffer := some (k, result) } }
    -- the channel is full: the `default` branch drops the result
    | some _ => s
  | none => s

/-- One action, if its party can take it. -/
def step (s : State R) : Action R → Option (State R)
  | .register requestID =>
    if requestID ∈ s.waiters.map Waiter.requestID then none
    else some (s.registerPending requestID)
  | .published i err =>
    match s.waiters[i]? with
    | some w =>
      if w.phase = .sending then
        match err with
        | none => some { s with waiters := s.waiters.set i { w with phase := .waiting } }
        | some err => some (s.leave i w (.failed ("failed to send to executor service: " ++ err)))
      else none
    | none => none
  | .receive i =>
    match s.waiters[i]? with
    | some w =>
      if w.phase = .waiting then
        match w.buffer with
        | some (k, r) => some (s.receive i w k r)
        | none => none
      else none
    | none => none
  | .cancelled i err =>
    match s.waiters[i]? with
    | some w => if w.phase = .waiting then some (s.leave i w (.failed err)) else none
    | none => none
  | .timeout i =>
    match s.waiters[i]? with
    | some w =>
      if w.phase = .waiting then
        some (s.leave i w (.failed "timeout waiting for node execution response"))
      else none
    | none => none
  | .reject i =>
    match s.waiters[i]? with
    | some w => if w.phase = .leaving then some (s.rejectPending i w) else none
    | none => none
  | .arrive event => some { s with handlers := s.handlers ++ [⟨event, .arrived⟩] }
  | .resolve k =>
    match s.handlers[k]? with
    | some h =>
      match h.phase with
      | .arrived => some (s.resolvePending k h)
      | _ => none
    | none => none
  | .send k =>
    match s.handlers[k]? with
    | some h =>
      match h.phase with
      | .holding ch result => some (s.offer k h ch result)
      | _ => none
    | none => none

def apply (s : State R) (a : Action R) : State R := (s.step a).getD s

/-- The state after a sequence of actions. -/
def run (actions : List (Action R)) : State R := actions.foldl apply init

/-! ## What a step does

`step_cases` lists the steps with their guards; the invariant is checked against it. -/

/-- A waiter's private steps: its `Publish` returns, or it leaves without a response. -/
inductive Moves (w : Waiter R) : Waiter R → Prop
  | wait (h : w.phase = .sending) : Moves w { w with phase := .waiting }
  | fail (h : w.phase = .sending ∨ w.phase = .waiting) (err : String) :
      Moves w { w with phase := .leaving, outcome := some (.failed err) }

/-- Every transition with what it needs; the invariants below follow from it. -/
theorem step_cases {s s' : State R} {a : Action R} (h : s.step a = some s') :
    (∃ requestID, requestID ∉ s.waiters.map Waiter.requestID ∧
      s' = s.registerPending requestID) ∨
    (∃ i w w', s.waiters[i]? = some w ∧ Moves w w' ∧
      s' = { s with waiters := s.waiters.set i w' }) ∨
    (∃ i w k r, s.waiters[i]? = some w ∧ w.phase = .waiting ∧ w.buffer = some (k, r) ∧
      s' = s.receive i w k r) ∨
    (∃ i w, s.waiters[i]? = some w ∧ w.phase = .leaving ∧ s' = s.rejectPending i w) ∨
    (∃ event, s' = { s with handlers := s.handlers ++ [⟨event, .arrived⟩] }) ∨
    (∃ k h, s.handlers[k]? = some h ∧ h.phase = .arrived ∧ s' = s.resolvePending k h) ∨
    (∃ k h ch r, s.handlers[k]? = some h ∧ h.phase = .holding ch r ∧ s' = s.offer k h ch r) := by
  cases a with
  | register requestID =>
    rw [step] at h
    split_ifs at h with hid
    exact .inl ⟨requestID, hid, (some.inj h).symm⟩
  | published i err =>
    rw [step] at h
    split at h
    · rename_i w hw
      split_ifs at h with hphase
      cases err with
      | none =>
        exact .inr (.inl ⟨i, w, _, hw, .wait hphase, (some.inj h).symm⟩)
      | some err =>
        exact .inr (.inl ⟨i, w, _, hw, .fail (.inl hphase) _, (some.inj h).symm⟩)
    · cases h
  | receive i =>
    rw [step] at h
    split at h
    · rename_i w hw
      split_ifs at h with hphase
      split at h
      · rename_i k r hbuf
        exact .inr (.inr (.inl ⟨i, w, k, r, hw, hphase, hbuf, (some.inj h).symm⟩))
      · cases h
    · cases h
  | cancelled i err | timeout i =>
    rw [step] at h
    split at h
    · rename_i w hw
      split_ifs at h with hphase
      exact .inr (.inl ⟨i, w, _, hw, .fail (.inr hphase) _, (some.inj h).symm⟩)
    · cases h
  | reject i =>
    rw [step] at h
    split at h
    · rename_i w hw
      split_ifs at h with hphase
      exact .inr (.inr (.inr (.inl ⟨i, w, hw, hphase, (some.inj h).symm⟩)))
    · cases h
  | arrive event =>
    exact .inr (.inr (.inr (.inr (.inl ⟨event, (some.inj h).symm⟩))))
  | resolve k =>
    rw [step] at h
    split at h
    · rename_i hd hhd
      split at h
      · rename_i hphase
        exact .inr (.inr (.inr (.inr (.inr (.inl
          ⟨k, hd, hhd, hphase, (some.inj h).symm⟩)))))
      · cases h
    · cases h
  | send k =>
    rw [step] at h
    split at h
    · rename_i hd hhd
      split at h
      · rename_i ch r hphase
        exact .inr (.inr (.inr (.inr (.inr (.inr
          ⟨k, hd, ch, r, hhd, hphase, (some.inj h).symm⟩)))))
      · cases h
    · cases h

end State

end LinkFlow.Pending
