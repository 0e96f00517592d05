/-
Go channels: a buffer, and whether the channel is closed.

An operation on a channel succeeds, blocks, or panics. `send` and `close` panic on a
closed channel and on no other (`send_eq_error` and `send_closed`, `close_open` and
`close_closed`); a receive takes what the buffer still holds before it says that the channel is
closed.
-/
import Mathlib.Data.List.Basic

set_option autoImplicit false

namespace Channel

inductive Panic
  | sendOnClosedChannel
  | closeOfClosedChannel
deriving DecidableEq, Repr

structure Chan (α : Type) where
  cap : ℕ
  buf : List α := []
  closed : Bool := false
deriving DecidableEq, Repr

namespace Chan

variable {α : Type}

/-- `c <- x`; `none` where it blocks. -/
def send (c : Chan α) (x : α) : Except Panic (Option (Chan α)) :=
  if c.closed = true then .error .sendOnClosedChannel
  else if c.buf.length < c.cap then .ok (some { c with buf := c.buf ++ [x] })
  else .ok none

/-- `x, ok := <-c`; the outer `none` where it blocks, the inner one where `ok` is false. -/
def recv (c : Chan α) : Option (Option α × Chan α) :=
  match c.buf with
  | x :: buf => some (some x, { c with buf })
  | [] => if c.closed = true then some (none, c) else none

/-- `close(c)` -/
def close (c : Chan α) : Except Panic (Chan α) :=
  if c.closed = true then .error .closeOfClosedChannel
  else .ok { c with closed := true }

variable {c c' : Chan α} {x : α} {p : Panic}

theorem send_eq_error (h : c.send x = .error p) : c.closed = true := by
  rw [send] at h
  split_ifs at h with hclosed
  exact hclosed

theorem send_closed (h : c.closed = true) : c.send x = .error .sendOnClosedChannel := by
  rw [send, if_pos h]

theorem closed_of_send (h : c.send x = .ok (some c')) : c'.closed = c.closed := by
  rw [send] at h
  split_ifs at h with hclosed hroom
  · obtain rfl := Option.some.inj (Except.ok.inj h)
    rfl
  · cases h

theorem close_open (h : c.closed = false) : c.close = .ok { c with closed := true } := by
  rw [close, if_neg (by simp [h])]

theorem close_closed (h : c.closed = true) : c.close = .error .closeOfClosedChannel := by
  rw [close, if_pos h]

theorem recv_eq_some {v : Option α} (h : c.recv = some (v, c')) :
    (∃ x buf, c.buf = x :: buf ∧ v = some x ∧ c' = { c with buf }) ∨
      (c.buf = [] ∧ c.closed = true ∧ v = none ∧ c' = c) := by
  rw [recv] at h
  split at h
  · rename_i x buf hbuf
    obtain ⟨rfl, rfl⟩ := Prod.mk.inj (Option.some.inj h)
    exact .inl ⟨x, buf, hbuf, rfl, rfl⟩
  · rename_i hbuf
    split_ifs at h with hclosed
    obtain ⟨rfl, rfl⟩ := Prod.mk.inj (Option.some.inj h)
    exact .inr ⟨hbuf, hclosed, rfl, rfl⟩

end Chan

end Channel
