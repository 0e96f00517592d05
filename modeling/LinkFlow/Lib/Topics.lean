/-
Logs with readers, as a message broker keeps them.

Every topic is a log that only grows. A reader is opened on one topic, starts at the end
of its log and moves on by one message at a time. `reads` records every read, so that
"who has read the message at offset `o` of topic `t`" is a question about the state.

In every reachable broker the reads are exactly the messages between each reader's start
and its offset (`Sound`, which every operation keeps). Once all readers are at the end of
their logs, a message has been read by the readers of its topic that were open when it was
written, and by no others (`Sound.read_iff_of_drained`).
-/
import Mathlib

set_option autoImplicit false

namespace Topics

open List

/-- A reader of `topic`, from offset `start` on; `offset` is the next one it reads. -/
structure Reader (T A : Type) where
  topic : T
  owner : A
  (start offset : ℕ)
deriving DecidableEq

/-- Reader number `reader` has read `message` at `offset`. -/
structure Read (M : Type) where
  (reader offset : ℕ)
  message : M

structure Broker (T A M : Type) where
  logs : T → List M
  readers : List (Reader T A)
  reads : List (Read M)

namespace Broker

variable {T A M : Type}

/-- No messages and no readers. -/
def new : Broker T A M := ⟨fun _ => [], [], []⟩

def write [DecidableEq T] (t : T) (m : M) (b : Broker T A M) : Broker T A M :=
  { b with logs := Function.update b.logs t (b.logs t ++ [m]) }

@[simp] theorem logs_write_self [DecidableEq T] (t : T) (m : M) (b : Broker T A M) :
    (b.write t m).logs t = b.logs t ++ [m] :=
  Function.update_self t _ b.logs

theorem logs_write_of_ne [DecidableEq T] {t t' : T} (h : t' ≠ t) (m : M) (b : Broker T A M) :
    (b.write t m).logs t' = b.logs t' :=
  Function.update_of_ne h _ b.logs

def subscribe (t : T) (a : A) (b : Broker T A M) : Broker T A M :=
  { b with readers := b.readers ++ [⟨t, a, (b.logs t).length, (b.logs t).length⟩] }

/-- Reader `i` reads its next message, if there is one. -/
def read (i : ℕ) (b : Broker T A M) : Broker T A M :=
  match b.readers[i]? with
  | none => b
  | some r =>
    match (b.logs r.topic)[r.offset]? with
    | none => b
    | some m =>
      { b with
        readers := b.readers.set i { r with offset := r.offset + 1 },
        reads := b.reads ++ [⟨i, r.offset, m⟩] }

theorem read_cases (i : ℕ) (b : Broker T A M) :
    b.read i = b ∨
      ∃ r m, b.readers[i]? = some r ∧ (b.logs r.topic)[r.offset]? = some m ∧
        b.read i = { b with
          readers := b.readers.set i { r with offset := r.offset + 1 }
          reads := b.reads ++ [⟨i, r.offset, m⟩] } := by
  unfold read
  split
  · exact .inl rfl
  · rename_i r hr
    split
    · exact .inl rfl
    · rename_i m hm
      exact .inr ⟨r, m, hr, hm, rfl⟩

@[simp] theorem logs_read (i : ℕ) (b : Broker T A M) : (b.read i).logs = b.logs := by
  obtain h | ⟨r, m, -, -, h⟩ := read_cases i b
  · rw [h]
  · rw [h]

/-- Offsets stay within the logs, and the reads are the messages from each reader's start up
to its offset. -/
structure Sound (b : Broker T A M) : Prop where
  bounds : ∀ r ∈ b.readers, r.start ≤ r.offset ∧ r.offset ≤ (b.logs r.topic).length
  reads_iff : ∀ i o m, ⟨i, o, m⟩ ∈ b.reads ↔
    ∃ r, b.readers[i]? = some r ∧ r.start ≤ o ∧ o < r.offset ∧ (b.logs r.topic)[o]? = some m

theorem sound_new : Sound (new : Broker T A M) where
  bounds := fun r hr => absurd hr (by simp [new])
  reads_iff := by simp [new]

theorem Sound.write [DecidableEq T] {b : Broker T A M} (h : b.Sound) (t : T) (m : M) :
    (b.write t m).Sound where
  bounds := by
    intro r hr
    obtain ⟨h1, h2⟩ := h.bounds r hr
    refine ⟨h1, h2.trans ?_⟩
    by_cases ht : r.topic = t
    · rw [ht, logs_write_self, length_append]
      omega
    · rw [logs_write_of_ne ht]
  reads_iff := by
    intro i o m'
    rw [show (b.write t m).reads = b.reads from rfl, h.reads_iff]
    refine exists_congr (fun r => and_congr_right (fun hr => and_congr_right (fun _ =>
      and_congr_right (fun ho => ?_))))
    -- a read message lies before the new one
    have hlen : o < (b.logs r.topic).length :=
      lt_of_lt_of_le ho (h.bounds r (mem_of_getElem? hr)).2
    by_cases ht : r.topic = t
    · rw [ht] at hlen
      rw [ht, logs_write_self, getElem?_append_left hlen]
    · rw [logs_write_of_ne ht]

theorem Sound.subscribe {b : Broker T A M} (h : b.Sound) (t : T) (a : A) :
    (b.subscribe t a).Sound where
  bounds := by
    intro r hr
    obtain hr | hr := mem_append.mp hr
    · exact h.bounds r hr
    · obtain rfl := mem_singleton.mp hr
      exact ⟨le_rfl, le_rfl⟩
  reads_iff := by
    intro i o m
    rw [show (b.subscribe t a).reads = b.reads from rfl, h.reads_iff]
    constructor
    · rintro ⟨r, hr, h1, h2, h3⟩
      refine ⟨r, ?_, h1, h2, h3⟩
      have hlt := (List.getElem?_eq_some_iff.mp hr).1
      rw [Broker.subscribe, List.getElem?_append_left hlt]
      exact hr
    · rintro ⟨r, hr, h1, h2, h3⟩
      refine ⟨r, ?_, h1, h2, h3⟩
      rw [Broker.subscribe] at hr
      -- the new reader has read nothing
      by_cases hlt : i < b.readers.length
      · rwa [getElem?_append_left hlt] at hr
      · rw [getElem?_append_right (Nat.le_of_not_lt hlt), getElem?_singleton] at hr
        split_ifs at hr
        cases hr
        dsimp only at h1 h2
        omega

/-- A reader is never ahead of its topic, and has read what is behind it. -/
theorem Sound.read {b : Broker T A M} (h : b.Sound) (i : ℕ) : (b.read i).Sound := by
  obtain heq | ⟨r, m, hr, hm, heq⟩ := read_cases i b
  · rw [heq]
    exact h
  rw [heq]
  have hlt : i < b.readers.length := (List.getElem?_eq_some_iff.mp hr).1
  have hoff : r.offset < (b.logs r.topic).length := (List.getElem?_eq_some_iff.mp hm).1
  have hstart := (h.bounds r (List.mem_of_getElem? hr)).1
  constructor
  · intro r' hr'
    obtain hr' | rfl := mem_or_eq_of_mem_set hr'
    · exact h.bounds r' hr'
    · exact ⟨hstart.trans (Nat.le_succ _), hoff⟩
  · intro j o m'
    rw [mem_append, mem_singleton, h.reads_iff, Read.mk.injEq]
    dsimp only
    by_cases hj : j = i
    · subst hj
      rw [getElem?_set_self hlt, hr]
      constructor
      · rintro (⟨r', hr', h1, h2, h3⟩ | ⟨-, rfl, rfl⟩)
        · cases hr'
          exact ⟨_, rfl, h1, Nat.lt_succ_of_lt h2, h3⟩
        · exact ⟨_, rfl, hstart, Nat.lt_succ_self _, hm⟩
      · rintro ⟨r', hr', h1, h2, h3⟩
        cases hr'
        dsimp only at h1 h2 h3
        obtain hlt' | rfl := Nat.lt_succ_iff_lt_or_eq.mp h2
        · exact .inl ⟨r, rfl, h1, hlt', h3⟩
        · rw [hm] at h3
          exact .inr ⟨rfl, rfl, (Option.some.inj h3).symm⟩
    · rw [getElem?_set_ne (Ne.symm hj)]
      constructor
      · rintro (hold | ⟨rfl, -, -⟩)
        · exact hold
        · exact absurd rfl hj
      · exact .inl

/-- Every reader is at the end of its log. -/
def Drained (b : Broker T A M) : Prop := ∀ r ∈ b.readers, r.offset = (b.logs r.topic).length

instance (b : Broker T A M) : Decidable b.Drained :=
  inferInstanceAs (Decidable (∀ r ∈ b.readers, r.offset = (b.logs r.topic).length))

/-- **Who has read a message.** In a drained broker the message at offset `o` of topic `t` has
been read by `t`'s readers from `o` or earlier on. -/
theorem Sound.read_iff_of_drained {b : Broker T A M} (h : b.Sound) (hd : b.Drained) {t : T}
    {o : ℕ} {m : M} (hm : (b.logs t)[o]? = some m) (i : ℕ) (r : Reader T A)
    (hr : b.readers[i]? = some r) (ht : r.topic = t) : ⟨i, o, m⟩ ∈ b.reads ↔ r.start ≤ o := by
  have hmem := List.mem_of_getElem? hr
  have hlen : o < (b.logs t).length := (List.getElem?_eq_some_iff.mp hm).1
  rw [h.reads_iff]
  constructor
  · rintro ⟨r', hr', h1, -, -⟩
    rw [hr] at hr'
    cases hr'
    exact h1
  · intro h1
    refine ⟨r, hr, h1, ?_, ?_⟩
    · rw [hd r hmem, ht]
      exact hlen
    · rw [ht]
      exact hm

end Broker

end Topics
