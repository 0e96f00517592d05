/-
`PriorityQueue` of `execution/app/queue/priority_queue.go`: a queue of execution
requests kept as a binary heap on their enqueue times.

The queue is the slice `items`. Its methods for `container/heap` are the client
`byEnqueuedAt` of the heap library: `Less` compares enqueue times, and `Swap`
writes the new positions into the items. Instants are integers. Items are values
here and pointers in the source; no method reads an item's `index`, so an item
object queued twice makes no difference to the results.

Every reachable queue is a heap (`run_ordered`), so `Peek` shows an earliest item.
`Dequeue` does not go through `heap.Pop`: its helper `heapPop` calls the queue's own
`Pop`, which takes the last slot.
-/
import LinkFlow.Lib.BinHeap

set_option autoImplicit false

namespace LinkFlow

open List Option

/-- The constants, or any other string. -/
inductive ExecutionPriority
  | high | normal | low
  | other (s : String)
deriving DecidableEq, Repr

/-- `workflow.ExecutionRequest`, as far as the queues read it. -/
structure ExecutionRequest where
  id : String
  workflowID : String := ""
  priority : ExecutionPriority := .normal
deriving DecidableEq, Repr

structure QueueItem where
  request : ExecutionRequest
  priority : ExecutionPriority := .normal
  enqueuedAt : ℤ
  retryCount : ℤ := 0
  lastRetryAt : Option ℤ := none
  index : ℤ := 0
deriving DecidableEq, Repr

/-- `PriorityQueue`, without its lock: every method holds it throughout. -/
structure PriorityQueue where
  items : List QueueItem
  priority : ExecutionPriority
deriving DecidableEq, Repr

/-- Two queue entries are the same item, wherever it stands. -/
def QueueItem.Same (x y : QueueItem) : Prop := { x with index := 0 } = { y with index := 0 }

instance (x y : QueueItem) : Decidable (x.Same y) :=
  inferInstanceAs (Decidable ({ x with index := 0 } = { y with index := 0 }))

theorem QueueItem.Same.enqueuedAt_eq {x y : QueueItem} (h : x.Same y) :
    x.enqueuedAt = y.enqueuedAt := by
  have heq : ({ x with index := 0 } : QueueItem).enqueuedAt
      = ({ y with index := 0 } : QueueItem).enqueuedAt := congrArg QueueItem.enqueuedAt h
  exact heq

namespace PriorityQueue

/-! ## The methods -/

/-- `Less` and `Swap`. -/
def byEnqueuedAt : BinHeap.Items QueueItem ℤ where
  key := QueueItem.enqueuedAt
  place := fun i x => { x with index := i }
  key_place := fun _ _ => rfl

def newPriorityQueue (priority : ExecutionPriority) : PriorityQueue where
  items := BinHeap.init byEnqueuedAt []
  priority := priority

/-- `Push`, and `heapPush` -/
def push (item : QueueItem) (items : List QueueItem) : List QueueItem :=
  items ++ [{ item with index := items.length }]

/-- `Pop`, and `heapPop`: the last slot. The callers check that there is one. -/
def pop (items : List QueueItem) : Option QueueItem × List QueueItem :=
  (items.getLast?.map (fun item => { item with index := -1 }), items.dropLast)

def enqueue (item : QueueItem) (q : PriorityQueue) : PriorityQueue :=
  let items := push item q.items
  { q with items := BinHeap.fix byEnqueuedAt items (items.length - 1) }

def dequeue (q : PriorityQueue) : Option QueueItem × PriorityQueue :=
  if q.items.length = 0 then (none, q)
  else
    let (item, items) := pop q.items
    (item, { q with items := items })

def peek (q : PriorityQueue) : Option QueueItem := q.items.head?

def remove (id : String) (q : PriorityQueue) : Bool × PriorityQueue :=
  match q.items.findIdx? (fun item => item.request.id = id) with
  -- `heap.Remove` ends in the queue's `Pop`, here with the removed item in the last slot
  | some i => (true, { q with items := (BinHeap.remove byEnqueuedAt pop q.items i).2 })
  | none => (false, q)

def clear (q : PriorityQueue) : PriorityQueue := { q with items := [] }

/-! ## Runs -/

/-- A call that changes the queue. -/
inductive Op
  | enqueue (item : QueueItem)
  | dequeue
  | remove (id : String)
  | clear
deriving DecidableEq, Repr

def apply (q : PriorityQueue) : Op → PriorityQueue
  | .enqueue item => q.enqueue item
  | .dequeue => q.dequeue.2
  | .remove id => (q.remove id).2
  | .clear => q.clear

/-- The queue after a sequence of calls on a new one. -/
def run (priority : ExecutionPriority) (ops : List Op) : PriorityQueue :=
  ops.foldl apply (newPriorityQueue priority)

/-- No item is earlier than its parent in the heap. -/
def Ordered (q : PriorityQueue) : Prop :=
  BinHeap.Ordered (BinHeap.keyAt byEnqueuedAt q.items) q.items.length

theorem ordered_nil (priority : ExecutionPriority) : Ordered ⟨[], priority⟩ :=
  fun _ _ hc => absurd hc (Nat.not_lt_zero _)

variable {q : PriorityQueue}

theorem Ordered.enqueue (h : q.Ordered) (item : QueueItem) : (q.enqueue item).Ordered := by
  have hlen : (push item q.items).length = q.items.length + 1 := by
    rw [push, length_append, length_singleton]
  have hfix : BinHeap.Ordered (BinHeap.keyAt byEnqueuedAt
      (BinHeap.fix byEnqueuedAt (push item q.items) q.items.length)) (q.items.length + 1) :=
    BinHeap.fix_snoc_ordered byEnqueuedAt _ h
  unfold Ordered PriorityQueue.enqueue
  dsimp only
  rw [BinHeap.length_fix, hlen, Nat.add_sub_cancel]
  exact hfix

theorem Ordered.dropLast (h : q.Ordered) : Ordered { q with items := q.items.dropLast } := by
  unfold Ordered
  dsimp only
  rw [length_dropLast]
  exact (BinHeap.Ordered.mono h (by omega)).congr
    (fun c hc => BinHeap.keyAt_dropLast byEnqueuedAt hc)

theorem Ordered.dequeue (h : q.Ordered) : q.dequeue.2.Ordered := by
  unfold PriorityQueue.dequeue
  split_ifs
  · exact h
  · exact h.dropLast

theorem Ordered.remove (h : q.Ordered) (id : String) : (q.remove id).2.Ordered := by
  unfold PriorityQueue.remove
  split
  · rename_i i hi
    have hlt : i < q.items.length := (findIdx?_eq_some_iff_getElem.mp hi).1
    have hord := BinHeap.extract_ordered byEnqueuedAt hlt h
    unfold Ordered
    dsimp only [BinHeap.remove, pop]
    rw [length_dropLast, BinHeap.length_extract]
    exact hord
  · exact h

theorem Ordered.apply (h : q.Ordered) (op : Op) : (q.apply op).Ordered := by
  cases op with
  | enqueue item => exact h.enqueue item
  | dequeue => exact h.dequeue
  | remove id => exact h.remove id
  | clear => exact ordered_nil q.priority

/-- Every sequence of calls leaves a heap. -/
theorem run_ordered (priority : ExecutionPriority) (ops : List Op) : (run priority ops).Ordered :=
  foldlRecOn ops apply (ordered_nil priority) (fun _ h op _ => h.apply op)

theorem Ordered.peek_min (h : q.Ordered) {first : QueueItem} (hpeek : q.peek = some first) :
    ∀ x ∈ q.items, first.enqueuedAt ≤ x.enqueuedAt := by
  intro x hx
  obtain ⟨c, hc⟩ := List.getElem?_of_mem hx
  have hlt : c < q.items.length := (List.getElem?_eq_some_iff.mp hc).1
  have hroot := BinHeap.Ordered.root_le h c hlt
  have hfirst : q.items[0]? = some first := by rw [← head?_eq_getElem?]; exact hpeek
  rw [BinHeap.keyAt_of_getElem? byEnqueuedAt hfirst,
    BinHeap.keyAt_of_getElem? byEnqueuedAt hc] at hroot
  exact hroot

/-! ## Contents -/

/-- The requests in the queue, in slot order. -/
def requests (q : PriorityQueue) : List ExecutionRequest := q.items.map QueueItem.request

/-- `Enqueue` adds the item and moves the others; what is read off the items apart from their
slots is permuted. -/
theorem map_enqueue {β : Type} {g : QueueItem → β}
    (hg : ∀ (i : ℕ) (x : QueueItem), g { x with index := i } = g x) (item : QueueItem)
    (q : PriorityQueue) : ((q.enqueue item).items.map g).Perm (g item :: q.items.map g) := by
  have hfix := BinHeap.map_fix_perm byEnqueuedAt (g := g) hg (push item q.items)
    ((push item q.items).length - 1)
  have hpush : (push item q.items).map g = q.items.map g ++ [g item] := by
    rw [push, map_append, map_singleton, hg]
  rw [hpush] at hfix
  exact hfix.trans (perm_append_singleton _ _)

theorem requests_enqueue (item : QueueItem) (q : PriorityQueue) :
    (q.enqueue item).requests.Perm (item.request :: q.requests) :=
  map_enqueue (fun _ _ => rfl) item q

theorem map_pop {β : Type} {g : QueueItem → β} (hg : ∀ (i : ℤ) (x : QueueItem),
    g { x with index := i } = g x) (items : List QueueItem) :
    (((pop items).2 ++ (pop items).1.toList).map g).Perm (items.map g) := by
  rcases eq_nil_or_concat items with rfl | ⟨items, last, rfl⟩
  · exact .refl _
  · rw [pop, concat_eq_append, dropLast_concat, getLast?_concat, map_some,
      toList_some, map_append, map_append, map_singleton, map_singleton, hg]

theorem dequeue_eq (q : PriorityQueue) :
    q.dequeue = ((pop q.items).1, { q with items := (pop q.items).2 }) := by
  unfold dequeue
  split_ifs with h
  · obtain ⟨items, priority⟩ := q
    obtain rfl := length_eq_zero_iff.mp h
    rfl
  · rfl

theorem requests_dequeue {item : QueueItem} (h : q.dequeue.1 = some item) :
    q.requests.Perm (item.request :: q.dequeue.2.requests) := by
  have hpop := map_pop (g := QueueItem.request) (fun _ _ => rfl) q.items
  rw [dequeue_eq] at h ⊢
  rw [show (pop q.items).1 = some item from h, toList_some, map_append, map_singleton] at hpop
  exact hpop.symm.trans (perm_append_singleton _ _)

/-- The items a call takes out of the queue. -/
def taken (q : PriorityQueue) : Op → List QueueItem
  | .enqueue _ => []
  | .dequeue => q.dequeue.1.toList
  | .remove id =>
    match q.items.findIdx? (fun item => item.request.id = id) with
    | some i => (BinHeap.remove byEnqueuedAt pop q.items i).1.toList
    | none => []
  | .clear => q.items

/-- The items a call puts into the queue. -/
def Op.added : Op → List QueueItem
  | .enqueue item => [item]
  | .dequeue | .remove _ | .clear => []

/-- The item without its slot. -/
def forget (x : QueueItem) : QueueItem := { x with index := 0 }

theorem apply_perm (q : PriorityQueue) (op : Op) :
    (((q.apply op).items ++ q.taken op).map forget).Perm ((q.items ++ op.added).map forget) := by
  cases op with
  | enqueue item =>
    rw [taken, append_nil, Op.added, map_append, map_singleton]
    exact (map_enqueue (fun _ _ => rfl) item q).trans (perm_append_singleton _ _).symm
  | dequeue =>
    rw [taken, apply, dequeue_eq, Op.added, append_nil]
    exact map_pop (fun _ _ => rfl) q.items
  | remove id =>
    rw [Op.added, append_nil, taken, apply, remove]
    cases hi : q.items.findIdx? (fun item => item.request.id = id) with
    | none => rw [append_nil]
    | some i =>
      exact (map_pop (fun _ _ => rfl) _).trans (BinHeap.map_extract_perm byEnqueuedAt
        (fun _ _ => rfl) (findIdx?_eq_some_iff_getElem.mp hi).1)
  | clear =>
    rw [taken, Op.added, append_nil]
    exact .refl _

theorem taken_remove (q : PriorityQueue) (id : String) :
    (q.taken (.remove id)).map (fun item => item.request.id) =
      if q.items.any (fun item => item.request.id = id) then [id] else [] := by
  rw [taken]
  cases hi : q.items.findIdx? (fun item => item.request.id = id) with
  | none =>
    rw [findIdx?_eq_none_iff] at hi
    rw [if_neg]
    · rfl
    · rw [List.any_eq_true]
      rintro ⟨x, hx, hid⟩
      exact absurd (hi x hx) (by rw [hid]; decide)
  | some i =>
    obtain ⟨hlt, hid, -⟩ := findIdx?_eq_some_iff_getElem.mp hi
    have hlast := BinHeap.extract_getLast? byEnqueuedAt
      (g := fun item => item.request.id) (fun _ _ => rfl) hlt
    rw [getElem?_eq_getElem hlt, map_some, of_decide_eq_true hid] at hlast
    obtain ⟨last, hlast, hlastID⟩ := map_eq_some_iff.mp hlast
    rw [if_pos (any_eq_true.mpr ⟨_, getElem_mem hlt, hid⟩)]
    dsimp only [BinHeap.remove, pop]
    rw [hlast, map_some, toList_some, map_singleton]
    exact congrArg (fun id => [id]) hlastID

/-- Every item knows its slot. -/
def Placed (q : PriorityQueue) : Prop :=
  ∀ (k : ℕ) (x : QueueItem), q.items[k]? = some x → x.index = k

theorem placed_iff : q.Placed ↔ BinHeap.Placed byEnqueuedAt q.items := by
  refine forall₃_congr (fun k x _ => ⟨fun h => ⟨x, ?_⟩, ?_⟩)
  · dsimp only [byEnqueuedAt]
    rw [← h]
  · rintro ⟨y, rfl⟩
    rfl

theorem Placed.pop (h : q.Placed) : Placed { q with items := (pop q.items).2 } := by
  intro k x hx
  rw [PriorityQueue.pop, getElem?_dropLast] at hx
  split_ifs at hx
  exact h k x hx

theorem Placed.apply (h : q.Placed) (op : Op) : (q.apply op).Placed := by
  have hswap := fun l i j (_ : i ≤ j) (_ : j < q.items.length + 1)
    (h : BinHeap.Placed byEnqueuedAt l) => h.swap byEnqueuedAt i j
  cases op with
  | enqueue item =>
    refine placed_iff.mpr (BinHeap.sift_closed byEnqueuedAt hswap ?_ ?_ ?_)
    · rw [push, length_append, length_singleton]
      omega
    · rw [push, length_append, length_singleton]
    intro k x hx
    rw [push, getElem?_append] at hx
    split_ifs at hx with hk
    · exact placed_iff.mp h k x hx
    rw [getElem?_singleton] at hx
    split_ifs at hx with h0
    rw [← some.inj hx, show k = q.items.length by omega]
    exact ⟨item, rfl⟩
  | dequeue =>
    rw [PriorityQueue.apply, dequeue_eq]
    exact h.pop
  | remove id =>
    rw [PriorityQueue.apply, remove]
    split
    · rename_i i hi
      have hextract := BinHeap.extract_closed byEnqueuedAt hswap
        (findIdx?_eq_some_iff_getElem.mp hi).1 (Nat.le_succ _) (placed_iff.mp h)
      exact (placed_iff.mpr hextract : Placed ⟨_, q.priority⟩).pop
    · exact h
  | clear =>
    intro k x hx
    cases hx

/-- The items that a sequence of calls takes out. -/
def takenAll (q : PriorityQueue) : List Op → List QueueItem
  | [] => []
  | op :: ops => q.taken op ++ takenAll (q.apply op) ops

theorem foldl_apply_perm (ops : List Op) (q : PriorityQueue) :
    (((ops.foldl apply q).items ++ q.takenAll ops).map forget).Perm
      ((q.items ++ ops.flatMap Op.added).map forget) := by
  induction ops generalizing q with
  | nil => exact .refl _
  | cons op ops ih =>
    have hstep := apply_perm q op
    have hrest := ih (q.apply op)
    simp only [foldl_cons, takenAll, flatMap_cons, map_append] at hstep hrest ⊢
    refine (perm_append_comm_assoc _ _ _).trans ((hrest.append_left _).trans ?_)
    rw [← append_assoc, ← append_assoc]
    exact (perm_append_comm.trans hstep).append_right _

/-- **The queue is a heap.** After any calls on a new queue no item is earlier than its parent,
every item knows its slot, `Peek` shows an earliest item unless there is none, and the items are
those enqueued without those taken out; `Remove` takes one item with the given request ID, if there
is one. -/
theorem run_heap (priority : ExecutionPriority) (ops : List Op) :
    (run priority ops).Ordered ∧ (run priority ops).Placed ∧
      (∀ first, (run priority ops).peek = some first → first ∈ (run priority ops).items ∧
        ∀ x ∈ (run priority ops).items, first.enqueuedAt ≤ x.enqueuedAt) ∧
      ((run priority ops).items ≠ [] → ∃ first, (run priority ops).peek = some first) ∧
      (((run priority ops).items ++ (newPriorityQueue priority).takenAll ops).map forget).Perm
        ((ops.flatMap Op.added).map forget) ∧
      ∀ id, ((run priority ops).taken (.remove id)).map (fun item => item.request.id) =
        if (run priority ops).items.any (fun item => item.request.id = id) then [id] else [] := by
  refine ⟨run_ordered priority ops, ?_, fun first hfirst => ⟨?_, ?_⟩, fun hne => ?_, ?_,
    taken_remove _⟩
  · refine foldlRecOn ops apply (motive := Placed) ?_ (fun _ h op _ => h.apply op)
    intro k x hx
    cases hx
  · exact mem_of_mem_head? hfirst
  · exact (run_ordered priority ops).peek_min hfirst
  · exact ⟨_, head?_eq_some_head hne⟩
  · exact foldl_apply_perm ops (newPriorityQueue priority)

/-! ## `Dequeue` -/

/-- A `Dequeue` on a queue that is not empty returns the item `Peek` shows, and no
queued item is earlier. -/
def DequeuesFirst (q : PriorityQueue) : Prop :=
  ∀ first, q.peek = some first → ∃ item, q.dequeue.1 = some item ∧ item.Same first ∧
      ∀ x ∈ q.items, item.enqueuedAt ≤ x.enqueuedAt

/-- The last slot holds the item of the first: there is one item in the queue, or the
item stands in it again. -/
def LastIsFirst (q : PriorityQueue) : Prop :=
  ∀ first last, q.items.head? = some first → q.items.getLast? = some last → last.Same first

theorem dequeue_fst {last : QueueItem} (h : q.items.getLast? = some last) :
    q.dequeue.1 = some { last with index := -1 } := by
  have hne : q.items.length ≠ 0 := by
    intro h0
    rw [length_eq_zero_iff.mp h0] at h
    cases h
  unfold dequeue
  rw [if_neg hne]
  dsimp only [pop]
  rw [h]
  rfl

/-- `Dequeue` takes the last item of the slice, which need not be the first in order. -/
theorem Ordered.dequeuesFirst_iff (h : q.Ordered) : q.DequeuesFirst ↔ q.LastIsFirst := by
  constructor
  · intro hdeq first last hfirst hlast
    obtain ⟨item, hitem, hsame, -⟩ := hdeq first hfirst
    rw [dequeue_fst hlast] at hitem
    cases hitem
    exact hsame
  · intro hlf first hfirst
    obtain ⟨last, hlast⟩ : ∃ last, q.items.getLast? = some last := by
      cases hl : q.items.getLast? with
      | some last => exact ⟨last, rfl⟩
      | none =>
        rw [peek, getLast?_eq_none_iff.mp hl] at hfirst
        cases hfirst
    have hsame : QueueItem.Same last first := hlf first last hfirst hlast
    refine ⟨_, dequeue_fst hlast, hsame, fun x hx => ?_⟩
    exact hsame.enqueuedAt_eq.trans_le (h.peek_min hfirst x hx)

/-- **When a queue is first in, first out**: every `Dequeue` returns the earliest item, which `Peek`
shows, exactly when each meets a queue whose last slot holds that item. -/
theorem all_dequeue_first_iff (priority : ExecutionPriority) (ops : List Op) :
    (∀ pre post, ops = pre ++ Op.dequeue :: post → (run priority pre).DequeuesFirst) ↔
      ∀ pre post, ops = pre ++ Op.dequeue :: post → (run priority pre).LastIsFirst := by
  constructor
  · intro h pre post heq
    exact (run_ordered priority pre).dequeuesFirst_iff.mp (h pre post heq)
  · intro h pre post heq
    exact (run_ordered priority pre).dequeuesFirst_iff.mpr (h pre post heq)

/-- Two requests in the order of their enqueue times, then a `Dequeue`. -/
def twoRequests : List Op :=
  [.enqueue { request := { id := "r1" }, enqueuedAt := 1 },
    .enqueue { request := { id := "r2" }, enqueuedAt := 2 }]

/-- `Peek` shows the earlier request and `Dequeue` returns the later one. -/
theorem twoRequests_last_in_first_out :
    (run .normal twoRequests).peek.map QueueItem.request = some { id := "r1" } ∧
      (run .normal twoRequests).dequeue.1.map QueueItem.request = some { id := "r2" } ∧
      ¬ (run .normal twoRequests).DequeuesFirst := by
  refine ⟨by decide, by decide, fun h => ?_⟩
  have hpeek : (run .normal twoRequests).peek
      = some { request := { id := "r1" }, enqueuedAt := 1, index := 0 } := by decide
  obtain ⟨item, hitem, hsame, -⟩ := h _ hpeek
  have hlast : (run .normal twoRequests).dequeue.1
      = some { request := { id := "r2" }, enqueuedAt := 2, index := -1 } := by decide
  rw [hlast] at hitem
  cases hitem
  exact absurd hsame (by decide)

end PriorityQueue

end LinkFlow
