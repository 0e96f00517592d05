/-
The dead letter queue (`DeadLetterQueue` of `execution/app/queue/priority_queue.go`) and its copies
in Redis.

`Add` writes the item it has added or counted up to Redis, `Remove` deletes it there, and
`RestoreFromRedis` appends what a scan of Redis finds. It does not look at what the queue holds, nor
whether the scan has named a key before, as a scan may. And a new item can be retried whatever
`maxRetries` is. That is all that can go wrong (`deadLetters_right_iff`).

The entries of Redis are named by the request ID; encoding and decoding are left out. They outlive
the process and expire after seven days.
-/
import LinkFlow.QueueManager
import LinkFlow.Lib.Runs

set_option autoImplicit false

namespace LinkFlow.Queue.DeadLetters

open List

/-- The queue, its copies in Redis, and the number of failures of a request since it last entered
the queue. -/
structure State where
  dlq : DeadLetterQueue
  redis : GoMap String DeadLetterItem := ∅
  since : String → ℤ := fun _ => 0

inductive Action
  | add (now : ℤ) (request : ExecutionRequest) (err : String)
  | remove (requestID : String)
  | restore (keys : List String)
  | restart
  | expire (requestID : String)

def remove (requestID : String) (s : State) : Bool × State :=
  if s.dlq.has requestID then
    (true, { s with
      dlq := { s.dlq with items := s.dlq.items.eraseP (fun x => x.request.id = requestID) }
      redis := s.redis.erase requestID })
  else (false, s)

def restoreFromRedis (keys : List String) (s : State) : State :=
  { s with dlq := { s.dlq with items := s.dlq.items ++ keys.filterMap s.redis.lookup } }

def step (s : State) : Action → State
  | .add now request err =>
    let (item, dlq) := s.dlq.add now request err
    { dlq := dlq
      redis := s.redis.insert item.request.id item
      since := Function.update s.since request.id
        (if s.dlq.has request.id then s.since request.id + 1 else 0) }
  | .remove requestID => (remove requestID s).2
  | .restore keys => restoreFromRedis keys s
  | .restart => { s with dlq := { s.dlq with items := [] } }
  | .expire requestID => { s with redis := s.redis.erase requestID }

/-- The counters of an item. -/
def State.Counted (s : State) (x : DeadLetterItem) : Prop :=
  x.retryCount = s.since x.request.id ∧ (x.canRetry = true ↔ x.retryCount < s.dlq.maxRetries)

/-- No request is there twice, and the counters are right. -/
def State.Right (s : State) : Prop :=
  (s.dlq.items.map (fun x => x.request.id)).Nodup ∧ ∀ x ∈ s.dlq.items, s.Counted x

/-- A new item is added only if there are retries, and a restore finds every key once and none whose
request is in the queue. -/
def Allowed (s : State) : Action → Prop
  | .add _ request _ => s.dlq.has request.id = false → 0 < s.dlq.maxRetries
  | .restore keys => (keys.filter (fun k => k ∈ s.redis)).Nodup ∧
    ∀ k ∈ keys, k ∈ s.redis → s.dlq.has k = false
  | .remove _ | .restart | .expire _ => True

/-- The queue is right, and so are the copies. -/
structure State.Sound (s : State) : Prop where
  right : s.Right
  copies : ∀ id x, s.redis.lookup id = some x → x.request.id = id ∧ s.Counted x

variable {s : State}

theorem exists_split {id : String} {items : List DeadLetterItem} {x : DeadLetterItem}
    (h : items.find? (fun x => x.request.id = id) = some x) :
    x.request.id = id ∧ ∃ pre post, items = pre ++ x :: post ∧
      items.eraseP (fun x => x.request.id = id) = pre ++ post := by
  obtain ⟨hx, pre, post, rfl, hpre⟩ := find?_eq_some_iff_append.mp h
  refine ⟨of_decide_eq_true hx, pre, post, rfl, ?_⟩
  rw [eraseP_append_right _ (fun y hy => by simpa using hpre y hy), eraseP_cons, hx]
  rfl

theorem State.Right.split (h : s.Right) {pre post : List DeadLetterItem} {x : DeadLetterItem}
    (hitems : s.dlq.items = pre ++ x :: post) : ((pre ++ post).map (fun y => y.request.id)).Nodup ∧
      ∀ y ∈ pre ++ post, y ∈ s.dlq.items ∧ y.request.id ≠ x.request.id := by
  have hperm : s.dlq.items.Perm (x :: (pre ++ post)) := hitems ▸ perm_middle
  have hnodup := (hperm.map (fun y => y.request.id)).nodup_iff.mp h.1
  rw [map_cons, nodup_cons] at hnodup
  refine ⟨hnodup.2, fun y hy => ⟨hperm.mem_iff.mpr (mem_cons_of_mem _ hy), fun heq => ?_⟩⟩
  exact hnodup.1 (mem_map.mpr ⟨y, hy, heq⟩)

theorem has_eq_false_iff (dlq : DeadLetterQueue) (id : String) :
    dlq.has id = false ↔ ∀ x ∈ dlq.items, x.request.id ≠ id := by
  rw [← Bool.not_eq_true, DeadLetterQueue.has_iff]
  push Not
  rfl

theorem add_spec (h : s.Right) (now : ℤ) (request : ExecutionRequest) (err : String)
    {item : DeadLetterItem} {dlq : DeadLetterQueue}
    (hadd : s.dlq.add now request err = (item, dlq)) :
    item.request.id = request.id ∧ dlq.maxRetries = s.dlq.maxRetries ∧
      (∃ rest, dlq.items = rest ++ [item] ∧ (rest.map (fun y => y.request.id)).Nodup ∧
        ∀ y ∈ rest, y ∈ s.dlq.items ∧ y.request.id ≠ request.id) ∧
      (s.dlq.has request.id = true ∧ item.retryCount = s.since request.id + 1 ∧
          (item.canRetry = true ↔ item.retryCount < s.dlq.maxRetries) ∨
        s.dlq.has request.id = false ∧ item.retryCount = 0 ∧ item.canRetry = true) := by
  unfold DeadLetterQueue.add at hadd
  split at hadd
  · rename_i existing hfind
    obtain ⟨hid, pre, post, hitems, herase⟩ := exists_split hfind
    cases hadd
    have hmem : existing ∈ s.dlq.items := mem_of_find?_eq_some hfind
    have hrest := h.split hitems
    rw [hid] at hrest
    refine ⟨hid, rfl, ⟨pre ++ post, by rw [← herase], hrest⟩, .inl ⟨?_, ?_, by simp⟩⟩
    · exact (DeadLetterQueue.has_iff _ _).mpr ⟨existing, hmem, hid⟩
    · rw [← hid, (h.2 existing hmem).1]
  · rename_i hfind
    cases hadd
    have hnew : ∀ y ∈ s.dlq.items, y.request.id ≠ request.id := fun y hy =>
      of_decide_eq_false (by simpa using find?_eq_none.mp hfind y hy)
    exact ⟨rfl, rfl, ⟨s.dlq.items, rfl, h.1, fun y hy => ⟨hy, hnew y hy⟩⟩,
      .inr ⟨(has_eq_false_iff _ _).mpr hnew, rfl, rfl⟩⟩

theorem sound_add (h : s.Sound) (now : ℤ) (request : ExecutionRequest) (err : String)
    (hok : Allowed s (.add now request err)) : (step s (.add now request err)).Sound := by
  obtain ⟨⟨item, dlq⟩, hadd⟩ : ∃ r, s.dlq.add now request err = r := ⟨_, rfl⟩
  obtain ⟨hid, hmax, ⟨rest, hitems, hnodup, hrest⟩, hcount⟩ :=
    add_spec h.right now request err hadd
  rw [step, hadd]
  dsimp only
  generalize hsince : Function.update s.since request.id _ = since
  have hother : ∀ y : DeadLetterItem, y.request.id ≠ request.id → s.Counted y →
      State.Counted ⟨dlq, s.redis.insert item.request.id item, since⟩ y := by
    intro y hy hcounted
    rw [State.Counted, hmax, ← hsince]
    dsimp only
    rwa [Function.update_of_ne hy]
  have hitem : State.Counted ⟨dlq, s.redis.insert item.request.id item, since⟩ item := by
    rw [State.Counted, hmax, ← hsince]
    dsimp only
    rw [hid, Function.update_self]
    rcases hcount with ⟨hhas, hretry, hcan⟩ | ⟨hhas, hretry, hcan⟩
    · rw [if_pos hhas]
      exact ⟨hretry, hcan⟩
    · rw [hhas, if_neg Bool.false_ne_true, hretry, hcan]
      exact ⟨rfl, iff_of_true rfl (hok hhas)⟩
  refine ⟨⟨?_, fun y hy => ?_⟩, fun id y hy => ?_⟩
  · rw [hitems, map_append, map_singleton, hid, nodup_append]
    refine ⟨hnodup, nodup_singleton _, fun a ha b hb heq => ?_⟩
    obtain ⟨y, hy, rfl⟩ := mem_map.mp ha
    exact (hrest y hy).2 (heq.trans (mem_singleton.mp hb))
  · rw [hitems] at hy
    rcases mem_append.mp hy with hy | hy
    · exact hother y (hrest y hy).2 (h.right.2 y (hrest y hy).1)
    · rwa [mem_singleton.mp hy]
  · rw [GoMap.lookup_insert] at hy
    split_ifs at hy with heq
    · cases hy
      exact ⟨heq.symm, hitem⟩
    · obtain ⟨hyid, hcounted⟩ := h.copies id y hy
      exact ⟨hyid, hother y (by rwa [hyid, ← hid]) hcounted⟩

theorem map_restored (h : s.Sound) (keys : List String) :
    (keys.filterMap s.redis.lookup).map (fun x => x.request.id) =
      keys.filter (fun k => k ∈ s.redis) := by
  induction keys with
  | nil => rfl
  | cons k keys ih =>
    cases hk : s.redis.lookup k with
    | none =>
      have hmem : ¬ k ∈ s.redis := AList.lookup_eq_none.mp hk
      rw [filterMap_cons, hk, ih, filter_cons_of_neg (by simpa using hmem)]
    | some x =>
      have hmem : k ∈ s.redis := AList.lookup_isSome.mp (by rw [hk]; rfl)
      rw [filterMap_cons, hk, map_cons, ih,
        filter_cons_of_pos (by simpa using hmem), (h.copies k x hk).1]

theorem nodup_restored_iff (h : s.Sound) (keys : List String) :
    ((s.dlq.items ++ keys.filterMap s.redis.lookup).map (fun x => x.request.id)).Nodup ↔
      Allowed s (.restore keys) := by
  rw [map_append, map_restored h, nodup_append, Allowed]
  simp only [h.right.1, true_and, has_eq_false_iff]
  refine and_congr_right (fun _ => ⟨fun hne k hk hkr x hx heq => ?_, fun hne a ha b hb heq => ?_⟩)
  · exact hne _ (mem_map.mpr ⟨x, hx, heq⟩) k (mem_filter.mpr ⟨hk, by simpa using hkr⟩) rfl
  · obtain ⟨x, hx, rfl⟩ := mem_map.mp ha
    obtain ⟨hk, hkr⟩ := mem_filter.mp hb
    exact hne b hk (by simpa using hkr) x hx heq

/-- Allowed steps keep the queue and Redis with the same letters, each once. -/
theorem sound_step (s : State) (a : Action) (h : s.Sound) (hok : Allowed s a) :
    (step s a).Sound := by
  cases a with
  | add now request err => exact sound_add h now request err hok
  | remove requestID =>
    rw [step, remove]
    split_ifs with hhas
    · obtain ⟨x, hfind⟩ : ∃ x, s.dlq.items.find? (fun x => x.request.id = requestID) = some x :=
        Option.isSome_iff_exists.mp (by rwa [find?_isSome, ← any_eq_true])
      obtain ⟨-, pre, post, hitems, herase⟩ := exists_split hfind
      have hrest := h.right.split hitems
      dsimp only
      rw [herase]
      exact ⟨⟨hrest.1, fun y hy => h.right.2 y (hrest.2 y hy).1⟩,
        GoMap.forall_erase h.copies requestID⟩
    · exact h
  | restore keys =>
    refine ⟨⟨(nodup_restored_iff h keys).mpr hok, fun x hx => ?_⟩, h.copies⟩
    rcases mem_append.mp hx with hx | hx
    · exact h.right.2 x hx
    · obtain ⟨k, -, hk⟩ := mem_filterMap.mp hx
      exact (h.copies k x hk).2
  | restart => exact ⟨⟨nodup_nil, fun x hx => by cases hx⟩, h.copies⟩
  | expire requestID => exact ⟨h.right, GoMap.forall_erase h.copies requestID⟩

/-- **The dead letter queue.** In all states of a run no request is there twice, its retry count is
the number of its failures since it entered, and it can be retried while that is below `maxRetries`,
exactly if every action is allowed. -/
theorem deadLetters_right_iff (maxRetries : ℤ) (as : List Action) :
    Runs.Always step State.Right { dlq := { maxRetries := maxRetries } } as ↔
      Runs.Along step Allowed { dlq := { maxRetries := maxRetries } } as := by
  refine Runs.always_iff_along_of_strengthen (Q := State.Sound) (fun s => State.Sound.right)
    sound_step (fun s a hs hright => ?_) ⟨⟨nodup_nil, fun x hx => by cases hx⟩,
      fun id x hx => by cases hx⟩
  cases a with
  | add now request err =>
    intro hhas
    obtain ⟨⟨item, dlq⟩, hadd⟩ : ∃ r, s.dlq.add now request err = r := ⟨_, rfl⟩
    obtain ⟨-, hmax, ⟨rest, hitems, -⟩, hcount⟩ := add_spec hs.right now request err hadd
    rw [step, hadd] at hright
    obtain ⟨-, hcan⟩ := hright.2 item (by dsimp only; rw [hitems]; simp)
    rcases hcount with ⟨hhas', -⟩ | ⟨-, hretry, hcan'⟩
    · rw [hhas] at hhas'
      cases hhas'
    · rw [hretry, hcan'] at hcan
      exact hmax ▸ hcan.mp rfl
  | restore keys => exact (nodup_restored_iff hs keys).mp hright.1
  | remove requestID => trivial
  | restart => trivial
  | expire requestID => trivial

/-- A restore of what is in the queue, and a new item without retries. -/
theorem restored_twice : ([Action.add 0 { id := "r" } "e", .restore ["r"]].foldl step
        { dlq := { maxRetries := 3 } }).dlq.items.map (fun x => x.request.id) = ["r", "r"] ∧
      ([Action.add 0 { id := "r" } "e"].foldl step
        { dlq := { maxRetries := 0 } }).dlq.items.map (fun x => (x.retryCount, x.canRetry)) =
          [(0, true)] := by
  decide

end LinkFlow.Queue.DeadLetters
