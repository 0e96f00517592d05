/-
Saving the queues to Redis and restoring them (`saveQueues` and `restoreQueues` of
`internal/execution/app/queue/manager.go`).

A save writes one key for each queue that has items and passes over the empty ones; a
restore reads the three keys and enqueues what it finds. What a new manager gets is
therefore what was saved last under each key, and for a queue that was empty at the last
save this is the content of an earlier one (`restored_iff`).

Between saves Redis sees other commands of the manager; none touches the keys of the
queues. `Readable` is what all of them keep: under those keys there are encodings of
non-empty lists.
-/
import LinkFlow.QueueRuns

set_option autoImplicit false

namespace LinkFlow

open List Option

/-- What JSON keeps of an item: `index` is not exported. -/
def QueueItem.exported (x : QueueItem) : QueueItem := { x with index := 0 }

namespace PriorityQueue

def contents (q : PriorityQueue) : List QueueItem := q.items.map QueueItem.exported

/-- `for _, item := range items { queue.Enqueue(item) }` -/
def enqueueAll (items : List QueueItem) (q : PriorityQueue) : PriorityQueue :=
  items.foldl (fun q item => q.enqueue item) q

theorem contents_enqueueAll (items : List QueueItem) (q : PriorityQueue) :
    (q.enqueueAll items).contents.Perm (items.map QueueItem.exported ++ q.contents) := by
  induction items generalizing q with
  | nil => exact List.Perm.refl _
  | cons item items ih =>
    have hone : (q.enqueue item).contents.Perm (item.exported :: q.contents) :=
      map_enqueue (fun _ _ => rfl) item q
    have hrest := ih (q.enqueue item)
    refine hrest.trans ((hone.append_left _).trans ?_)
    exact perm_middle

end PriorityQueue

namespace Queue

/-! ## The queues of a manager -/

/-- The keys of the map that `saveQueues` and `restoreQueues` range over. -/
def queues : List ExecutionPriority := [.high, .normal, .low]

namespace QueueManager

def queueOf (qm : QueueManager) : ExecutionPriority → PriorityQueue
  | .high => qm.highQueue
  | .low => qm.lowQueue
  | _ => qm.normalQueue

def setQueue (q : PriorityQueue) (qm : QueueManager) : ExecutionPriority → QueueManager
  | .high => { qm with highQueue := q }
  | .low => { qm with lowQueue := q }
  | _ => { qm with normalQueue := q }

theorem queueOf_setQueue {p p' : ExecutionPriority} (hp : p ∈ queues) (hp' : p' ∈ queues)
    (q : PriorityQueue) (qm : QueueManager) :
    (qm.setQueue q p').queueOf p = if p = p' then q else qm.queueOf p := by
  simp only [queues, mem_cons, not_mem_nil, or_false] at hp hp'
  rcases hp with rfl | rfl | rfl
  all_goals rcases hp' with rfl | rfl | rfl
  all_goals rfl

/-- The map literal of `saveQueues`. -/
def keyed (qm : QueueManager) : List (Key × PriorityQueue) :=
  queues.map (fun p => (.queue p, qm.queueOf p))

end QueueManager

/-! ## The two functions -/

/-- Why `saveQueues` or `restoreQueues` gave up. The texts of `encoding/json` are left out. -/
inductive PersistError
  | marshal (key : Key)
  | save (key : Key) (err : String)
  | get (key : Key) (err : String)
  | unmarshal (key : Key)
deriving DecidableEq, Repr

section Functions

variable {D : Type} (js : Json D)

/-- The loop of `saveQueues`; `fault` is the error of a `SET` that fails. -/
def saveLoop (fault : Key → Option String) (redis : Redis D) :
    List (Key × PriorityQueue) → Option PersistError × Redis D
  | [] => (none, redis)
  | (key, queue) :: rest =>
    if queue.items.length = 0 then saveLoop fault redis rest
    else
      match js.items.encode queue.contents with
      | none => (some (.marshal key), redis)
      | some data =>
        match fault key with
        | some err => (some (.save key err), redis)
        | none => saveLoop fault (redis.insert key ⟨data, none⟩) rest

def QueueManager.saveQueues (ρ : RangeOrder) (fault : Key → Option String) (redis : Redis D)
    (qm : QueueManager) : Option PersistError × Redis D :=
  saveLoop js fault redis (ρ.run 341 qm.keyed)

/-- The loop of `restoreQueues`; `fault` is the error of a `GET` that fails. -/
def restoreLoop (fault : Key → Option String) (now : ℤ) (redis : Redis D) :
    List ExecutionPriority → QueueManager → Option PersistError × QueueManager
  | [], qm => (none, qm)
  | p :: rest, qm =>
    match fault (.queue p) with
    | some err => (some (.get (.queue p) err), qm)
    | none =>
      match (redis.lookup (.queue p)).filter (Expiring.Store.live now) with
      | none => restoreLoop fault now redis rest qm
      | some entry =>
        match js.items.decode entry.value with
        | none => (some (.unmarshal (.queue p)), qm)
        | some items =>
          restoreLoop fault now redis rest
            (qm.setQueue ((qm.queueOf p).enqueueAll items) p)

def QueueManager.restoreQueues (ρ : RangeOrder) (fault : Key → Option String) (now : ℤ)
    (redis : Redis D) (qm : QueueManager) : Option PersistError × QueueManager :=
  restoreLoop js fault now redis (ρ.run 373 queues) qm

end Functions

/-! ## What a save leaves in Redis -/

section Save

variable {D : Type} {js : Json D} {fault : Key → Option String}

theorem lookup_saveLoop {qs : List (Key × PriorityQueue)} {key : Key}
    (hkey : ∀ q ∈ qs, key ≠ q.1) (redis : Redis D) :
    (saveLoop js fault redis qs).2.lookup key = redis.lookup key := by
  induction qs generalizing redis with
  | nil => rfl
  | cons q qs ih =>
    have hrest : ∀ q ∈ qs, key ≠ q.1 := fun q hq => hkey q (mem_cons_of_mem _ hq)
    rw [saveLoop]
    split_ifs
    · exact ih hrest redis
    split
    · rfl
    split
    · rfl
    · rw [ih hrest]
      exact AList.lookup_insert_ne (hkey q mem_cons_self)

/-- A save that returns no error has written the queues that have items, and left the keys
of the others alone. -/
theorem saveLoop_eq_none {qs : List (Key × PriorityQueue)} {redis : Redis D}
    (hnodup : (qs.map Prod.fst).Nodup) (h : (saveLoop js fault redis qs).1 = none)
    {key : Key} {q : PriorityQueue} (hq : (key, q) ∈ qs) :
    (q.items = [] → (saveLoop js fault redis qs).2.lookup key = redis.lookup key) ∧
      (q.items ≠ [] → ∃ data, js.items.encode q.contents = some data ∧
        (saveLoop js fault redis qs).2.lookup key = some ⟨data, none⟩) := by
  induction qs generalizing redis with
  | nil => cases hq
  | cons q' qs ih =>
    rw [map_cons, nodup_cons] at hnodup
    -- the head's key does not come again
    have hlater : ∀ e ∈ qs, q'.1 ≠ e.1 := by
      intro e he heq
      exact hnodup.1 (heq ▸ mem_map_of_mem he)
    rw [saveLoop] at h ⊢
    by_cases hempty : q'.2.items.length = 0
    · rw [if_pos hempty] at h ⊢
      rcases mem_cons.mp hq with rfl | hq
      · refine ⟨fun _ => lookup_saveLoop hlater redis, fun hne => ?_⟩
        exact absurd (length_eq_zero_iff.mp hempty) hne
      · exact ih hnodup.2 h hq
    · rw [if_neg hempty] at h ⊢
      cases hencode : js.items.encode q'.2.contents with
      | none =>
        rw [hencode] at h
        cases h
      | some data =>
        rw [hencode] at h
        dsimp only at h ⊢
        cases hfault : fault q'.1 with
        | some err =>
          rw [hfault] at h
          cases h
        | none =>
          rw [hfault] at h
          dsimp only at h ⊢
          rcases mem_cons.mp hq with rfl | hq
          · refine ⟨fun hnil => absurd (by rw [hnil]; rfl) hempty, fun _ => ?_⟩
            refine ⟨data, hencode, ?_⟩
            rw [lookup_saveLoop hlater, AList.lookup_insert]
          · have hne : key ≠ q'.1 := fun heq => hlater _ hq heq.symm
            have hrest := ih hnodup.2 h hq
            rw [AList.lookup_insert_ne hne] at hrest
            exact hrest

/-- Under the keys of the queues there are encodings of non-empty lists, without a
deadline. -/
def Readable (js : Json D) (redis : Redis D) : Prop :=
  ∀ p e, redis.lookup (.queue p) = some e →
    e.deadline = none ∧ ∃ items, items ≠ [] ∧ js.items.decode e.value = some items

theorem Readable.congr {redis redis' : Redis D} (h : Readable js redis)
    (heq : ∀ p, redis'.lookup (.queue p) = redis.lookup (.queue p)) : Readable js redis' := by
  intro p e he
  rw [heq p] at he
  exact h p e he

theorem Readable.saveLoop {redis : Redis D} (h : Readable js redis)
    (qs : List (Key × PriorityQueue)) : Readable js (saveLoop js fault redis qs).2 := by
  induction qs generalizing redis with
  | nil => exact h
  | cons q qs ih =>
    rw [Queue.saveLoop]
    split_ifs with hempty
    · exact ih h
    split
    · exact h
    rename_i data hencode
    split
    · exact h
    refine ih ?_
    intro p e he
    by_cases hkey : Key.queue p = q.1
    · rw [hkey, AList.lookup_insert, some_inj] at he
      rw [← he]
      refine ⟨rfl, _, ?_, js.items.decode_encode _ _ hencode⟩
      intro hnil
      rw [PriorityQueue.contents, map_eq_nil_iff] at hnil
      exact hempty (by rw [hnil]; rfl)
    · rw [AList.lookup_insert_ne hkey] at he
      exact h p e he

end Save

/-! ## What a restore makes of it -/

section Restore

variable {D : Type} {js : Json D} {redis : Redis D} {now : ℤ}

def storedItems (js : Json D) (now : ℤ) (redis : Redis D) (p : ExecutionPriority) :
    List QueueItem :=
  (((redis.lookup (.queue p)).filter (Expiring.Store.live now)).bind
    (fun e => js.items.decode e.value)).getD []

theorem filter_live (h : Readable js redis) (p : ExecutionPriority) :
    (redis.lookup (.queue p)).filter (Expiring.Store.live now) = redis.lookup (.queue p) := by
  cases hl : redis.lookup (.queue p) with
  | none => rfl
  | some e =>
    rw [filter_some, Expiring.Store.live, (h p e hl).1]
    rfl

theorem storedItems_eq_nil_iff (h : Readable js redis) (now : ℤ) (p : ExecutionPriority) :
    storedItems js now redis p = [] ↔ redis.lookup (.queue p) = none := by
  rw [storedItems, filter_live h]
  cases hl : redis.lookup (.queue p) with
  | none => simp
  | some e =>
    obtain ⟨-, items, hne, hdecode⟩ := h p e hl
    simp [hdecode, hne]

theorem restoreLoop_eq (h : Readable js redis) (ps : List ExecutionPriority) (qm : QueueManager) :
    restoreLoop js (fun _ => none) now redis ps qm = (none, ps.foldl (fun qm p =>
        qm.setQueue ((qm.queueOf p).enqueueAll (storedItems js now redis p)) p) qm) := by
  induction ps generalizing qm with
  | nil => rfl
  | cons p ps ih =>
    rw [restoreLoop, foldl_cons, filter_live h]
    cases hl : redis.lookup (.queue p) with
    | none =>
      have hset : qm.setQueue ((qm.queueOf p).enqueueAll []) p = qm := by
        cases p <;> rfl
      rw [(storedItems_eq_nil_iff h now p).mpr hl, hset]
      exact ih qm
    | some e =>
      obtain ⟨-, items, -, hdecode⟩ := h p e hl
      have hstored : storedItems js now redis p = items := by
        rw [storedItems, filter_live h, hl, bind_some, hdecode, getD_some]
      dsimp only
      rw [hdecode, hstored]
      exact ih _

theorem queueOf_restored {ps : List ExecutionPriority} (hps : ∀ p ∈ ps, p ∈ queues)
    (hnodup : ps.Nodup) (items : ExecutionPriority → List QueueItem) (qm : QueueManager)
    {p : ExecutionPriority} (hp : p ∈ queues) :
    (ps.foldl (fun qm p => qm.setQueue ((qm.queueOf p).enqueueAll (items p)) p) qm).queueOf p =
      if p ∈ ps then (qm.queueOf p).enqueueAll (items p) else qm.queueOf p := by
  induction ps generalizing qm with
  | nil => rfl
  | cons p' ps ih =>
    rw [nodup_cons] at hnodup
    have hp' : p' ∈ queues := hps p' mem_cons_self
    rw [foldl_cons, ih (fun p hp => hps p (mem_cons_of_mem _ hp)) hnodup.2,
      QueueManager.queueOf_setQueue hp hp']
    by_cases heq : p = p'
    · subst heq
      rw [if_pos rfl, if_neg hnodup.1, if_pos mem_cons_self]
    · simp [heq]

theorem restoreQueues_new (h : Readable js redis) (ρ : RangeOrder) (now : ℤ)
    (config : QueueConfig) :
    ∃ qm, (newQueueManager config).restoreQueues js ρ (fun _ => none) now redis = (none, qm) ∧
      ∀ p ∈ queues, (qm.queueOf p).contents.Perm
        ((storedItems js now redis p).map QueueItem.exported) := by
  refine ⟨_, restoreLoop_eq h _ _, ?_⟩
  intro p hp
  have hperm := ρ.perm 373 queues
  have hnodup : (ρ.run 373 queues).Nodup := by
    rw [hperm.nodup_iff]
    decide
  rw [queueOf_restored (fun q hq => hperm.mem_iff.mp hq) hnodup _ _ hp,
    if_pos (hperm.mem_iff.mpr hp)]
  have hnew : ((newQueueManager config).queueOf p).contents = [] := by
    simp only [queues, mem_cons, not_mem_nil, or_false] at hp
    rcases hp with rfl | rfl | rfl
    all_goals rfl
  have hall := PriorityQueue.contents_enqueueAll (storedItems js now redis p)
    ((newQueueManager config).queueOf p)
  rw [hnew, append_nil] at hall
  exact hall

end Restore

/-! ## The round trip -/

/-- A command that Redis has seen: a save, or the record of an item or of a dead letter. -/
inductive Past
  | save (ρ : RangeOrder) (fault : Key → Option String) (qm : QueueManager)
  | background (now : ℤ) (task : Task)
  | deadLetter (now : ℤ) (item : DeadLetterItem)

section RoundTrip

variable {D : Type} (js : Json D)

def Past.run (redis : Redis D) : Past → Redis D
  | .save ρ fault qm => (qm.saveQueues js ρ fault redis).2
  | .background now task => task.run js now redis
  | .deadLetter now item => persistDeadLetter js now item redis

/-- Redis after a history. -/
def history (past : List Past) : Redis D := past.foldl (Past.run js) ∅

variable {js}

theorem Readable.past {redis : Redis D} (h : Readable js redis) (c : Past) :
    Readable js (c.run js redis) := by
  cases c with
  | save ρ fault qm => exact h.saveLoop _
  | background now task =>
    refine h.congr ?_
    intro p
    cases task with
    | persist item =>
      rw [Past.run, Task.run]
      split
      · rfl
      · exact Expiring.Store.lookup_set_ne (by simp) _ _ _
    | remove id => exact Expiring.Store.lookup_del_ne (by simp) _
  | deadLetter now item =>
    refine h.congr ?_
    intro p
    rw [Past.run, persistDeadLetter]
    split
    · rfl
    · exact Expiring.Store.lookup_set_ne (by simp) _ _ _

theorem readable_history (past : List Past) : Readable js (history js past) :=
  foldlRecOn past (Past.run js) (fun _ _ he => by cases he) (fun _ h c _ => h.past c)

/-- A new manager that restores from `redis` has the queues of `qm`. -/
def Restored (js : Json D) (ρ : RangeOrder) (now : ℤ) (config : QueueConfig) (redis : Redis D)
    (qm : QueueManager) : Prop :=
  ((newQueueManager config).restoreQueues js ρ (fun _ => none) now redis).1 = none ∧
    ∀ p ∈ queues, (((newQueueManager config).restoreQueues js ρ (fun _ => none) now
      redis).2.queueOf p).contents.Perm (qm.queueOf p).contents

theorem exported_contents (q : PriorityQueue) : q.contents.map QueueItem.exported = q.contents := by
  rw [PriorityQueue.contents, List.map_map]
  rfl

theorem storedItems_saved {redis : Redis D} (hread : Readable js redis) {ρ : RangeOrder}
    {fault : Key → Option String} {qm : QueueManager}
    (h : (qm.saveQueues js ρ fault redis).1 = none) (now : ℤ) {p : ExecutionPriority}
    (hp : p ∈ queues) : storedItems js now (qm.saveQueues js ρ fault redis).2 p =
      if (qm.queueOf p).items = [] then storedItems js now redis p
      else (qm.queueOf p).contents := by
  have hperm := ρ.perm 341 qm.keyed
  have hnodup : ((ρ.run 341 qm.keyed).map Prod.fst).Nodup := by
    have hkeys : qm.keyed.map Prod.fst = queues.map Key.queue := rfl
    rw [(hperm.map Prod.fst).nodup_iff, hkeys]
    decide
  have hmem : (Key.queue p, qm.queueOf p) ∈ ρ.run 341 qm.keyed :=
    hperm.mem_iff.mpr (mem_map_of_mem hp)
  obtain ⟨hempty, hfull⟩ := saveLoop_eq_none hnodup h hmem
  have hafter : Readable js (qm.saveQueues js ρ fault redis).2 := hread.saveLoop _
  by_cases hnil : (qm.queueOf p).items = []
  · rw [if_pos hnil, storedItems, storedItems, filter_live hafter, filter_live hread]
    rw [show (qm.saveQueues js ρ fault redis).2.lookup (.queue p) = _ from hempty hnil]
  obtain ⟨data, hencode, hlookup⟩ := hfull hnil
  rw [if_neg hnil, storedItems, filter_live hafter]
  rw [show (qm.saveQueues js ρ fault redis).2.lookup (.queue p) = _ from hlookup,
    bind_some, js.items.decode_encode _ _ hencode, getD_some]

/-- **What comes back.** A save without error and a restore that Redis answers give a new manager
the queues of the saved one exactly if no queue that was empty at the save has been saved before. -/
theorem restored_iff (js : Json D) (past : List Past) (ρ ρ' : RangeOrder)
    (fault : Key → Option String) (now : ℤ) (config : QueueConfig) (qm : QueueManager)
    (hsave : (qm.saveQueues js ρ fault (history js past)).1 = none) :
    Restored js ρ' now config (qm.saveQueues js ρ fault (history js past)).2 qm ↔
      ∀ p ∈ queues, (qm.queueOf p).items = [] → (history js past).lookup (.queue p) = none := by
  have hread : Readable js (history js past) := readable_history past
  have hafter : Readable js (qm.saveQueues js ρ fault (history js past)).2 :=
    hread.saveLoop _
  obtain ⟨fresh, hfresh, hcontents⟩ := restoreQueues_new hafter ρ' now config
  rw [Restored, hfresh]
  simp only [true_and]
  refine forall₂_congr ?_
  intro p hp
  have hperm := hcontents p hp
  rw [storedItems_saved hread hsave now hp] at hperm
  by_cases hnil : (qm.queueOf p).items = []
  · rw [if_pos hnil] at hperm
    have hempty : (qm.queueOf p).contents = [] := by
      rw [PriorityQueue.contents, hnil]
      rfl
    rw [hempty, perm_nil, ← storedItems_eq_nil_iff hread now]
    constructor
    · intro hfresh _
      rw [hfresh, nil_perm, map_eq_nil_iff] at hperm
      exact hperm
    · intro hstored
      rw [hstored hnil, map_nil, perm_nil] at hperm
      exact hperm
  · rw [if_neg hnil, exported_contents] at hperm
    exact ⟨fun _ h => absurd h hnil, fun _ => hperm⟩

end RoundTrip

/-- One request of high priority. -/
def busyManager : QueueManager :=
  ((newQueueManager World.testConfig).insert 1 { id := "a", priority := .high }).2

def idleManager : QueueManager := newQueueManager World.testConfig

def savedOnce : List Past := [.save RangeOrder.stored (fun _ => none) busyManager]

theorem busyManager_restored :
    (busyManager.saveQueues World.plainJson RangeOrder.stored (fun _ => none)
        (history World.plainJson savedOnce)).1 = none ∧
      Restored World.plainJson RangeOrder.stored 9 World.testConfig
        (busyManager.saveQueues World.plainJson RangeOrder.stored (fun _ => none)
          (history World.plainJson savedOnce)).2 busyManager := by
  refine ⟨by decide +kernel, ?_⟩
  exact (restored_iff World.plainJson savedOnce RangeOrder.stored RangeOrder.stored
    (fun _ => none) 9 World.testConfig busyManager (by decide +kernel)).mpr (by decide +kernel)

/-- The queues run empty and are saved again; a restart brings the old request back. -/
theorem idleManager_resurrects :
    (idleManager.saveQueues World.plainJson RangeOrder.stored (fun _ => none)
        (history World.plainJson savedOnce)).1 = none ∧
      idleManager.requests = [] ∧
      ((newQueueManager World.testConfig).restoreQueues World.plainJson RangeOrder.stored
        (fun _ => none) 9 (idleManager.saveQueues World.plainJson RangeOrder.stored
          (fun _ => none) (history World.plainJson savedOnce)).2).2.requests =
        [{ id := "a", priority := .high }] := by
  refine ⟨?_, ?_, ?_⟩
  · decide +kernel
  · decide +kernel
  · decide +kernel

end Queue

end LinkFlow
