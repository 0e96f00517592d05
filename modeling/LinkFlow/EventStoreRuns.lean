/-
Clients that share an event store through the repository.

Any number of clients hold copies of aggregates, load them, apply changes and save
them, in any interleaving of their database transactions: `Load` reads the snapshot and
then the events, and `Save` writes the events and then, at every tenth version, a
snapshot, so each is two steps of its client.

Two invariants are carried through every run. `Versioned` holds for any aggregate: the
stream of each aggregate is numbered 1, 2, 3, …, and the changes of a copy follow the
version it is based on. `Replayed` says where the states come from: a copy is the
replay of a stored prefix and its own changes, and a snapshot is a copy without changes.
-/
import LinkFlow.EventStore
import LinkFlow.Lib.Runs

set_option autoImplicit false

namespace LinkFlow.EventSourcing

open List Option

variable {σ B : Type}

/-! ## Clients -/

/-- Where a client stands in `Load` or `Save`. -/
inductive Phase (B : Type)
  | idle
  /-- `Load` has read the snapshot. -/
  | loading (aggregateID : String) (snapshot : Option (Snapshot B))
  /-- `Save` has stored the events and goes on to create a snapshot. -/
  | snapshotting

structure Client (σ B : Type) where
  copy : Option (AggregateRoot σ) := none
  phase : Phase B := .idle

structure System (σ B : Type) where
  store : EventStore B := {}
  clients : ℕ → Client σ B := fun _ => {}

/-- What a client does next. -/
inductive Op
  | create (id uuid : String)
  | setUserID (userID : String)
  | setCorrelationID (correlationID : String)
  | applyChange (now : ℤ) (event : Event)
  | beginLoad (aggregateID : String)
  | endLoad (uuid : String)
  | save (uuid : ℕ → String) (now : ℤ) (fault : Option String)
  | createSnapshot (uuid : String) (now : ℤ) (fault : Option String)

def clientStep (T : AggregateType σ B) (store : EventStore B) (c : Client σ B) (op : Op) :
    Client σ B × EventStore B :=
  match c.phase, c.copy, op with
  | .idle, _, .create id uuid => (⟨some (T.newAggregateRoot id uuid), .idle⟩, store)
  | .idle, some a, .setUserID userID => (⟨some { a with userID := userID }, .idle⟩, store)
  | .idle, some a, .setCorrelationID correlationID =>
    (⟨some { a with correlationID := correlationID }, .idle⟩, store)
  | .idle, some a, .applyChange now event =>
    (⟨some ((T.applyChange now event a).getD a), .idle⟩, store)
  | .idle, copy, .beginLoad aggregateID =>
    (⟨copy, .loading aggregateID (store.loadSnapshot aggregateID)⟩, store)
  | .loading aggregateID snapshot, copy, .endLoad uuid =>
    -- the snapshot was read earlier; the store is what the others have made of it since
    match T.load uuid snapshot store aggregateID with
    | some (.ok a) => (⟨some a, .idle⟩, store)
    | _ => (⟨copy, .idle⟩, store)
  | .idle, some a, .save uuid now fault =>
    match save uuid now fault a store with
    | (err, a', store') =>
      (⟨some a', if err = none ∧ a.changes.length ≠ 0 ∧ a'.version % 10 = 0 then .snapshotting
        else .idle⟩, store')
  | .snapshotting, some a, .createSnapshot uuid now fault =>
    (⟨some a, .idle⟩, (T.createSnapshot uuid now fault a store).2)
  | _, _, _ => (c, store)

def step (T : AggregateType σ B) (s : System σ B) (a : ℕ × Op) : System σ B :=
  let moved := clientStep T s.store (s.clients a.1) a.2
  ⟨moved.2, Function.update s.clients a.1 moved.1⟩

/-- The system after some steps, from empty tables. -/
def run (T : AggregateType σ B) (ops : List (ℕ × Op)) : System σ B := ops.foldl (step T) {}

/-- Everything a step of a client can do. -/
inductive ClientStep (T : AggregateType σ B) (store : EventStore B) (c : Client σ B) :
    Op → Client σ B → EventStore B → Prop
  | stay (op : Op) : ClientStep T store c op c store
  | create (id uuid : String) :
      ClientStep T store c (.create id uuid) ⟨some (T.newAggregateRoot id uuid), .idle⟩ store
  | label (op : Op) (a : AggregateRoot σ) (hcopy : c.copy = some a)
      (userID correlationID : String) : ClientStep T store c op
        ⟨some { a with userID := userID, correlationID := correlationID }, .idle⟩ store
  | applyChange (now : ℤ) (event : Event) (a a' : AggregateRoot σ) (hcopy : c.copy = some a)
      (happly : T.applyChange now event a = some a') :
      ClientStep T store c (.applyChange now event) ⟨some a', .idle⟩ store
  | beginLoad (id : String) :
      ClientStep T store c (.beginLoad id) ⟨c.copy, .loading id (store.loadSnapshot id)⟩ store
  | loadFailed (uuid : String) : ClientStep T store c (.endLoad uuid) ⟨c.copy, .idle⟩ store
  | endLoad (uuid id : String) (snapshot : Option (Snapshot B)) (a : AggregateRoot σ)
      (hphase : c.phase = .loading id snapshot)
      (hload : T.load uuid snapshot store id = some (.ok a)) :
      ClientStep T store c (.endLoad uuid) ⟨some a, .idle⟩ store
  | save (uuid : ℕ → String) (now : ℤ) (fault err : Option String) (a a' : AggregateRoot σ)
      (phase : Phase B) (store' : EventStore B) (hcopy : c.copy = some a)
      (hsave : EventSourcing.save uuid now fault a store = (err, a', store'))
      (hphase : phase = .idle ∨ phase = .snapshotting ∧ err = none ∧ a.changes ≠ []) :
      ClientStep T store c (.save uuid now fault) ⟨some a', phase⟩ store'
  | createSnapshot (uuid : String) (now : ℤ) (fault : Option String) (a : AggregateRoot σ)
      (hcopy : c.copy = some a) (hphase : c.phase = .snapshotting) :
      ClientStep T store c (.createSnapshot uuid now fault) ⟨some a, .idle⟩
        (T.createSnapshot uuid now fault a store).2

/-- What a client can do, once for all operations. -/
theorem clientStep_spec (T : AggregateType σ B) (store : EventStore B) (c : Client σ B) (op : Op) :
    ClientStep T store c op (clientStep T store c op).1 (clientStep T store c op).2 := by
  obtain ⟨copy, phase⟩ := c
  cases op with
  | create id uuid =>
    cases phase with
    | idle => exact .create id uuid
    | _ => cases copy <;> exact .stay _
  | setUserID userID =>
    cases phase with
    | idle =>
      cases copy with
      | some a => exact .label _ a rfl userID a.correlationID
      | none => exact .stay _
    | _ => cases copy <;> exact .stay _
  | setCorrelationID correlationID =>
    cases phase with
    | idle =>
      cases copy with
      | some a => exact .label _ a rfl a.userID correlationID
      | none => exact .stay _
    | _ => cases copy <;> exact .stay _
  | applyChange now event =>
    cases phase with
    | idle =>
      cases copy with
      | some a =>
        cases happly : T.applyChange now event a with
        | some a' =>
          simp only [clientStep, happly, getD_some]
          exact .applyChange now event a a' rfl happly
        | none =>
          simp only [clientStep, happly, getD_none]
          exact .stay _
      | none => exact .stay _
    | _ => cases copy <;> exact .stay _
  | beginLoad id =>
    cases phase with
    | idle => cases copy <;> exact .beginLoad id
    | _ => cases copy <;> exact .stay _
  | endLoad uuid =>
    cases phase with
    | loading id snapshot =>
      simp only [clientStep]
      split
      · exact .endLoad uuid id snapshot _ rfl ‹_›
      · exact .loadFailed uuid
    | _ => cases copy <;> exact .stay _
  | save uuid now fault =>
    cases phase with
    | idle =>
      cases copy with
      | some a =>
        match hsave : EventSourcing.save uuid now fault a store with
        | (err, a', store') =>
          simp only [clientStep, hsave]
          refine .save uuid now fault err a a' _ store' rfl hsave ?_
          split
          · next h => exact .inr ⟨rfl, h.1, fun hnil => h.2.1 (by rw [hnil]; rfl)⟩
          · exact .inl rfl
      | none => exact .stay _
    | _ => cases copy <;> exact .stay _
  | createSnapshot uuid now fault =>
    cases phase with
    | snapshotting =>
      cases copy with
      | some a => exact .createSnapshot uuid now fault a rfl rfl
      | none => exact .stay _
    | _ => cases copy <;> exact .stay _

/-! ## Versions -/

/-- The uncommitted changes are the aggregate's own and follow the version the copy is
based on. -/
def Pending (a : AggregateRoot σ) : Prop :=
  Numbered.From Event.version (a.version - a.changes.length) a.changes ∧
    ∀ e ∈ a.changes, e.aggregateID = a.id

variable {a : AggregateRoot σ} {T : AggregateType σ B} {now : ℤ} {store : EventStore B}
   {id : String}

theorem pending_of_nil (h : a.changes = []) : Pending a := by
  rw [Pending, h]
  exact ⟨trivial, fun e he => nomatch he⟩

variable {event : Event} {a' : AggregateRoot σ} {uuid : String} {rows : List Event}
  {fault : Option String} {s : System σ B}

theorem applyChange_some {a : AggregateRoot σ} (h : T.applyChange now event a = some a') :
    ∃ handler, T.dispatch event.type = some handler ∧ a'.id = a.id ∧
      a'.version = a.version + 1 ∧ a'.changes = a.changes ++ [a.stamp now event] ∧
      a'.state = handler.run (a.stamp now event) a.state := by
  obtain ⟨handler, hdispatch, rfl⟩ := map_eq_some_iff.mp h
  exact ⟨handler, hdispatch, ite_self _, rfl, rfl, rfl⟩

theorem Pending.applyChange {a : AggregateRoot σ} (h : Pending a)
    (happly : T.applyChange now event a = some a') : Pending a' := by
  obtain ⟨handler, -, hid, hversion, hchanges, -⟩ := applyChange_some happly
  have hbase : a'.version - a'.changes.length = a.version - a.changes.length := by
    rw [hversion, hchanges, length_append, length_singleton]
    push_cast
    ring
  constructor
  · rw [hbase, hchanges, Numbered.from_append]
    refine ⟨h.1, ?_, trivial⟩
    rw [AggregateRoot.stamp]
    ring
  · intro e he
    rw [hchanges] at he
    rw [hid]
    rcases mem_append.mp he with he | he
    · exact h.2 e he
    · rw [mem_singleton.mp he]
      rfl

def Taken (T : AggregateType σ B) (snapshot : Snapshot B) : Prop :=
  ∃ a, a.changes = [] ∧ T.marshal a = .ok snapshot.state

theorem loadFromEvents_changes {events : List Event} {a : AggregateRoot σ}
    (h : T.loadFromEvents events a = some a') : a'.changes = a.changes := by
  induction events generalizing a with
  | nil =>
    cases h
    rfl
  | cons e es ih =>
    rw [AggregateType.loadFromEvents, foldlM_cons] at h
    obtain ⟨b, hb, hrest⟩ := bind_eq_some_iff.mp h
    have hchanges : a'.changes = b.changes := ih hrest
    obtain ⟨handler, -, rfl⟩ := map_eq_some_iff.mp hb
    exact hchanges

theorem load_changes {id : String} {snapshot : Option (Snapshot B)}
    (htaken : ∀ sn, snapshot = some sn → Taken T sn)
    (h : T.load uuid snapshot store id = some (.ok a)) : a.changes = [] := by
  unfold AggregateType.load at h
  cases snapshot with
  | none =>
    dsimp only at h
    split at h
    · cases h
    · obtain ⟨b, hb, hok⟩ := map_eq_some_iff.mp h
      cases hok
      exact loadFromEvents_changes hb
  | some sn =>
    dsimp only at h
    split at h
    · cases h
    · next b hb =>
      obtain ⟨c, hc, hok⟩ := map_eq_some_iff.mp h
      cases hok
      obtain ⟨a₀, hnil, hmarshal⟩ := htaken sn rfl
      rw [loadFromEvents_changes hc]
      exact T.unmarshal_changes a₀ _ _ _ hnil hmarshal rfl hb

/-- The tables, and what the clients hold. -/
structure Versioned (T : AggregateType σ B) (s : System σ B) : Prop where
  numbered : ∀ id, Numbered.From Event.version 0 (s.store.stream id)
  taken : ∀ sn ∈ s.store.snapshots, Taken T sn
  pending : ∀ i a, (s.clients i).copy = some a → Pending a
  loading : ∀ i id sn, (s.clients i).phase = .loading id (some sn) → Taken T sn
  settled : ∀ i a, (s.clients i).phase = .snapshotting → (s.clients i).copy = some a →
    a.changes = []

theorem stream_append (store : EventStore B) (h : ∀ e ∈ rows, e.aggregateID = id) (id' : String) :
    ({ store with events := store.events ++ rows } : EventStore B).stream id' =
      store.stream id' ++ if id' = id then rows else [] := by
  rw [EventStore.stream, EventStore.stream, filter_append]
  congr 1
  by_cases heq : id' = id
  · rw [if_pos heq, filter_eq_self]
    intro e he
    exact decide_eq_true (by rw [h e he, heq])
  · rw [if_neg heq, filter_eq_nil_iff]
    intro e he hdec
    exact heq (by rw [← of_decide_eq_true hdec, h e he])

theorem getVersionInTx_eq (h : Numbered.From Event.version 0 (store.stream id)) :
    store.getVersionInTx id = (store.stream id).length :=
  h.max_key

theorem createSnapshot_events :
    (T.createSnapshot uuid now fault a store).2.events = store.events := by
  unfold AggregateType.createSnapshot
  split
  · rfl
  rcases EventStore.saveSnapshot_cases uuid fault ⟨"", a.id, a.version, _, now⟩ store with
    h | ⟨id, h⟩
  · rw [h]
  · rw [h]

theorem mem_createSnapshot {sn : Snapshot B}
    (h : sn ∈ (T.createSnapshot uuid now fault a store).2.snapshots) : sn ∈ store.snapshots ∨
      T.marshal a = .ok sn.state ∧ sn.aggregateID = a.id ∧ sn.version = a.version := by
  unfold AggregateType.createSnapshot at h
  split at h
  · exact .inl h
  · next state hstate =>
    rcases EventStore.saveSnapshot_cases uuid fault ⟨"", a.id, a.version, state, now⟩ store with
      hs | ⟨id, hs⟩
    · rw [hs] at h
      exact .inl h
    rw [hs] at h
    rcases mem_append.mp h with h | h
    · exact .inl (mem_of_mem_filter h)
    · rw [mem_singleton.mp h]
      exact .inr ⟨hstate, rfl, rfl⟩

theorem numbered_append (hnumbered : ∀ id, Numbered.From Event.version 0 (store.stream id))
    (hid : ∀ e ∈ rows, e.aggregateID = id)
    (hrows : Numbered.From Event.version (store.getVersionInTx id) rows) (id' : String) :
    Numbered.From Event.version 0
      (({ store with events := store.events ++ rows } : EventStore B).stream id') := by
  rw [stream_append store hid, Numbered.from_append]
  refine ⟨hnumbered id', ?_⟩
  by_cases heq : id' = id
  · subst heq
    rw [if_pos rfl, zero_add, ← getVersionInTx_eq (hnumbered id')]
    exact hrows
  · rw [if_neg heq]
    exact trivial

theorem idle_of_unsaved {err : Option String} {phase : Phase B} (hnot : err.isSome ∨ a.changes = [])
    (hphase : phase = .idle ∨ phase = .snapshotting ∧ err = none ∧ a.changes ≠ []) :
    phase = .idle := by
  rcases hphase with hidle | ⟨-, herr, hchanges⟩
  · exact hidle
  rcases hnot with hsome | hnil
  · rw [herr] at hsome
    cases hsome
  · exact absurd hnil hchanges

/-- The copy, the snapshot that was read and the copy to take a snapshot of have the properties. -/
structure Client.Ok (P D : AggregateRoot σ → Prop) (L : String → Snapshot B → Prop)
    (c : Client σ B) : Prop where
  copy : ∀ a, c.copy = some a → P a
  loading : ∀ id sn, c.phase = .loading id (some sn) → L id sn
  due : ∀ a, c.phase = .snapshotting → c.copy = some a → D a

section Ok

variable {P D : AggregateRoot σ → Prop} {L : String → Snapshot B → Prop}

theorem Client.ok_some {phase : Phase B} {q : Prop}
    (hphase : phase = .idle ∨ phase = .snapshotting ∧ q) (hcopy : P a)
    (hdue : phase = .snapshotting → D a) : Client.Ok P D L ⟨some a, phase⟩ where
  copy := by
    rintro b ⟨⟩
    exact hcopy
  loading := by
    rintro id sn rfl
    rcases hphase with hp | ⟨hp, -⟩
    · cases hp
    · cases hp
  due := by
    rintro b hp ⟨⟩
    exact hdue hp

theorem Client.ok_idle (hcopy : P a) : Client.Ok P D L ⟨some a, .idle⟩ :=
  Client.ok_some (q := True) (.inl rfl) hcopy (fun hp => nomatch hp)

end Ok

/-- One step keeps the streams numbered without gap. -/
theorem Versioned.clientStep (h : Versioned T s) {i : ℕ} {op : Op} {c' : Client σ B}
    {store' : EventStore B} (hstep : ClientStep T s.store (s.clients i) op c' store') :
    ((∀ id, Numbered.From Event.version 0 (store'.stream id)) ∧
      ∀ sn ∈ store'.snapshots, Taken T sn) ∧
    c'.Ok Pending (fun a => a.changes = []) (fun _ => Taken T) := by
  have hkeep := And.intro h.numbered h.taken
  cases hstep with
  | stay => exact ⟨hkeep, h.pending i, h.loading i, h.settled i⟩
  | create id uuid => exact ⟨hkeep, Client.ok_idle (pending_of_nil rfl)⟩
  | label _ a hcopy => exact ⟨hkeep, Client.ok_idle (h.pending i a hcopy)⟩
  | applyChange now event a a' hcopy happly =>
    exact ⟨hkeep, Client.ok_idle ((h.pending i a hcopy).applyChange happly)⟩
  | beginLoad id =>
    refine ⟨hkeep, h.pending i, ?_, fun _ hp => nomatch hp⟩
    intro id' sn hp
    rw [Phase.loading.injEq] at hp
    exact h.taken sn (EventStore.loadSnapshot_some hp.2).1
  | loadFailed uuid =>
    exact ⟨hkeep, h.pending i, fun _ _ hp => (nomatch hp), fun _ hp => nomatch hp⟩
  | endLoad uuid id snapshot a hphase hload =>
    refine ⟨hkeep, Client.ok_idle (pending_of_nil (load_changes ?_ hload))⟩
    rintro sn rfl
    exact h.loading i id sn hphase
  | save uuid now fault err a a' phase _ hcopy hsave hphase =>
    have hpending := h.pending i a hcopy
    rcases save_cases hpending.2 hsave with ⟨hnot, rfl, rfl⟩ | ⟨rfl, hne, hnumbered, rfl, rfl⟩
    · obtain rfl := idle_of_unsaved hnot hphase
      exact ⟨hkeep, Client.ok_idle hpending⟩
    · -- the batch was checked against the stored version, so it continues the stream
      refine ⟨⟨?_, h.taken⟩, Client.ok_some hphase (pending_of_nil rfl) (fun _ => rfl)⟩
      exact numbered_append h.numbered
        (EventStore.aggregateID_fillAll uuid now hpending.2)
        ((EventStore.from_fillAll uuid now 0 _ _).mpr hnumbered)
  | createSnapshot uuid now fault a hcopy hphase =>
    refine ⟨⟨?_, ?_⟩, Client.ok_idle (h.pending i _ hcopy)⟩
    · intro id
      rw [EventStore.stream, createSnapshot_events]
      exact h.numbered id
    · intro sn hsn
      rcases mem_createSnapshot hsn with hsn | ⟨hmarshal, -⟩
      · exact h.taken sn hsn
      · exact ⟨a, h.settled i a hphase hcopy, hmarshal⟩

theorem step_clients (T : AggregateType σ B) (s : System σ B) (a : ℕ × Op)
    (P : Client σ B → Prop) (hnew : P (clientStep T s.store (s.clients a.1) a.2).1)
    (hold : ∀ i, P (s.clients i)) (i : ℕ) : P ((step T s a).clients i) := by
  by_cases hi : i = a.1
  · subst hi
    simp only [step, Function.update_self]
    exact hnew
  · simp only [step, Function.update_of_ne hi]
    exact hold i

theorem Versioned.step (h : Versioned T s) (a : ℕ × Op) : Versioned T (step T s a) := by
  obtain ⟨⟨hnumbered, htaken⟩, hclient⟩ :=
    h.clientStep (clientStep_spec T s.store (s.clients a.1) a.2)
  have hclients := step_clients T s a _ hclient (fun i => ⟨h.pending i, h.loading i, h.settled i⟩)
  exact ⟨hnumbered, htaken, fun i => (hclients i).copy, fun i => (hclients i).loading,
    fun i => (hclients i).due⟩

/-- Streams are numbered without gap in every state reached. -/
theorem run_versioned (T : AggregateType σ B) (ops : List (ℕ × Op)) : Versioned T (run T ops) := by
  refine foldlRecOn ops (step T) ?_ fun s h a _ => h.step a
  exact ⟨fun id => trivial, fun sn h => (nomatch h), fun i a h => (nomatch h),
    fun i id sn h => (nomatch h), fun i a h => (nomatch h)⟩

/-- **Optimistic versions.** In every reachable state the events of each aggregate carry the
versions 1, 2, … in the order they were stored; a save based on another version is rejected; and a
rejected save changes nothing. -/
theorem run_saves_versioned (T : AggregateType σ B) (ops : List (ℕ × Op)) :
    (∀ id, ((run T ops).store.stream id).map Event.version =
      (List.range ((run T ops).store.stream id).length).map fun k : ℕ => (k : ℤ) + 1) ∧
    ∀ i a uuid now fault, ((run T ops).clients i).copy = some a → (a.changes ≠ [] →
        a.version - a.changes.length ≠ (run T ops).store.getVersionInTx a.id →
        (save uuid now fault a (run T ops).store).1.isSome) ∧
      ((save uuid now fault a (run T ops).store).1.isSome →
        (save uuid now fault a (run T ops).store).2 = (a, (run T ops).store)) := by
  have h := run_versioned T ops
  constructor
  · intro id
    have := Numbered.from_iff_map.mp (h.numbered id)
    simpa only [zero_add] using this
  · intro i a uuid now fault hcopy
    have hpending := h.pending i a hcopy
    match hsave : save uuid now fault a (run T ops).store with
    | (err, a', store') =>
      rcases save_cases hpending.2 hsave with ⟨hnot, rfl, rfl⟩ | ⟨rfl, hne, hnumbered, -, -⟩
      · refine ⟨fun hne _ => ?_, fun _ => rfl⟩
        rcases hnot with hsome | hnil
        · exact hsome
        · exact absurd hnil hne
      · refine ⟨fun _ hstale => ?_, fun hsome => nomatch hsome⟩
        -- the first change carries both versions plus one
        cases hchanges : a.changes with
        | nil => exact absurd hchanges hne
        | cons e es =>
          have hbase := hpending.1
          rw [hchanges] at hbase hnumbered hstale
          have h1 : e.version = _ := hbase.1
          have h2 : e.version = _ := hnumbered.1
          exact absurd (by linarith) hstale

end LinkFlow.EventSourcing
