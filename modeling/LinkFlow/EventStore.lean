/-
The event store and the aggregate repository of `pkg/eventsourcing`.

The tables of `GormEventStore` are two lists of rows. A transaction is a function on
them that may fail, and failing puts the rows back (`transaction`); the transactions
themselves are taken to be serializable, so each is one step. Rows come back as they
were written. What the surroundings supply is an argument: the clock, the UUIDs drawn
for rows without an ID, and an error of the database (`fault`).

An aggregate is an `AggregateRoot` with a state of its own. `AggregateType` is what the
aggregate's author writes: the state of a new one, the event handlers, and its JSON.
A handler works on the state, and may put the event's aggregate ID back into the root,
which is the only way a root loaded from events gets its ID: `Load` does not set it.
`json.Marshal` and `json.Unmarshal` of the aggregate are its own encoding, of which one
thing is asked: the exported `Changes` of a snapshot without changes come back empty.

An event type without a handler goes through reflection, where the root's only method
with a matching name is `ApplyChange` itself: that call never returns, which is `none`.
-/
import LinkFlow.Lib.GoMap
import LinkFlow.Lib.Numbered

set_option autoImplicit false

namespace LinkFlow.EventSourcing

open List

/-! ## Rows -/

/-- The zero time is `none`. -/
structure Event where
  (id aggregateID : String := "")
  type : String
  version : ℤ := 0
  payload : String := ""
  metadata : GoMap String String := ∅
  timestamp : Option ℤ := none
  (userID correlationID : String := "")
deriving DecidableEq

structure Snapshot (B : Type) where
  (id aggregateID : String)
  version : ℤ
  state : B
  timestamp : ℤ

/-- The tables of `GormEventStore`. -/
structure EventStore (B : Type) where
  events : List Event := []
  snapshots : List (Snapshot B) := []

/-- An error puts everything back. -/
def transaction {S : Type} (f : S → Option String × S) (s : S) : Option String × S :=
  match f s with
  | (some err, _) => (some err, s)
  | (none, s') => (none, s')

def duplicatedKey : String := "duplicated key not allowed"

namespace EventStore

variable {B : Type}

/-! ## Events -/

/-- The rows of one aggregate, in the order they were written. -/
def stream (s : EventStore B) (aggregateID : String) : List Event :=
  s.events.filter fun e => e.aggregateID = aggregateID

/-- `COALESCE(MAX(version), 0)`. -/
def getVersionInTx (s : EventStore B) (aggregateID : String) : ℤ :=
  ((s.stream aggregateID).map Event.version).max?.getD 0

/-- The row written for the event at position `i` of a batch: the ID and the time it
lacks are supplied. -/
def fill (uuid : ℕ → String) (now : ℤ) (i : ℕ) (event : Event) : Event :=
  { event with
    id := if event.id = "" then uuid i else event.id
    timestamp := some (event.timestamp.getD now) }

/-- The loop of `Save`, over the rows of the table. -/
def saveLoop (uuid : ℕ → String) (now : ℤ) :
    List Event → ℕ → ℤ → List Event → Option String × List Event
  | [], _, _, rows => (none, rows)
  | event :: events, i, currentVersion, rows =>
    let expectedVersion := currentVersion + 1
    if event.version ≠ expectedVersion then
      (some ("version mismatch: expected " ++ toString expectedVersion ++ ", got " ++
        toString event.version ++ " for event " ++ toString i), rows)
    else
      -- the loop's copy is completed, not the caller's event
      let event := fill uuid now i event
      if rows.any fun row => row.id = event.id then
        (some ("failed to save event: " ++ duplicatedKey), rows)
      else saveLoop uuid now events (i + 1) expectedVersion (rows ++ [event])

def save (uuid : ℕ → String) (now : ℤ) (fault : Option String) (events : List Event)
    (s : EventStore B) : Option String × EventStore B :=
  match events with
  | [] => (none, s)
  | first :: _ =>
    transaction (fun s =>
      match fault with
      | some err => (some err, s)
      | none =>
        -- the version is read once, for the aggregate of the first event
        let (err, rows) := saveLoop uuid now events 0 (s.getVersionInTx first.aggregateID) s.events
        (err, { s with events := rows })) s

def load (s : EventStore B) (aggregateID : String) : List Event :=
  (s.stream aggregateID).insertionSort fun a b => a.version ≤ b.version

def loadFromVersion (s : EventStore B) (aggregateID : String) (fromVersion : ℤ) : List Event :=
  ((s.stream aggregateID).filter fun e => fromVersion < e.version).insertionSort
    fun a b => a.version ≤ b.version

/-! ## Snapshots -/

def loadSnapshot (s : EventStore B) (aggregateID : String) : Option (Snapshot B) :=
  ((s.snapshots.filter fun snapshot => snapshot.aggregateID = aggregateID).insertionSort
    fun a b => b.version ≤ a.version).head?

/-- `SaveSnapshot`, of a snapshot that has a time. -/
def saveSnapshot (uuid : String) (fault : Option String) (snapshot : Snapshot B)
    (s : EventStore B) : Option String × EventStore B :=
  let snapshot := { snapshot with id := if snapshot.id = "" then uuid else snapshot.id }
  transaction (fun s =>
    match fault with
    | some err => (some err, s)
    | none =>
      let kept := s.snapshots.filter fun row => row.aggregateID ≠ snapshot.aggregateID
      if kept.any fun row => row.id = snapshot.id then (some duplicatedKey, s)
      else (none, { s with snapshots := kept ++ [snapshot] })) s

end EventStore

/-! ## Aggregates -/

/-- `AggregateRoot`, with the state of the aggregate it is embedded in. -/
structure AggregateRoot (σ : Type) where
  id : String
  version : ℤ := 0
  changes : List Event := []
  (correlationID userID : String := "")
  state : σ

/-- What `ApplyChange` writes into the event. -/
def AggregateRoot.stamp {σ : Type} (now : ℤ) (event : Event) (a : AggregateRoot σ) : Event :=
  { event with
    aggregateID := a.id, version := a.version + 1, timestamp := some now, userID := a.userID,
    correlationID := a.correlationID }

/-- An entry of `EventHandlers`. -/
structure Handler (σ : Type) where
  run : Event → σ → σ
  restoresID : Bool := false

/-- What the author of an aggregate supplies. -/
structure AggregateType (σ B : Type) where
  /-- The ID the factory passes to `NewAggregateRoot`. -/
  factoryID : String := ""
  init : σ
  handlers : String → Option (Handler σ)
  marshal : AggregateRoot σ → Except String B
  unmarshal : B → AggregateRoot σ → Except String (AggregateRoot σ)
  unmarshal_changes : ∀ a b f a', a.changes = [] → marshal a = .ok b → f.changes = [] →
    unmarshal b f = .ok a' → a'.changes = []

def toPascalCase (s : String) : String :=
  let upperFirst : List Char → List Char
    | [] => []
    | c :: cs => c.toUpper :: cs
  String.ofList ((s.toList.splitOn '_').flatMap upperFirst)

namespace AggregateType

variable {σ B : Type} (T : AggregateType σ B)

/-- `NewAggregateRoot`, in an aggregate with its first state; `uuid` is drawn for an
empty ID. -/
def newAggregateRoot (id uuid : String) : AggregateRoot σ where
  id := if id = "" then uuid else id
  state := T.init

/-- The repository's `aggregateFactory`. -/
def factory (uuid : String) : AggregateRoot σ := T.newAggregateRoot T.factoryID uuid

/-- What `applyEvent` runs for an event type: its handler or, through reflection, the
method of that name. -/
def dispatch (type : String) : Option (Handler σ) :=
  match T.handlers type with
  | some handler => some handler
  | none =>
    -- `ApplyChange` calls `applyEvent` with the same type, and so on
    if "Apply" ++ toPascalCase type = "ApplyChange" then none
    else some { run := fun _ state => state }

def applyEvent (event : Event) (isNew : Bool) (a : AggregateRoot σ) : Option (AggregateRoot σ) :=
  (T.dispatch event.type).map fun handler =>
    { a with
      id := if handler.restoresID then event.aggregateID else a.id
      state := handler.run event a.state
      -- also on replay the version is the event's own
      version := event.version
      changes := if isNew then a.changes ++ [event] else a.changes }

def applyChange (now : ℤ) (event : Event) (a : AggregateRoot σ) : Option (AggregateRoot σ) :=
  T.applyEvent (a.stamp now event) true a

def loadFromEvents (events : List Event) (a : AggregateRoot σ) : Option (AggregateRoot σ) :=
  events.foldlM (fun a event => T.applyEvent event false a) a

/-! ## The repository -/

/-- `Repository.Load`, once it has read the snapshot: the events are a second read, so
`s` may be a later state of the tables. -/
def load (uuid : String) (snapshot : Option (Snapshot B)) (s : EventStore B)
    (aggregateID : String) : Option (Except String (AggregateRoot σ)) :=
  match snapshot with
  | some snapshot =>
    match T.unmarshal snapshot.state (T.factory uuid) with
    | .error err => some (.error ("failed to load from snapshot: " ++ err))
    | .ok a =>
      -- the ID is what the snapshot and the handlers make it; `Load` does not set it
      (T.loadFromEvents (s.loadFromVersion aggregateID snapshot.version) a).map .ok
  | none =>
    let events := s.load aggregateID
    if events.length = 0 then some (.error "aggregate not found")
    else (T.loadFromEvents events (T.factory uuid)).map .ok

/-- All stored events of an aggregate, replayed from the beginning on a new one. -/
def replay (uuid : String) (s : EventStore B) (aggregateID : String) :
    Option (Except String (AggregateRoot σ)) :=
  T.load uuid none s aggregateID

def createSnapshot (uuid : String) (now : ℤ) (fault : Option String) (a : AggregateRoot σ)
    (s : EventStore B) : Option String × EventStore B :=
  match T.marshal a with
  | .error err => (some err, s)
  | .ok state => s.saveSnapshot uuid fault ⟨"", a.id, a.version, state, now⟩

end AggregateType

/-- `Repository.Save`, up to the snapshot. -/
def save {σ B : Type} (uuid : ℕ → String) (now : ℤ) (fault : Option String)
    (a : AggregateRoot σ) (s : EventStore B) : Option String × AggregateRoot σ × EventStore B :=
  if a.changes.length = 0 then (none, a, s)
  else
    match s.save uuid now fault a.changes with
    -- the copy keeps its changes and can be saved again
    | (some err, s) => (some ("failed to save events: " ++ err), a, s)
    | (none, s) => (none, { a with changes := [] }, s)

/-! ## What the operations do -/

theorem transaction_eq {S : Type} {f : S → Option String × S} {s s' : S} {err : Option String}
    (h : transaction f s = (err, s')) :
    (err.isSome ∧ s' = s) ∨ (err = none ∧ f s = (none, s')) := by
  unfold transaction at h
  match hf : f s with
  | (some e, t) =>
    rw [hf] at h
    cases h
    exact .inl ⟨rfl, rfl⟩
  | (none, t) =>
    rw [hf] at h
    cases h
    exact .inr ⟨rfl, rfl⟩

namespace EventStore

variable {B : Type}

def fillAll (uuid : ℕ → String) (now : ℤ) : ℕ → List Event → List Event
  | _, [] => []
  | i, event :: events => fill uuid now i event :: fillAll uuid now (i + 1) events

section fillAll

variable (uuid : ℕ → String) (now : ℤ)

@[simp] theorem length_fillAll (i : ℕ) (events : List Event) :
    (fillAll uuid now i events).length = events.length := by
  induction events generalizing i with
  | nil => rfl
  | cons e es ih => rw [fillAll, length_cons, length_cons, ih]

theorem from_fillAll (i : ℕ) (v : ℤ) (events : List Event) :
    Numbered.From Event.version v (fillAll uuid now i events) ↔
      Numbered.From Event.version v events := by
  induction events generalizing i v with
  | nil => exact Iff.rfl
  | cons e es ih => exact and_congr Iff.rfl (ih (i + 1) (v + 1))

theorem aggregateID_fillAll {id : String} {i : ℕ} {events : List Event}
    (h : ∀ e ∈ events, e.aggregateID = id) :
    ∀ e ∈ fillAll uuid now i events, e.aggregateID = id := by
  induction events generalizing i with
  | nil =>
    intro e he
    cases he
  | cons e es ih =>
    intro e' he'
    rcases mem_cons.mp he' with rfl | he'
    · exact h e mem_cons_self
    · exact ih (fun e he => h e (mem_cons_of_mem _ he)) e' he'

end fillAll

/-- A saved batch is numbered on from the version it was checked against. -/
theorem saveLoop_none {uuid : ℕ → String} {now : ℤ} {events : List Event} {i : ℕ} {v : ℤ}
    {rows rows' : List Event} (h : saveLoop uuid now events i v rows = (none, rows')) :
    Numbered.From Event.version v events ∧ rows' = rows ++ fillAll uuid now i events := by
  induction events generalizing i v rows with
  | nil =>
    cases h
    exact ⟨trivial, (append_nil _).symm⟩
  | cons e es ih =>
    rw [saveLoop] at h
    by_cases hversion : e.version = v + 1
    · rw [if_neg (not_not.mpr hversion)] at h
      by_cases hdup : (rows.any fun row => row.id = (fill uuid now i e).id) = true
      · rw [if_pos hdup] at h
        cases h
      rw [if_neg hdup] at h
      obtain ⟨hes, hrows⟩ := ih h
      refine ⟨⟨hversion, hes⟩, ?_⟩
      rw [hrows, fillAll, append_assoc, singleton_append]
    · rw [if_pos hversion] at h
      cases h

/-- What `Save` does with a batch of one aggregate: nothing, or the whole batch is
appended, and then it follows the aggregate's version. -/
theorem save_cases {uuid : ℕ → String} {now : ℤ} {fault err : Option String}
    {events : List Event} {s s' : EventStore B} {id : String} (hne : events ≠ [])
    (hid : ∀ e ∈ events, e.aggregateID = id) (h : s.save uuid now fault events = (err, s')) :
    (err.isSome ∧ s' = s) ∨
      (err = none ∧ Numbered.From Event.version (s.getVersionInTx id) events ∧
        s' = { s with events := s.events ++ fillAll uuid now 0 events }) := by
  cases events with
  | nil => exact absurd rfl hne
  | cons e es =>
    unfold save at h
    rcases transaction_eq h with herr | ⟨rfl, hbody⟩
    · exact .inl herr
    right
    cases fault with
    | some err => cases hbody
    | none =>
      rw [hid e mem_cons_self] at hbody
      match hloop : saveLoop uuid now (e :: es) 0 (s.getVersionInTx id) s.events with
      | (err, rows) =>
        simp only [hloop, Prod.mk.injEq] at hbody
        obtain ⟨rfl, rfl⟩ := hbody
        obtain ⟨hnumbered, rfl⟩ := saveLoop_none hloop
        exact ⟨rfl, hnumbered, rfl⟩

theorem saveSnapshot_cases (uuid : String) (fault : Option String) (snapshot : Snapshot B)
    (s : EventStore B) : (s.saveSnapshot uuid fault snapshot).2 = s ∨
      ∃ id, (s.saveSnapshot uuid fault snapshot).2 =
        { s with snapshots := (s.snapshots.filter fun row =>
            row.aggregateID ≠ snapshot.aggregateID) ++ [{ snapshot with id := id }] } := by
  match hsave : s.saveSnapshot uuid fault snapshot with
  | (err, s') =>
    unfold saveSnapshot at hsave
    generalize (if snapshot.id = "" then uuid else snapshot.id) = id at hsave
    rcases transaction_eq hsave with ⟨-, rfl⟩ | ⟨-, hbody⟩
    · exact .inl rfl
    cases fault with
    | some err => cases hbody
    | none =>
      dsimp only at hbody
      split at hbody
      · cases hbody
      · cases hbody
        exact .inr ⟨id, rfl⟩

theorem loadSnapshot_some {s : EventStore B} {id : String} {sn : Snapshot B}
    (h : s.loadSnapshot id = some sn) : sn ∈ s.snapshots ∧ sn.aggregateID = id := by
  have hmem := mem_of_mem_head? h
  rw [mem_insertionSort, mem_filter] at hmem
  exact ⟨hmem.1, of_decide_eq_true hmem.2⟩

end EventStore

/-- What `Repository.Save` does with a root whose changes are its own: nothing, or the
changes are stored and forgotten. -/
theorem save_cases {σ B : Type} {uuid : ℕ → String} {now : ℤ} {fault err : Option String}
    {a a' : AggregateRoot σ} {s s' : EventStore B} (hid : ∀ e ∈ a.changes, e.aggregateID = a.id)
    (h : save uuid now fault a s = (err, a', s')) :
    ((err.isSome ∨ a.changes = []) ∧ a' = a ∧ s' = s) ∨
      (err = none ∧ a.changes ≠ [] ∧
        Numbered.From Event.version (s.getVersionInTx a.id) a.changes ∧
        a' = { a with changes := [] } ∧
        s' = { s with events := s.events ++ EventStore.fillAll uuid now 0 a.changes }) := by
  unfold save at h
  by_cases hne : a.changes = []
  · rw [if_pos (by rw [hne]; rfl)] at h
    cases h
    exact .inl ⟨.inr hne, rfl, rfl⟩
  · rw [if_neg (by simpa using hne)] at h
    match hsave : s.save uuid now fault a.changes with
    | (some e, t) =>
      rw [hsave] at h
      cases h
      rcases EventStore.save_cases hne hid hsave with ⟨-, rfl⟩ | ⟨herr, -⟩
      · exact .inl ⟨.inl rfl, rfl, rfl⟩
      · cases herr
    | (none, t) =>
      rw [hsave] at h
      cases h
      rcases EventStore.save_cases hne hid hsave with ⟨herr, -⟩ | ⟨-, hnumbered, rfl⟩
      · cases herr
      · exact .inr ⟨rfl, hne, hnumbered, rfl, rfl⟩

end LinkFlow.EventSourcing
