/-
Loading with snapshots against replaying everything.

A snapshot is the encoding of a copy that a client holds in memory, so a load from it
is right when such copies agree with the replay of the stored events. Two things of the
source stand between them. `Save` gives an event without an ID one on its way into the
table, after the handlers have seen it without; and `Load` never sets the ID of the
aggregate it builds, which only the handlers of its events can do. With handlers that
mind neither (`ReplaysAlike`, `RestoresIDs`), a load is the replay at the time it reads
the events, whatever snapshots were taken when (`load_eq_replay`).
-/
import LinkFlow.EventStoreRuns

set_option autoImplicit false

namespace LinkFlow.EventSourcing

open List

variable {σ B : Type}

namespace AggregateType

variable (T : AggregateType σ B)

/-! ## Replay -/

def play (state : σ) (events : List Event) : Option σ :=
  events.foldlM (fun state e => (T.dispatch e.type).map fun handler => handler.run e state) state

def idAfter (id : String) (events : List Event) : String :=
  events.foldl (fun id e =>
    if (T.dispatch e.type).elim false Handler.restoresID then e.aggregateID else id) id

theorem play_append (state : σ) (es es' : List Event) :
    T.play state (es ++ es') = (T.play state es).bind fun state => T.play state es' :=
  foldlM_append

theorem loadFromEvents_eq (es : List Event) (a : AggregateRoot σ) :
    T.loadFromEvents es a = (T.play a.state es).map fun state =>
      { a with
        id := T.idAfter a.id es
        version := es.foldl (fun _ e => e.version) a.version
        state := state } := by
  induction es generalizing a with
  | nil => rfl
  | cons e es ih =>
    rw [loadFromEvents, foldlM_cons, play, foldlM_cons, idAfter, foldl_cons,
      foldl_cons]
    cases hd : T.dispatch e.type with
    | none => simp [applyEvent, hd]
    | some handler =>
      simp only [applyEvent, hd, Option.map_some]
      exact ih _

def IgnoresID (type : String) : Prop :=
  ∀ handler, T.handlers type = some handler → ∀ (e : Event) (id : String) (state : σ),
      handler.run { e with id := id } state = handler.run e state

/-- The event is handled when stored as when applied: it has an ID, or its ID makes no difference.
-/
def ReplaysAlike (e : Event) : Prop := e.id ≠ "" ∨ T.IgnoresID e.type

theorem play_fill {e : Event} (h : T.ReplaysAlike e) (htime : e.timestamp.isSome)
    (uuid : ℕ → String) (now : ℤ) (i : ℕ) (state : σ) :
    (T.dispatch e.type).map (fun handler => handler.run (EventStore.fill uuid now i e) state) =
      (T.dispatch e.type).map fun handler => handler.run e state := by
  have hfill : ∃ id, EventStore.fill uuid now i e = { e with id := id } ∧
      (e.id ≠ "" → id = e.id) := by
    obtain ⟨t, ht⟩ := Option.isSome_iff_exists.mp htime
    refine ⟨if e.id = "" then uuid i else e.id, ?_, fun hne => if_neg hne⟩
    rw [EventStore.fill, ht]
    rfl
  obtain ⟨id, hid, hsame⟩ := hfill
  rw [hid]
  rcases h with hne | hignores
  · rw [hsame hne]
  · unfold dispatch
    cases hh : T.handlers e.type with
    | some handler =>
      simp only [Option.map_some]
      rw [hignores handler hh]
    | none =>
      dsimp only
      split
      · rfl
      · rfl

theorem play_fillAll {es : List Event}
    (h : ∀ e ∈ es, T.ReplaysAlike e ∧ e.timestamp.isSome) (uuid : ℕ → String) (now : ℤ) (i : ℕ)
    (state : σ) : T.play state (EventStore.fillAll uuid now i es) = T.play state es := by
  induction es generalizing i state with
  | nil => rfl
  | cons e es ih =>
    obtain ⟨halike, htime⟩ := h e mem_cons_self
    rw [EventStore.fillAll, play, foldlM_cons, play, foldlM_cons]
    have hfill := T.play_fill halike htime uuid now i state
    have htype : (EventStore.fill uuid now i e).type = e.type := rfl
    rw [htype, hfill]
    congr 1
    funext state'
    exact ih (fun e he => h e (mem_cons_of_mem _ he)) (i + 1) state'

/-- The aggregate's own encoding of its snapshots round-trips. -/
def RoundTrips : Prop :=
  ∀ a b, a.changes = [] → T.marshal a = .ok b → ∀ uuid, ∃ a',
    T.unmarshal b (T.factory uuid) = .ok a' ∧ a'.id = a.id ∧ a'.version = a.version ∧
      a'.state = a.state

end AggregateType

theorem lastVersion_eq {v : ℤ} {es : List Event} (h : Numbered.From Event.version v es) :
    es.foldl (fun _ e => e.version) v = v + es.length := by
  induction es generalizing v with
  | nil => simp
  | cons e es ih =>
    rw [foldl_cons, h.1, ih h.2, length_cons]
    push_cast
    ring

variable {id : String} {store : EventStore B} {T : AggregateType σ B} {a : AggregateRoot σ}
   {snapshot : Option (Snapshot B)} {s : System σ B}

theorem idAfter_eq_self (T : AggregateType σ B) {es : List Event}
    (h : ∀ e ∈ es, e.aggregateID = id) : T.idAfter id es = id := by
  induction es with
  | nil => rfl
  | cons e es ih =>
    rw [AggregateType.idAfter, foldl_cons, h e mem_cons_self, ite_self]
    exact ih fun e he => h e (mem_cons_of_mem _ he)

theorem aggregateID_of_mem_stream {e : Event} (h : e ∈ store.stream id) : e.aggregateID = id :=
  of_decide_eq_true (mem_filter.mp h).2

/-! ## Where states come from -/

def Faithful (T : AggregateType σ B) (store : EventStore B) (a : AggregateRoot σ) : Prop :=
  ∃ n : ℕ, a.version = n + a.changes.length ∧ n ≤ (store.stream a.id).length ∧
    T.play T.init ((store.stream a.id).take n ++ a.changes) = some a.state ∧
    ∀ e ∈ a.changes, T.ReplaysAlike e ∧ e.timestamp.isSome

/-- The snapshot is of a faithful copy without changes, at a version that is stored. -/
def Sound (T : AggregateType σ B) (store : EventStore B) (sn : Snapshot B) : Prop :=
  ∃ a, a.changes = [] ∧ T.marshal a = .ok sn.state ∧ a.id = sn.aggregateID ∧
    a.version = sn.version ∧ 1 ≤ sn.version ∧ Faithful T store a

def Extends (store store' : EventStore B) : Prop := ∀ id, store.stream id <+: store'.stream id

theorem Extends.refl (store : EventStore B) : Extends store store :=
  fun _ => prefix_refl _

theorem Faithful.mono {store store' : EventStore B} (h : Faithful T store a)
    (hext : Extends store store') :
    Faithful T store' a := by
  obtain ⟨n, hversion, hn, hplay, halike⟩ := h
  obtain ⟨rest, hrest⟩ := hext a.id
  refine ⟨n, hversion, ?_, ?_, halike⟩
  · rw [← hrest, length_append]
    omega
  · rw [← hrest, take_append_of_le_length hn]
    exact hplay

theorem Sound.mono {store store' : EventStore B} {sn : Snapshot B} (h : Sound T store sn)
    (hext : Extends store store') : Sound T store' sn := by
  obtain ⟨a, hnil, hmarshal, hid, hversion, hpos, hfaithful⟩ := h
  exact ⟨a, hnil, hmarshal, hid, hversion, hpos, hfaithful.mono hext⟩

theorem faithful_new (T : AggregateType σ B) (store : EventStore B) (id uuid : String) :
    Faithful T store (T.newAggregateRoot id uuid) :=
  ⟨0, rfl, Nat.zero_le _, rfl, fun _ he => nomatch he⟩

/-- A change that replays alike keeps the copy what its events make of it. -/
theorem Faithful.applyChange {a a' : AggregateRoot σ} {now : ℤ} {event : Event}
    (h : Faithful T store a) (halike : T.ReplaysAlike event)
    (happly : T.applyChange now event a = some a') :
    Faithful T store a' := by
  obtain ⟨handler, hdispatch, hid, hversion, hchanges, hstate⟩ := applyChange_some happly
  obtain ⟨n, hn, hle, hplay, hall⟩ := h
  refine ⟨n, ?_, by rw [hid]; exact hle, ?_, ?_⟩
  · rw [hversion, hn, hchanges, length_append, length_singleton]
    push_cast
    ring
  · rw [hid, hchanges, ← append_assoc, T.play_append, hplay, hstate]
    have htype : (a.stamp now event).type = event.type := rfl
    simp [AggregateType.play, htype, hdispatch]
  · intro e he
    rw [hchanges] at he
    rcases mem_append.mp he with he | he
    · exact hall e he
    · rw [mem_singleton.mp he]
      exact ⟨halike, rfl⟩

/-! ## Loading -/

/-- A load from any sound snapshot gives the state and version of all stored events. -/
theorem load_spec (hT : T.RoundTrips) (uuid : String) {state : σ}
    (hnumbered : Numbered.From Event.version 0 (store.stream id))
    (hplay : T.play T.init (store.stream id) = some state)
    (hsound : ∀ sn, snapshot = some sn → Sound T store sn ∧ sn.aggregateID = id)
    (hne : store.stream id ≠ []) :
    ∃ a, T.load uuid snapshot store id = some (.ok a) ∧ a.state = state ∧
      a.version = (store.stream id).length ∧
      a.id = if snapshot.isSome then id else T.idAfter (T.factory uuid).id (store.stream id) := by
  cases snapshot with
  | none =>
    have hload : store.load id = store.stream id := hnumbered.insertionSort
    have hversion := lastVersion_eq hnumbered
    rw [zero_add] at hversion
    simp only [AggregateType.load, hload]
    rw [if_neg (by simpa using hne), T.loadFromEvents_eq]
    have hinit : (T.factory uuid).state = T.init := rfl
    rw [hinit, hplay]
    exact ⟨_, rfl, rfl, hversion, rfl⟩
  | some sn =>
    obtain ⟨⟨a, hnil, hmarshal, hid, hversion, -, n, hn, hle, hprefix, -⟩, rfl⟩ := hsound sn rfl
    obtain ⟨b, hb, hbid, hbversion, hbstate⟩ := hT a sn.state hnil hmarshal uuid
    rw [hnil, append_nil, hid] at hprefix
    rw [hnil] at hn
    rw [hid] at hle
    have hsn : sn.version = n := by rw [← hversion, hn, length_nil, Nat.cast_zero, add_zero]
    -- the stream, split where the snapshot was taken
    have hlen : ((store.stream sn.aggregateID).take n).length = n := length_take_of_le hle
    have hsplit := take_append_drop n (store.stream sn.aggregateID)
    have hlater : store.loadFromVersion sn.aggregateID sn.version =
        (store.stream sn.aggregateID).drop n := by
      have hnum := hnumbered
      rw [← hsplit] at hnum
      have hfilter := hnum.filter_lt
      rw [hlen, zero_add, hsplit] at hfilter
      rw [EventStore.loadFromVersion, hsn, hfilter]
      exact (Numbered.from_append.mp hnum).2.insertionSort
    have hrest : Numbered.From Event.version n ((store.stream sn.aggregateID).drop n) := by
      have hnum := hnumbered
      rw [← hsplit, Numbered.from_append, hlen, zero_add] at hnum
      exact hnum.2
    have hstate : T.play b.state ((store.stream sn.aggregateID).drop n) = some state := by
      rw [hbstate, ← hplay, ← hsplit, T.play_append, hprefix, hsplit]
      rfl
    simp only [AggregateType.load, hb, hlater]
    rw [T.loadFromEvents_eq, hstate]
    refine ⟨_, rfl, rfl, ?_, ?_⟩
    · have hlast := lastVersion_eq hrest
      dsimp only
      rw [hbversion, hversion, hsn, hlast, length_drop, Nat.cast_sub hle]
      ring
    · dsimp only
      rw [hbid, hid]
      refine idAfter_eq_self T fun e he => ?_
      exact aggregateID_of_mem_stream (mem_of_mem_drop he)

theorem load_of_nil {id uuid : String}
    (hsound : ∀ sn, snapshot = some sn → Sound T store sn ∧ sn.aggregateID = id)
    (hnil : store.stream id = []) :
    T.load uuid snapshot store id = some (.error "aggregate not found") := by
  cases snapshot with
  | none => simp [AggregateType.load, EventStore.load, hnil]
  | some sn =>
    obtain ⟨⟨a, hchanges, -, hid, hversion, hpos, n, hn, hle, -⟩, rfl⟩ := hsound sn rfl
    rw [hid, hnil, length_nil] at hle
    rw [hchanges, length_nil] at hn
    omega

/-! ## Runs -/

/-- Replaying the stored events of an aggregate gives it its ID back. -/
def RestoresIDs (T : AggregateType σ B) (s : System σ B) : Prop :=
  ∀ id uuid, s.store.stream id ≠ [] → T.idAfter (T.factory uuid).id (s.store.stream id) = id

/-- Every state in the tables and with the clients is a replay. -/
structure Replayed (T : AggregateType σ B) (s : System σ B) : Prop where
  versioned : Versioned T s
  playable : ∀ id, ∃ state, T.play T.init (s.store.stream id) = some state
  snapshots : ∀ sn ∈ s.store.snapshots, Sound T s.store sn
  copies : ∀ i a, (s.clients i).copy = some a → Faithful T s.store a
  loading : ∀ i id sn, (s.clients i).phase = .loading id (some sn) →
    Sound T s.store sn ∧ sn.aggregateID = id
  due : ∀ i a, (s.clients i).phase = .snapshotting → (s.clients i).copy = some a → 1 ≤ a.version

def StepAlike (T : AggregateType σ B) (s : System σ B) (a : ℕ × Op) : Prop :=
  RestoresIDs T s ∧ ∀ now e, a.2 = .applyChange now e → T.ReplaysAlike e

/-- Saving moves the changes of the copy into the stream. -/
theorem Faithful.saved (h : Faithful T store a) (uuid : ℕ → String) (now : ℤ)
    (hnumbered : Numbered.From Event.version 0 (store.stream a.id)) (hne : a.changes ≠ [])
    (hpending : Pending a)
    (hbatch : Numbered.From Event.version (store.getVersionInTx a.id) a.changes) :
    a.version = ((store.stream a.id).length + a.changes.length : ℕ) ∧
      T.play T.init (store.stream a.id ++ EventStore.fillAll uuid now 0 a.changes) =
        some a.state := by
  obtain ⟨n, hn, hle, hplay, halike⟩ := h
  -- both numberings of the changes start at the same version
  have hbase : (n : ℤ) = (store.stream a.id).length := by
    rw [← getVersionInTx_eq hnumbered]
    cases hchanges : a.changes with
    | nil => exact absurd hchanges hne
    | cons e es =>
      have hown := hpending.1
      rw [hchanges] at hown hbatch hn
      have h1 : e.version = _ := hown.1
      have h2 : e.version = _ := hbatch.1
      linarith
  have hbase : n = (store.stream a.id).length := by exact_mod_cast hbase
  refine ⟨by rw [hn, hbase]; push_cast; rfl, ?_⟩
  rw [T.play_append, ← hplay, hbase, take_length, T.play_append]
  congr 1
  funext state
  exact T.play_fillAll halike uuid now 0 state

theorem faithful_of_play (hchanges : a.changes = [])
    (hversion : a.version = (store.stream a.id).length)
    (hplay : T.play T.init (store.stream a.id) = some a.state) : Faithful T store a := by
  refine ⟨(store.stream a.id).length, ?_, le_rfl, ?_, ?_⟩
  · rw [hversion, hchanges, length_nil, Nat.cast_zero, add_zero]
  · rw [hchanges, take_length, append_nil]
    exact hplay
  · rw [hchanges]
    exact fun e he => nomatch he

theorem Replayed.faithful_load (hT : T.RoundTrips) (h : Replayed T s) (hids : RestoresIDs T s)
    {i : ℕ} {uuid id : String} (hphase : (s.clients i).phase = .loading id snapshot)
    (hload : T.load uuid snapshot s.store id = some (.ok a)) : Faithful T s.store a := by
  have hsound : ∀ sn, snapshot = some sn → Sound T s.store sn ∧ sn.aggregateID = id := by
    rintro sn rfl
    exact h.loading i id sn hphase
  have hchanges : a.changes = [] :=
    load_changes (fun sn hsn => h.versioned.loading i id sn (hsn ▸ hphase)) hload
  by_cases hne : s.store.stream id = []
  · rw [load_of_nil hsound hne] at hload
    cases hload
  obtain ⟨state, hplay⟩ := h.playable id
  obtain ⟨b, hb, hstate, hversion, hbid⟩ :=
    load_spec hT uuid (h.versioned.numbered id) hplay hsound hne
  rw [hload] at hb
  cases hb
  have haid : a.id = id := by
    rw [hbid, hids id uuid hne, ite_self]
  refine faithful_of_play hchanges ?_ ?_
  · rw [haid, hversion]
  · rw [haid, hplay, hstate]

theorem ClientStep.extends {store store' : EventStore B} {c c' : Client σ B} {op : Op}
    (hpending : ∀ a, c.copy = some a → Pending a) (hstep : ClientStep T store c op c' store') :
    Extends store store' := by
  cases hstep with
  | save uuid now fault err a a' phase _ hcopy hsave hphase =>
    rcases save_cases (hpending a hcopy).2 hsave with ⟨-, rfl, rfl⟩ | ⟨-, -, -, -, rfl⟩
    · exact Extends.refl _
    · intro id
      rw [stream_append store (EventStore.aggregateID_fillAll uuid now (hpending a hcopy).2)]
      exact prefix_append _ _
  | createSnapshot uuid now fault a hcopy hphase =>
    intro id
    rw [EventStore.stream, EventStore.stream, createSnapshot_events]
  | _ => exact Extends.refl _

/-- One step of a client keeps every copy what the stored events replay to. -/
theorem Replayed.clientStep (hT : T.RoundTrips) (h : Replayed T s) {i : ℕ} {op : Op}
    (hok : StepAlike T s (i, op)) {c' : Client σ B} {store' : EventStore B}
    (hstep : ClientStep T s.store (s.clients i) op c' store') :
    ((∀ id, ∃ state, T.play T.init (store'.stream id) = some state) ∧
      ∀ sn ∈ store'.snapshots, Sound T store' sn) ∧
    c'.Ok (Faithful T store') (fun a => 1 ≤ a.version)
      (fun id sn => Sound T store' sn ∧ sn.aggregateID = id) := by
  have hkeep := And.intro h.playable h.snapshots
  have hext := hstep.extends (h.versioned.pending i)
  cases hstep with
  | stay => exact ⟨hkeep, h.copies i, h.loading i, h.due i⟩
  | create id uuid => exact ⟨hkeep, Client.ok_idle (faithful_new T s.store id uuid)⟩
  | label _ a hcopy => exact ⟨hkeep, Client.ok_idle (h.copies i a hcopy)⟩
  | applyChange now event a a' hcopy happly =>
    exact ⟨hkeep, Client.ok_idle ((h.copies i a hcopy).applyChange (hok.2 now event rfl) happly)⟩
  | beginLoad id =>
    refine ⟨hkeep, h.copies i, ?_, fun _ hp => nomatch hp⟩
    intro id' sn hp
    rw [Phase.loading.injEq] at hp
    obtain ⟨hmem, hid⟩ := EventStore.loadSnapshot_some hp.2
    exact ⟨h.snapshots sn hmem, hid.trans hp.1⟩
  | loadFailed uuid =>
    exact ⟨hkeep, h.copies i, fun _ _ hp => (nomatch hp), fun _ hp => nomatch hp⟩
  | endLoad uuid id snapshot a hphase hload =>
    exact ⟨hkeep, Client.ok_idle (h.faithful_load hT hok.1 hphase hload)⟩
  | save uuid now fault err a a' phase _ hcopy hsave hphase =>
    have hpending := h.versioned.pending i a hcopy
    rcases save_cases hpending.2 hsave with ⟨hnot, rfl, rfl⟩ | ⟨rfl, hne, hbatch, rfl, rfl⟩
    · obtain rfl := idle_of_unsaved hnot hphase
      exact ⟨hkeep, Client.ok_idle (h.copies i _ hcopy)⟩
    · obtain ⟨hversion, hplay⟩ := (h.copies i a hcopy).saved uuid now
        (h.versioned.numbered a.id) hne hpending hbatch
      have hstream := stream_append s.store
        (EventStore.aggregateID_fillAll uuid now (i := 0) hpending.2)
      refine ⟨⟨?_, ?_⟩, Client.ok_some hphase (faithful_of_play rfl ?_ ?_) (fun _ => ?_)⟩
      · intro id
        rw [hstream]
        by_cases heq : id = a.id
        · rw [if_pos heq, heq]
          exact ⟨a.state, hplay⟩
        · rw [if_neg heq, append_nil]
          exact h.playable id
      · intro sn hsn
        exact (h.snapshots sn hsn).mono hext
      · rw [hstream, if_pos rfl, length_append, EventStore.length_fillAll]
        exact hversion
      · rw [hstream, if_pos rfl]
        exact hplay
      · have hpos : 0 < a.changes.length := length_pos_of_ne_nil hne
        dsimp only
        omega
  | createSnapshot uuid now fault a hcopy hphase =>
    have hevents : ∀ id, (T.createSnapshot uuid now fault a s.store).2.stream id =
        s.store.stream id := by
      intro id
      rw [EventStore.stream, createSnapshot_events]
      rfl
    refine ⟨⟨?_, ?_⟩, Client.ok_idle ((h.copies i a hcopy).mono hext)⟩
    · intro id
      rw [hevents]
      exact h.playable id
    · intro sn hsn
      rcases mem_createSnapshot hsn with hsn | ⟨hmarshal, hid, hversion⟩
      · exact (h.snapshots sn hsn).mono hext
      refine ⟨a, h.versioned.settled i a hphase hcopy, hmarshal, hid.symm, hversion.symm, ?_,
        (h.copies i a hcopy).mono hext⟩
      rw [hversion]
      exact h.due i a hphase hcopy

theorem Replayed.step (hT : T.RoundTrips) (h : Replayed T s) (a : ℕ × Op) (hok : StepAlike T s a) :
    Replayed T (step T s a) := by
  have hspec := clientStep_spec T s.store (s.clients a.1) a.2
  have hext := hspec.extends (h.versioned.pending a.1)
  obtain ⟨⟨hplayable, hsnapshots⟩, hclient⟩ := h.clientStep hT hok hspec
  have hclients := step_clients T s a _ hclient (fun i => ⟨fun b hb => (h.copies i b hb).mono hext,
    fun id sn hp => (h.loading i id sn hp).imp_left (fun hsound => hsound.mono hext), h.due i⟩)
  exact ⟨h.versioned.step a, hplayable, hsnapshots, fun i => (hclients i).copy,
    fun i => (hclients i).loading, fun i => (hclients i).due⟩

theorem run_replayed (hT : T.RoundTrips) {ops : List (ℕ × Op)}
    (halike : ∀ i now e, (i, Op.applyChange now e) ∈ ops → T.ReplaysAlike e)
    (hids : Runs.Always (step T) (RestoresIDs T) {} ops) :
    Runs.Always (step T) (Replayed T) {} ops := by
  have halong : Runs.Along (step T) (StepAlike T) {} ops := by
    rw [Runs.along_iff]
    rintro pre ⟨i, op⟩ post rfl
    refine ⟨hids pre (prefix_append _ _), ?_⟩
    rintro now e rfl
    exact halike i now e (mem_append_right _ mem_cons_self)
  refine halong.always (fun s a h hok => h.step hT a hok) ?_
  exact ⟨run_versioned T [], fun id => ⟨T.init, rfl⟩, fun sn h => (nomatch h),
    fun i a h => (nomatch h), fun i id sn h => (nomatch h), fun i a h => (nomatch h)⟩

theorem run_extends (T : AggregateType σ B) (pre mid : List (ℕ × Op)) :
    Extends (run T pre).store (run T (pre ++ mid)).store := by
  have hstep : Runs.Along (step T) (fun s a => Extends s.store (step T s a).store) {}
      (pre ++ mid) := by
    rw [Runs.along_iff]
    intro before a _ _
    exact (clientStep_spec T _ _ a.2).extends ((run_versioned T before).pending a.1)
  have hlater := (Runs.later_iff_along (R := fun s s' : System σ B => Extends s.store s'.store)
    (fun s => Extends.refl s.store) fun _ _ _ hst htu id => (hst id).trans (htu id)).mpr hstep
  exact hlater pre mid [] (append_nil _).symm

/-- What a load shows: an error, or the state and the version. -/
def shown (r : Option (Except String (AggregateRoot σ))) : Option (Except String (σ × ℤ)) :=
  r.map fun result => result.map fun a => (a.state, a.version)

/-- **Loading is replaying.** Where snapshots round-trip, replay restores IDs and events replay
alike, a `Load` that reads the snapshot at one point of a run and the events at a later one shows
what a full replay shows, and returns. -/
theorem load_eq_replay (T : AggregateType σ B) (hT : T.RoundTrips) (ops : List (ℕ × Op))
    (halike : ∀ i now e, (i, Op.applyChange now e) ∈ ops → T.ReplaysAlike e)
    (hids : Runs.Always (step T) (RestoresIDs T) {} ops) :
    ∀ pre mid post, ops = pre ++ mid ++ post → ∀ id uuid,
      shown (T.load uuid ((run T pre).store.loadSnapshot id) (run T (pre ++ mid)).store id) =
        shown (T.replay uuid (run T (pre ++ mid)).store id) ∧
      (T.load uuid ((run T pre).store.loadSnapshot id) (run T (pre ++ mid)).store id).isSome := by
  rintro pre mid post rfl id uuid
  have hall := run_replayed hT halike hids
  have hpre : Replayed T (run T pre) :=
    hall pre (by rw [append_assoc]; exact prefix_append _ _)
  have hnow : Replayed T (run T (pre ++ mid)) := hall (pre ++ mid) (prefix_append _ _)
  -- the snapshot is still sound when the events are read
  have hsound : ∀ sn, (run T pre).store.loadSnapshot id = some sn →
      Sound T (run T (pre ++ mid)).store sn ∧ sn.aggregateID = id := by
    intro sn hsn
    obtain ⟨hmem, hid⟩ := EventStore.loadSnapshot_some hsn
    exact ⟨(hpre.snapshots sn hmem).mono (run_extends T pre mid), hid⟩
  have hnone : ∀ sn, (none : Option (Snapshot B)) = some sn →
      Sound T (run T (pre ++ mid)).store sn ∧ sn.aggregateID = id := fun sn h => nomatch h
  rw [AggregateType.replay]
  by_cases hne : (run T (pre ++ mid)).store.stream id = []
  · rw [load_of_nil hsound hne, load_of_nil hnone hne]
    exact ⟨rfl, rfl⟩
  obtain ⟨state, hplay⟩ := hnow.playable id
  have hnumbered := hnow.versioned.numbered id
  obtain ⟨a, ha, hstate, hversion, -⟩ := load_spec hT uuid hnumbered hplay hsound hne
  obtain ⟨b, hb, hbstate, hbversion, -⟩ := load_spec hT uuid hnumbered hplay hnone hne
  rw [ha, hb]
  refine ⟨?_, rfl⟩
  simp only [shown, Option.map_some, Except.map, hstate, hversion, hbstate, hbversion]

/-! ## Aggregates that are kept as they are -/

def plainAggregate (factoryID : String) (init : σ) (handlers : String → Option (Handler σ)) :
    AggregateType σ (AggregateRoot σ) where
  factoryID := factoryID
  init := init
  handlers := handlers
  marshal := fun a => .ok a
  unmarshal := fun b a =>
    .ok { a with id := b.id, version := b.version, changes := b.changes, state := b.state }
  unmarshal_changes := by
    rintro a b f a' hnil hmarshal - hunmarshal
    cases hmarshal
    cases hunmarshal
    exact hnil

theorem plainAggregate_roundTrips (factoryID : String) (init : σ)
    (handlers : String → Option (Handler σ)) :
    (plainAggregate factoryID init handlers).RoundTrips := by
  intro a b _ hmarshal uuid
  cases hmarshal
  exact ⟨_, rfl, rfl, rfl, rfl⟩

/-- UUIDs that differ. -/
def uuids (c : Char) (i : ℕ) : String := String.ofList (List.replicate (i + 1) c)

/-- A client applies `n` events, saves them, and takes the snapshot if one is due. -/
def notes (i n : ℕ) (payload : String) (ids : ℕ → String) : List (ℕ × Op) :=
  ((List.range n).map fun k =>
      (i, .applyChange 1 { id := ids k, type := "noted", payload := payload })) ++
    [(i, .save (uuids 'u') 2 none), (i, .createSnapshot "s" 3 none)]

/-- An aggregate that notes the IDs of its events. -/
def idNotes : AggregateType (List String) (AggregateRoot (List String)) :=
  plainAggregate "" [] fun _ => some { run := fun e ids => ids ++ [e.id], restoresID := true }

/-- Ten events that come with the given IDs, and their snapshot. -/
def tenNotes (ids : ℕ → String) : List (ℕ × Op) := (0, .create "A" "") :: notes 0 10 "" ids

theorem restoresIDs_of_handlers
    (h : ∀ type, ∃ handler, T.handlers type = some handler ∧ handler.restoresID = true)
    (s : System σ B) : RestoresIDs T s := by
  intro id uuid hne
  cases hstream : s.store.stream id with
  | nil => exact absurd hstream hne
  | cons e es =>
    have hid : ∀ e' ∈ e :: es, e'.aggregateID = id :=
      fun e' he' => aggregateID_of_mem_stream (hstream ▸ he')
    obtain ⟨handler, hhandler, hrestores⟩ := h e.type
    have hfirst : (T.dispatch e.type).elim false Handler.restoresID = true := by
      rw [AggregateType.dispatch, hhandler]
      exact hrestores
    rw [AggregateType.idAfter, foldl_cons, if_pos hfirst, hid e mem_cons_self]
    exact idAfter_eq_self T fun e' he' => hid e' (mem_cons_of_mem _ he')

/-- Ten events with IDs, loaded from the snapshot of the tenth. -/
theorem load_eq_replay_tenNotes :
    shown (idNotes.load "" ((run idNotes (tenNotes (uuids 'a'))).store.loadSnapshot "A")
        (run idNotes (tenNotes (uuids 'a') ++ [])).store "A") =
      shown (idNotes.replay "" (run idNotes (tenNotes (uuids 'a') ++ [])).store "A") := by
  refine (load_eq_replay idNotes (plainAggregate_roundTrips _ _ _) (tenNotes (uuids 'a')) ?_ ?_
    (tenNotes (uuids 'a')) [] [] (by simp) "A" "").1
  · intro i now e he
    left
    simp only [tenNotes, notes, mem_cons, mem_append, mem_map] at he
    obtain ⟨⟨⟩⟩ | ⟨k, -, hk⟩ | ⟨⟨⟩⟩ | ⟨⟨⟩⟩ | ⟨⟨⟩⟩ := he
    cases hk
    simp [uuids, replicate_succ]
  · intro pre _
    exact restoresIDs_of_handlers (fun type => ⟨_, rfl, rfl⟩) _

/-- An aggregate that notes payloads, and whose handlers leave its ID to the factory. -/
def payloadNotes : AggregateType (List String) (AggregateRoot (List String)) :=
  plainAggregate "X" [] fun _ => some { run := fun e payloads => payloads ++ [e.payload] }

/-- Two aggregates at version 9; a client loads the one, and its change goes to the
other. -/
def strayNotes : List (ℕ × Op) :=
  (0, .create "A" "") :: notes 0 9 "a" (uuids 'a') ++
    (1, .create "X" "") :: notes 1 9 "x" (uuids 'x') ++
    (2, .beginLoad "A") :: (2, .endLoad "") :: notes 2 1 "z" (uuids 'z')

/-- Neither condition can be left out: of an aggregate that notes the IDs of events that had none,
and of one that does not restore its own. -/
theorem load_ne_replay : (idNotes.RoundTrips ∧
      shown (idNotes.load "" ((run idNotes (tenNotes fun _ => "")).store.loadSnapshot "A")
        (run idNotes (tenNotes fun _ => "")).store "A") ≠
      shown (idNotes.replay "" (run idNotes (tenNotes fun _ => "")).store "A")) ∧
    payloadNotes.RoundTrips ∧
      shown (payloadNotes.load "" ((run payloadNotes strayNotes).store.loadSnapshot "X")
        (run payloadNotes strayNotes).store "X") ≠
      shown (payloadNotes.replay "" (run payloadNotes strayNotes).store "X") := by
  refine ⟨⟨plainAggregate_roundTrips _ _ _, ?_⟩, plainAggregate_roundTrips _ _ _, ?_⟩
  · decide
  · decide

end LinkFlow.EventSourcing
