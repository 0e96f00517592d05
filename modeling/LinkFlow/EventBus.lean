/-
The Kafka event bus (`pkg/events/eventbus.go`): `Publish`, `Subscribe` and the consumer
loops, over a broker in which every topic is a log (`Topics`).

The writer of a bus is bound to the topic of the configuration, the reader of a
subscription to the subscription's name; the type of an event is only a header and a field
of its JSON. So an event goes to the readers of the configured topic, whatever its type
(`reached_iff`).

A step is a call of `Subscribe` or `Publish`, or one round of a consumer loop, in any
interleaving. `published` records the events whose `Publish` returned nil, in the order of
their offsets, and each subscription how many there were when it was made. That a message
is delivered to the readers of its topic is the assumption that all consumers catch up
(`Drained`).
-/
import LinkFlow.Lib.Codec
import LinkFlow.Lib.GoMap
import LinkFlow.Lib.Topics

set_option autoImplicit false

namespace LinkFlow.Events

open List

/-! ## Events and messages -/

structure EventMetadata where
  (correlationID causationID traceID spanID : String := "")
deriving DecidableEq, Repr

/-- A zero `Timestamp` is `none`; the payload's values are their JSON texts. -/
structure Event where
  id : String := ""
  type : String
  (aggregateID aggregateType : String := "")
  timestamp : Option ℤ := none
  userID : String := ""
  version : ℤ := 0
  payload : GoMap String String := ∅
  metadata : EventMetadata := {}
deriving DecidableEq

structure KafkaConfig where
  brokers : List String := []
  topic : String
  consumerGroup : String := ""
deriving DecidableEq, Repr

/-- `kafka.Message`, without the topic: the writer has one. -/
structure Message (D : Type) where
  key : String
  value : D
  headers : List (String × String)

/-- A call of `Subscribe`: its handler, and the number of events published before it. -/
structure Subscription (H : Type) where
  handler : H
  since : ℕ
deriving DecidableEq

/-- A bus with its broker. -/
structure Bus (D H : Type) where
  config : KafkaConfig
  broker : Topics.Broker String (Subscription H) (Message D)
  published : List Event

namespace Bus

variable {D H : Type}

def newKafkaEventBus (config : KafkaConfig) : Bus D H := ⟨config, .new, []⟩

/-! ## The methods -/

/-- `Publish` gives an event without them an ID and a timestamp. -/
def fill (uuid : String) (now : ℤ) (e : Event) : Event :=
  { e with
    id := if e.id = "" then uuid else e.id
    timestamp := some (e.timestamp.getD now) }

/-- What a `Publish` call meets: a UUID, the clock, and whether the write fails. -/
structure PublishEnv where
  uuid : String := ""
  now : ℤ := 0
  writeFails : Bool := false
deriving DecidableEq, Repr

/-- A writer without a topic refuses a message without one. -/
def publish (json : Codec Event D) (env : PublishEnv) (e : Event) (bus : Bus D H) :
    Except String Unit × Bus D H :=
  let e := fill env.uuid env.now e
  match json.encode e with
  | none => (.error "failed to marshal event", bus)
  | some data =>
    let msg : Message D :=
      { key := e.aggregateID
        value := data
        headers := [("event-type", e.type), ("trace-id", e.metadata.traceID),
          ("correlation-id", e.metadata.correlationID)] }
    if bus.config.topic = "" ∨ env.writeFails then (.error "failed to write", bus)
    else
      (.ok (), { bus with
        broker := bus.broker.write bus.config.topic msg, published := bus.published ++ [e] })

/-- A reader of the topic, with a consumer loop of its own. `NewReader` panics on an empty topic. -/
def subscribe (topic : String) (handler : H) (bus : Bus D H) : Bus D H :=
  if topic = "" then bus
  else { bus with broker := bus.broker.subscribe topic ⟨handler, bus.published.length⟩ }

/-- One round of the consumer loop of subscription `i`. -/
def consume (i : ℕ) (bus : Bus D H) : Bus D H := { bus with broker := bus.broker.read i }

/-- A call of a handler from a consumer loop, for the message at `offset`. -/
structure Call (H : Type) where
  handler : H
  offset : ℕ
  event : Event
deriving DecidableEq

def callOf (json : Codec Event D) (bus : Bus D H) (rd : Topics.Read (Message D)) :
    Option (Call H) :=
  match bus.broker.readers[rd.reader]?, json.decode rd.message.value with
  | some r, some e => some ⟨r.owner.handler, rd.offset, e⟩
  | _, _ => none

/-- The handler calls made so far. -/
def calls (json : Codec Event D) (bus : Bus D H) : List (Call H) :=
  bus.broker.reads.filterMap (bus.callOf json)

/-! ## Runs -/

/-- A step of the system. -/
inductive Action (H : Type)
  | subscribe (topic : String) (handler : H)
  | publish (env : PublishEnv) (e : Event)
  | consume (i : ℕ)

def step (json : Codec Event D) (bus : Bus D H) : Action H → Bus D H
  | .subscribe topic handler => bus.subscribe topic handler
  | .publish env e => (bus.publish json env e).2
  | .consume i => bus.consume i

/-- The bus after a sequence of steps on a new one. -/
def run (json : Codec Event D) (config : KafkaConfig) (as : List (Action H)) : Bus D H :=
  as.foldl (step json) (newKafkaEventBus config)

theorem run_concat (json : Codec Event D) (config : KafkaConfig) (as : List (Action H))
    (a : Action H) : run json config (as ++ [a]) = step json (run json config as) a := by
  rw [run, foldl_append, foldl_cons, foldl_nil, ← run]

theorem publish_cases (json : Codec Event D) (env : PublishEnv) (e : Event) (bus : Bus D H) :
    (∃ msg, bus.publish json env e = (.error msg, bus)) ∨
      ∃ msg, json.encode (fill env.uuid env.now e) = some msg.value ∧
        bus.publish json env e = (.ok (), { bus with
          broker := bus.broker.write bus.config.topic msg,
          published := bus.published ++ [fill env.uuid env.now e] }) := by
  unfold publish
  dsimp only
  split
  · exact .inl ⟨_, rfl⟩
  rename_i data hdata
  split_ifs
  · exact .inl ⟨_, rfl⟩
  · exact .inr ⟨_, hdata, rfl⟩

theorem config_step (json : Codec Event D) (bus : Bus D H) (a : Action H) :
    (step json bus a).config = bus.config := by
  cases a with
  | subscribe topic handler =>
    rw [step, subscribe]
    split_ifs <;> rfl
  | publish env e =>
    obtain ⟨msg, h⟩ | ⟨msg, -, h⟩ := publish_cases json env e bus
    · rw [step, h]
    · rw [step, h]
  | consume i => rfl

theorem config_run (json : Codec Event D) (config : KafkaConfig) (as : List (Action H)) :
    (run json config as).config = config := by
  induction as using reverseRecOn with
  | nil => rfl
  | append_singleton as a ih => rw [run_concat, config_step, ih]

/-- The log of the configured topic holds the published events, no other topic has messages, and its
readers start where their subscription was made. -/
structure Sound (json : Codec Event D) (bus : Bus D H) : Prop where
  broker : bus.broker.Sound
  topic_log : List.Forall₂ (fun e msg => json.encode e = some msg.value) bus.published
    (bus.broker.logs bus.config.topic)
  other_logs : ∀ t, t ≠ bus.config.topic → bus.broker.logs t = []
  since : ∀ r ∈ bus.broker.readers, r.topic = bus.config.topic → r.start = r.owner.since

theorem sound_new (json : Codec Event D) (config : KafkaConfig) :
    (newKafkaEventBus config : Bus D H).Sound json where
  broker := Topics.Broker.sound_new
  topic_log := List.Forall₂.nil
  other_logs := fun _ _ => rfl
  since := fun r hr => absurd hr (by simp [newKafkaEventBus, Topics.Broker.new])

variable {json : Codec Event D} {bus : Bus D H}

theorem Sound.subscribe (h : bus.Sound json) (topic : String) (handler : H) :
    (bus.subscribe topic handler).Sound json := by
  unfold Bus.subscribe
  split_ifs
  · exact h
  refine ⟨h.broker.subscribe topic _, h.topic_log, h.other_logs, ?_⟩
  intro r hr ht
  obtain hr | hr := mem_append.mp hr
  · exact h.since r hr ht
  · obtain rfl := mem_singleton.mp hr
    dsimp only at ht ⊢
    rw [ht, h.topic_log.length_eq]

theorem Sound.publish (h : bus.Sound json) (env : PublishEnv) (e : Event) :
    (bus.publish json env e).2.Sound json := by
  obtain ⟨msg, heq⟩ | ⟨msg, hmsg, heq⟩ := publish_cases json env e bus
  · rw [heq]
    exact h
  rw [heq]
  refine ⟨h.broker.write _ _, ?_, ?_, h.since⟩
  · dsimp only
    rw [Topics.Broker.logs_write_self]
    exact rel_append h.topic_log (List.Forall₂.cons hmsg List.Forall₂.nil)
  · intro t ht
    dsimp only
    rw [Topics.Broker.logs_write_of_ne ht]
    exact h.other_logs t ht

theorem Sound.consume (h : bus.Sound json) (i : ℕ) : (bus.consume i).Sound json := by
  refine ⟨h.broker.read i, ?_, ?_, ?_⟩
  · rw [Bus.consume, Topics.Broker.logs_read]
    exact h.topic_log
  · intro t ht
    rw [Bus.consume, Topics.Broker.logs_read]
    exact h.other_logs t ht
  · intro r hr ht
    rw [Bus.consume] at hr
    obtain heq | ⟨r', m, hr', -, heq⟩ := Topics.Broker.read_cases i bus.broker
    · rw [heq] at hr
      exact h.since r hr ht
    rw [heq] at hr
    obtain hr | rfl := mem_or_eq_of_mem_set hr
    · exact h.since r hr ht
    · exact h.since r' (mem_of_getElem? hr') ht

/-- The log of the topic is the published events, encoded; readers are within it. -/
theorem Sound.step (h : bus.Sound json) (a : Action H) : (Bus.step json bus a).Sound json := by
  cases a with
  | subscribe topic handler => exact h.subscribe topic handler
  | publish env e => exact h.publish env e
  | consume i => exact h.consume i

theorem sound_run (json : Codec Event D) (config : KafkaConfig) (as : List (Action H)) :
    (run json config as).Sound json :=
  foldlRecOn as (Bus.step json) (sound_new json config) (fun _ h a _ => h.step a)

/-! ## Where an event goes -/

/-- `handler` was subscribed under `name` before the event at `offset` was published. -/
def SubscribedUnder (bus : Bus D H) (name : String) (offset : ℕ) (handler : H) : Prop :=
  ∃ r ∈ bus.broker.readers, r.topic = name ∧ r.owner.handler = handler ∧ r.owner.since ≤ offset

/-- `handler` has been called with the event at `offset`. -/
def Reached (json : Codec Event D) (bus : Bus D H) (offset : ℕ) (handler : H) : Prop :=
  ∃ e, bus.published[offset]? = some e ∧ ⟨handler, offset, e⟩ ∈ bus.calls json

theorem mem_calls (json : Codec Event D) (bus : Bus D H) (c : Call H) :
    c ∈ bus.calls json ↔ ∃ i r m, ⟨i, c.offset, m⟩ ∈ bus.broker.reads ∧
      bus.broker.readers[i]? = some r ∧ r.owner.handler = c.handler ∧
      json.decode m.value = some c.event := by
  rw [calls, mem_filterMap]
  constructor
  · rintro ⟨⟨i, o, m⟩, hmem, hcall⟩
    unfold callOf at hcall
    split at hcall
    · rename_i r e hr he
      cases hcall
      exact ⟨i, r, m, hmem, hr, rfl, he⟩
    · exact absurd hcall (by simp)
  · rintro ⟨i, r, m, hmem, hr, hh, he⟩
    refine ⟨⟨i, c.offset, m⟩, hmem, ?_⟩
    rw [callOf, hr, he]
    dsimp only
    rw [hh]

/-- **An event goes to the subscribers of the configured topic**: once all consumers have caught up,
to exactly the handlers subscribed under that name when it was published. -/
theorem Sound.reached_iff (h : bus.Sound json) (hd : bus.broker.Drained) {offset : ℕ} {e : Event}
    (he : bus.published[offset]? = some e) (handler : H) :
    bus.Reached json offset handler ↔ bus.SubscribedUnder bus.config.topic offset handler := by
  obtain ⟨hlt, hget⟩ := List.getElem?_eq_some_iff.mp he
  -- the message of the event
  obtain ⟨m, hm, hdec⟩ : ∃ m, (bus.broker.logs bus.config.topic)[offset]? = some m ∧
      json.decode m.value = some e := by
    have hlt' : offset < (bus.broker.logs bus.config.topic).length := by
      rw [← h.topic_log.length_eq]
      exact hlt
    refine ⟨_, getElem?_eq_getElem hlt', ?_⟩
    apply json.decode_encode
    have hrel := h.topic_log.get hlt hlt'
    rw [get_eq_getElem, get_eq_getElem, hget] at hrel
    exact hrel
  constructor
  · rintro ⟨e', -, hcall⟩
    obtain ⟨i, r, m', hread, hr, hh, -⟩ := (mem_calls json bus _).mp hcall
    obtain ⟨r', hr', hstart, -, hlog⟩ := (h.broker.reads_iff i offset m').mp hread
    rw [hr] at hr'
    cases hr'
    -- only the configured topic has messages
    have ht : r.topic = bus.config.topic := by
      by_contra hne
      rw [h.other_logs r.topic hne] at hlog
      exact absurd hlog (by simp)
    have hmem := mem_of_getElem? hr
    refine ⟨r, hmem, ht, hh, ?_⟩
    rw [← h.since r hmem ht]
    exact hstart
  · rintro ⟨r, hmem, ht, hh, hsince⟩
    obtain ⟨i, hr⟩ := getElem?_of_mem hmem
    rw [← h.since r hmem ht] at hsince
    have hread := (h.broker.read_iff_of_drained hd hm i r hr ht).mpr hsince
    exact ⟨e, he, (mem_calls json bus _).mpr ⟨i, r, m, hread, hr, hh, hdec⟩⟩

/-- Every published event has reached exactly the handlers that were subscribed under its
type. -/
def Routed (json : Codec Event D) (bus : Bus D H) : Prop :=
  ∀ offset e, bus.published[offset]? = some e →
    ∀ handler, bus.Reached json offset handler ↔ bus.SubscribedUnder e.type offset handler

/-- **When events go where they should.** Once the consumers have caught up, all events are routed
exactly if the same handlers were subscribed under their type and under the configured topic. -/
theorem routed_iff (json : Codec Event D) (config : KafkaConfig) (as : List (Action H))
    (hd : (run json config as).broker.Drained) : (run json config as).Routed json ↔
      ∀ offset e, (run json config as).published[offset]? = some e → ∀ handler,
        (run json config as).SubscribedUnder e.type offset handler ↔
          (run json config as).SubscribedUnder config.topic offset handler := by
  have hsound := sound_run json config as
  refine forall₃_congr (fun offset e he => forall_congr' (fun handler => ?_))
  rw [hsound.reached_iff hd he handler, config_run]
  exact Iff.comm

def ordersRun : List (Action ℕ) :=
  [.subscribe "orders" 0, .publish {} { type := "orders" }, .consume 0]

theorem ordersRun_routed :
    (run (Codec.plain Event) { topic := "orders" } ordersRun).broker.Drained ∧
      (run (Codec.plain Event) { topic := "orders" } ordersRun).Routed (Codec.plain Event) := by
  have hd : (run (Codec.plain Event) { topic := "orders" } ordersRun).broker.Drained := by decide
  refine ⟨hd, (routed_iff (Codec.plain Event) { topic := "orders" } ordersRun hd).mpr ?_⟩
  intro offset e he handler
  -- the only event has the configured topic as its type
  have htype : e.type = "orders" := by
    have hall : ∀ e ∈ (run (Codec.plain Event) { topic := "orders" } ordersRun).published,
        e.type = "orders" := by decide
    exact hall e (mem_of_getElem? he)
  rw [htype]

/-- The bus of a service that listens for activations and for everything on the shared topic,
after an activation was published. -/
def activationRun : List (Action ℕ) :=
  [.subscribe "workflow.activated" 0, .subscribe "linkflow-events" 1,
    .publish {} { type := "workflow.activated" }, .consume 0, .consume 1]

/-- The handler for activations is never called, and the one subscribed under another name
is. -/
theorem activationRun_misrouted :
    (run (Codec.plain Event) { topic := "linkflow-events" } activationRun).broker.Drained ∧
    (run (Codec.plain Event) { topic := "linkflow-events" } activationRun).calls (Codec.plain Event)
      = [⟨1, 0, { type := "workflow.activated", timestamp := some 0 }⟩] ∧
    ¬ (run (Codec.plain Event) { topic := "linkflow-events" } activationRun).Routed
        (Codec.plain Event) := by
  have hd : (run (Codec.plain Event) { topic := "linkflow-events" }
      activationRun).broker.Drained := by decide
  refine ⟨hd, rfl, fun hrouted => ?_⟩
  have hreached := (hrouted 0 { type := "workflow.activated", timestamp := some 0 } rfl 0).mpr
    ⟨⟨"workflow.activated", ⟨0, 0⟩, 0, 0⟩, by decide, rfl, rfl, le_rfl⟩
  obtain ⟨e, -, hcall⟩ := hreached
  have hcalls : (run (Codec.plain Event) { topic := "linkflow-events" } activationRun).calls
      (Codec.plain Event)
        = [⟨1, 0, { type := "workflow.activated", timestamp := some 0 }⟩] := rfl
  rw [hcalls, mem_singleton, Call.mk.injEq] at hcall
  exact absurd hcall.1 (by decide)

end Bus

end LinkFlow.Events
