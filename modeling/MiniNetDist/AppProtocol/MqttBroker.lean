import MiniNetDist.AppProtocol.Mqtt
import MiniNetDist.AppProtocol.MqttTopic
import MiniNetDist.Library.Run
import Mathlib.Data.List.Perm.Subperm

/-! The broker of `mini-app-protocol/src/mqtt.c`. A connect adds a record at the end of the table, and the other
operations change the first record with the id they name, so a client that comes back is never heard again. -/

namespace MiniNetDist.AppProtocol.Mqtt

open Library

def MQTT_MAX_SUBS_PER_CLIENT : Nat := 32
def MQTT_MAX_CLIENTS : Nat := 64

abbrev ClientId := CharArray MQTT_MAX_CLIENT_ID

structure MQTTTopic where
  name : CharArray MQTT_MAX_TOPIC
  qos : UInt8
  deriving DecidableEq, Repr

structure MQTTClient where
  clientId : ClientId
  subscriptions : List MQTTTopic
  connected : Bool
  fits : subscriptions.length ≤ MQTT_MAX_SUBS_PER_CLIENT
  deriving DecidableEq, Repr

@[ext] structure MQTTBroker where
  clients : List MQTTClient
  fits : clients.length ≤ MQTT_MAX_CLIENTS
  deriving DecidableEq, Repr

section Operations

def mqttBrokerInit : MQTTBroker := ⟨[], Nat.zero_le _⟩

def mqttBrokerConnect (broker : MQTTBroker) (clientId : CString) : Except Int MQTTBroker :=
  if room : broker.clients.length < MQTT_MAX_CLIENTS then
    .ok
      { clients := broker.clients ++ [⟨.store MQTT_MAX_CLIENT_ID clientId, [], true, Nat.zero_le _⟩]
        fits := List.length_append.trans_le room }
  else .error (-2)

/-- Change the first record with the id. -/
def MQTTBroker.update (broker : MQTTBroker) (clientId : CString) (change : MQTTClient → MQTTClient) : MQTTBroker :=
  ⟨Table.update (·.clientId.text) broker.clients clientId change, Table.length_update.trans_le broker.fits⟩

/-- The first record with the id. -/
def MQTTBroker.find (broker : MQTTBroker) (clientId : CString) : Option MQTTClient :=
  Table.find (·.clientId.text) broker.clients clientId

def mqttBrokerDisconnect (broker : MQTTBroker) (clientId : CString) : MQTTBroker :=
  broker.update clientId fun client => { client with connected := false }

/-- The loop over the topics, which breaks off when the record is full. -/
def MQTTClient.subscribe (client : MQTTClient) : List MQTTTopic → MQTTClient
  | [] => client
  | topic :: topics =>
    if room : client.subscriptions.length < MQTT_MAX_SUBS_PER_CLIENT then
      MQTTClient.subscribe
        { client with
          subscriptions := client.subscriptions ++ [topic]
          fits := List.length_append.trans_le room } topics
    else client

def mqttBrokerSubscribe (broker : MQTTBroker) (clientId : CString)
    (topics : List MQTTTopic) : Except Int MQTTBroker :=
  match broker.find clientId with
  | some _ => .ok (broker.update clientId (·.subscribe topics))
  | none => .error (-2)

/-- The record is connected and one of its subscriptions matches. -/
def MQTTClient.receives (client : MQTTClient) (topic : CString) : Bool :=
  client.connected && client.subscriptions.any fun subscription => mqttTopicMatch subscription.name.text topic

/-- The loop over the records, until the targets are full. -/
def targetClients (topic : CString) : List MQTTClient → Nat → List ClientId
  | [], _ => []
  | _ :: _, 0 => []
  | client :: clients, slots + 1 =>
    if client.receives topic then client.clientId :: targetClients topic clients slots
    else targetClients topic clients (slots + 1)

def mqttBrokerHandlePublish (broker : MQTTBroker) (pub : MQTTPublish) (maxTargets : Nat) : List ClientId :=
  targetClients pub.topic.text broker.clients maxTargets

end Operations

section Runs

inductive BrokerCall where
  | connect (id : ClientId)
  | disconnect (id : ClientId)
  | subscribe (id : ClientId) (topics : List MQTTTopic)

/-- A call that fails leaves the broker as it is. -/
def MQTTBroker.call (broker : MQTTBroker) : BrokerCall → MQTTBroker
  | .connect id => (mqttBrokerConnect broker id.text).toOption.getD broker
  | .disconnect id => mqttBrokerDisconnect broker id.text
  | .subscribe id topics => (mqttBrokerSubscribe broker id.text topics).toOption.getD broker

/-- The table has room for the client, and its record for the topics. -/
def WithinCapacity (broker : MQTTBroker) : BrokerCall → Prop
  | .connect _ => broker.clients.length < MQTT_MAX_CLIENTS
  | .disconnect _ => True
  | .subscribe id topics =>
    ∀ client ∈ broker.find id.text, client.subscriptions.length + topics.length ≤ MQTT_MAX_SUBS_PER_CLIENT

/-- A client connects that has no record yet, or one that is as good as new. -/
def FreshConnect (broker : MQTTBroker) : BrokerCall → Prop
  | .connect id => ∀ client ∈ broker.find id.text, client.connected = true ∧ client.subscriptions = []
  | _ => True

instance (broker : MQTTBroker) : (call : BrokerCall) → Decidable (WithinCapacity broker call)
  | .connect _ => inferInstanceAs (Decidable (_ < _))
  | .disconnect _ => .isTrue trivial
  | .subscribe id _ => inferInstanceAs (Decidable (∀ client ∈ broker.find id.text, _ ≤ _))

instance (broker : MQTTBroker) : (call : BrokerCall) → Decidable (FreshConnect broker call)
  | .connect id => inferInstanceAs (Decidable (∀ client ∈ broker.find id.text, _ ∧ _))
  | .disconnect _ => .isTrue trivial
  | .subscribe _ _ => .isTrue trivial

/-- What a client may expect: whether it is connected, and what it has subscribed to since its last connect. -/
structure Session where
  connected : Bool
  filters : List MQTTTopic

def Session.call (id : ClientId) (session : Session) : BrokerCall → Session
  | .connect other => if other = id then ⟨true, []⟩ else session
  | .disconnect other => if other = id then { session with connected := false } else session
  | .subscribe other topics => if other = id then { session with filters := session.filters ++ topics } else session

def session (calls : List BrokerCall) (id : ClientId) : Session := calls.foldl (Session.call id) ⟨false, []⟩

/-- The client is connected and has subscribed, since its last connect, to a filter that matches. -/
def Due (calls : List BrokerCall) (topic : CString) (id : ClientId) : Prop :=
  (session calls id).connected = true ∧
    ∃ filter ∈ (session calls id).filters, mqttTopicMatch filter.name.text topic = true

end Runs

section Delivery

variable {broker : MQTTBroker} {topic : CString} {calls : List BrokerCall}

/-- Only the subscriptions of the record change. -/
theorem subscribe_frame (client : MQTTClient) (topics : List MQTTTopic) :
    (client.subscribe topics).clientId = client.clientId ∧
      (client.subscribe topics).connected = client.connected := by
  induction topics generalizing client with
  | nil => exact ⟨rfl, rfl⟩
  | cons topic topics ih =>
    rw [MQTTClient.subscribe]
    split_ifs
    · exact ih _
    · exact ⟨rfl, rfl⟩

/-- A record with room takes all the topics. -/
theorem subscribe_fits (client : MQTTClient) (topics : List MQTTTopic)
    (room : client.subscriptions.length + topics.length ≤ MQTT_MAX_SUBS_PER_CLIENT) :
    (client.subscribe topics).subscriptions = client.subscriptions ++ topics := by
  induction topics generalizing client with
  | nil => exact (List.append_nil _).symm
  | cons topic topics ih =>
    rw [List.length_cons] at room
    have next : client.subscriptions.length < MQTT_MAX_SUBS_PER_CLIENT := by omega
    rw [MQTTClient.subscribe, dif_pos next, ih, List.append_assoc, List.singleton_append]
    rw [List.length_append, List.length_singleton]
    omega

/-- The slots only cut the list of the records that receive the message. -/
theorem targetClients_eq (topic : CString) (clients : List MQTTClient) (slots : Nat) :
    targetClients topic clients slots = ((clients.filter (·.receives topic)).map (·.clientId)).take slots := by
  fun_induction targetClients topic clients slots with
  | case1 => exact List.take_nil.symm
  | case2 => rfl
  | case3 client clients slots received ih =>
    rw [List.filter_cons, if_pos received, List.map_cons, List.take_succ_cons, ih]
  | case4 client clients slots missed ih => rw [List.filter_cons, if_neg missed, ih]

theorem session_call (calls : List BrokerCall) (call : BrokerCall) (id : ClientId) :
    session (calls ++ [call]) id = (session calls id).call id call := List.foldl_concat ..

/-- The first record of each id follows the client's session, and later ones with that id are not used. -/
structure Follows (calls : List BrokerCall) (broker : MQTTBroker) : Prop where
  absent (id : ClientId) : broker.find id.text = none → (session calls id).connected = false
  first (id : ClientId) (client : MQTTClient) : broker.find id.text = some client →
    client.connected = (session calls id).connected ∧ client.subscriptions = (session calls id).filters
  unused : broker.clients.Pairwise fun client later => later.clientId = client.clientId → later.subscriptions = []

theorem follows_init : Follows [] mqttBrokerInit where
  absent _ _ := rfl
  first _ _ found := absurd found (Option.some_ne_none _).symm
  unused := .nil

/-- A record is added whose client starts a new session. -/
theorem follows_connect (held : Follows calls broker) {id : ClientId} (within : WithinCapacity broker (.connect id))
    (fresh : FreshConnect broker (.connect id)) : Follows (calls ++ [.connect id]) (broker.call (.connect id)) := by
  have added : broker.call (.connect id) = ⟨broker.clients ++ [⟨id, [], true, Nat.zero_le _⟩],
      List.length_append.trans_le within⟩ := by
    have room : broker.clients.length < MQTT_MAX_CLIENTS := within
    simp only [MQTTBroker.call, mqttBrokerConnect, dif_pos room, CharArray.store_text]
    rfl
  have found (other : ClientId) : (broker.call (.connect id)).find other.text =
      (broker.find other.text).or (if id.text = other.text then some ⟨id, [], true, Nat.zero_le _⟩ else none) := by
    rw [added]
    exact Table.find_append
  constructor
  · intro other missing
    rw [found, Option.or_eq_none_iff] at missing
    have different : id ≠ other := by
      rintro rfl
      rw [if_pos rfl] at missing
      exact absurd missing.2 (Option.some_ne_none _)
    rw [session_call, Session.call, if_neg different]
    exact held.absent other missing.1
  · intro other client here
    rw [found] at here
    rw [session_call, Session.call]
    cases old : broker.find other.text with
    | some record =>
      rw [old, Option.some_or] at here
      obtain rfl := Option.some.inj here
      split_ifs with same
      · exact fresh record (same ▸ old)
      · exact held.first other record old
    | none =>
      rw [old, Option.none_or] at here
      split_ifs at here with same
      obtain rfl := Option.some.inj here
      rw [if_pos (CharArray.ext_text same)]
      exact ⟨rfl, rfl⟩
  · rw [added]
    refine List.pairwise_append.mpr ⟨held.unused, List.pairwise_singleton _ _, ?_⟩
    intro client _ later last _
    rw [List.mem_singleton.mp last]

/-- The first record of an id is changed as the session of the client is. -/
theorem follows_update (held : Follows calls broker) {id : ClientId} {change : MQTTClient → MQTTClient}
    {call : BrokerCall} (keeps : ∀ client, (change client).clientId = client.clientId)
    (others : ∀ other, other ≠ id → session (calls ++ [call]) other = session calls other)
    (away : (session calls id).connected = false → (session (calls ++ [call]) id).connected = false)
    (same : ∀ client, broker.find id.text = some client →
      (change client).connected = (session (calls ++ [call]) id).connected ∧
        (change client).subscriptions = (session (calls ++ [call]) id).filters) :
    Follows (calls ++ [call]) (broker.update id.text change) := by
  have found (other : ClientId) : (broker.update id.text change).find other.text =
      if other.text = id.text then (broker.find id.text).map change else broker.find other.text :=
    Table.find_update fun client => congrArg CharArray.text (keeps client)
  constructor
  · intro other missing
    rw [found] at missing
    split_ifs at missing with named
    · obtain rfl := CharArray.ext_text named
      exact away (held.absent other (Option.map_eq_none_iff.mp missing))
    · rw [others other fun equal => named (congrArg _ equal)]
      exact held.absent other missing
  · intro other client here
    rw [found] at here
    split_ifs at here with named
    · obtain rfl := CharArray.ext_text named
      obtain ⟨record, old, rfl⟩ := Option.map_eq_some_iff.mp here
      exact same record old
    · rw [others other fun equal => named (congrArg _ equal)]
      exact held.first other client here
  · cases old : broker.find id.text with
    | none =>
      have unchanged : (broker.update id.text change).clients = broker.clients := Table.update_absent old
      rw [unchanged]
      exact held.unused
    | some record =>
      obtain ⟨earlier, later, split, named, distinct, changed⟩ := Table.split_of_find old
      have pairs := held.unused
      have here : (broker.update id.text change).clients = earlier ++ change record :: later := changed change
      rw [split, List.pairwise_append, List.pairwise_cons] at pairs
      obtain ⟨before, ⟨own, behind⟩, across⟩ := pairs
      rw [here, List.pairwise_append, List.pairwise_cons, keeps]
      refine ⟨before, ⟨own, behind⟩, ?_⟩
      intro client front other inside
      rcases List.mem_cons.mp inside with rfl | further
      · intro equal
        rw [keeps] at equal
        exact absurd ((congrArg CharArray.text equal).symm.trans named) (distinct client front)
      · exact across client front other (List.mem_cons_of_mem _ further)

theorem follows_call (held : Follows calls broker) (call : BrokerCall) (within : WithinCapacity broker call)
    (fresh : FreshConnect broker call) : Follows (calls ++ [call]) (broker.call call) := by
  cases call with
  | connect id => exact follows_connect held within fresh
  | disconnect id =>
    have here : session (calls ++ [.disconnect id]) id = { session calls id with connected := false } := by
      rw [session_call, Session.call, if_pos rfl]
    refine follows_update held (fun _ => rfl) ?_ (fun _ => by rw [here]) ?_
    · intro other different
      rw [session_call, Session.call, if_neg different.symm]
    · intro client found
      rw [here]
      exact ⟨rfl, (held.first id client found).2⟩
  | subscribe id topics =>
    have here : session (calls ++ [.subscribe id topics]) id =
        { session calls id with filters := (session calls id).filters ++ topics } := by
      rw [session_call, Session.call, if_pos rfl]
    have updated : broker.call (.subscribe id topics) = broker.update id.text (·.subscribe topics) := by
      simp only [MQTTBroker.call, mqttBrokerSubscribe]
      cases found : broker.find id.text with
      | none => exact MQTTBroker.ext (Table.update_absent found).symm
      | some client => rfl
    rw [updated]
    refine follows_update held (fun client => (subscribe_frame client topics).1) ?_ (fun away => by rw [here]; exact away) ?_
    · intro other different
      rw [session_call, Session.call, if_neg different.symm]
    · intro client found
      obtain ⟨connected, subscribed⟩ := held.first id client found
      rw [here, (subscribe_frame client topics).2, subscribe_fits client topics (within client found), subscribed]
      exact ⟨connected, rfl⟩

/-- The invariant holds along every run in which only new clients connect. -/
theorem follows_run {later : List BrokerCall} (held : Follows calls broker)
    (within : Permitted MQTTBroker.call WithinCapacity broker later)
    (fresh : Permitted MQTTBroker.call FreshConnect broker later) :
    Follows (calls ++ later) (later.foldl MQTTBroker.call broker) := by
  induction later generalizing calls broker with
  | nil => rw [List.append_nil]; exact held
  | cons call later ih =>
    have next := ih (follows_call held call within.1 fresh.1) within.2 fresh.2
    rwa [List.append_assoc, List.singleton_append] at next

/-- Only the first record of an id can receive a message. -/
theorem receives_find (held : Follows calls broker) {client : MQTTClient} (inside : client ∈ broker.clients)
    (received : client.receives topic = true) : broker.find client.clientId.text = some client := by
  cases found : broker.find client.clientId.text with
  | none =>
    have missing := List.find?_eq_none.mp found client inside
    simp at missing
  | some record =>
    obtain ⟨earlier, later, split, named, distinct, -⟩ := Table.split_of_find found
    rw [split] at inside
    rcases List.mem_append.mp inside with before | here
    · exact absurd rfl (distinct client before)
    rcases List.mem_cons.mp here with same | behind
    · rw [same]
    have pairs := held.unused
    rw [split, List.pairwise_append, List.pairwise_cons] at pairs
    have empty := pairs.2.1.1 client behind (CharArray.ext_text named.symm)
    rw [MQTTClient.receives, empty, List.any_nil, Bool.and_false] at received
    exact absurd received Bool.false_ne_true

/-- The records that receive a message are those of the clients it is due to. -/
theorem mem_receivers_iff (held : Follows calls broker) (id : ClientId) :
    id ∈ (broker.clients.filter (·.receives topic)).map (·.clientId) ↔ Due calls topic id := by
  have due (client : MQTTClient) (found : broker.find id.text = some client) :
      client.receives topic = true ↔ Due calls topic id := by
    obtain ⟨connected, subscribed⟩ := held.first id client found
    rw [MQTTClient.receives, Bool.and_eq_true, List.any_eq_true, connected, subscribed]
    rfl
  rw [List.mem_map]
  constructor
  · rintro ⟨client, inside, rfl⟩
    obtain ⟨inside, received⟩ := List.mem_filter.mp inside
    exact (due client (receives_find held inside received)).mp received
  · intro expected
    cases found : broker.find id.text with
    | none => exact absurd expected.1 (by rw [held.absent id found]; exact Bool.false_ne_true)
    | some client =>
      have inside := Table.mem_of_find found
      have stored : Table.find (·.clientId.text) broker.clients id.text = some client := found
      have named := Table.key_of_find stored
      exact ⟨client, List.mem_filter.mpr ⟨inside, (due client found).mpr expected⟩, CharArray.ext_text named⟩

theorem nodup_receivers (held : Follows calls broker) :
    ((broker.clients.filter (·.receives topic)).map (·.clientId)).Nodup := by
  rw [List.Nodup, List.pairwise_map, List.pairwise_filter]
  refine held.unused.imp ?_
  intro client later unused _ received same
  rw [MQTTClient.receives, unused same.symm, List.any_nil, Bool.and_false] at received
  exact Bool.false_ne_true received

/-- A message goes once to each client it is due to, and to no other, as long as no client comes back. -/
theorem mqtt_broker_delivery (calls : List BrokerCall)
    (within : Permitted MQTTBroker.call WithinCapacity mqttBrokerInit calls)
    (fresh : Permitted MQTTBroker.call FreshConnect mqttBrokerInit calls) (pub : MQTTPublish) (maxTargets : Nat)
    (slots : ∀ ids : List ClientId, ids.Nodup → (∀ id ∈ ids, Due calls pub.topic.text id) → ids.length ≤ maxTargets) :
    (mqttBrokerHandlePublish (calls.foldl MQTTBroker.call mqttBrokerInit) pub maxTargets).Nodup ∧
      ∀ id, id ∈ mqttBrokerHandlePublish (calls.foldl MQTTBroker.call mqttBrokerInit) pub maxTargets ↔
        Due calls pub.topic.text id := by
  have held := follows_run follows_init within fresh
  rw [List.nil_append] at held
  have enough := slots _ (nodup_receivers held) fun id inside => (mem_receivers_iff held id).mp inside
  rw [mqttBrokerHandlePublish, targetClients_eq, List.take_of_length_le enough]
  exact ⟨nodup_receivers held, mem_receivers_iff held⟩

/-- The clients of the repository's own test, and their subscriptions to `h/+/t` and `h/#`. -/
def sensorOne : ClientId := .store MQTT_MAX_CLIENT_ID [115, 49]
def sensorTwo : ClientId := .store MQTT_MAX_CLIENT_ID [115, 50]
def topicSingle : MQTTTopic := ⟨.store MQTT_MAX_TOPIC [104, 47, 43, 47, 116], 1⟩
def topicFinal : MQTTTopic := ⟨.store MQTT_MAX_TOPIC [104, 47, 35], 1⟩
def heatReading : MQTTPublish := ⟨0#16, .store MQTT_MAX_TOPIC [104, 47, 107, 47, 116], [50, 50], 0, false, false⟩

def sensorCalls : List BrokerCall :=
  [.connect sensorOne, .connect sensorTwo, .subscribe sensorOne [topicSingle], .subscribe sensorTwo [topicFinal]]

theorem mqtt_broker_delivery_test :
    (mqttBrokerHandlePublish (sensorCalls.foldl MQTTBroker.call mqttBrokerInit) heatReading 16).Nodup ∧
      ∀ id, id ∈ mqttBrokerHandlePublish (sensorCalls.foldl MQTTBroker.call mqttBrokerInit) heatReading 16 ↔
        Due sensorCalls heatReading.topic.text id := by
  refine mqtt_broker_delivery sensorCalls (by decide) (by decide) heatReading 16 ?_
  intro ids distinct due
  have known : ids ⊆ [sensorOne, sensorTwo] := by
    intro id inside
    by_contra unknown
    have first : ¬ sensorOne = id := fun same => unknown (same ▸ by decide)
    have second : ¬ sensorTwo = id := fun same => unknown (same ▸ by decide)
    have idle : session sensorCalls id = ⟨false, []⟩ := by
      simp [session, sensorCalls, Session.call, first, second]
    have connected := (due id inside).1
    rw [idle] at connected
    exact absurd connected Bool.false_ne_true
  exact (List.subperm_of_subset distinct known).length_le.trans (by decide)

/-- A client that comes back subscribes through its old record, which is disconnected. -/
def returningCalls : List BrokerCall :=
  [.connect sensorOne, .disconnect sensorOne, .connect sensorOne, .subscribe sensorOne [topicSingle]]

theorem returning_client_missed :
    Permitted MQTTBroker.call WithinCapacity mqttBrokerInit returningCalls ∧
      Due returningCalls heatReading.topic.text sensorOne ∧
      mqttBrokerHandlePublish (returningCalls.foldl MQTTBroker.call mqttBrokerInit) heatReading 16 = [] :=
  ⟨by decide, ⟨by decide, topicSingle, by decide, by decide⟩, by decide⟩

end Delivery

end MiniNetDist.AppProtocol.Mqtt
