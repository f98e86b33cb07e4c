import Codex.Lib.Text
import Codex.Lib.Run

/-!
# The tracker of remote clients

`remote_control/client_tracker.rs`: envelopes of remote clients open, use and close connections of
the app server, one for each pair of a client and a stream. The tracker is used by one task at a
time; beside it run the outbound task of each connection and the detached tasks that still have to
forward a close.

What the surroundings decide is an argument of each call: the time, new stream ids, and for each
event that is forwarded whether it is sent, fails or is cut off with its caller, and which detached
closes arrive before it.
-/

namespace Codex.RemoteControl

open Codex.Lib

/-! ### Envelopes and events -/

abbrev ClientId := Text

abbrev StreamId := Text

/-- `ConnectionId`, a number of 64 bits; the counter is taken not to wrap, which needs 2 ^ 64
connections. -/
abbrev ConnectionId := ℕ

/-- The keys of `ClientTracker::clients` -/
abbrev ClientKey := ClientId × StreamId

instance lawfulBEqJoin : LawfulBEq (ClientKey × ConnectionId) := inferInstance

/-- `JSONRPCMessage`; all but the method is text here -/
inductive JSONRPCMessage where
  | request (method rest : Text)
  | notification (rest : Text)
  | response (rest : Text)
  | error (rest : Text)
  deriving DecidableEq

inductive ClientEvent where
  | clientMessage (message : JSONRPCMessage)
  | clientMessageChunk (segmentId segmentCount messageSizeBytes : ℕ) (messageChunkBase64 : Text)
  | ack (segmentId : Option ℕ)
  | ping
  | clientClosed
  deriving DecidableEq

/-- `ClientEnvelope`, without the cursor -/
structure ClientEnvelope where
  event : ClientEvent
  clientId : ClientId
  streamId : Option StreamId
  seqId : Option ℕ
  deriving DecidableEq

/-- `TransportEvent`, without the channels and with the key and the sequence number of the
envelope that it comes from -/
inductive TransportEvent where
  | connectionOpened (connectionId : ConnectionId) (key : ClientKey)
  | incomingMessage (connectionId : ConnectionId) (message : JSONRPCMessage) (seqId : Option ℕ)
  | connectionClosed (connectionId : ConnectionId)

/-- The connection that an event is about. -/
def TransportEvent.connectionId : TransportEvent → ConnectionId
  | .connectionOpened connectionId _ => connectionId
  | .incomingMessage connectionId _ _ => connectionId
  | .connectionClosed connectionId => connectionId

/-- `remote_control_message_starts_connection` -/
def startsConnection : JSONRPCMessage → Bool
  | .request method _ => method = "initialize".toList
  | _ => false

/-! ### State -/

/-- `ClientState`, without the channels -/
structure ClientState where
  connectionId : ConnectionId
  lastActivityAt : ℕ
  lastInboundSeqId : Option ℕ
  deriving DecidableEq

/-- `ClientTracker`, with what it has sent. -/
structure ClientTracker where
  clients : ClientKey → Option ClientState
  legacyStreamIds : ClientId → Option StreamId
  /-- the outbound tasks that are not reported yet, each with the connection it was spawned for -/
  joinSet : List (ClientKey × ConnectionId)
  /-- `CONNECTION_ID_COUNTER`, which other transports use too -/
  nextConnectionId : ConnectionId
  /-- the events in the queue of the app server, in their order -/
  sent : List TransportEvent
  /-- the closes that detached tasks have not sent yet -/
  inFlight : List ConnectionId

/-- What becomes of an event that is forwarded: it is sent, the call gives up, or the caller is
aborted while it waits. -/
inductive SendOutcome where
  | sent
  | failed
  | aborted

/-- One event that is forwarded: the detached closes that arrive while it waits, and its end. -/
structure Sending where
  landed : List ConnectionId
  outcome : SendOutcome

/-- How a call ends: `Ok(())`, `Err(Stopped)`, or not at all. -/
inductive Ending where
  | done
  | stopped
  | aborted

namespace ClientTracker

def new (nextConnectionId : ConnectionId) : ClientTracker :=
  ⟨fun _ => none, fun _ => none, [], nextConnectionId, [], []⟩

/-- The `?` operator. -/
def andThen (result : ClientTracker × Ending) (rest : ClientTracker → ClientTracker × Ending) :
    ClientTracker × Ending :=
  match result with
  | (tracker, .done) => rest tracker
  | other => other

variable (tracker : ClientTracker)

/-- An event enters the queue of the app server. -/
def enqueue (event : TransportEvent) : ClientTracker :=
  { tracker with sent := tracker.sent ++ [event] }

variable (connectionId : ConnectionId)

/-- A detached close arrives. -/
def landOne : ClientTracker :=
  if connectionId ∈ tracker.inFlight then
    { tracker.enqueue (.connectionClosed connectionId) with
      inFlight := tracker.inFlight.erase connectionId }
  else tracker

/-- Detached closes arrive in this order. -/
def land (connectionIds : List ConnectionId) : ClientTracker :=
  connectionIds.foldl landOne tracker

/-- `send_transport_event` for the events that may time out -/
def sendTransportEvent (event : TransportEvent) (sending : Sending) : ClientTracker × Ending :=
  let tracker := tracker.land sending.landed
  match sending.outcome with
  | .sent => (tracker.enqueue event, .done)
  | .failed => (tracker, .stopped)
  | .aborted => (tracker, .aborted)

def spawnConnectionClosed : ClientTracker :=
  { tracker with inFlight := tracker.inFlight ++ [connectionId] }

def sendConnectionClosed (sending : Sending) : ClientTracker × Ending :=
  let tracker := (tracker.spawnConnectionClosed connectionId).land sending.landed
  match sending.outcome with
  | .sent => (tracker.landOne connectionId, .done)
  | .failed => (tracker, .stopped)
  | .aborted => (tracker, .aborted)

variable (key : ClientKey)

/-- `remove_client`, the tracker without the client -/
def removeClient : ClientTracker :=
  { tracker with
    clients := Function.update tracker.clients key none
    legacyStreamIds :=
      if tracker.legacyStreamIds key.1 = some key.2 then
        Function.update tracker.legacyStreamIds key.1 none
      else tracker.legacyStreamIds }

def closeClient (sending : Sending) : ClientTracker × Ending :=
  match tracker.clients key with
  | none => (tracker, .done)
  | some client => (tracker.removeClient key).sendConnectionClosed client.connectionId sending

def recordInboundMessageDelivery (seqId : Option ℕ) : ClientTracker :=
  match seqId, tracker.clients key with
  | some seqId, some client =>
    { tracker with
      clients := Function.update tracker.clients key
        (some { client with lastInboundSeqId := some seqId }) }
  | _, _ => tracker

/-- `last_activity_at = Instant::now()` -/
def touch (client : ClientState) (now : ℕ) : ClientTracker :=
  { tracker with
    clients := Function.update tracker.clients key (some { client with lastActivityAt := now }) }

/-! ### Messages -/

/-- What the surroundings decide while an envelope is handled. -/
structure Handling where
  now : ℕ
  randomStreamId : StreamId
  closing : Sending
  opening : Sending
  forwarding : Sending

variable (envelope : ClientEnvelope)

/-- `is_initialize` in `handle_message` -/
def isInitialize : Bool :=
  match envelope.event with
  | .clientMessage message => startsConnection message
  | _ => false

/-- `stream_id` in `handle_message` -/
def streamIdOf (randomStreamId : StreamId) : StreamId :=
  match envelope.streamId with
  | some streamId => streamId
  | none =>
    (tracker.legacyStreamIds envelope.clientId).getD
      (if isInitialize envelope || envelope.event = .ping then randomStreamId else [])

/-- `legacy_stream_ids.remove` in `handle_message` -/
def takeLegacyStreamId : ClientTracker :=
  if envelope.streamId.isNone && isInitialize envelope then
    { tracker with
      legacyStreamIds := Function.update tracker.legacyStreamIds envelope.clientId none }
  else tracker

/-- The check for messages that were forwarded before in `handle_message` -/
def isDuplicate (seqId : Option ℕ) : Bool :=
  seqId.any fun seqId =>
    (tracker.clients key).any fun client =>
      client.lastInboundSeqId.any fun lastSeqId => lastSeqId ≥ seqId

/-- The part of `handle_message` that forwards to a connection -/
def forwardMessage (client : ClientState)
    (message : JSONRPCMessage) (seqId : Option ℕ) (now : ℕ) (sending : Sending) :
    ClientTracker × Ending :=
  andThen ((tracker.touch key client now).sendTransportEvent
      (.incomingMessage client.connectionId message seqId) sending)
    fun tracker => (tracker.recordInboundMessageDelivery key seqId, .done)

variable (isLegacy : Bool)

/-- The insertions after `ConnectionOpened` in `handle_message` -/
def insertClient (connectionId : ConnectionId) (now : ℕ) : ClientTracker :=
  { tracker with
    joinSet := tracker.joinSet ++ [(key, connectionId)]
    clients := Function.update tracker.clients key (some ⟨connectionId, now, none⟩)
    legacyStreamIds :=
      if isLegacy then Function.update tracker.legacyStreamIds key.1 (some key.2)
      else tracker.legacyStreamIds }

/-- The part of `handle_message` that forwards the first message of a connection -/
def forwardFirstMessage (connectionId : ConnectionId) (message : JSONRPCMessage) (seqId : Option ℕ)
    (sending : Sending) : ClientTracker × Ending :=
  match tracker.sendTransportEvent (.incomingMessage connectionId message seqId) sending with
  | (tracker, .done) =>
    (if isLegacy then tracker else tracker.recordInboundMessageDelivery key seqId, .done)
  | (tracker, .stopped) =>
    match tracker.clients key with
    | some client =>
      ((tracker.removeClient key).spawnConnectionClosed client.connectionId, .stopped)
    | none => (tracker, .stopped)
  | (tracker, .aborted) => (tracker, .aborted)

/-- The part of `handle_message` that opens a connection -/
def openConnection
    (message : JSONRPCMessage) (seqId : Option ℕ) (handling : Handling) : ClientTracker × Ending :=
  let connectionId := tracker.nextConnectionId
  let tracker := { tracker with nextConnectionId := connectionId + 1 }
  andThen (tracker.sendTransportEvent (.connectionOpened connectionId key) handling.opening)
    fun tracker =>
      (tracker.insertClient key isLegacy connectionId handling.now).forwardFirstMessage key isLegacy
        connectionId message seqId handling.forwarding

/-- `ClientEvent::ClientMessage` in `handle_message` -/
def handleClientMessage (isLegacy isInitialize : Bool)
    (message : JSONRPCMessage) (seqId : Option ℕ) (handling : Handling) : ClientTracker × Ending :=
  if !isInitialize && tracker.isDuplicate key seqId then (tracker, .done)
  else
    andThen (if isInitialize && (tracker.clients key).isSome then
        tracker.closeClient key handling.closing
      else (tracker, .done)) fun tracker =>
        match tracker.clients key with
        | some client =>
          tracker.forwardMessage key client message seqId handling.now handling.forwarding
        | none =>
          if !isInitialize then (tracker, .done)
          else tracker.openConnection key isLegacy message seqId handling

/-- `handle_message`; the answers to pings are left out -/
def handleMessage (handling : Handling) : ClientTracker × Ending :=
  let streamId := tracker.streamIdOf envelope handling.randomStreamId
  let tracker := tracker.takeLegacyStreamId envelope
  let key := (envelope.clientId, streamId)
  if streamId = [] then (tracker, .done)
  else
    match envelope.event with
    | .clientMessage message =>
      tracker.handleClientMessage key envelope.streamId.isNone (isInitialize envelope) message
        envelope.seqId handling
    | .clientMessageChunk _ _ _ _ => (tracker, .done)
    | .ack _ => (tracker, .done)
    | .ping =>
      match tracker.clients key with
      | some client => (tracker.touch key client handling.now, .done)
      | none => (tracker, .done)
    | .clientClosed => tracker.closeClient key handling.closing

/-! ### Calls one after the other -/

/-- `REMOTE_CONTROL_CLIENT_IDLE_TIMEOUT`, in seconds -/
def idleTimeout : ℕ := 10 * 60

/-- The filter of `close_expired_clients` -/
def isExpired (now : ℕ) (key : ClientKey) : Bool :=
  (tracker.clients key).any fun client => !(now - client.lastActivityAt < idleTimeout)

/-- The loop of `close_expired_clients` -/
def closeClients (keys : List (ClientKey × Sending)) : ClientTracker × Ending :=
  keys.foldl (fun result (key, sending) =>
    andThen result fun tracker => tracker.closeClient key sending) (tracker, .done)

/-- `close_expired_clients`, with the keys of the map in the order of its iteration -/
def closeExpiredClients (now : ℕ) (keys : List (ClientKey × Sending)) : ClientTracker × Ending :=
  tracker.closeClients (keys.filter fun (key, _) => tracker.isExpired now key)

/-- A call, or something that happens beside the tracker. -/
inductive Action where
  /-- `handle_message` -/
  | handle (envelope : ClientEnvelope) (handling : Handling)
  /-- the sweep of the websocket reader -/
  | sweep (now : ℕ) (keys : List (ClientKey × Sending))
  /-- `bookkeep_join_set` reports a task and the websocket reader closes its key -/
  | completion (task : ClientKey × ConnectionId) (sending : Sending)
  /-- detached closes arrive -/
  | land (connectionIds : List ConnectionId)
  /-- another transport takes a connection id -/
  | otherConnection

/-- What an action does; the completion of a task that is not in the join set is none. -/
def step : Action → ClientTracker
  | .handle envelope handling => (tracker.handleMessage envelope handling).1
  | .sweep now keys => (tracker.closeExpiredClients now keys).1
  | .completion task sending =>
    if task ∈ tracker.joinSet then
      (({ tracker with joinSet := tracker.joinSet.erase task } : ClientTracker).closeClient task.1
        sending).1
    else tracker
  | .land connectionIds => tracker.land connectionIds
  | .otherConnection => { tracker with nextConnectionId := tracker.nextConnectionId + 1 }

/-- What a run of actions leads to. -/
def run (actions : List Action) : ClientTracker := actions.foldl step tracker

/-! ### What forwarding leaves alone -/

section frame

variable (tracker : ClientTracker) (connectionId : ConnectionId) (connectionIds : List ConnectionId)
  (event : TransportEvent) (sending : Sending)

@[simp] lemma clients_landOne : (tracker.landOne connectionId).clients = tracker.clients := by
  unfold landOne
  split <;> rfl

@[simp] lemma joinSet_landOne : (tracker.landOne connectionId).joinSet = tracker.joinSet := by
  unfold landOne
  split <;> rfl

@[simp] lemma clients_land : (tracker.land connectionIds).clients = tracker.clients := by
  unfold land
  induction connectionIds generalizing tracker with
  | nil => rfl
  | cons first rest ih => rw [List.foldl_cons, ih, clients_landOne]

@[simp] lemma joinSet_land : (tracker.land connectionIds).joinSet = tracker.joinSet := by
  unfold land
  induction connectionIds generalizing tracker with
  | nil => rfl
  | cons first rest ih => rw [List.foldl_cons, ih, joinSet_landOne]

@[simp] lemma clients_sendTransportEvent :
    (tracker.sendTransportEvent event sending).1.clients = tracker.clients := by
  unfold sendTransportEvent
  cases sending.outcome <;> simp [enqueue]

@[simp] lemma joinSet_sendTransportEvent :
    (tracker.sendTransportEvent event sending).1.joinSet = tracker.joinSet := by
  unfold sendTransportEvent
  cases sending.outcome <;> simp [enqueue]

@[simp] lemma clients_sendConnectionClosed :
    (tracker.sendConnectionClosed connectionId sending).1.clients = tracker.clients := by
  unfold sendConnectionClosed
  cases sending.outcome <;> simp [spawnConnectionClosed]

@[simp] lemma joinSet_sendConnectionClosed :
    (tracker.sendConnectionClosed connectionId sending).1.joinSet = tracker.joinSet := by
  unfold sendConnectionClosed
  cases sending.outcome <;> simp [spawnConnectionClosed]

lemma clients_closeClient (key : ClientKey) :
    (tracker.closeClient key sending).1.clients = Function.update tracker.clients key none := by
  unfold closeClient
  cases hclient : tracker.clients key with
  | none =>
    have hself : Function.update tracker.clients key none = tracker.clients := by
      rw [← hclient, Function.update_eq_self]
    exact hself.symm
  | some client =>
    simp only [clients_sendConnectionClosed]
    rfl

end frame

/-- The close of the connection is sent or on its way. -/
def Closing (tracker : ClientTracker) (connectionId : ConnectionId) : Prop :=
  connectionId ∈ tracker.inFlight ∨ .connectionClosed connectionId ∈ tracker.sent

variable (tracker : ClientTracker)

lemma closing_landOne (connectionId other : ConnectionId) :
    (tracker.landOne connectionId).Closing other ↔ tracker.Closing other := by
  unfold landOne
  split
  · rename_i hmem
    simp only [Closing, enqueue, List.mem_append, List.mem_singleton,
      TransportEvent.connectionClosed.injEq]
    by_cases hother : other = connectionId
    · subst hother
      simp [hmem]
    · rw [List.mem_erase_of_ne hother]
      simp [hother]
  · rfl

lemma closing_land (connectionIds : List ConnectionId) (other : ConnectionId) :
    (tracker.land connectionIds).Closing other ↔ tracker.Closing other := by
  unfold land
  induction connectionIds generalizing tracker with
  | nil => rfl
  | cons first rest ih => rw [List.foldl_cons, ih, closing_landOne]

lemma closing_sendConnectionClosed (connectionId : ConnectionId) (sending : Sending)
    (other : ConnectionId) :
    (tracker.sendConnectionClosed connectionId sending).1.Closing other ↔
      tracker.Closing other ∨ other = connectionId := by
  have hspawn : ((tracker.spawnConnectionClosed connectionId).land sending.landed).Closing other ↔
      tracker.Closing other ∨ other = connectionId := by
    rw [closing_land]
    simp only [Closing, spawnConnectionClosed, List.mem_append, List.mem_singleton]
    tauto
  unfold sendConnectionClosed
  cases sending.outcome with
  | sent => exact (closing_landOne _ _ _).trans hspawn
  | failed => exact hspawn
  | aborted => exact hspawn

/-- What an early return leaves open: the rest may not have run. -/
theorem andThen_of {P : ClientTracker → Prop} {result : ClientTracker × Ending}
    {rest : ClientTracker → ClientTracker × Ending} (hresult : P result.1)
    (hrest : ∀ tracker, result = (tracker, .done) → P (rest tracker).1) :
    P (andThen result rest).1 := by
  obtain ⟨tracker, ending⟩ := result
  cases ending with
  | done => exact hrest tracker rfl
  | stopped => exact hresult
  | aborted => exact hresult

end ClientTracker

end Codex.RemoteControl
