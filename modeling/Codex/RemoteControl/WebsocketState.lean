import Codex.RemoteControl.Reassembly
import Codex.RemoteControl.ServerSegments

/-!
# The websocket of the remote control

`remote_control/websocket.rs`: a reader and a writer share the tracker of the clients and the state
that outlives a connection. The writer numbers the envelopes of each stream and keeps them in the
outbound buffer until they are acknowledged; the reader takes the envelopes of the clients.

The log is not in the code: it holds what was handed to the websocket and what was acknowledged, in
the order of the steps. The subscription cursor and the pings are left out.
-/

namespace Codex.RemoteControl

open Codex.Lib

/-! ### The outbound buffer -/

/-- `attempt to subtract with overflow` -/
inductive Panic where
  | subtractWithOverflow

/-- `usize::MAX` -/
def usizeMax : ℕ := 2 ^ 64 - 1

/-- `u64::MAX` -/
def u64Max : ℕ := 2 ^ 64 - 1

def channelCapacity : ℕ := 128

/-- `envelope_cursor` in `BoundedOutboundBuffer::ack` -/
def ServerEnvelope.cursor (envelope : ServerEnvelope) : ℕ ×ₗ ℕ :=
  toLex (envelope.seqId, envelope.segment)

/-- `BoundedOutboundBuffer`, with the value of its watch channel -/
structure BoundedOutboundBuffer where
  bufferByStream : AList fun _ : ClientKey => List ServerEnvelope
  used : ℕ

namespace BoundedOutboundBuffer

def new : BoundedOutboundBuffer := ⟨∅, 0⟩

variable (outbound : BoundedOutboundBuffer)

/-- The envelopes of a stream. -/
def buffer (key : ClientKey) : List ServerEnvelope :=
  (outbound.bufferByStream.lookup key).getD []

def insert (outbound : BoundedOutboundBuffer) (envelope : ServerEnvelope) :
    BoundedOutboundBuffer where
  bufferByStream :=
    outbound.bufferByStream.insert envelope.key (outbound.buffer envelope.key ++ [envelope])
  used := outbound.used + 1

/-- The `retain` in `ack`, with the counter -/
def retain (ackedCursor : ℕ ×ₗ ℕ) :
    List ServerEnvelope → ℕ → Except Panic (List ServerEnvelope × ℕ)
  | [], used => .ok ([], used)
  | envelope :: rest, used =>
    if envelope.cursor ≤ ackedCursor then
      match used with
      | 0 => .error .subtractWithOverflow
      | used + 1 => retain ackedCursor rest used
    else do
      let (kept, used) ← retain ackedCursor rest used
      return (envelope :: kept, used)

def ack (key : ClientKey) (ackedSeqId : ℕ)
    (ackedSegmentId : Option ℕ) : Except Panic BoundedOutboundBuffer :=
  match outbound.bufferByStream.lookup key with
  | none => .ok outbound
  | some buffer => do
      let ackedCursor := toLex (ackedSeqId, ackedSegmentId.getD usizeMax)
      let (buffer, used) ← retain ackedCursor buffer outbound.used
      if buffer = [] then return ⟨outbound.bufferByStream.erase key, used⟩
      else return ⟨outbound.bufferByStream.insert key buffer, used⟩

/-- `server_envelopes`, with the keys in the order in which the map is iterated -/
def serverEnvelopes (keys : List ClientKey) : List ServerEnvelope :=
  keys.flatMap outbound.buffer

end BoundedOutboundBuffer

/-! ### The state -/

structure WebsocketState where
  outboundBuffer : BoundedOutboundBuffer
  nextSeqIdByStream : ClientKey → Option ℕ
  lastCompletedClientChunkSeqIdByStream : ClientId × Option StreamId → Option ℕ
  clientSegmentReassembler : ClientSegmentReassembler

/-- `QueuedServerEnvelope`, without the channel -/
structure QueuedServerEnvelope where
  event : ServerEvent
  clientId : ClientId
  streamId : StreamId

/-- The client and the stream of an event. -/
def QueuedServerEnvelope.key (queued : QueuedServerEnvelope) : ClientKey :=
  (queued.clientId, queued.streamId)

namespace WebsocketState

/-- `RemoteControlWebsocket::new`, the state -/
def new : WebsocketState := ⟨.new, fun _ => none, fun _ => none, .new⟩

def clientMessageKey (envelope : ClientEnvelope) : Option ((ClientId × Option StreamId) × ℕ) :=
  match envelope.event, envelope.seqId with
  | .clientMessageChunk _ _ _ _, some seqId => some ((envelope.clientId, envelope.streamId), seqId)
  | _, _ => none

variable (state : WebsocketState) (envelope : ClientEnvelope)

/-- The check for completed messages in `observe_client_message` -/
def isCompleted : Bool :=
  (clientMessageKey envelope).any fun (key, seqId) =>
    (state.lastCompletedClientChunkSeqIdByStream key).any (· ≥ seqId)

/-- The check with `should_ignore_chunk` in `observe_client_message` -/
def isIgnored : Bool :=
  match envelope.event, envelope.seqId, envelope.streamId with
  | .clientMessageChunk segmentId _ _ _, some seqId, some streamId =>
    state.clientSegmentReassembler.shouldIgnoreChunk envelope.clientId streamId seqId segmentId
  | _, _, _ => false

def observeClientMessage (codec : Codec) (envelope : ClientEnvelope)
    (wireSizeBytes now : ℕ) (rank : ClientId → ℕ) : ClientSegmentObservation × WebsocketState :=
  if state.isCompleted envelope || state.isIgnored envelope then (.dropped, state)
  else if (clientMessageKey envelope).isSome && wireSizeBytes > segmentMaxBytes then
    match envelope.streamId with
    | some streamId =>
      (.dropped,
        { state with
          clientSegmentReassembler :=
            state.clientSegmentReassembler.invalidateStream envelope.clientId streamId })
    | none => (.dropped, state)
  else
    let (observation, reassembler) := state.clientSegmentReassembler.observe codec envelope now rank
    (observation, { state with clientSegmentReassembler := reassembler })

/-- `record_client_message_delivery`, the acknowledgement -/
def recordAck : Except Panic BoundedOutboundBuffer :=
  match envelope.event, envelope.seqId, envelope.streamId with
  | .ack segmentId, some ackedSeqId, some streamId =>
    state.outboundBuffer.ack (envelope.clientId, streamId) ackedSeqId segmentId
  | _, _, _ => .ok state.outboundBuffer

/-- `record_client_message_delivery`, without the cursor -/
def recordClientMessageDelivery (clientMessageKey : Option ((ClientId × Option StreamId) × ℕ)) :
    Except Panic WebsocketState := do
  let outbound ← state.recordAck envelope
  return { state with
    lastCompletedClientChunkSeqIdByStream :=
      match clientMessageKey with
      | some (key, seqId) =>
        Function.update state.lastCompletedClientChunkSeqIdByStream key (some seqId)
      | none => state.lastCompletedClientChunkSeqIdByStream
    outboundBuffer := outbound }

/-- The two invalidations of a stream in `run_websocket_reader_inner` -/
def invalidateStream (state : WebsocketState) (key : ClientKey) : WebsocketState :=
  { state with
    clientSegmentReassembler := state.clientSegmentReassembler.invalidateStream key.1 key.2
    lastCompletedClientChunkSeqIdByStream :=
      Function.update state.lastCompletedClientChunkSeqIdByStream (key.1, some key.2) none }

/-- The two invalidations of a client in `run_websocket_reader_inner` -/
def invalidateClient (state : WebsocketState) (clientId : ClientId) : WebsocketState :=
  { state with
    clientSegmentReassembler := state.clientSegmentReassembler.invalidateClient clientId
    lastCompletedClientChunkSeqIdByStream := fun key =>
      if key.1 = clientId then none else state.lastCompletedClientChunkSeqIdByStream key }

/-- The part of `run_websocket_reader_inner` for a client that was closed -/
def invalidateClosed : WebsocketState :=
  match envelope.event, envelope.streamId with
  | .clientClosed, some streamId => state.invalidateStream (envelope.clientId, streamId)
  | .clientClosed, none => state.invalidateClient envelope.clientId
  | _, _ => state

/-- The part of `run_server_writer_inner` under the lock of the state, with the envelopes
whose payloads are sent then -/
def numberQueued (codec : ServerCodec) (queued : QueuedServerEnvelope) :
    WebsocketState × List ServerEnvelope :=
  let seqId := (state.nextSeqIdByStream queued.key).getD 1
  match codec.splitServerEnvelopeForTransport
      ⟨queued.event, queued.clientId, queued.streamId, seqId⟩ with
  | none =>
    ({ state with
      nextSeqIdByStream := Function.update state.nextSeqIdByStream queued.key (some seqId) }, [])
  | some envelopes =>
    let sent := envelopes.filter fun envelope => (codec.serialize envelope).isSome
    ({ state with
      outboundBuffer := sent.foldl .insert state.outboundBuffer
      nextSeqIdByStream :=
        Function.update state.nextSeqIdByStream queued.key (some (min (seqId + 1) u64Max)) }, sent)

end WebsocketState

/-! ### Reader and writer -/

/-- What happened on the streams: an envelope was sent, or an acknowledgement came. -/
inductive LogEntry where
  | sent (envelope : ServerEnvelope)
  | acked (key : ClientKey) (seqId : ℕ) (segmentId : Option ℕ)

/-- The acknowledgement that an envelope of a client is. -/
def acknowledgement (envelope : ClientEnvelope) : List LogEntry :=
  match envelope.event, envelope.seqId, envelope.streamId with
  | .ack segmentId, some seqId, some streamId =>
    [.acked (envelope.clientId, streamId) seqId segmentId]
  | _, _, _ => []

/-- `RemoteControlWebsocket`, with the log -/
structure RemoteControlWebsocket where
  tracker : ClientTracker
  state : WebsocketState
  log : List LogEntry

namespace RemoteControlWebsocket

def new (nextConnectionId : ConnectionId) : RemoteControlWebsocket :=
  ⟨.new nextConnectionId, .new, []⟩

variable (websocket : RemoteControlWebsocket) (codec : Codec)

/-- `run_websocket_reader_inner`, for an envelope -/
def receive (envelope : ClientEnvelope)
    (wireSizeBytes now : ℕ) (rank : ClientId → ℕ) (handling : ClientTracker.Handling) :
    Except Panic RemoteControlWebsocket := do
  let log := websocket.log ++ acknowledgement envelope
  match websocket.state.observeClientMessage codec envelope wireSizeBytes now rank with
  | (.forward forwarded, state) =>
    match websocket.tracker.handleMessage forwarded handling with
    | (tracker, .done) => do
        let state ← state.recordClientMessageDelivery forwarded
          (WebsocketState.clientMessageKey envelope)
        return ⟨tracker, state.invalidateClosed forwarded, log⟩
    | (tracker, _) => return ⟨tracker, state, log⟩
  | (_, state) => return { websocket with state := state, log := log }

/-- `run_websocket_reader_inner`, for a finished outbound task -/
def complete (task : ClientKey × ConnectionId) (sending : Sending) : RemoteControlWebsocket :=
  if task ∈ websocket.tracker.joinSet then
    let tracker := { websocket.tracker with joinSet := websocket.tracker.joinSet.erase task }
    match tracker.closeClient task.1 sending with
    | (tracker, .done) =>
      { websocket with tracker := tracker, state := websocket.state.invalidateStream task.1 }
    | (tracker, _) => { websocket with tracker := tracker }
  else websocket

/-- `run_websocket_reader_inner`, for the sweep of idle clients -/
def sweep (now : ℕ) (keys : List (ClientKey × Sending)) : RemoteControlWebsocket :=
  match websocket.tracker.closeExpiredClients now keys with
  | (tracker, .done) =>
    { websocket with
      tracker := tracker
      state := ((keys.filter fun (key, _) => websocket.tracker.isExpired now key).map
        Prod.fst).foldl .invalidateStream websocket.state }
  | (tracker, _) => { websocket with tracker := tracker }

/-- `run_server_writer_inner`, for a queued event; it waits while the buffer is full -/
def sendQueued (codec : ServerCodec) (queued : QueuedServerEnvelope) : RemoteControlWebsocket :=
  if websocket.state.outboundBuffer.used < channelCapacity then
    let (state, sent) := websocket.state.numberQueued codec queued
    { websocket with state := state, log := websocket.log ++ sent.map .sent }
  else websocket

/-- `run_server_writer_inner`, what a new connection sends first -/
def resent (codec : ServerCodec) (keys : List ClientKey) : List ServerEnvelope :=
  (websocket.state.outboundBuffer.serverEnvelopes keys).filter fun envelope =>
    (codec.serialize envelope).isSome

/-- A turn of the reader or the writer, or something that happens beside them. -/
inductive Action where
  | queued (envelope : QueuedServerEnvelope)
  | receive (envelope : ClientEnvelope) (wireSizeBytes now : ℕ) (rank : ClientId → ℕ)
      (handling : ClientTracker.Handling)
  | complete (task : ClientKey × ConnectionId) (sending : Sending)
  | sweep (now : ℕ) (keys : List (ClientKey × Sending))
  /-- detached closes arrive -/
  | land (connectionIds : List ConnectionId)
  /-- another transport takes a connection id -/
  | otherConnection
  /-- the state outlives the connection; what is sent again is `resent` -/
  | reconnect

/-- What an action does. -/
def step (codec : Codec) (serverCodec : ServerCodec) (websocket : RemoteControlWebsocket) :
    Action → Except Panic RemoteControlWebsocket
  | .queued envelope => .ok (websocket.sendQueued serverCodec envelope)
  | .receive envelope wireSizeBytes now rank handling =>
    websocket.receive codec envelope wireSizeBytes now rank handling
  | .complete task sending => .ok (websocket.complete task sending)
  | .sweep now keys => .ok (websocket.sweep now keys)
  | .land connectionIds =>
    .ok { websocket with tracker := websocket.tracker.step (.land connectionIds) }
  | .otherConnection => .ok { websocket with tracker := websocket.tracker.step .otherConnection }
  | .reconnect => .ok websocket

variable (serverCodec : ServerCodec) (nextConnectionId : ConnectionId)

/-- What a run of actions leads to. -/
def run (actions : List Action) : Except Panic RemoteControlWebsocket :=
  actions.foldlM (step codec serverCodec) (new nextConnectionId)

lemma run_append (actions : List Action) (action : Action) :
    run codec serverCodec nextConnectionId (actions ++ [action]) =
      (run codec serverCodec nextConnectionId actions >>= (step codec serverCodec · action)) := by
  unfold run
  simp only [List.foldlM_append, List.foldlM_cons, List.foldlM_nil, bind_pure]

end RemoteControlWebsocket

end Codex.RemoteControl
