import Codex.ExecServer.NoiseStream

/-!
# The multiplexed environment of the Noise relay

`exec-server/src/relay.rs`: many virtual streams share one websocket. The peer chooses the ids of
the streams and may use one again while the check of an earlier handshake, or the close of an
earlier stream, is still on its way; so every handshake has a number of its own.

The loop takes one event after the other: a frame, the result of a check, the notice of a closed
stream. `RelayEnv` has the functions of the Noise library; whether the handshake reply could be
queued, and which messages the channel of a stream takes, come with the event. The counter of the
handshakes is a `u64`, which the model does not bound.
-/

namespace Codex.ExecServer

open Codex.Lib

/-! ### Frames -/

/-- `relay_message_frame::Body` -/
inductive RelayBody where
  | data (data : RelayData)
  | ackFrame
  | resume
  | reset (reason : Text)
  | heartbeat
  | handshake (payload : List UInt8)

structure RelayMessageFrame where
  version : ℕ
  streamId : Text
  body : Option RelayBody

inductive RelayFrameBodyKind where
  | data
  | ack
  | resume
  | reset
  | heartbeat
  | handshake
  deriving DecidableEq

def relayMessageFrameVersion : ℕ := 1

namespace RelayMessageFrame

variable (frame : RelayMessageFrame)

def validate : Except ExecServerError RelayFrameBodyKind :=
  if frame.version ≠ relayMessageFrameVersion then
    .error (.protocol ("unsupported relay message frame version ".toList ++
      numberText frame.version))
  else if (trim frame.streamId).isEmpty then
    .error (.protocol "relay message frame is missing stream_id".toList)
  else
    match frame.body with
    | some (.data data) =>
      if data.segmentIndex ≠ 0 ∨ data.segmentCount ≠ 1 ∨ data.payload.isEmpty then
        .error (.protocol "relay data message frame is missing required fields".toList)
      else .ok .data
    | some .ackFrame => .ok .ack
    | some .resume => .ok .resume
    | some (.reset reason) =>
      if reason.isEmpty then
        .error (.protocol "relay reset message frame is missing reason".toList)
      else .ok .reset
    | some .heartbeat => .ok .heartbeat
    | some (.handshake payload) =>
      if payload.isEmpty then
        .error (.protocol "relay handshake message frame is missing payload".toList)
      else .ok .handshake
    | none => .error (.protocol "relay message frame is missing body".toList)

def intoData : Except ExecServerError RelayData := do
  let kind ← frame.validate
  if kind ≠ .data then throw (.protocol "expected relay data message frame".toList)
  match frame.body with
  | some (.data data) => return data
  | _ => throw (.protocol "expected relay data message frame".toList)

def intoHandshakePayload : Except ExecServerError (List UInt8) := do
  let kind ← frame.validate
  if kind ≠ .handshake then throw (.protocol "expected relay handshake message frame".toList)
  match frame.body with
  | some (.handshake payload) => return payload
  | _ => throw (.protocol "expected relay handshake message frame".toList)

def handshake (streamId : Text) (payload : List UInt8) : RelayMessageFrame :=
  ⟨relayMessageFrameVersion, streamId, some (.handshake payload)⟩

def reset (streamId reason : Text) : RelayMessageFrame :=
  ⟨relayMessageFrameVersion, streamId, some (.reset reason)⟩

end RelayMessageFrame

/-! ### The state of the loop -/

def maxActiveNoiseRelayStreams : ℕ := 128

def maxFailedNoiseHandshakes : ℕ := 8

def maxHarnessKeyAuthorizationBytes : ℕ := 4096

def maxPendingHandshakeValidations : ℕ := 32

def noiseRelayResetReason : Text := "noise_relay_protocol_error".toList

structure PendingResponderHandshake (Handshake Key : Type) where
  handshake : Handshake
  initiatorPublicKey : Key
  payload : List UInt8

/-- `NoiseEnv` with the handshake: `readRequest` is under the identity of the environment and the
prologue for the stream id, `complete` gives the transport and the reply. -/
structure RelayEnv (Message Send Receive Handshake Key : Type)
    extends NoiseEnv Message Send Receive where
  readRequest : Text → List UInt8 → Except Text (PendingResponderHandshake Handshake Key)
  complete : Handshake → Except Text (Receive × List UInt8)

structure PendingHandshake (Handshake Key : Type) where
  validationId : ℕ
  handshake : PendingResponderHandshake Handshake Key

/-- A task that checks a harness key. -/
structure ValidationTask (Key : Type) where
  streamId : Text
  validationId : ℕ
  harnessPublicKey : Key
  authorization : String

structure HarnessKeyValidationResult where
  streamId : Text
  validationId : ℕ
  result : Except ExecServerError Unit

structure ClosedNoiseVirtualStream where
  streamId : Text
  instanceId : ℕ

/-- The local variables of `run_multiplexed_environment`; `outgoing` is what was offered to the
writer of the websocket, and `ended` says that the loop is over. -/
structure MultiplexedEnvironment (Message Receive Handshake Key : Type) where
  streams : AList fun _ : Text => NoiseVirtualStream Message Receive
  pendingHandshakes : AList fun _ : Text => PendingHandshake Handshake Key
  validationTasks : List (ValidationTask Key)
  failedHandshakes : ℕ
  nextValidationId : ℕ
  outgoing : List RelayMessageFrame
  ended : Bool

/-- What the loop waits for; `websocketClosed` is also the end of the stream and a read error, and
`dropped` a message that is not a frame. -/
inductive RelayEvent where
  | writerFinished
  | streamClosed (closedStream : ClosedNoiseVirtualStream)
  | validated (result : HarnessKeyValidationResult) (queued : Bool)
  | validationTaskFailed (validationId : ℕ)
  | frame (frame : RelayMessageFrame) (accepts : ℕ → Bool)
  | dropped
  | websocketClosed

variable {Message Send Receive Handshake Key : Type}

namespace MultiplexedEnvironment

/-- The start of `run_multiplexed_environment` -/
def new : MultiplexedEnvironment Message Receive Handshake Key := ⟨∅, ∅, [], 0, 0, [], false⟩

variable (state : MultiplexedEnvironment Message Receive Handshake Key)

def sendReset (streamId : Text) : MultiplexedEnvironment Message Receive Handshake Key :=
  { state with outgoing := state.outgoing ++ [.reset streamId noiseRelayResetReason] }

/-- `failed_handshake_budget_exhausted` with the `break` after it -/
def failHandshake : MultiplexedEnvironment Message Receive Handshake Key :=
  let failedHandshakes := state.failedHandshakes + 1
  { state with
    failedHandshakes := failedHandshakes
    ended := decide (failedHandshakes ≥ maxFailedNoiseHandshakes) }

/-- The branch of `closed_stream_rx` -/
def closeStream (closedStream : ClosedNoiseVirtualStream) :
    MultiplexedEnvironment Message Receive Handshake Key :=
  let isCurrent := (state.streams.lookup closedStream.streamId).any
    fun stream => stream.instanceId == closedStream.instanceId
  if isCurrent then { state with streams := state.streams.erase closedStream.streamId } else state

variable (env : RelayEnv Message Send Receive Handshake Key)

/-- The branch of `validation_tasks` with a result, after the task has left the set -/
def finishValidation (state : MultiplexedEnvironment Message Receive Handshake Key)
    (result : HarnessKeyValidationResult) (queued : Bool) :
    MultiplexedEnvironment Message Receive Handshake Key :=
  match state.pendingHandshakes.lookup result.streamId with
  | none => state
  | some pending =>
    if pending.validationId ≠ result.validationId then state
    else
      let state := { state with
        pendingHandshakes := state.pendingHandshakes.erase result.streamId }
      match result.result with
      | .error _ => (state.sendReset result.streamId).failHandshake
      | .ok () =>
        if state.streams.entries.length ≥ maxActiveNoiseRelayStreams then
          state.sendReset result.streamId
        else
          match env.complete pending.handshake.handshake with
          | .error _ => (state.sendReset result.streamId).failHandshake
          | .ok (receive, response) =>
            if queued then
              { state with
                outgoing := state.outgoing ++ [.handshake result.streamId response]
                streams := state.streams.insert result.streamId
                  (.new receive result.validationId) }
            else { state with ended := true }

/-- The branch of `validation_tasks` with a task that failed -/
def dropPending : MultiplexedEnvironment Message Receive Handshake Key :=
  state.pendingHandshakes.keys.foldl sendReset { state with pendingHandshakes := ∅ }

/-- `authorization` in the branch for a handshake -/
def authorizationOf (payload : List UInt8) : Option String := do
  let authorization ← String.fromUTF8? ⟨payload.toArray⟩
  if payload.length ≤ maxHarnessKeyAuthorizationBytes then some authorization else none

/-- The branch for `RelayFrameBodyKind::Handshake` -/
def receiveHandshake
    (state : MultiplexedEnvironment Message Receive Handshake Key) (frame : RelayMessageFrame) :
    MultiplexedEnvironment Message Receive Handshake Key :=
  let streamId := frame.streamId
  if streamId ∈ state.streams then state.sendReset streamId
  else if streamId ∈ state.pendingHandshakes then
    ({ state with
      pendingHandshakes := state.pendingHandshakes.erase streamId }.sendReset
        streamId).failHandshake
  else if state.streams.entries.length ≥ maxActiveNoiseRelayStreams then state.sendReset streamId
  else if state.validationTasks.length ≥ maxPendingHandshakeValidations then
    state.sendReset streamId
  else
    match frame.intoHandshakePayload with
    | .error _ => state.sendReset streamId
    | .ok request =>
      match env.readRequest streamId request with
      | .error _ => (state.sendReset streamId).failHandshake
      | .ok pending =>
        match authorizationOf pending.payload with
        | none => (state.sendReset streamId).failHandshake
        | some authorization =>
          let validationId := state.nextValidationId
          { state with
            nextValidationId := validationId + 1
            pendingHandshakes := state.pendingHandshakes.insert streamId
              ⟨validationId, { pending with payload := [] }⟩
            validationTasks := state.validationTasks ++
              [⟨streamId, validationId, pending.initiatorPublicKey, authorization⟩] }

/-- The branch for `RelayFrameBodyKind::Data` -/
def receiveDataFrame
    (state : MultiplexedEnvironment Message Receive Handshake Key) (frame : RelayMessageFrame)
    (accepts : ℕ → Bool) : MultiplexedEnvironment Message Receive Handshake Key :=
  let streamId := frame.streamId
  match state.streams.lookup streamId with
  | none =>
    let canceled := { state with
      pendingHandshakes := state.pendingHandshakes.erase streamId }.sendReset streamId
    if streamId ∈ state.pendingHandshakes then canceled.failHandshake else canceled
  | some stream =>
    match frame.intoData with
    | .error _ =>
      { state with streams := state.streams.erase streamId }.sendReset streamId
    | .ok data =>
      match stream.receiveData env.toNoiseEnv accepts data with
      | (some _, _) =>
        { state with streams := state.streams.erase streamId }.sendReset streamId
      | (none, stream) => { state with streams := state.streams.insert streamId stream }

/-- The branch for `RelayFrameBodyKind::Reset` -/
def receiveReset
    (frame : RelayMessageFrame) : MultiplexedEnvironment Message Receive Handshake Key :=
  { state with
    pendingHandshakes := state.pendingHandshakes.erase frame.streamId
    streams := state.streams.erase frame.streamId }

/-- The frame of a round -/
def receiveFrame
    (state : MultiplexedEnvironment Message Receive Handshake Key) (frame : RelayMessageFrame)
    (accepts : ℕ → Bool) : MultiplexedEnvironment Message Receive Handshake Key :=
  match frame.validate with
  | .error _ => state
  | .ok .handshake => state.receiveHandshake env frame
  | .ok .data => state.receiveDataFrame env frame accepts
  | .ok .reset => state.receiveReset frame
  | .ok .ack => state
  | .ok .resume => state
  | .ok .heartbeat => state

/-- `join_next`, which takes a task from the set -/
def joinNext (validationId : ℕ) : MultiplexedEnvironment Message Receive Handshake Key :=
  { state with
    validationTasks := state.validationTasks.filter fun task => task.validationId != validationId }

/-- A round of `run_multiplexed_environment`; only a task of the set has a result -/
def step (state : MultiplexedEnvironment Message Receive Handshake Key) (event : RelayEvent) :
    MultiplexedEnvironment Message Receive Handshake Key :=
  if state.ended then state
  else
    match event with
    | .writerFinished => { state with ended := true }
    | .streamClosed closedStream => state.closeStream closedStream
    | .validated result queued =>
      if state.validationTasks.any fun task =>
          task.streamId == result.streamId && task.validationId == result.validationId then
        (state.joinNext result.validationId).finishValidation env result queued
      else state
    | .validationTaskFailed validationId =>
      if state.validationTasks.any fun task => task.validationId == validationId then
        (state.joinNext validationId).dropPending
      else state
    | .frame frame accepts => state.receiveFrame env frame accepts
    | .dropped => state
    | .websocketClosed => { state with ended := true }

/-- `run_multiplexed_environment` -/
def run (events : List RelayEvent) : MultiplexedEnvironment Message Receive Handshake Key :=
  events.foldl (step env) new

end MultiplexedEnvironment

end Codex.ExecServer
