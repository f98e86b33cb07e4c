import Codex.ExecServer.SessionEvents
import Codex.Lib.Framing

/-!
# A virtual stream of the Noise relay

`exec-server/src/noise_relay`: the JSON-RPC messages of a stream stand behind their lengths in a
byte stream, which is cut into records; every record is encrypted under the next nonce and numbered.
The receiver puts the records in the order of their numbers before it decrypts them, and takes the
messages out of the decrypted bytes. JSON and the cipher are the functions of a `NoiseEnv`.
-/

namespace Codex.ExecServer

open Codex.Lib

/-- `u32::MAX` -/
def u32Max : ℕ := 2 ^ 32 - 1

/-- `RelayData`; `seq` is a `u32` -/
structure RelayData where
  seq : ℕ
  segmentIndex : ℕ
  segmentCount : ℕ
  payload : List UInt8
  deriving DecidableEq

/-- `serde_json` and the two directions of clatter's transport, with their state. -/
structure NoiseEnv (Message Send Receive : Type) where
  toWriter : Message → Except Text (List UInt8)
  fromSlice : List UInt8 → Except Text Message
  sendVec : Send → List UInt8 → Except Text (List UInt8 × Send)
  receiveVec : Receive → List UInt8 → Except Text (List UInt8 × Receive)

variable {Message Send Receive : Type}

/-! ### `noise_channel.rs` -/

/-- `MAX_MESSAGE_LEN` of clatter -/
def maxMessageLen : ℕ := 65535

def tagLen : ℕ := 16

/-- `NoiseChannelError` with its texts -/
inductive NoiseChannelError where
  | invalidMessage (message : Text)
  | transport (message : Text)

/-- `Display` of `NoiseChannelError` -/
def NoiseChannelError.text : NoiseChannelError → Text
  | .invalidMessage message => "invalid Noise channel message: ".toList ++ message
  | .transport message => "Noise channel transport failed: ".toList ++ message

def ensureNoiseFrameLen (frameLen : ℕ) (message : String) : Except NoiseChannelError Unit :=
  if frameLen > maxMessageLen then .error (.invalidMessage message.toList) else .ok ()

variable (env : NoiseEnv Message Send Receive)

def NoiseEnv.encrypt (send : Send)
    (plaintext : List UInt8) : Except NoiseChannelError (List UInt8 × Send) := do
  ensureNoiseFrameLen (plaintext.length + tagLen) "transport plaintext is too large"
  (env.sendVec send plaintext).mapError .transport

def NoiseEnv.decrypt (receive : Receive)
    (ciphertext : List UInt8) : Except NoiseChannelError (List UInt8 × Receive) := do
  if ciphertext.length < tagLen then
    throw (.invalidMessage "transport ciphertext is too short".toList)
  ensureNoiseFrameLen ciphertext.length "transport ciphertext is too large"
  (env.receiveVec receive ciphertext).mapError .transport

/-! ### `ordered_ciphertext.rs` -/

def maxReorderDistance : ℕ := 64

def maxPendingBytes : ℕ := 1024 * 1024

/-- The error of `take_next_sequence` and of `advance` -/
def sequenceExhausted : ExecServerError := .protocol "Noise relay sequence number exhausted".toList

structure OrderedCiphertextFrames where
  nextSeq : ℕ
  pending : AList fun _ : ℕ => List UInt8
  pendingBytes : ℕ

namespace OrderedCiphertextFrames

/-- `OrderedCiphertextFrames::default` -/
def new : OrderedCiphertextFrames := ⟨0, ∅, 0⟩

variable (ordered : OrderedCiphertextFrames)

def advance : Except ExecServerError OrderedCiphertextFrames :=
  if ordered.nextSeq = u32Max then .error sequenceExhausted
  else .ok { ordered with nextSeq := ordered.nextSeq + 1 }

/-- The loop of `push`; every round takes a record from the map -/
def releaseRounds : ℕ → OrderedCiphertextFrames → List (List UInt8) →
    Except ExecServerError (List (List UInt8) × OrderedCiphertextFrames)
  | 0, ordered, ready => .ok (ready, ordered)
  | rounds + 1, ordered, ready =>
    match ordered.pending.lookup ordered.nextSeq with
    | none => .ok (ready, ordered)
    | some payload => do
        let ordered ← advance { ordered with
          pending := ordered.pending.erase ordered.nextSeq
          pendingBytes := ordered.pendingBytes - payload.length }
        releaseRounds rounds ordered (ready ++ [payload])

/-- `OrderedCiphertextFrames::push`; the stream is given up after an error -/
def push (seq : ℕ) (payload : List UInt8) :
    Except ExecServerError (List (List UInt8) × OrderedCiphertextFrames) :=
  if seq < ordered.nextSeq ∨ seq ∈ ordered.pending then .ok ([], ordered)
  else if seq > ordered.nextSeq then
    if seq - ordered.nextSeq > maxReorderDistance then
      .error (.protocol "Noise relay ciphertext exceeds reorder window".toList)
    else
      let pendingBytes := ordered.pendingBytes + payload.length
      if pendingBytes > maxPendingBytes then
        .error (.protocol "Noise relay pending ciphertext buffer is full".toList)
      else
        .ok ([], { ordered with
          pending := ordered.pending.insert seq payload
          pendingBytes := pendingBytes })
  else do
    let ordered ← ordered.advance
    releaseRounds ordered.pending.entries.length ordered [payload]

end OrderedCiphertextFrames

/-! ### `message_framing.rs` -/

def lengthPrefixBytes : ℕ := 4

def maxNoiseJsonrpcMessageLen : ℕ := 64 * 1024 * 1024

def noiseRecordPlaintextLen : ℕ := 60 * 1024

def NoiseEnv.frameJsonrpcMessage (env : NoiseEnv Message Send Receive) (message : Message) :
    Except ExecServerError (List UInt8) := do
  let body ← (env.toWriter message).mapError .json
  if body.length > maxNoiseJsonrpcMessageLen then
    throw (.protocol "Noise relay JSON-RPC message exceeds maximum length".toList)
  return toBeBytes body.length ++ body

structure JsonRpcMessageDecoder where
  buffered : List UInt8

namespace JsonRpcMessageDecoder

/-- `JsonRpcMessageDecoder::default` -/
def new : JsonRpcMessageDecoder := ⟨[]⟩

/-- The loop of `push`; every round takes at least a length from the buffer -/
def takeRounds (env : NoiseEnv Message Send Receive) :
    ℕ → List UInt8 → List Message → Except ExecServerError (List Message × List UInt8)
  | 0, buffered, messages => .ok (messages, buffered)
  | rounds + 1, buffered, messages =>
    if buffered.length < lengthPrefixBytes then .ok (messages, buffered)
    else
      let messageLen := ofBeBytes (buffered.take lengthPrefixBytes)
      if messageLen = 0 ∨ messageLen > maxNoiseJsonrpcMessageLen then
        .error (.protocol "Noise relay JSON-RPC message has invalid length".toList)
      else
        let framedLen := lengthPrefixBytes + messageLen
        if buffered.length < framedLen then .ok (messages, buffered)
        else do
          let message ← (env.fromSlice ((buffered.take framedLen).drop lengthPrefixBytes)).mapError
            .json
          takeRounds env rounds (buffered.drop framedLen) (messages ++ [message])

/-- `JsonRpcMessageDecoder::push`; the stream is given up after an error -/
def push (env : NoiseEnv Message Send Receive) (decoder : JsonRpcMessageDecoder)
    (plaintextRecord : List UInt8) :
    Except ExecServerError (List Message × JsonRpcMessageDecoder) := do
  if plaintextRecord.length > noiseRecordPlaintextLen then
    throw (.protocol "Noise relay plaintext record exceeds maximum length".toList)
  let buffered := decoder.buffered ++ plaintextRecord
  let (messages, buffered) ← takeRounds env buffered.length buffered []
  if buffered.length > lengthPrefixBytes + maxNoiseJsonrpcMessageLen then
    throw (.protocol "Noise relay JSON-RPC reassembly buffer exceeds maximum length".toList)
  return (messages, ⟨buffered⟩)

end JsonRpcMessageDecoder

/-! ### `executor_stream.rs` -/

/-- The state of the writer task in `spawn_noise_virtual_stream` -/
structure NoiseWriter (Send : Type) where
  nextSeq : ℕ
  send : Send

namespace NoiseWriter

def takeNextSequence (nextSeq : ℕ) : Except ExecServerError (ℕ × ℕ) :=
  if nextSeq = u32Max then .error sequenceExhausted else .ok (nextSeq, nextSeq + 1)

variable (env : NoiseEnv Message Send Receive) (writer : NoiseWriter Send)

/-- The body of the loop over the records of a message -/
def writeRecord
    (plaintextRecord : List UInt8) : Except ExecServerError (RelayData × NoiseWriter Send) := do
  let (seq, nextSeq) ← takeNextSequence writer.nextSeq
  let (ciphertext, send) ← (env.encrypt writer.send plaintextRecord).mapError
    fun error => .protocol error.text
  return (⟨seq, 0, 1, ciphertext⟩, ⟨nextSeq, send⟩)

/-- The loop over the records of a message: what was sent, and the error that ended it. -/
def writeRecords (env : NoiseEnv Message Send Receive) :
    NoiseWriter Send → List (List UInt8) →
      List RelayData × Except ExecServerError (NoiseWriter Send)
  | writer, [] => ([], .ok writer)
  | writer, record :: records =>
    match writer.writeRecord env record with
    | .error error => ([], .error error)
    | .ok (data, writer) =>
      let (sent, result) := writeRecords env writer records
      (data :: sent, result)

/-- The body of the loop of the writer task -/
def writeMessage (message : Message) : List RelayData × Except ExecServerError (NoiseWriter Send) :=
  match env.frameJsonrpcMessage message with
  | .error error => ([], .error error)
  | .ok framed => writer.writeRecords env (chunks noiseRecordPlaintextLen framed)

/-- The loop of the writer task over the outgoing messages, which ends with an error -/
def writeMessages (env : NoiseEnv Message Send Receive) :
    NoiseWriter Send → List Message → List RelayData × Except ExecServerError (NoiseWriter Send)
  | writer, [] => ([], .ok writer)
  | writer, message :: messages =>
    match writer.writeMessage env message with
    | (sent, .error error) => (sent, .error error)
    | (sent, .ok writer) =>
      let (later, result) := writeMessages env writer messages
      (sent ++ later, result)

end NoiseWriter

/-- `NoiseVirtualStream`; `incoming` is what its channel took, and `decrypted` what was
decrypted, from the start of the stream -/
structure NoiseVirtualStream (Message Receive : Type) where
  receive : Receive
  inboundCiphertexts : OrderedCiphertextFrames
  inboundDecoder : JsonRpcMessageDecoder
  instanceId : ℕ
  incoming : List Message
  decrypted : List (List UInt8)

namespace NoiseVirtualStream

/-- The value of `spawn_noise_virtual_stream` -/
def new (receive : Receive) (instanceId : ℕ) : NoiseVirtualStream Message Receive :=
  ⟨receive, .new, .new, instanceId, [], []⟩

/-- The loop over the messages of a record; `accepts n` says whether the channel takes the
message after `n` others -/
def sendMessages (accepts : ℕ → Bool) : NoiseVirtualStream Message Receive → List Message →
    Option ExecServerError × NoiseVirtualStream Message Receive
  | stream, [] => (none, stream)
  | stream, message :: messages =>
    if accepts stream.incoming.length then
      sendMessages accepts { stream with incoming := stream.incoming ++ [message] } messages
    else
      (some (.protocol "Noise virtual stream inbound queue is full or closed".toList), stream)

variable (env : NoiseEnv Message Send Receive)

/-- The body of the loop of `receive_data` -/
def receiveCiphertext (accepts : ℕ → Bool)
    (stream : NoiseVirtualStream Message Receive) (ciphertext : List UInt8) :
    Option ExecServerError × NoiseVirtualStream Message Receive :=
  let stream := { stream with decrypted := stream.decrypted ++ [ciphertext] }
  match env.decrypt stream.receive ciphertext with
  | .error error =>
    (some (.protocol ("Noise relay decryption failed: ".toList ++ error.text)), stream)
  | .ok (plaintext, receive) =>
    match stream.inboundDecoder.push env plaintext with
    | .error error => (some error, { stream with receive := receive })
    | .ok (messages, decoder) =>
      sendMessages accepts { stream with receive := receive, inboundDecoder := decoder } messages

/-- The loop of `receive_data` -/
def receiveCiphertexts (env : NoiseEnv Message Send Receive) (accepts : ℕ → Bool) :
    NoiseVirtualStream Message Receive → List (List UInt8) →
      Option ExecServerError × NoiseVirtualStream Message Receive
  | stream, [] => (none, stream)
  | stream, ciphertext :: ciphertexts =>
    match stream.receiveCiphertext env accepts ciphertext with
    | (some error, stream) => (some error, stream)
    | (none, stream) => receiveCiphertexts env accepts stream ciphertexts

def receiveData (accepts : ℕ → Bool)
    (stream : NoiseVirtualStream Message Receive) (data : RelayData) :
    Option ExecServerError × NoiseVirtualStream Message Receive :=
  match stream.inboundCiphertexts.push data.seq data.payload with
  | .error error => (some error, stream)
  | .ok (ciphertexts, ordered) =>
    receiveCiphertexts env accepts { stream with inboundCiphertexts := ordered } ciphertexts

/-- The data frames of a stream as they arrive; the stream is removed with the first error. -/
def receiveRun (env : NoiseEnv Message Send Receive) (accepts : ℕ → Bool) :
    NoiseVirtualStream Message Receive → List RelayData →
      Option ExecServerError × NoiseVirtualStream Message Receive
  | stream, [] => (none, stream)
  | stream, data :: arrivals =>
    match stream.receiveData env accepts data with
    | (some error, stream) => (some error, stream)
    | (none, stream) => receiveRun env accepts stream arrivals

end NoiseVirtualStream

end Codex.ExecServer
