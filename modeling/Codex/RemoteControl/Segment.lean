import Codex.RemoteControl.ClientTracker
import Mathlib.Data.List.AList
import Mathlib.Data.List.MinMax
import Mathlib.Data.Prod.Lex

/-!
# Reassembly of segmented client messages

`remote_control/segment.rs`: a message of a client may arrive in chunks. One assembly is held for
each client, whatever its streams and messages, and at most 128 in all.

Base64 and JSON are the codec's. The time and the order in which the map of assemblies is iterated
are arguments of the call.
-/

namespace Codex.RemoteControl

open Codex.Lib

/-! ### Assemblies -/

structure ClientSegmentMetadata where
  seqId : ℕ
  segmentCount : ℕ
  messageSizeBytes : ℕ
  deriving DecidableEq

structure ClientSegmentAssembly where
  streamId : StreamId
  metadata : ClientSegmentMetadata
  raw : List UInt8
  nextSegmentId : ℕ
  lastChunkSeenAt : ℕ

structure ClientSegmentReassembler where
  assemblies : AList fun _ : ClientId => ClientSegmentAssembly

inductive ClientSegmentObservation where
  | forward (envelope : ClientEnvelope)
  | pending
  | dropped
  deriving DecidableEq

inductive AssemblyUpdate where
  | pending
  | ignore
  | drop
  | complete (message : JSONRPCMessage)

/-- What the code has from other packages: base64 in its standard alphabet, and JSON. -/
structure Codec where
  decode : Text → Option (List UInt8)
  parse : List UInt8 → Option JSONRPCMessage

def decodedLenEstimate (encodedLen : ℕ) : ℕ := (encodedLen + 3) / 4 * 3

/-- The `len` of a `str`. -/
def byteLen (text : Text) : ℕ := (text.map Char.utf8Size).sum

/-- `decode_slice` of the base64 engine, on a slice of this length -/
def Codec.decodeSlice (codec : Codec) (text : Text) (capacity : ℕ) : Option (List UInt8) :=
  (codec.decode text).filter (·.length ≤ capacity)

/-- `REMOTE_CONTROL_REASSEMBLED_MAX_BYTES` -/
def reassembledMaxBytes : ℕ := 100 * 1024 * 1024

/-- `REMOTE_CONTROL_SEGMENT_COUNT_MAX` -/
def segmentCountMax : ℕ := 1024

/-- `REMOTE_CONTROL_SEGMENT_ASSEMBLY_MAX_COUNT` -/
def segmentAssemblyMaxCount : ℕ := 128

def ClientSegmentMetadata.fromEnvelope (envelope : ClientEnvelope) : Option ClientSegmentMetadata :=
  match envelope.event with
  | .clientMessageChunk _ segmentCount messageSizeBytes _ =>
    envelope.seqId.map (⟨·, segmentCount, messageSizeBytes⟩)
  | _ => none

/-- An assembly without chunks. -/
def ClientSegmentAssembly.new (streamId : StreamId) (metadata : ClientSegmentMetadata) (now : ℕ) :
    ClientSegmentAssembly :=
  ⟨streamId, metadata, [], 0, now⟩

variable (assembly : ClientSegmentAssembly)

/-- `observe`, the update after a chunk was appended -/
def ClientSegmentAssembly.updateAfterChunk (codec : Codec) : AssemblyUpdate :=
  if assembly.nextSegmentId < assembly.metadata.segmentCount then .pending
  else if assembly.raw.length ≠ assembly.metadata.messageSizeBytes then .drop
  else
    match codec.parse assembly.raw with
    | some message => .complete message
    | none => .drop

/-- The assembly with a decoded chunk appended. -/
def ClientSegmentAssembly.append (chunk : List UInt8) (now : ℕ) : ClientSegmentAssembly :=
  { assembly with
    raw := assembly.raw ++ chunk
    nextSegmentId := assembly.nextSegmentId + 1
    lastChunkSeenAt := now }

/-- `observe`, the `result` block; what a failed decode leaves in the buffer is dropped with
the assembly -/
def ClientSegmentAssembly.update (codec : Codec)
    (metadata : ClientSegmentMetadata) (segmentId : ℕ) (messageChunkBase64 : Text) (now : ℕ) :
    AssemblyUpdate × ClientSegmentAssembly :=
  if metadata.seqId < assembly.metadata.seqId then (.ignore, assembly)
  else if assembly.metadata ≠ metadata then (.drop, assembly)
  else if segmentId < assembly.nextSegmentId then (.pending, assembly)
  else if segmentId ≠ assembly.nextSegmentId then (.drop, assembly)
  else
    let chunkStart := assembly.raw.length
    let chunkEnd := min metadata.messageSizeBytes
      (chunkStart + decodedLenEstimate (byteLen messageChunkBase64))
    match codec.decodeSlice messageChunkBase64 (chunkEnd - chunkStart) with
    | some chunk => ((assembly.append chunk now).updateAfterChunk codec, assembly.append chunk now)
    | none => (.drop, { assembly with lastChunkSeenAt := now })

namespace ClientSegmentReassembler

/-! ### The map of assemblies -/

/-- `ClientSegmentReassembler::default` -/
def new : ClientSegmentReassembler := ⟨∅⟩

variable (reassembler : ClientSegmentReassembler) (clientId : ClientId)

/-- The assembly of a client. -/
def get : Option ClientSegmentAssembly :=
  reassembler.assemblies.lookup clientId

/-- The number of assemblies. -/
def len : ℕ := reassembler.assemblies.entries.length

def insert (reassembler : ClientSegmentReassembler) (clientId : ClientId)
    (assembly : ClientSegmentAssembly) : ClientSegmentReassembler :=
  ⟨reassembler.assemblies.insert clientId assembly⟩

def remove : ClientSegmentReassembler :=
  ⟨reassembler.assemblies.erase clientId⟩

variable (streamId : StreamId)

def shouldIgnoreChunk (seqId segmentId : ℕ) : Bool :=
  (reassembler.get clientId).any fun assembly =>
    assembly.streamId = streamId ∧ (seqId < assembly.metadata.seqId ∨
      seqId = assembly.metadata.seqId ∧ segmentId < assembly.nextSegmentId)

def removeAssembly : ClientSegmentReassembler :=
  if (reassembler.get clientId).any (·.streamId = streamId) then reassembler.remove clientId
  else reassembler

variable (rank : ClientId → ℕ)

/-- `evict_assemblies_if_full`, the client that `min_by_key` finds; `rank` is the order in
which the map is iterated -/
def oldestClient : Option ClientId :=
  (reassembler.assemblies.entries.argmin fun entry =>
    toLex (entry.2.lastChunkSeenAt, rank entry.1)).map (·.1)

/-- `evict_assemblies_if_full`, the loop -/
def evictRounds (rank : ClientId → ℕ) :
    ℕ → ClientSegmentReassembler → ClientSegmentReassembler
  | 0, reassembler => reassembler
  | rounds + 1, reassembler =>
    if reassembler.len ≥ segmentAssemblyMaxCount then
      match reassembler.oldestClient rank with
      | some clientId => evictRounds rank rounds (reassembler.remove clientId)
      | none => reassembler
    else reassembler

/-- `evict_assemblies_if_full`; every round removes an assembly -/
def evictAssembliesIfFull : ClientSegmentReassembler :=
  evictRounds rank reassembler.len reassembler

/-! ### Calls -/

/-- `observe`, the `match` before the update -/
def openAssembly (metadata : ClientSegmentMetadata) (now : ℕ) (rank : ClientId → ℕ) :
    ClientSegmentReassembler :=
  match reassembler.get clientId with
  | some assembly =>
    if assembly.streamId ≠ streamId then reassembler.insert clientId (.new streamId metadata now)
    else reassembler
  | none => (reassembler.evictAssembliesIfFull rank).insert clientId (.new streamId metadata now)

variable (codec : Codec) (envelope : ClientEnvelope)

/-- `observe`, for a valid chunk -/
def observeChunk (streamId : StreamId) (metadata : ClientSegmentMetadata)
    (segmentId : ℕ) (messageChunkBase64 : Text) (now : ℕ) (rank : ClientId → ℕ) :
    ClientSegmentObservation × ClientSegmentReassembler :=
  let reassembler := reassembler.openAssembly envelope.clientId streamId metadata now rank
  match reassembler.get envelope.clientId with
  | none => (.dropped, reassembler)
  | some assembly =>
    let (result, assembly) := assembly.update codec metadata segmentId messageChunkBase64 now
    let reassembler := reassembler.insert envelope.clientId assembly
    match result with
    | .pending => (.pending, reassembler)
    | .ignore => (.dropped, reassembler)
    | .drop => (.dropped, reassembler.removeAssembly envelope.clientId streamId)
    | .complete message =>
      (.forward { envelope with event := .clientMessage message },
        reassembler.removeAssembly envelope.clientId streamId)

/-- `observe`, the checks of a chunk -/
def isInvalidChunk (segmentId segmentCount messageSizeBytes : ℕ) (messageChunkBase64 : Text) :
    Bool :=
  segmentCount = 0 ∨ segmentCount > segmentCountMax ∨ segmentId ≥ segmentCount ∨
    messageSizeBytes = 0 ∨ messageSizeBytes > reassembledMaxBytes ∨ messageChunkBase64 = []

def observe (now : ℕ) (rank : ClientId → ℕ) : ClientSegmentObservation × ClientSegmentReassembler :=
  match envelope.event with
  | .clientMessageChunk segmentId segmentCount messageSizeBytes messageChunkBase64 =>
    match ClientSegmentMetadata.fromEnvelope envelope, envelope.streamId with
    | some metadata, some streamId =>
      if reassembler.shouldIgnoreChunk envelope.clientId streamId metadata.seqId segmentId then
        (.dropped, reassembler)
      else if isInvalidChunk segmentId segmentCount messageSizeBytes messageChunkBase64 then
        (.dropped, reassembler.removeAssembly envelope.clientId streamId)
      else
        reassembler.observeChunk codec envelope streamId metadata segmentId messageChunkBase64
          now rank
    | _, _ => (.dropped, reassembler)
  | _ => (.forward envelope, reassembler)

def invalidateStream : ClientSegmentReassembler :=
  reassembler.removeAssembly clientId streamId

def invalidateClient : ClientSegmentReassembler :=
  reassembler.remove clientId

/-- The calls of the reassembler. -/
inductive Call where
  | observe (envelope : ClientEnvelope) (now : ℕ) (rank : ClientId → ℕ)
  | invalidateStream (clientId : ClientId) (streamId : StreamId)
  | invalidateClient (clientId : ClientId)

/-- The state after a call. -/
def step (reassembler : ClientSegmentReassembler) :
    Call → ClientSegmentReassembler
  | .observe envelope now rank => (reassembler.observe codec envelope now rank).2
  | .invalidateStream clientId streamId => reassembler.invalidateStream clientId streamId
  | .invalidateClient clientId => reassembler.invalidateClient clientId

/-- The state after calls in this order. -/
def run (calls : List Call) : ClientSegmentReassembler :=
  calls.foldl (step codec) new

end ClientSegmentReassembler

end Codex.RemoteControl
