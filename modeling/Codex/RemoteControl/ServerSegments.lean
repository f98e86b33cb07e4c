import Codex.RemoteControl.Segment
import Mathlib.Algebra.Order.Floor.Div
import Mathlib.GroupTheory.GroupAction.Ring
import Mathlib.Tactic.Linarith

/-!
# Server envelopes and their split for transport

`remote_control/protocol.rs` and the sending half of `remote_control/segment.rs`: a message of the
server that is too long for one websocket message is sent in chunks. JSON and base64 are the
codec's; all errors are `none`, since the caller only logs them.
-/

namespace Codex.RemoteControl

open Codex.Lib

/-! ### Envelopes -/

abbrev Usize := Fin (2 ^ 64)

/-- `OutgoingMessage`, as a text -/
abbrev OutgoingMessage := Text

inductive PongStatus where
  | active
  | unknown
  deriving DecidableEq

inductive ServerEvent where
  | serverMessage (message : OutgoingMessage)
  | serverMessageChunk (segmentId : Usize) (segmentCount messageSizeBytes : ℕ)
      (messageChunkBase64 : Text)
  | ack
  | pong (status : PongStatus)
  deriving DecidableEq

def ServerEvent.segmentId : ServerEvent → Option Usize
  | .serverMessageChunk segmentId _ _ _ => some segmentId
  | _ => none

structure ServerEnvelope where
  event : ServerEvent
  clientId : ClientId
  streamId : StreamId
  seqId : ℕ
  deriving DecidableEq

variable (envelope : ServerEnvelope)

/-- The client and the stream of an envelope. -/
def ServerEnvelope.key : ClientKey :=
  (envelope.clientId, envelope.streamId)

/-- `server_envelope.event.segment_id().unwrap_or_default()` -/
def ServerEnvelope.segment : ℕ :=
  (envelope.event.segmentId.map Fin.val).getD 0

/-- What the code has from other packages: JSON for envelopes and messages, and base64. -/
structure ServerCodec where
  serialize : ServerEnvelope → Option Text
  serializeMessage : OutgoingMessage → Option (List UInt8)
  encode : List UInt8 → Text

/-! ### Splitting -/

/-- `REMOTE_CONTROL_SEGMENT_TARGET_BYTES` -/
def segmentTargetBytes : ℕ := 100 * 1024

/-- `REMOTE_CONTROL_SEGMENT_MAX_BYTES` -/
def segmentMaxBytes : ℕ := 150 * 1024

variable (codec : ServerCodec)

def ServerCodec.serializedLen (envelope : ServerEnvelope) : Option ℕ :=
  (codec.serialize envelope).map byteLen

def ServerCodec.buildChunkEnvelope (envelope : ServerEnvelope)
    (segmentId segmentCount messageSizeBytes : ℕ) (chunk : List UInt8) : Option ServerEnvelope :=
  if segmentCount > segmentCountMax then none
  else
    some { envelope with
      event := .serverMessageChunk (Fin.ofNat _ segmentId) segmentCount messageSizeBytes
        (codec.encode chunk) }

def ServerCodec.serializedChunkLen (envelope : ServerEnvelope)
    (segmentId segmentCount messageSizeBytes : ℕ) (chunk : List UInt8) : Option ℕ := do
  let chunkEnvelope ←
    codec.buildChunkEnvelope envelope segmentId segmentCount messageSizeBytes chunk
  codec.serializedLen chunkEnvelope

/-- `chunks` of a slice -/
def chunksOf (chunkSize : ℕ) (raw : List UInt8) : List (List UInt8) :=
  (List.range (raw.length ⌈/⌉ chunkSize)).map fun i => (raw.drop (i * chunkSize)).take chunkSize

/-- `chunk_size` in the loop of `split_server_envelope_for_transport` -/
def chunkSizeFor (messageSizeBytes segmentCount : ℕ) : ℕ :=
  max 1 (messageSizeBytes ⌈/⌉ segmentCount)

/-- The `segment_count` of the next round of the loop -/
def nextSegmentCount (messageSizeBytes chunkSize : ℕ) : ℕ :=
  let segmentCount := messageSizeBytes ⌈/⌉ chunkSize
  if chunkSizeFor messageSizeBytes (segmentCount + 1) = chunkSize then messageSizeBytes
  else segmentCount + 1

/-- Every round has smaller chunks than the one before. -/
theorem chunkSizeFor_nextSegmentCount_lt {messageSizeBytes chunkSize : ℕ} (h : 1 < chunkSize) :
    chunkSizeFor messageSizeBytes (nextSegmentCount messageSizeBytes chunkSize) < chunkSize := by
  have hpos : 0 < chunkSize := by omega
  unfold nextSegmentCount
  simp only
  split_ifs with heq
  · have hself : messageSizeBytes ⌈/⌉ messageSizeBytes ≤ 1 := by
      rcases Nat.eq_zero_or_pos messageSizeBytes with rfl | hsize
      · simp
      · rw [ceilDiv_le_iff_le_mul hsize, mul_one]
    unfold chunkSizeFor
    omega
  · have hle : messageSizeBytes ⌈/⌉ (messageSizeBytes ⌈/⌉ chunkSize + 1) ≤ chunkSize := by
      rw [ceilDiv_le_iff_le_mul (Nat.succ_pos _)]
      have hcover : messageSizeBytes ≤ chunkSize * (messageSizeBytes ⌈/⌉ chunkSize) :=
        (ceilDiv_le_iff_le_mul hpos).mp le_rfl
      nlinarith
    unfold chunkSizeFor at heq ⊢
    omega

/-- The chunks of one round of the loop, with their ids -/
def ServerCodec.segmentsFit (envelope : ServerEnvelope) (raw : List UInt8) (chunkSize : ℕ) : Bool :=
  (chunksOf chunkSize raw).zipIdx.all fun (chunk, segmentId) =>
    (codec.serializedChunkLen envelope segmentId (raw.length ⌈/⌉ chunkSize) raw.length chunk).any
      (· ≤ segmentMaxBytes)

/-- The envelopes of one round of the loop -/
def ServerCodec.buildChunks (envelope : ServerEnvelope) (raw : List UInt8)
    (chunkSize : ℕ) : Option (List ServerEnvelope) :=
  (chunksOf chunkSize raw).zipIdx.mapM fun (chunk, segmentId) =>
    codec.buildChunkEnvelope envelope segmentId (raw.length ⌈/⌉ chunkSize) raw.length chunk

/-- The loop of `split_server_envelope_for_transport` -/
def ServerCodec.splitLoop (codec : ServerCodec) (envelope : ServerEnvelope) (raw : List UInt8)
    (segmentCount : ℕ) : Option (List ServerEnvelope) :=
  let chunkSize := chunkSizeFor raw.length segmentCount
  if codec.segmentsFit envelope raw chunkSize then codec.buildChunks envelope raw chunkSize
  else if _h : chunkSize = 1 then some []
  else codec.splitLoop envelope raw (nextSegmentCount raw.length chunkSize)
termination_by chunkSizeFor raw.length segmentCount
decreasing_by
  apply chunkSizeFor_nextSegmentCount_lt
  have hle : 1 ≤ chunkSizeFor raw.length segmentCount := le_max_left _ _
  omega

def ServerCodec.splitServerEnvelopeForTransport (envelope : ServerEnvelope) :
    Option (List ServerEnvelope) :=
  match envelope.event with
  | .serverMessage message => do
      let envelopeSizeBytes ← codec.serializedLen envelope
      if envelopeSizeBytes ≤ segmentMaxBytes then return [envelope]
      let raw ← codec.serializeMessage message
      if raw.length > reassembledMaxBytes then return []
      let minimalSegmentCount := min (max raw.length 1) segmentCountMax
      let minimalLen ←
        codec.serializedChunkLen envelope 0 minimalSegmentCount raw.length (raw.take 1)
      if minimalLen > segmentMaxBytes then return []
      codec.splitLoop envelope raw (max 2 (raw.length ⌈/⌉ segmentTargetBytes))
  | _ => some [envelope]

/-! ### What is sent -/

/-- The envelopes are parts of one, in the order of their segments. -/
structure PartsOf (envelope : ServerEnvelope) (parts : List ServerEnvelope) : Prop where
  same : ∀ part ∈ parts, part.key = envelope.key ∧ part.seqId = envelope.seqId
  rising : parts.Pairwise fun a b => a.segment < b.segment

section parts

variable {codec : ServerCodec} {envelope : ServerEnvelope} {parts : List ServerEnvelope}
  {raw : List UInt8} {chunkSize segmentCount : ℕ}

lemma PartsOf.nil : PartsOf envelope [] := ⟨by simp, List.Pairwise.nil⟩

lemma PartsOf.single : PartsOf envelope [envelope] := by
  refine ⟨?_, List.pairwise_singleton _ _⟩
  intro part hpart
  rw [List.mem_singleton] at hpart
  rw [hpart]
  exact ⟨rfl, rfl⟩

lemma PartsOf.filter (h : PartsOf envelope parts) (p : ServerEnvelope → Bool) :
    PartsOf envelope (parts.filter p) :=
  ⟨fun part hpart => h.same part (List.mem_filter.mp hpart).1, h.rising.filter p⟩

/-- The chunk with this id. -/
def ServerCodec.chunkEnvelope (codec : ServerCodec) (envelope : ServerEnvelope)
    (segmentCount messageSizeBytes : ℕ) (chunk : List UInt8 × ℕ) : ServerEnvelope :=
  { envelope with
    event := .serverMessageChunk (Fin.ofNat _ chunk.2) segmentCount messageSizeBytes
      (codec.encode chunk.1) }

variable (h : codec.buildChunks envelope raw chunkSize = some parts)
include h

lemma buildChunks_eq_some :
    raw.length ⌈/⌉ chunkSize ≤ segmentCountMax ∧ parts = (chunksOf chunkSize raw).zipIdx.map
        (codec.chunkEnvelope envelope (raw.length ⌈/⌉ chunkSize) raw.length) := by
  unfold ServerCodec.buildChunks ServerCodec.buildChunkEnvelope at h
  by_cases hcount : raw.length ⌈/⌉ chunkSize > segmentCountMax
  · have hlength : (chunksOf chunkSize raw).length = raw.length ⌈/⌉ chunkSize := by
      simp [chunksOf]
    cases hchunks : chunksOf chunkSize raw with
    | nil =>
      rw [hchunks, List.length_nil] at hlength
      omega
    | cons chunk rest =>
      rw [hchunks, List.zipIdx_cons, List.mapM_cons] at h
      simp only [if_pos hcount] at h
      cases h
  · refine ⟨not_lt.mp hcount, ?_⟩
    simp only [if_neg hcount] at h
    exact Option.some.inj (h.symm.trans List.mapM_pure)

lemma partsOf_buildChunks : PartsOf envelope parts := by
  obtain ⟨hcount, rfl⟩ := buildChunks_eq_some h
  refine ⟨?_, ?_⟩
  · intro part hpart
    obtain ⟨chunk, -, rfl⟩ := List.mem_map.mp hpart
    exact ⟨rfl, rfl⟩
  · rw [List.pairwise_map, List.pairwise_iff_getElem]
    intro i j hi hj hlt
    have hmax : segmentCountMax < 2 ^ 64 := by decide
    simp only [List.length_zipIdx, chunksOf, List.length_map, List.length_range] at hj
    have hsmall : ∀ k ≤ j, k % 2 ^ 64 = k := fun k hk => Nat.mod_eq_of_lt (by omega)
    simp only [List.getElem_zipIdx, ServerCodec.chunkEnvelope, ServerEnvelope.segment,
      ServerEvent.segmentId, Option.map_some, Option.getD_some, Nat.zero_add, Fin.val_ofNat]
    rw [hsmall i hlt.le, hsmall j le_rfl]
    exact hlt

omit h

lemma partsOf_splitLoop (h : codec.splitLoop envelope raw segmentCount = some parts) :
    PartsOf envelope parts := by
  fun_induction ServerCodec.splitLoop codec envelope raw segmentCount with
  | case1 segmentCount chunkSize hfit => exact partsOf_buildChunks h
  | case2 segmentCount chunkSize hfit hone =>
    cases h
    exact .nil
  | case3 segmentCount chunkSize hfit hone ih => exact ih h

lemma partsOf_split (h : codec.splitServerEnvelopeForTransport envelope = some parts) :
    PartsOf envelope parts := by
  unfold ServerCodec.splitServerEnvelopeForTransport at h
  have hwhole : some [envelope] = some parts → PartsOf envelope parts := by
    intro heq
    cases heq
    exact .single
  have hnothing : some [] = some parts → PartsOf envelope parts := by
    intro heq
    cases heq
    exact .nil
  cases hevent : envelope.event with
  | serverMessage message =>
    rw [hevent] at h
    simp only [Option.bind_eq_bind, Option.bind_eq_some_iff] at h
    obtain ⟨size, -, h⟩ := h
    split at h
    · exact hwhole h
    obtain ⟨raw, -, h⟩ := Option.bind_eq_some_iff.mp h
    split at h
    · exact hnothing h
    obtain ⟨minimalLen, -, h⟩ := Option.bind_eq_some_iff.mp h
    split at h
    · exact hnothing h
    · exact partsOf_splitLoop h
  | serverMessageChunk segmentId segmentCount size text =>
    rw [hevent] at h
    exact hwhole h
  | ack =>
    rw [hevent] at h
    exact hwhole h
  | pong status =>
    rw [hevent] at h
    exact hwhole h

end parts

end Codex.RemoteControl
