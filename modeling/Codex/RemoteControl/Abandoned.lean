import Codex.RemoteControl.Reassembly
import Mathlib.Data.List.Dedup

/-!
# A message after an abandoned one

The first chunk of a newer message meets whatever its client left behind. An incomplete message of
another stream is replaced, and the chunk is kept; one of the same stream is dropped, and the chunk
with it, so that the rest of the newer message finds nothing to continue.

* `forwarded_iff`: **a message is forwarded exactly where its stream left nothing incomplete**;
* `forwarded_fails`: a message that follows an abandoned one of its stream.
-/

namespace Codex.RemoteControl

open Codex.Lib

/-! ### Well-formed messages -/

/-- `decoded_len_estimate`, which is documented not to be too small. -/
def Codec.EstimatesLength (codec : Codec) : Prop :=
  ∀ text bytes, codec.decode text = some bytes → bytes.length ≤ decodedLenEstimate (byteLen text)

/-- A text that is not empty and decodes to no more bytes than its length lets expect. -/
def Codec.Admits (codec : Codec) (text : Text) : Prop :=
  text ≠ [] ∧ ∀ chunk, codec.decode text = some chunk →
    chunk.length ≤ decodedLenEstimate (byteLen text)

/-- The texts are the chunks of a message, and decode to these bytes. -/
structure IsMessage (codec : Codec) (metadata : ClientSegmentMetadata) (texts : List Text)
    (chunks : List (List UInt8)) (message : JSONRPCMessage) : Prop where
  counted : texts.length = metadata.segmentCount
  count_le : metadata.segmentCount ≤ segmentCountMax
  size_pos : 0 < metadata.messageSizeBytes
  size_le : metadata.messageSizeBytes ≤ reassembledMaxBytes
  nonempty : ∀ text ∈ texts, text ≠ []
  decoded : texts.map codec.decode = chunks.map some
  sized : chunks.flatten.length = metadata.messageSizeBytes
  parsed : codec.parse chunks.flatten = some message

/-- The envelope of a chunk of the message. -/
def MessageKey.chunk (key : MessageKey) (segmentId : ℕ) (text : Text) : ClientEnvelope where
  event := .clientMessageChunk segmentId key.metadata.segmentCount key.metadata.messageSizeBytes
    text
  clientId := key.clientId
  streamId := some key.streamId
  seqId := some key.metadata.seqId

namespace ClientSegmentReassembler

/-- The client of a call. -/
def Call.clientId : Call → ClientId
  | .observe envelope _ _ => envelope.clientId
  | .invalidateStream clientId _ => clientId
  | .invalidateClient clientId => clientId

/-- The calls of the client are the arrivals of these chunks, in their order. -/
def Arrive (key : MessageKey) (texts : List Text) (arrivals : List Call) : Prop :=
  (arrivals.filter (·.clientId = key.clientId)).map Call.envelope =
    texts.zipIdx.map fun (text, segmentId) => some (key.chunk segmentId text)

/-- The sequence number is greater than that of any earlier chunk of the client and stream. -/
def Newer (key : MessageKey) (calls : List Call) : Prop :=
  ∀ envelope ∈ received calls, envelope.clientId = key.clientId →
    envelope.streamId = some key.streamId → envelope.chunk ≠ none →
    ∀ seqId ∈ envelope.seqId, seqId < key.metadata.seqId

section step

variable {reassembler : ClientSegmentReassembler} {codec : Codec} {key : MessageKey}
  {clients : List ClientId} {clientId other : ClientId} {streamId : StreamId}
  {assembly : ClientSegmentAssembly} {metadata : ClientSegmentMetadata} {text : Text}
  {chunk : List UInt8} {segmentId now : ℕ} {rank : ClientId → ℕ} {call : Call}

/-! ### Other clients -/

/-- Assemblies are held for these clients only. -/
def HeldFor (reassembler : ClientSegmentReassembler) (clients : List ClientId) : Prop :=
  ∀ clientId, (reassembler.get clientId).isSome → clientId ∈ clients

lemma HeldFor.len_le (h : reassembler.HeldFor clients) : reassembler.len ≤ clients.length := by
  have hlength : reassembler.len = reassembler.assemblies.keys.length := by
    rw [AList.keys, List.keys, List.length_map, len]
  rw [hlength]
  refine (List.subperm_of_subset (AList.keys_nodup _) ?_).length_le
  intro clientId hmem
  exact h clientId (AList.lookup_isSome.mpr hmem)

variable (h : reassembler.len < segmentAssemblyMaxCount)
include h

lemma evictAssembliesIfFull_eq_self : reassembler.evictAssembliesIfFull rank = reassembler := by
  unfold evictAssembliesIfFull
  cases reassembler.len with
  | zero => rfl
  | succ rounds => rw [evictRounds, if_neg (not_le.mpr h)]

lemma get_openAssembly_of_ne (hother : other ≠ clientId) :
    (reassembler.openAssembly clientId streamId metadata now rank).get other =
      reassembler.get other := by
  unfold openAssembly
  split
  · split
    · exact get_insert_of_ne hother
    · rfl
  · rw [get_insert_of_ne hother, evictAssembliesIfFull_eq_self h]

lemma get_observe_of_ne {envelope : ClientEnvelope} (hother : other ≠ envelope.clientId) :
    (reassembler.observe codec envelope now rank).2.get other = reassembler.get other := by
  rcases reassembler.observe_cases codec envelope now rank with
    ⟨-, heq⟩ | ⟨-, heq⟩ | ⟨streamId, -, heq⟩ |
    ⟨streamId, metadata, segmentId, text, -, -, -, -, heq⟩
  · rw [heq]
  · rw [heq]
  · rw [heq, get_removeAssembly_of_ne hother]
  · have hopen : (reassembler.openAssembly envelope.clientId streamId metadata now rank).get other =
        reassembler.get other := get_openAssembly_of_ne h hother
    rw [heq, observeChunk]
    split
    · exact hopen
    simp only
    split
    · rw [get_insert_of_ne hother, hopen]
    · rw [get_insert_of_ne hother, hopen]
    · rw [get_removeAssembly_of_ne hother, get_insert_of_ne hother, hopen]
    · rw [get_removeAssembly_of_ne hother, get_insert_of_ne hother, hopen]

/-- A call of another client leaves the assembly alone, as long as none is evicted. -/
theorem get_step_of_ne (hother : other ≠ call.clientId) :
    (step codec reassembler call).get other = reassembler.get other := by
  cases call with
  | observe envelope now rank => exact get_observe_of_ne h hother
  | invalidateStream clientId streamId => exact get_removeAssembly_of_ne hother
  | invalidateClient clientId => exact get_remove_of_ne hother

omit h

lemma HeldFor.step (h : reassembler.HeldFor clients) (hcall : call.clientId ∈ clients) :
    (step codec reassembler call).HeldFor clients := by
  intro clientId hsome
  obtain ⟨assembly, hget⟩ := Option.isSome_iff_exists.mp hsome
  rcases get_step hget with ⟨hbefore, -⟩ | ⟨envelope, before, chunk, now, hobserve, rfl, -, -⟩
  · exact h clientId (Option.isSome_of_eq_some hbefore)
  · cases call with
    | observe observed now rank =>
      cases hobserve
      exact hcall
    | invalidateStream clientId streamId => exact nomatch hobserve
    | invalidateClient clientId => exact nomatch hobserve

/-! ### The chunks of a message -/

variable (reassembler)

/-- An assembly of the message that has collected so much of it. -/
def Collects (key : MessageKey) (raw : List UInt8) (nextSegmentId : ℕ) : Prop :=
  ∃ assembly, reassembler.get key.clientId = some assembly ∧ assembly.streamId = key.streamId ∧
    assembly.metadata = key.metadata ∧ assembly.raw = raw ∧
    assembly.nextSegmentId = nextSegmentId

/-- Nothing is held that stands in the way of the message, whose first chunk comes next. -/
def Ready (key : MessageKey) (raw : List UInt8) (nextSegmentId : ℕ) : Prop :=
  reassembler.Collects key raw nextSegmentId ∨
    ¬ reassembler.Holds key.clientId key.streamId ∧ raw = [] ∧ nextSegmentId = 0

variable {reassembler}

lemma update_next (hmetadata : assembly.metadata = metadata)
    (hdecode : codec.decode text = some chunk)
    (hestimate : chunk.length ≤ decodedLenEstimate (byteLen text))
    (hfits : assembly.raw.length + chunk.length ≤ metadata.messageSizeBytes) :
    assembly.update codec metadata assembly.nextSegmentId text now =
      ((assembly.append chunk now).updateAfterChunk codec, assembly.append chunk now) := by
  have hslice : codec.decodeSlice text (min metadata.messageSizeBytes
      (assembly.raw.length + decodedLenEstimate (byteLen text)) - assembly.raw.length) =
      some chunk := by
    rw [Codec.decodeSlice, hdecode, Option.filter_some, if_pos]
    rw [decide_eq_true_iff]
    omega
  rw [ClientSegmentAssembly.update, if_neg (by rw [hmetadata]; exact lt_irrefl _),
    if_neg (not_not.mpr hmetadata), if_neg (lt_irrefl _), if_neg (not_not.mpr rfl)]
  simp only [hslice]

variable {raw : List UInt8}

lemma not_shouldIgnoreChunk (h : reassembler.Ready key raw segmentId) :
    reassembler.shouldIgnoreChunk key.clientId key.streamId key.metadata.seqId segmentId =
      false := by
  unfold shouldIgnoreChunk
  rw [Option.any_eq_false_iff_get]
  intro hsome
  rw [decide_eq_false_iff_not]
  rintro ⟨hstream, hseen⟩
  rcases h with ⟨assembly, hget, -, hmetadata, -, hnext⟩ | ⟨hnot, -⟩
  · simp only [hget, Option.get_some, hmetadata] at hseen
    omega
  · exact hnot ⟨_, (Option.some_get hsome).symm, hstream⟩

lemma Ready.openAssembly (h : reassembler.Ready key raw segmentId) (now : ℕ) (rank : ClientId → ℕ) :
    (reassembler.openAssembly key.clientId key.streamId key.metadata now rank).Collects key raw
      segmentId := by
  obtain ⟨assembly, hopened, hstream, hmet⟩ :=
    get_openAssembly_self reassembler key.clientId key.streamId key.metadata now rank
  refine ⟨assembly, hopened, hstream, ?_⟩
  rcases h with ⟨held, hget, hsame, hmetadata, hraw, hnext⟩ | ⟨hnot, rfl, rfl⟩
  · rcases hmet with hheld | ⟨hnone, -⟩
    · obtain rfl := Option.some.inj (hget.symm.trans hheld)
      exact ⟨hmetadata, hraw, hnext⟩
    · exact absurd ⟨held, hget, hsame⟩ hnone
  · rcases hmet with hheld | ⟨-, rfl⟩
    · exact absurd ⟨assembly, hheld, hstream⟩ hnot
    · exact ⟨rfl, rfl, rfl⟩

lemma observe_eq_observeChunk
    (hignore : reassembler.shouldIgnoreChunk key.clientId key.streamId key.metadata.seqId
      segmentId = false)
    (hvalid : isInvalidChunk segmentId key.metadata.segmentCount key.metadata.messageSizeBytes
      text = false) :
    reassembler.observe codec (key.chunk segmentId text) now rank =
      reassembler.observeChunk codec (key.chunk segmentId text) key.streamId key.metadata segmentId
        text now rank := by
  unfold observe
  simp only [MessageKey.chunk, ClientSegmentMetadata.fromEnvelope, Option.map_some]
  refine (if_neg ?_).trans (if_neg ?_)
  · rw [Bool.not_eq_true]
    exact hignore
  · rw [Bool.not_eq_true]
    exact hvalid

/-- The chunk that comes next: it is not the last, or the message is forwarded. -/
theorem observe_next (h : reassembler.Ready key raw segmentId)
    (hvalid : isInvalidChunk segmentId key.metadata.segmentCount key.metadata.messageSizeBytes
      text = false)
    (hdecode : codec.decode text = some chunk)
    (hestimate : chunk.length ≤ decodedLenEstimate (byteLen text))
    (hfits : raw.length + chunk.length ≤ key.metadata.messageSizeBytes) :
    (segmentId + 1 < key.metadata.segmentCount →
      (reassembler.observe codec (key.chunk segmentId text) now rank).2.Collects key (raw ++ chunk)
        (segmentId + 1)) ∧
    (∀ message, segmentId + 1 = key.metadata.segmentCount →
      raw.length + chunk.length = key.metadata.messageSizeBytes →
      codec.parse (raw ++ chunk) = some message →
      (reassembler.observe codec (key.chunk segmentId text) now rank).1 =
        .forward { key.chunk segmentId text with event := .clientMessage message }) := by
  obtain ⟨assembly, hget, hstream, hmetadata, rfl, rfl⟩ := h.openAssembly now rank
  have hupdate : assembly.update codec key.metadata assembly.nextSegmentId text now =
      ((assembly.append chunk now).updateAfterChunk codec, assembly.append chunk now) :=
    update_next hmetadata hdecode hestimate hfits
  rw [observe_eq_observeChunk (not_shouldIgnoreChunk h) hvalid, observeChunk]
  constructor
  · intro hmore
    have hafter : (assembly.append chunk now).updateAfterChunk codec = .pending := by
      rw [ClientSegmentAssembly.updateAfterChunk, if_pos]
      rw [← hmetadata] at hmore
      exact hmore
    simp only [MessageKey.chunk, hget, hupdate, hafter]
    exact ⟨_, get_insert_self, hstream, hmetadata, rfl, rfl⟩
  · intro message hlast hsize hparse
    have hafter : (assembly.append chunk now).updateAfterChunk codec = .complete message := by
      rw [ClientSegmentAssembly.updateAfterChunk, if_neg, if_neg]
      · rw [ClientSegmentAssembly.append, hparse]
      · rw [not_not, ClientSegmentAssembly.append, List.length_append, hmetadata]
        exact hsize
      · rw [ClientSegmentAssembly.append, hmetadata, hlast]
        exact lt_irrefl _
    simp only [MessageKey.chunk, hget, hupdate, hafter]

/-! ### Chunks that are lost -/

/-- The next chunk continues nothing, or meets an older message of its stream. -/
def Blocked (reassembler : ClientSegmentReassembler) (key : MessageKey) (segmentId : ℕ) : Prop :=
  reassembler.get key.clientId = none ∧ 0 < segmentId ∨
    ∃ held, reassembler.get key.clientId = some held ∧ held.streamId = key.streamId ∧
      held.metadata.seqId < key.metadata.seqId

lemma Blocked.not_shouldIgnoreChunk (h : reassembler.Blocked key segmentId) :
    reassembler.shouldIgnoreChunk key.clientId key.streamId key.metadata.seqId segmentId =
      false := by
  unfold shouldIgnoreChunk
  rcases h with ⟨hget, -⟩ | ⟨held, hget, -, hseq⟩
  · rw [hget]
    rfl
  · rw [hget, Option.any_some, decide_eq_false_iff_not]
    rintro ⟨-, hseen⟩
    omega

/-- The assembly that a lost chunk meets, or opens, is not its own. -/
theorem Blocked.openAssembly (h : reassembler.Blocked key segmentId) (now : ℕ)
    (rank : ClientId → ℕ) :
    ∃ assembly, (reassembler.openAssembly key.clientId key.streamId key.metadata now rank).get
        key.clientId = some assembly ∧ assembly.streamId = key.streamId ∧
      assembly.metadata.seqId ≤ key.metadata.seqId ∧
      (assembly.metadata = key.metadata → assembly.nextSegmentId < segmentId) := by
  obtain ⟨assembly, hopened, hstream, hmet⟩ :=
    get_openAssembly_self reassembler key.clientId key.streamId key.metadata now rank
  refine ⟨assembly, hopened, hstream, ?_⟩
  rcases h with ⟨hget, hpos⟩ | ⟨held, hget, hsame, hseq⟩
  · rcases hmet with hheld | ⟨-, rfl⟩
    · cases hget.symm.trans hheld
    · exact ⟨le_rfl, fun _ => hpos⟩
  · rcases hmet with hheld | ⟨hnone, -⟩
    · obtain rfl := Option.some.inj (hget.symm.trans hheld)
      refine ⟨hseq.le, fun hequal => ?_⟩
      rw [hequal] at hseq
      exact absurd hseq (lt_irrefl _)
    · exact absurd ⟨held, hget, hsame⟩ hnone

lemma Blocked.observe (h : reassembler.Blocked key segmentId)
    (hvalid : isInvalidChunk segmentId key.metadata.segmentCount key.metadata.messageSizeBytes
      text = false) :
    (reassembler.observe codec (key.chunk segmentId text) now rank).1 = .dropped ∧
      (reassembler.observe codec (key.chunk segmentId text) now rank).2.get key.clientId =
        none := by
  obtain ⟨assembly, hget, hstream, hseq, hnext⟩ := h.openAssembly now rank
  have hdrop : assembly.update codec key.metadata segmentId text now = (.drop, assembly) := by
    rw [ClientSegmentAssembly.update, if_neg (not_lt.mpr hseq)]
    by_cases hequal : assembly.metadata = key.metadata
    · have hlt := hnext hequal
      rw [if_neg (not_not.mpr hequal), if_neg (not_lt.mpr hlt.le), if_pos hlt.ne']
    · rw [if_pos hequal]
  rw [observe_eq_observeChunk h.not_shouldIgnoreChunk hvalid, observeChunk]
  simp only [MessageKey.chunk, hget, hdrop]
  exact ⟨trivial, get_insert_removeAssembly hstream⟩

end step

/-! ### The arrival of a message -/

/-- What one chunk of a message preserves, and other clients leave alone. -/
structure Preserved (codec : Codec) (key : MessageKey)
    (P : ClientSegmentReassembler → List UInt8 → ℕ → Prop) : Prop where
  same : ∀ reassembler reassembler' raw segmentId,
    reassembler'.get key.clientId = reassembler.get key.clientId → P reassembler raw segmentId →
    P reassembler' raw segmentId
  next : ∀ reassembler raw segmentId text chunk now rank, P reassembler raw segmentId →
    segmentId + 1 < key.metadata.segmentCount → codec.Admits text → codec.decode text = some chunk →
    raw.length + chunk.length ≤ key.metadata.messageSizeBytes →
    P (reassembler.observe codec (key.chunk segmentId text) now rank).2 (raw ++ chunk)
      (segmentId + 1)

section arrival

variable {codec : Codec} {key : MessageKey} {clients : List ClientId}
  {P : ClientSegmentReassembler → List UInt8 → ℕ → Prop}

/-- What one chunk preserves, and other clients leave alone, holds after all chunks but the last. -/
theorem arrive_run (hfew : clients.length < segmentAssemblyMaxCount)
    (hpreserved : Preserved codec key P)
    {arrivals : List Call} (hclients : ∀ call ∈ arrivals, call.clientId ∈ clients)
    {reassembler : ClientSegmentReassembler} (hheld : reassembler.HeldFor clients)
    {texts : List Text} {chunks : List (List UInt8)} {raw : List UInt8} {segmentId : ℕ}
    (harrive : (arrivals.filter (·.clientId = key.clientId)).map Call.envelope =
      (texts.zipIdx segmentId).map fun (text, i) => some (key.chunk i text))
    (hdecode : texts.map codec.decode = chunks.map some)
    (hadmits : ∀ text ∈ texts, codec.Admits text)
    (hcount : segmentId + texts.length < key.metadata.segmentCount)
    (hfits : raw.length + chunks.flatten.length ≤ key.metadata.messageSizeBytes)
    (h : P reassembler raw segmentId) :
    P (arrivals.foldl (step codec) reassembler) (raw ++ chunks.flatten)
      (segmentId + texts.length) := by
  induction arrivals generalizing reassembler texts chunks raw segmentId with
  | nil =>
    have htexts : texts = [] := by
      cases texts with
      | nil => rfl
      | cons text texts => exact nomatch harrive
    obtain rfl := htexts
    obtain rfl : chunks = [] := by simpa using hdecode.symm
    rw [List.flatten_nil, List.append_nil]
    exact h
  | cons call arrivals ih =>
    obtain ⟨hcall, hclients⟩ := List.forall_mem_cons.mp hclients
    rw [List.foldl_cons]
    by_cases hown : call.clientId = key.clientId
    · rw [List.filter_cons_of_pos (by simpa using hown), List.map_cons] at harrive
      cases texts with
      | nil => exact nomatch harrive
      | cons text texts =>
        cases chunks with
        | nil => exact nomatch hdecode
        | cons chunk chunks =>
          rw [List.zipIdx_cons, List.map_cons, List.cons.injEq] at harrive
          rw [List.map_cons, List.map_cons, List.cons.injEq] at hdecode
          obtain ⟨htext, hadmits⟩ := List.forall_mem_cons.mp hadmits
          rw [List.length_cons] at hcount ⊢
          rw [List.flatten_cons, List.length_append] at hfits
          rw [List.flatten_cons, ← List.append_assoc, Nat.add_comm texts.length, ← Nat.add_assoc]
          refine ih hclients (hheld.step hcall) harrive.2 hdecode.2 hadmits (by omega) ?_ ?_
          · rw [List.length_append]
            omega
          · cases call with
            | observe envelope now rank =>
              obtain rfl := Option.some.inj harrive.1
              exact hpreserved.next reassembler raw segmentId text chunk now rank h (by omega) htext
                hdecode.1 (by omega)
            | invalidateStream clientId streamId => exact nomatch harrive.1
            | invalidateClient clientId => exact nomatch harrive.1
    · rw [List.filter_cons_of_neg (by simpa using hown)] at harrive
      refine ih hclients (hheld.step hcall) harrive hdecode hadmits hcount hfits ?_
      have hlen := hheld.len_le.trans_lt hfew
      exact hpreserved.same _ _ _ _ (get_step_of_ne hlen (Ne.symm hown)) h

variable {calls : List Call}

lemma heldFor_run (hclients : ∀ call ∈ calls, call.clientId ∈ clients) :
    (run codec calls).HeldFor clients := by
  refine List.foldlRecOn (motive := fun reassembler => reassembler.HeldFor clients) calls
    (step codec) ?_ ?_
  · intro clientId hsome
    exact nomatch hsome
  · intro reassembler h call hcall
    exact h.step (hclients call hcall)

/-- An assembly is held because of a chunk of its message. -/
theorem exists_received_of_get {clientId : ClientId}
    {assembly : ClientSegmentAssembly} (h : (run codec calls).get clientId = some assembly) :
    ∃ envelope ∈ received calls, ∃ i, IsSegment (assembly.key clientId) i envelope := by
  induction calls using List.reverseRecOn generalizing assembly with
  | nil => exact nomatch h
  | append_singleton calls call ih =>
    rw [run_append] at h
    rw [received_append]
    rcases get_step h with ⟨hbefore, -⟩ | ⟨envelope, before, chunk, now, hcall, rfl, haccepts, rfl⟩
    · obtain ⟨envelope, henvelope, hsegment⟩ := ih hbefore
      exact ⟨envelope, List.mem_append_left _ henvelope, hsegment⟩
    · refine ⟨envelope, List.mem_append_right _ ?_, before.nextSegmentId, haccepts.segment⟩
      rw [hcall]
      exact List.mem_singleton_self envelope

/-- What the stream of a newer message holds is older. -/
theorem Newer.seqId_lt (h : Newer key calls) {held : ClientSegmentAssembly}
    (hget : (run codec calls).get key.clientId = some held)
    (hstream : held.streamId = key.streamId) : held.metadata.seqId < key.metadata.seqId := by
  obtain ⟨envelope, hmem, i, hclient, hsame, hmetadata, hchunk⟩ := exists_received_of_get hget
  refine h envelope hmem hclient ?_ ?_ _ ?_
  · rw [hsame, ← hstream]
    rfl
  · rintro hnone
    rw [hnone] at hchunk
    exact nomatch hchunk
  · unfold ClientSegmentMetadata.fromEnvelope at hmetadata
    split at hmetadata
    · obtain ⟨seqId, hseq, hkey⟩ := Option.map_eq_some_iff.mp hmetadata
      rw [hseq, ← show _ = held.metadata from hkey]
      rfl
    · exact nomatch hmetadata

end arrival

/-! ### Forwarding -/

variable {metadata : ClientSegmentMetadata}

lemma isInvalidChunk_of_isMessage {codec : Codec}
    {texts : List Text} {chunks : List (List UInt8)} {message : JSONRPCMessage}
    (h : IsMessage codec metadata texts chunks message) {segmentId : ℕ} {text : Text}
    (hid : segmentId < metadata.segmentCount) (htext : text ≠ []) :
    isInvalidChunk segmentId metadata.segmentCount metadata.messageSizeBytes text = false := by
  have hcount := h.count_le
  have hpos := h.size_pos
  have hsize := h.size_le
  rw [isInvalidChunk, decide_eq_false_iff_not]
  rintro (hzero | hmany | hlate | hempty | hlong | hnil)
  · omega
  · omega
  · omega
  · omega
  · omega
  · exact htext hnil

/-- The chunks before the last one, and the last one. -/
theorem exists_lastChunk {codec : Codec} {texts : List Text}
    {text : Text} {chunks : List (List UInt8)} {message : JSONRPCMessage}
    (h : IsMessage codec metadata (texts ++ [text]) chunks message) :
    ∃ init last, chunks = init ++ [last] ∧ texts.map codec.decode = init.map some ∧
      codec.decode text = some last ∧ texts.length + 1 = metadata.segmentCount ∧
      init.flatten.length + last.length = metadata.messageSizeBytes ∧
      codec.parse (init.flatten ++ last) = some message := by
  have hdecoded := h.decoded
  have hcounted := h.counted
  have hsized := h.sized
  have hparsed := h.parsed
  rw [List.map_append, List.map_singleton] at hdecoded
  obtain ⟨init, rest, rfl, hinit, hrest⟩ := List.map_eq_append_iff.mp hdecoded.symm
  obtain ⟨last, rfl, hlast⟩ := List.map_eq_singleton_iff.mp hrest
  rw [List.length_append, List.length_singleton] at hcounted
  rw [List.flatten_append, List.flatten_singleton] at hsized hparsed
  rw [List.length_append] at hsized
  exact ⟨init, last, rfl, hinit.symm, hlast.symm, hcounted, hsized, hparsed⟩

section message

variable {codec : Codec} {key : MessageKey} {texts : List Text} {text : Text}
  {chunks : List (List UInt8)} {message : JSONRPCMessage} {calls arrivals : List Call}
  (hmessage : IsMessage codec key.metadata (texts ++ [text]) chunks message)
include hmessage

/-- What the chunks before the last one preserve, and other clients leave alone, the last meets. -/
theorem arrive_message {P : ClientSegmentReassembler → List UInt8 → ℕ → Prop}

    (hadmits : ∀ text ∈ texts, codec.Admits text) (harrive : Arrive key texts arrivals)
    (hfew : ((calls ++ arrivals).map Call.clientId).dedup.length < segmentAssemblyMaxCount)
    (hpreserved : Preserved codec key P)
    (h : P (run codec calls) [] 0) :
    P (run codec (calls ++ arrivals)) chunks.dropLast.flatten texts.length := by
  obtain ⟨init, last, rfl, hdecode, -, hcounted, hsized, -⟩ := exists_lastChunk hmessage
  have hclients : ∀ call ∈ calls ++ arrivals,
      call.clientId ∈ ((calls ++ arrivals).map Call.clientId).dedup :=
    fun call hcall => List.mem_dedup.mpr (List.mem_map_of_mem hcall)
  have hheld : (run codec calls).HeldFor ((calls ++ arrivals).map Call.clientId).dedup :=
    heldFor_run fun call hcall => hclients call (List.mem_append_left _ hcall)
  have harrivals := fun call hcall => hclients call (List.mem_append_right calls hcall)
  have hinit : ([] : List UInt8).length + init.flatten.length ≤ key.metadata.messageSizeBytes := by
    rw [List.length_nil]
    omega
  have hafter := arrive_run hfew hpreserved harrivals hheld harrive hdecode hadmits (by omega)
    hinit h
  rw [List.nil_append, Nat.zero_add] at hafter
  rw [List.dropLast_concat, run, List.foldl_append]
  exact hafter

variable (hadmits : ∀ other ∈ texts ++ [text], codec.Admits other)
include hadmits

/-- A message is forwarded where nothing of its stream is held. -/
theorem forwarded_of_not_holds

    (harrive : Arrive key texts arrivals)
    (hfew : ((calls ++ arrivals).map Call.clientId).dedup.length < segmentAssemblyMaxCount)
    (hholds : ¬ (run codec calls).Holds key.clientId key.streamId) (now : ℕ)
    (rank : ClientId → ℕ) :
    ((run codec (calls ++ arrivals)).observe codec (key.chunk texts.length text) now rank).1 =
      .forward { key.chunk texts.length text with event := .clientMessage message } := by
  have hready : (run codec (calls ++ arrivals)).Ready key chunks.dropLast.flatten texts.length := by
    refine arrive_message
      (P := fun reassembler raw segmentId => reassembler.Ready key raw segmentId) hmessage
      (fun text htext => hadmits text (List.mem_append_left _ htext)) harrive hfew ⟨?_, ?_⟩
      (.inr ⟨hholds, rfl, rfl⟩)
    · intro reassembler reassembler' raw segmentId hsame h
      unfold Ready Collects Holds
      rw [hsame]
      exact h
    · intro reassembler raw segmentId text chunk now rank h hmore htext hdecode hfits
      have hvalid := isInvalidChunk_of_isMessage hmessage (Nat.lt_of_succ_lt hmore) htext.1
      exact .inl ((observe_next h hvalid hdecode (htext.2 chunk hdecode) hfits).1 hmore)
  obtain ⟨init, last, rfl, -, hlast, hcounted, hsized, hparsed⟩ := exists_lastChunk hmessage
  obtain ⟨hnonempty, hestimate⟩ := hadmits text (by simp)
  have hid : texts.length < key.metadata.segmentCount := by omega
  have hvalid := isInvalidChunk_of_isMessage hmessage hid hnonempty
  rw [List.dropLast_concat] at hready
  exact (observe_next hready hvalid hlast (hestimate last hlast) (by omega)).2 message hcounted
    hsized hparsed

/-- The last chunk is dropped where something older of its stream is held. -/
theorem dropped_of_holds

    (hnewer : Newer key calls)
    (harrive : Arrive key texts arrivals)
    (hfew : ((calls ++ arrivals).map Call.clientId).dedup.length < segmentAssemblyMaxCount)
    (hholds : (run codec calls).Holds key.clientId key.streamId) (now : ℕ)
    (rank : ClientId → ℕ) :
    ((run codec (calls ++ arrivals)).observe codec (key.chunk texts.length text) now rank).1 =
      .dropped := by
  obtain ⟨held, hget, hstream⟩ := hholds
  have hblocked : (run codec (calls ++ arrivals)).Blocked key texts.length := by
    refine arrive_message (P := fun reassembler _ segmentId => reassembler.Blocked key segmentId)
      hmessage (fun text htext => hadmits text (List.mem_append_left _ htext)) harrive hfew ⟨?_, ?_⟩
      (.inr ⟨held, hget, hstream, hnewer.seqId_lt hget hstream⟩)
    · intro reassembler reassembler' _ segmentId hsame h
      unfold Blocked
      rw [hsame]
      exact h
    · intro reassembler _ segmentId text chunk now rank h hmore htext _ _
      have hvalid := isInvalidChunk_of_isMessage hmessage (Nat.lt_of_succ_lt hmore) htext.1
      exact .inl ⟨(h.observe hvalid).2, Nat.succ_pos segmentId⟩
  obtain ⟨-, -, -, -, -, hcounted, -, -⟩ := exists_lastChunk hmessage
  have hnonempty := hmessage.nonempty text (by simp)
  exact (hblocked.observe (isInvalidChunk_of_isMessage hmessage (by omega) hnonempty)).1

end message

/-- **A message is forwarded with its last chunk exactly where its client left nothing incomplete on
its stream.** -/
theorem forwarded_iff {codec : Codec} (hcodec : codec.EstimatesLength) {key : MessageKey}
    {texts : List Text} {text : Text} {chunks : List (List UInt8)} {message : JSONRPCMessage}
    (hmessage : IsMessage codec key.metadata (texts ++ [text]) chunks message)
    {calls arrivals : List Call} (hnewer : Newer key calls) (harrive : Arrive key texts arrivals)
    (hfew : ((calls ++ arrivals).map Call.clientId).dedup.length < segmentAssemblyMaxCount)
    (now : ℕ) (rank : ClientId → ℕ) :
    ((run codec (calls ++ arrivals)).observe codec (key.chunk texts.length text) now rank).1 =
        .forward { key.chunk texts.length text with event := .clientMessage message } ↔
      ¬ (run codec calls).Holds key.clientId key.streamId := by
  have hadmits : ∀ other ∈ texts ++ [text], codec.Admits other := fun other hother =>
    ⟨hmessage.nonempty other hother, hcodec other⟩
  by_cases hholds : (run codec calls).Holds key.clientId key.streamId
  · refine iff_of_false ?_ (not_not.mpr hholds)
    rw [dropped_of_holds hmessage hadmits hnewer harrive hfew hholds]
    exact nofun
  · exact iff_of_true (forwarded_of_not_holds hmessage hadmits harrive hfew hholds now rank) hholds

/-- The notification `initialized` with this sequence number, on a stream of the client `c`. -/
def initializedKey (streamId : StreamId) (seqId : ℕ) : MessageKey :=
  ⟨"c".toList, streamId, ⟨seqId, 2, 24⟩⟩

/-- Its halves. -/
def firstHalf : Text := "eyJtZXRob2QiOiJp".toList

def lastHalf : Text := "bml0aWFsaXplZCJ9".toList

lemma initializedCodec_estimatesLength : initializedCodec.EstimatesLength := by
  intro text bytes h
  simp only [initializedCodec] at h
  split_ifs at h with hfirst hlast
  · rw [hfirst, ← Option.some.inj h]
    decide
  · rw [hlast, ← Option.some.inj h]
    decide

lemma isMessage_initialized (streamId : StreamId) (seqId : ℕ) :
    IsMessage initializedCodec (initializedKey streamId seqId).metadata [firstHalf, lastHalf]
      [asciiBytes "\x7b\"method\":\"i".toList, asciiBytes "nitialized\"\x7d".toList]
      (.notification "initialized".toList) where
  counted := rfl
  count_le := (by decide : 2 ≤ segmentCountMax)
  size_pos := (by decide : 0 < 24)
  size_le := (by decide : 24 ≤ reassembledMaxBytes)
  nonempty := by decide
  decoded := by decide +kernel
  sized := rfl
  parsed := by decide +kernel

/-- A chunk of another stream was left behind. -/
theorem forwarded_iff_otherStream :
    let key := initializedKey "s".toList 8
    let abandoned := (initializedKey "r".toList 9).chunk 0 firstHalf
    let calls := [Call.observe abandoned 1 (fun _ => 0)]
    let arrivals := [Call.observe (key.chunk 0 firstHalf) 2 (fun _ => 0)]
    ((run initializedCodec (calls ++ arrivals)).observe initializedCodec (key.chunk 1 lastHalf) 3
      fun _ => 0).1 = .forward { key.chunk 1 lastHalf with
        event := .clientMessage (.notification "initialized".toList) } := by
  intro key abandoned calls arrivals
  have hnewer : Newer key calls := by
    intro envelope hmem _ hstream
    rw [List.mem_singleton.mp hmem] at hstream
    cases hstream
  have hiff := @forwarded_iff initializedCodec initializedCodec_estimatesLength key [firstHalf]
    lastHalf _ _ (isMessage_initialized _ _) calls arrivals hnewer rfl (by decide) 3 fun _ => 0
  refine hiff.mpr ?_
  rintro ⟨held, hget, hstream⟩
  have hother : ∀ held, (run initializedCodec calls).get key.clientId = some held →
      held.streamId ≠ key.streamId := by decide +kernel
  exact hother held hget hstream

/-- **A chunk of the same stream was left behind**: both chunks of the newer message are dropped. -/
theorem forwarded_fails :
    let key := initializedKey "s".toList 8
    let abandoned := (initializedKey "s".toList 7).chunk 0 firstHalf
    let calls := [Call.observe abandoned 1 (fun _ => 0)]
    let arrivals := [Call.observe (key.chunk 0 firstHalf) 2 (fun _ => 0)]
    Newer key calls ∧ Arrive key [firstHalf] arrivals ∧
      ((run initializedCodec calls).observe initializedCodec (key.chunk 0 firstHalf) 2
        fun _ => 0).1 = .dropped ∧
      ((run initializedCodec (calls ++ arrivals)).observe initializedCodec (key.chunk 1 lastHalf) 3
        fun _ => 0).1 = .dropped := by
  intro key abandoned calls arrivals
  refine ⟨?_, rfl, by decide +kernel, by decide +kernel⟩
  intro envelope hmem _ _ _ seqId hseq
  rw [List.mem_singleton.mp hmem] at hseq
  rw [← Option.mem_some_iff.mp hseq]
  decide

end ClientSegmentReassembler

end Codex.RemoteControl
