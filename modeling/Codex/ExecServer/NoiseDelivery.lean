import Codex.ExecServer.NoiseStream
import Codex.Lib.Result
import Mathlib.Algebra.Order.BigOperators.Group.List
import Mathlib.Data.List.Dedup

/-!
# The Noise relay delivers the messages of a stream

The records of a stream arrive in any order and more than once. As long as they stay within the
reorder window, they are decrypted in the order in which they were encrypted, and what the channel
takes is a prefix of the messages that were sent; it is all of them when every record has arrived.

The bytes of the messages, the records and the frames are three cuts of one stream. `Written` says
how frames belong to records, `Decoded` how a number of bytes belongs to messages, and `Ordered`
how many records were released by what has arrived.

* `Ordered.push`: the reorder buffer releases the records up to the first that is missing;
* `delivered_run`: the stream as a whole.
-/

namespace Codex.ExecServer

open Codex.Lib

variable {Message Send Receive : Type} {env : NoiseEnv Message Send Receive}

/-! ### What is known of JSON and of the cipher -/

/-- Text written as JSON is read back, and no text is no JSON; what one end encrypts, the other end
decrypts, record by record in the same order. -/
structure NoiseEnv.Lawful (env : NoiseEnv Message Send Receive)
    (agrees : Send → Receive → Prop) : Prop where
  fromSlice_toWriter : ∀ message bytes, env.toWriter message = .ok bytes →
    env.fromSlice bytes = .ok message
  fromSlice_nil : ∀ message, env.fromSlice [] ≠ .ok message
  receiveVec_sendVec : ∀ send receive plaintext ciphertext send', agrees send receive →
    env.sendVec send plaintext = .ok (ciphertext, send') →
      ciphertext.length = plaintext.length + tagLen ∧
        ∃ receive', env.receiveVec receive ciphertext = .ok (plaintext, receive') ∧
          agrees send' receive'

/-- The ciphertexts, decrypted one after the other. -/
inductive Reads (env : NoiseEnv Message Send Receive) :
    Receive → List (List UInt8) → List (List UInt8) → Receive → Prop where
  | nil (receive : Receive) : Reads env receive [] [] receive
  | cons {receive next last : Receive} {record ciphertext : List UInt8}
      {records ciphertexts : List (List UInt8)} :
      env.decrypt receive ciphertext = .ok (record, next) →
        Reads env next records ciphertexts last →
        Reads env receive (record :: records) (ciphertext :: ciphertexts) last

variable {records ciphertexts : List (List UInt8)}

lemma Reads.append {receive next last : Receive}
    {records' ciphertexts' : List (List UInt8)} (h : Reads env receive records ciphertexts next)
    (h' : Reads env next records' ciphertexts' last) :
    Reads env receive (records ++ records') (ciphertexts ++ ciphertexts') last := by
  induction h with
  | nil receive => exact h'
  | cons hdecrypt _ ih => exact .cons hdecrypt (ih h')

lemma Reads.length_eq {receive last : Receive}
    (h : Reads env receive records ciphertexts last) : records.length = ciphertexts.length := by
  induction h with
  | nil receive => rfl
  | cons _ _ ih => rw [List.length_cons, List.length_cons, ih]

/-- A record that was encrypted is decrypted at the other end. -/
theorem NoiseEnv.Lawful.decrypt_encrypt {agrees : Send → Receive → Prop}
    (hlawful : env.Lawful agrees) {send send' : Send} {receive : Receive}
    {plaintext ciphertext : List UInt8} (hagrees : agrees send receive)
    (h : env.encrypt send plaintext = .ok (ciphertext, send')) :
    ∃ receive', env.decrypt receive ciphertext = .ok (plaintext, receive') ∧
      agrees send' receive' := by
  unfold NoiseEnv.encrypt at h
  obtain ⟨_, hlen, hsend⟩ := bind_eq_ok.mp h
  rw [mapError_eq_ok] at hsend
  have hbound : plaintext.length + tagLen ≤ maxMessageLen := by
    unfold ensureNoiseFrameLen at hlen
    split_ifs at hlen with hgt
    exact Nat.not_lt.mp hgt
  obtain ⟨hlength, receive', hreceive, hagrees'⟩ :=
    hlawful.receiveVec_sendVec _ _ _ _ _ hagrees hsend
  have hshort : ¬ ciphertext.length < tagLen := by omega
  have hlong : ¬ ciphertext.length > maxMessageLen := by omega
  refine ⟨receive', ?_, hagrees'⟩
  simp only [NoiseEnv.decrypt, ensureNoiseFrameLen, if_neg hshort, if_neg hlong, hreceive]
  rfl

/-! ### The writer task -/

/-- The frames of some records: encrypted in their order and numbered from `first` on. -/
structure Written (env : NoiseEnv Message Send Receive) (receive : Receive) (first : ℕ)
    (records : List (List UInt8)) (sent : List RelayData) (last : Receive) : Prop where
  reads : Reads env receive records (sent.map (·.payload)) last
  numbered : sent.map (·.seq) = List.range' first sent.length
  bound : first + sent.length ≤ u32Max

lemma Written.append {receive next last : Receive} {first : ℕ}
    {records records' : List (List UInt8)} {sent later : List RelayData}
    (h : Written env receive first records sent next)
    (h' : Written env next (first + sent.length) records' later last) :
    Written env receive first (records ++ records') (sent ++ later) last where
  reads := by
    rw [List.map_append]
    exact h.reads.append h'.reads
  numbered := by
    rw [List.map_append, h.numbered, h'.numbered, List.length_append, List.range'_append_1]
  bound := by
    have := h'.bound
    rw [List.length_append]
    omega

section writer

variable {agrees : Send → Receive → Prop} (hlawful : env.Lawful agrees)

include hlawful

lemma written_writeRecord {writer writer' : NoiseWriter Send} {record : List UInt8}
    {data : RelayData} {receive : Receive} (hagrees : agrees writer.send receive)
    (hseq : writer.nextSeq ≤ u32Max) (h : writer.writeRecord env record = .ok (data, writer')) :
    ∃ next, Written env receive writer.nextSeq [record] [data] next ∧
      agrees writer'.send next ∧ writer'.nextSeq = writer.nextSeq + 1 := by
  unfold NoiseWriter.writeRecord at h
  obtain ⟨⟨seq, nextSeq⟩, htake, h⟩ := bind_eq_ok.mp h
  obtain ⟨⟨ciphertext, send⟩, hencrypt, h⟩ := bind_eq_ok.mp h
  rw [mapError_eq_ok] at hencrypt
  obtain ⟨next, hdecrypt, hagrees'⟩ := hlawful.decrypt_encrypt hagrees hencrypt
  cases h
  unfold NoiseWriter.takeNextSequence at htake
  split_ifs at htake with hlast
  cases htake
  refine ⟨next, ⟨.cons hdecrypt (.nil next), rfl, ?_⟩, hagrees', rfl⟩
  rw [List.length_singleton]
  omega

/-- The records of a message; after an error some of them were sent. -/
theorem written_writeRecords (records : List (List UInt8)) (writer : NoiseWriter Send)
    (receive : Receive) (hagrees : agrees writer.send receive) (hseq : writer.nextSeq ≤ u32Max) :
    ∃ encrypted next, encrypted <+: records ∧
      Written env receive writer.nextSeq encrypted (writer.writeRecords env records).1 next ∧
      ∀ writer', (writer.writeRecords env records).2 = .ok writer' → encrypted = records ∧
        agrees writer'.send next ∧
        writer'.nextSeq = writer.nextSeq + (writer.writeRecords env records).1.length := by
  induction records generalizing writer receive with
  | nil =>
    refine ⟨[], receive, List.prefix_rfl, ⟨.nil receive, rfl, hseq⟩, ?_⟩
    intro writer' h
    cases h
    exact ⟨rfl, hagrees, rfl⟩
  | cons record records ih =>
    rcases hrecord : writer.writeRecord env record with error | ⟨data, writer₁⟩
    · simp only [NoiseWriter.writeRecords, hrecord]
      exact ⟨[], receive, List.nil_prefix, ⟨.nil receive, rfl, hseq⟩, nofun⟩
    · obtain ⟨next₁, hwritten₁, hagrees₁, hseq₁⟩ :=
        written_writeRecord hlawful hagrees hseq hrecord
      have hbound := hwritten₁.bound
      rw [List.length_singleton, ← hseq₁] at hbound
      obtain ⟨encrypted, next, hencrypted, hwritten, hok⟩ := ih writer₁ next₁ hagrees₁ hbound
      rw [hseq₁] at hwritten
      simp only [NoiseWriter.writeRecords, hrecord]
      refine ⟨record :: encrypted, next, ?_, hwritten₁.append hwritten, ?_⟩
      · exact List.cons_prefix_cons.mpr ⟨rfl, hencrypted⟩
      · intro writer' hwriter'
        obtain ⟨rfl, hagrees', hseq'⟩ := hok writer' hwriter'
        refine ⟨rfl, hagrees', ?_⟩
        rw [hseq', hseq₁, List.length_cons]
        omega

/-- The messages and their framed bytes. -/
abbrev Framed (env : NoiseEnv Message Send Receive) : List Message → List (List UInt8) → Prop :=
  List.Forall₂ fun message bytes => env.frameJsonrpcMessage message = .ok bytes

/-- The messages of a stream; after an error a first part of their bytes was sent. -/
theorem written_writeMessages {messages : List Message} {framed : List (List UInt8)}
    (hframed : Framed env messages framed) (writer : NoiseWriter Send) (receive : Receive)
    (hagrees : agrees writer.send receive) (hseq : writer.nextSeq ≤ u32Max) :
    ∃ records next, records.flatten <+: framed.flatten ∧
      (∀ record ∈ records, record.length ≤ noiseRecordPlaintextLen) ∧
      Written env receive writer.nextSeq records (writer.writeMessages env messages).1 next ∧
      ∀ writer', (writer.writeMessages env messages).2 = .ok writer' →
        records.flatten = framed.flatten := by
  induction hframed generalizing writer receive with
  | nil =>
    exact ⟨[], receive, List.nil_prefix, nofun, ⟨.nil receive, rfl, hseq⟩, fun _ _ => rfl⟩
  | @cons message bytes messages framed hbytes hframed ih =>
    obtain ⟨encrypted, next, hencrypted, hwritten, hok⟩ := written_writeRecords hlawful
      (chunks noiseRecordPlaintextLen bytes) writer receive hagrees hseq
    have hflatten : (chunks noiseRecordPlaintextLen bytes).flatten = bytes :=
      flatten_chunks (by decide) bytes
    have hsize : ∀ record ∈ encrypted, record.length ≤ noiseRecordPlaintextLen :=
      fun record hrecord => length_of_mem_chunks (hencrypted.subset hrecord)
    simp only [NoiseWriter.writeMessages, NoiseWriter.writeMessage, hbytes]
    rcases hresult : writer.writeRecords env (chunks noiseRecordPlaintextLen bytes) with
      ⟨sent, error | writer₁⟩
    · rw [hresult] at hwritten
      refine ⟨encrypted, next, ?_, hsize, hwritten, nofun⟩
      obtain ⟨rest, hrest⟩ := hencrypted
      refine ⟨rest.flatten ++ framed.flatten, ?_⟩
      rw [List.flatten_cons, ← List.append_assoc, ← List.flatten_append, hrest, hflatten]
    · rw [hresult] at hwritten hok
      obtain ⟨rfl, hagrees₁, hseq₁⟩ := hok writer₁ rfl
      obtain ⟨records, last, hrecords, hsizes, hlater, hwhole⟩ :=
        ih writer₁ next hagrees₁ (by rw [hseq₁]; exact hwritten.bound)
      rw [hseq₁] at hlater
      refine ⟨_, last, ?_, ?_, hwritten.append hlater, ?_⟩
      · rw [List.flatten_append, hflatten, List.flatten_cons]
        exact (List.prefix_append_right_inj _).mpr hrecords
      · intro record hrecord
        rcases List.mem_append.mp hrecord with hrecord | hrecord
        · exact hsize record hrecord
        · exact hsizes record hrecord
      · intro writer' hwriter'
        rw [List.flatten_append, hflatten, List.flatten_cons, hwhole writer' hwriter']

end writer

/-! ### The decoder -/

section round

variable {body rest : List UInt8} {rounds : ℕ} {taken : List Message}

lemma take_lengthPrefix (body rest : List UInt8) :
    (toBeBytes body.length ++ body ++ rest).take lengthPrefixBytes = toBeBytes body.length := by
  rw [List.append_assoc]
  exact List.take_left' (length_toBeBytes _)

lemma length_framed (body : List UInt8) :
    (toBeBytes body.length ++ body).length = lengthPrefixBytes + body.length := by
  rw [List.length_append, length_toBeBytes, lengthPrefixBytes]

lemma takeRounds_wait {buffered : List UInt8} (hpos : 0 < body.length)
    (hle : body.length ≤ maxNoiseJsonrpcMessageLen)
    (hbuffered : buffered <+: toBeBytes body.length ++ body ++ rest)
    (hshort : buffered.length < lengthPrefixBytes + body.length) :
    JsonRpcMessageDecoder.takeRounds env (rounds + 1) buffered taken = .ok (taken, buffered) := by
  rw [JsonRpcMessageDecoder.takeRounds]
  by_cases hnone : buffered.length < lengthPrefixBytes
  · rw [if_pos hnone]
  · have htake : buffered.take lengthPrefixBytes = toBeBytes body.length := by
      obtain ⟨later, hlater⟩ := hbuffered
      rw [← take_lengthPrefix body rest, ← hlater,
        List.take_append_of_le_length (Nat.not_lt.mp hnone)]
    simp only [if_neg hnone, htake, ofBeBytes_toBeBytes (hle.trans_lt (by decide))]
    rw [if_neg (by omega), if_pos hshort]

lemma takeRounds_message {message : Message} (hpos : 0 < body.length)
    (hle : body.length ≤ maxNoiseJsonrpcMessageLen) (hread : env.fromSlice body = .ok message) :
    JsonRpcMessageDecoder.takeRounds env (rounds + 1) (toBeBytes body.length ++ body ++ rest)
      taken = JsonRpcMessageDecoder.takeRounds env rounds rest (taken ++ [message]) := by
  have hlong : ¬ (toBeBytes body.length ++ body ++ rest).length <
      lengthPrefixBytes + body.length := by
    rw [List.length_append, length_framed]
    omega
  have htake : (toBeBytes body.length ++ body ++ rest).take (lengthPrefixBytes + body.length) =
      toBeBytes body.length ++ body :=
    List.take_left' (length_framed body)
  have hdrop : (toBeBytes body.length ++ body ++ rest).drop (lengthPrefixBytes + body.length) =
      rest :=
    List.drop_left' (length_framed body)
  have hbody : (toBeBytes body.length ++ body).drop lengthPrefixBytes = body :=
    List.drop_left' (length_toBeBytes _)
  rw [JsonRpcMessageDecoder.takeRounds, if_neg (by omega)]
  simp only [take_lengthPrefix, ofBeBytes_toBeBytes (hle.trans_lt (by decide))]
  rw [if_neg (by omega), if_neg hlong, htake, hdrop, hbody, hread]
  rfl

end round

section decoder

variable {agrees : Send → Receive → Prop} (hlawful : env.Lawful agrees)

include hlawful

lemma framed_spec {message : Message} {bytes : List UInt8}
    (h : env.frameJsonrpcMessage message = .ok bytes) :
    ∃ body, bytes = toBeBytes body.length ++ body ∧ 0 < body.length ∧
      body.length ≤ maxNoiseJsonrpcMessageLen ∧ env.fromSlice body = .ok message := by
  unfold NoiseEnv.frameJsonrpcMessage at h
  obtain ⟨body, hbody, h⟩ := bind_eq_ok.mp h
  rw [mapError_eq_ok] at hbody
  have hread := hlawful.fromSlice_toWriter _ _ hbody
  have hpos : 0 < body.length := by
    rw [List.length_pos_iff]
    rintro rfl
    exact hlawful.fromSlice_nil _ hread
  by_cases hlong : body.length > maxNoiseJsonrpcMessageLen
  · rw [if_pos hlong] at h
    cases h
  · rw [if_neg hlong] at h
    exact ⟨body, (Except.ok.inj h).symm, hpos, Nat.not_lt.mp hlong, hread⟩

variable {framed : List (List UInt8)}

lemma length_le_of_framed {messages : List Message} {bytes : List UInt8}
    (hframed : Framed env messages framed) (h : bytes ∈ framed) :
    bytes.length ≤ lengthPrefixBytes + maxNoiseJsonrpcMessageLen := by
  induction hframed with
  | nil => cases h
  | cons hbytes _ ih =>
    rcases List.mem_cons.mp h with rfl | h
    · obtain ⟨body, rfl, -, hle, -⟩ := framed_spec hlawful hbytes
      rw [length_framed]
      exact Nat.add_le_add_left hle _
    · exact ih h

/-- The decoder takes the messages whose bytes are all there. -/
theorem takeRounds_spec (rounds : ℕ) {messages : List Message}
    (hframed : Framed env messages framed) (buffered : List UInt8) (taken : List Message)
    (hbuffered : buffered <+: framed.flatten) (hrounds : buffered.length ≤ rounds) :
    ∃ n left, JsonRpcMessageDecoder.takeRounds env rounds buffered taken =
        .ok (taken ++ messages.take n, left) ∧ buffered = (framed.take n).flatten ++ left ∧
      ∀ bytes, framed[n]? = some bytes → left.length < bytes.length := by
  induction rounds generalizing messages framed buffered taken with
  | zero =>
    obtain rfl := List.length_eq_zero_iff.mp (Nat.le_zero.mp hrounds)
    refine ⟨0, [], by simp [JsonRpcMessageDecoder.takeRounds], rfl, ?_⟩
    rcases hframed with _ | ⟨hbytes, -⟩
    · exact nofun
    · rintro _ ⟨⟩
      obtain ⟨body, rfl, -⟩ := framed_spec hlawful hbytes
      rw [List.length_append, length_toBeBytes, List.length_nil]
      omega
  | succ rounds ih =>
    rcases hframed with _ | @⟨message, bytes, messages, framed, hbytes, hframed⟩
    · obtain rfl := List.prefix_nil.mp hbuffered
      exact ⟨0, [], by simp [JsonRpcMessageDecoder.takeRounds, lengthPrefixBytes], rfl, nofun⟩
    · obtain ⟨body, rfl, hpos, hle, hread⟩ := framed_spec hlawful hbytes
      rw [List.flatten_cons] at hbuffered
      by_cases hshort : buffered.length < lengthPrefixBytes + body.length
      · refine ⟨0, buffered, ?_, rfl, ?_⟩
        · rw [takeRounds_wait hpos hle hbuffered hshort, List.take_zero, List.append_nil]
        · rintro _ ⟨⟩
          rwa [length_framed]
      · obtain ⟨more, rfl⟩ : toBeBytes body.length ++ body <+: buffered := by
          apply List.prefix_of_prefix_length_le (List.prefix_append _ _) hbuffered
          rw [length_framed]
          exact Nat.not_lt.mp hshort
        have hmore : more <+: framed.flatten := (List.prefix_append_right_inj _).mp hbuffered
        have hlen : more.length ≤ rounds := by
          rw [List.length_append, length_framed] at hrounds
          omega
        obtain ⟨n, left, htaken, hleft, hnext⟩ := ih hframed more (taken ++ [message]) hmore hlen
        refine ⟨n + 1, left, ?_, ?_, hnext⟩
        · rw [takeRounds_message hpos hle hread, htaken, List.take_succ_cons, List.append_assoc]
          rfl
        · rw [hleft, List.take_succ_cons, List.flatten_cons]
          simp only [List.append_assoc]

/-- The messages that some bytes of the stream complete, and what is left of the bytes. -/
structure Decoded (messages : List Message) (framed : List (List UInt8)) (n : ℕ)
    (bytes : List UInt8) (emitted : List Message) (decoder : JsonRpcMessageDecoder) : Prop where
  emitted_eq : emitted = messages.take n
  bytes_eq : bytes = (framed.take n).flatten ++ decoder.buffered
  incomplete : ∀ next, framed[n]? = some next → decoder.buffered.length < next.length

variable {messages emitted : List Message} {decoder : JsonRpcMessageDecoder}

lemma Decoded.push {n : ℕ} {bytes record : List UInt8}
    (h : Decoded messages framed n bytes emitted decoder)
    (hframed : Framed env messages framed) (hbytes : bytes ++ record <+: framed.flatten)
    (hrecord : record.length ≤ noiseRecordPlaintextLen) :
    ∃ m new decoder', decoder.push env record = .ok (new, decoder') ∧
      Decoded messages framed m (bytes ++ record) (emitted ++ new) decoder' := by
  have hsplit : framed.flatten = (framed.take n).flatten ++ (framed.drop n).flatten := by
    rw [← List.flatten_append, List.take_append_drop]
  have hbuffered : decoder.buffered ++ record <+: (framed.drop n).flatten := by
    rw [h.bytes_eq, List.append_assoc, hsplit] at hbytes
    exact (List.prefix_append_right_inj _).mp hbytes
  obtain ⟨m, left, htake, hleft, hnext⟩ := takeRounds_spec hlawful _
    (List.forall₂_drop n hframed) _ [] hbuffered (Nat.le_refl _)
  have hincomplete : ∀ next, framed[n + m]? = some next → left.length < next.length := by
    intro next hget
    rw [← List.getElem?_drop] at hget
    exact hnext next hget
  have hbound : ¬ left.length > lengthPrefixBytes + maxNoiseJsonrpcMessageLen := by
    rw [Nat.not_lt]
    rcases hget : framed[n + m]? with _ | next
    · have hall : (framed.drop n).take m = framed.drop n := by
        rw [List.getElem?_eq_none_iff] at hget
        apply List.take_of_length_le
        rw [List.length_drop]
        omega
      have hlen := hbuffered.length_le
      rw [hleft, hall, List.length_append] at hlen
      omega
    · have hlt := hincomplete next hget
      exact hlt.le.trans (length_le_of_framed hlawful hframed (List.mem_of_getElem? hget))
  refine ⟨n + m, (messages.drop n).take m, ⟨left⟩, ?_, ?_⟩
  · rw [JsonRpcMessageDecoder.push, if_neg (Nat.not_lt.mpr hrecord)]
    simp only [pure_eq_ok, ok_bind, htake, List.nil_append]
    rw [if_neg hbound]
  · refine ⟨?_, ?_, hincomplete⟩
    · rw [h.emitted_eq, List.take_add]
    · rw [h.bytes_eq, List.append_assoc, hleft, List.take_add, List.flatten_append,
        List.append_assoc]

omit hlawful in
lemma Decoded.complete {n : ℕ} (hframed : Framed env messages framed)
    (h : Decoded messages framed n framed.flatten emitted decoder) : emitted = messages := by
  have hsplit : framed.flatten = (framed.take n).flatten ++ (framed.drop n).flatten := by
    rw [← List.flatten_append, List.take_append_drop]
  have hbuffered : decoder.buffered = (framed.drop n).flatten :=
    List.append_cancel_left (h.bytes_eq.symm.trans hsplit)
  rcases hget : framed[n]? with _ | next
  · rw [List.getElem?_eq_none_iff, ← hframed.length_eq] at hget
    rw [h.emitted_eq, List.take_of_length_le hget]
  · have hlt := h.incomplete next hget
    obtain ⟨hn, rfl⟩ := List.getElem?_eq_some_iff.mp hget
    rw [hbuffered, List.drop_eq_getElem_cons hn, List.flatten_cons, List.length_append] at hlt
    omega

end decoder

/-! ### The reorder window -/

variable (arrived : List RelayData)

/-- The first number that is missing from what has arrived. -/
def FirstMissing (n : ℕ) : Prop :=
  (∀ i < n, ∃ data ∈ arrived, data.seq = i) ∧ ∀ data ∈ arrived, data.seq ≠ n

/-- The bytes of what has arrived and comes after the number `n`. -/
def waitingBytes (n : ℕ) : ℕ :=
  ((arrived.dedup.filter fun data => n < data.seq).map (·.payload.length)).sum

/-- The arrivals stay within the reorder window and its bytes: a record that is new and early is not
too far ahead of the first one that is missing, and fits in with those that wait. -/
def WithinBounds (arrivals : List RelayData) : Prop :=
  ∀ earlier data later, arrivals = earlier ++ data :: later → ∀ n, FirstMissing earlier n →
    n < data.seq → data ∉ earlier → data.seq ≤ n + maxReorderDistance ∧
      waitingBytes earlier n + data.payload.length ≤ maxPendingBytes

lemma WithinBounds.of_append {arrivals later : List RelayData}
    (h : WithinBounds (arrivals ++ later)) : WithinBounds arrivals := by
  intro earlier data rest heq
  apply h earlier data (rest ++ later)
  rw [heq, List.append_assoc, List.cons_append]

/-- Few and small records are within the bounds in any order. -/
theorem withinBounds_of_le {arrivals : List RelayData}
    (hseq : ∀ data ∈ arrivals, data.seq ≤ maxReorderDistance)
    (hbytes : (arrivals.map (·.payload.length)).sum ≤ maxPendingBytes) :
    WithinBounds arrivals := by
  rintro earlier data later rfl n - - -
  refine ⟨(hseq data (by simp)).trans (Nat.le_add_left _ _), ?_⟩
  have hsub : (earlier.dedup.filter fun data => n < data.seq).Sublist earlier :=
    List.filter_sublist.trans earlier.dedup_sublist
  have hsum : waitingBytes earlier n ≤ (earlier.map (·.payload.length)).sum :=
    (hsub.map _).sum_le_sum fun _ _ => Nat.zero_le _
  rw [List.map_append, List.sum_append, List.map_cons, List.sum_cons] at hbytes
  omega

/-- What was released and what waits, while records may still be released. -/
structure Holding (arrived : List RelayData) (ordered : OrderedCiphertextFrames) : Prop where
  released : ∀ i < ordered.nextSeq, ∃ data ∈ arrived, data.seq = i
  pending_iff : ∀ seq payload, ordered.pending.lookup seq = some payload ↔
    ordered.nextSeq ≤ seq ∧ ∃ data ∈ arrived, data.seq = seq ∧ data.payload = payload
  bytes : ordered.pendingBytes = weight (fun _ payload => payload.length) ordered.pending

/-- Everything up to the first missing number was released. -/
structure Ordered (arrived : List RelayData) (ordered : OrderedCiphertextFrames) : Prop
    extends Holding arrived ordered where
  missing : ∀ data ∈ arrived, data.seq ≠ ordered.nextSeq

/-- The frames of a stream, numbered from zero. -/
structure Numbered (sent : List RelayData) : Prop where
  seqs : sent.map (·.seq) = List.range sent.length
  bound : sent.length ≤ u32Max

section window

variable {sent arrived : List RelayData} {ordered : OrderedCiphertextFrames} {data : RelayData}

lemma Numbered.getElem?_seq (h : Numbered sent) (hdata : data ∈ sent) :
    sent[data.seq]? = some data := by
  obtain ⟨i, hi, rfl⟩ := List.getElem_of_mem hdata
  have hseq : (sent.map (·.seq))[i]? = (List.range sent.length)[i]? := by rw [h.seqs]
  rw [List.getElem?_map, List.getElem?_eq_getElem hi, List.getElem?_range hi] at hseq
  have hi' : sent[i].seq = i := Option.some.inj hseq
  rw [hi', List.getElem?_eq_getElem hi]

lemma Numbered.eq_of_seq_eq (h : Numbered sent) {data' : RelayData} (hdata : data ∈ sent)
    (hdata' : data' ∈ sent) (heq : data.seq = data'.seq) : data = data' := by
  have hget := h.getElem?_seq hdata
  rw [heq, h.getElem?_seq hdata'] at hget
  exact (Option.some.inj hget).symm

lemma Numbered.take_succ (h : Numbered sent) (hdata : data ∈ sent) :
    (sent.map (·.payload)).take (data.seq + 1) =
      (sent.map (·.payload)).take data.seq ++ [data.payload] := by
  rw [List.take_add_one, List.getElem?_map, h.getElem?_seq hdata]
  rfl

lemma mem_sent_of_append (harrived : ∀ data ∈ arrived, data ∈ sent) (hdata : data ∈ sent) :
    ∀ data' ∈ arrived ++ [data], data' ∈ sent := by
  intro data' hdata'
  rcases List.mem_append.mp hdata' with hdata' | hdata'
  · exact harrived data' hdata'
  · rwa [List.mem_singleton.mp hdata']

variable (h : Ordered arrived ordered)
include h

lemma Ordered.firstMissing : FirstMissing arrived ordered.nextSeq :=
  ⟨h.released, h.missing⟩

lemma Ordered.not_mem_pending_iff :
    data.seq < ordered.nextSeq ∨ data.seq ∈ ordered.pending ↔
      ∃ data' ∈ arrived, data'.seq = data.seq := by
  constructor
  · rintro (hlt | hmem)
    · exact h.released _ hlt
    · obtain ⟨payload, hlookup⟩ := Option.isSome_iff_exists.mp (AList.lookup_isSome.mpr hmem)
      obtain ⟨-, data', hdata', heq, -⟩ := (h.pending_iff _ _).mp hlookup
      exact ⟨data', hdata', heq⟩
  · rintro ⟨data', hdata', heq⟩
    rcases Nat.lt_or_ge data.seq ordered.nextSeq with hlt | hge
    · exact .inl hlt
    · right
      rw [← AList.lookup_isSome, (h.pending_iff data.seq data'.payload).mpr
        ⟨hge, data', hdata', heq, rfl⟩]
      rfl

lemma Ordered.waitingBytes_eq (hsent : Numbered sent) (harrived : ∀ data ∈ arrived, data ∈ sent) :
    waitingBytes arrived ordered.nextSeq = ordered.pendingBytes := by
  let entry (data : RelayData) : Sigma fun _ : ℕ => List UInt8 := ⟨data.seq, data.payload⟩
  have hnodup :
      ((arrived.dedup.filter fun data => ordered.nextSeq < data.seq).map entry).Nodup := by
    apply (arrived.nodup_dedup.filter _).map_on
    intro data hdata data' hdata' heq
    have hmem := harrived _ (List.mem_dedup.mp (List.mem_filter.mp hdata).1)
    have hmem' := harrived _ (List.mem_dedup.mp (List.mem_filter.mp hdata').1)
    exact hsent.eq_of_seq_eq hmem hmem' (Sigma.mk.inj heq).1
  rw [h.bytes, weight_eq_sum _ hnodup, waitingBytes]
  intro e
  rw [h.pending_iff, List.mem_map]
  constructor
  · rintro ⟨data, hdata, rfl⟩
    rw [List.mem_filter, List.mem_dedup, decide_eq_true_iff] at hdata
    exact ⟨hdata.2.le, data, hdata.1, rfl, rfl⟩
  · rintro ⟨hle, data, hdata, hseq, hpayload⟩
    refine ⟨data, ?_, Sigma.ext hseq (heq_of_eq hpayload)⟩
    rw [List.mem_filter, List.mem_dedup, decide_eq_true_iff]
    exact ⟨hdata, lt_of_le_of_ne (hseq ▸ hle) (h.missing data hdata).symm⟩

omit h

lemma Holding.release (h : Holding arrived ordered) (hdata : data ∈ arrived)
    (hseq : data.seq = ordered.nextSeq) :
    Holding arrived ⟨ordered.nextSeq + 1, ordered.pending.erase ordered.nextSeq,
      ordered.pendingBytes - data.payload.length⟩ where
  released := by
    intro i hi
    rcases Nat.lt_succ_iff_lt_or_eq.mp hi with hlt | rfl
    · exact h.released i hlt
    · exact ⟨data, hdata, hseq⟩
  pending_iff := by
    intro seq payload
    by_cases hnext : seq = ordered.nextSeq
    · subst hnext
      rw [AList.lookup_erase]
      exact ⟨nofun, fun ⟨hle, _⟩ => absurd hle (Nat.not_succ_le_self _)⟩
    · rw [AList.lookup_erase_ne hnext, h.pending_iff]
      have hle : ordered.nextSeq ≤ seq ↔ ordered.nextSeq + 1 ≤ seq := by omega
      rw [hle]
  bytes := by
    have hlookup : ordered.pending.lookup ordered.nextSeq = some data.payload :=
      (h.pending_iff _ _).mpr ⟨Nat.le_refl _, data, hdata, hseq, rfl⟩
    have hweight := weight_erase (fun _ (payload : List UInt8) => payload.length) hlookup
    have hbytes := h.bytes
    simp only at hweight ⊢
    omega

lemma Numbered.advance_ok (hsent : Numbered sent) (hdata : data ∈ sent)
    (ordered : OrderedCiphertextFrames) (hseq : data.seq = ordered.nextSeq) :
    ordered.advance = .ok { ordered with nextSeq := ordered.nextSeq + 1 } := by
  obtain ⟨hlt, -⟩ := List.getElem?_eq_some_iff.mp (hsent.getElem?_seq hdata)
  have hbound := hsent.bound
  rw [OrderedCiphertextFrames.advance, if_neg (by omega)]

/-- The loop of the reorder buffer releases the records up to the first missing one. -/
theorem releaseRounds_spec (hsent : Numbered sent) (harrived : ∀ data ∈ arrived, data ∈ sent)
    (rounds : ℕ) (ordered : OrderedCiphertextFrames) (ready : List (List UInt8))
    (h : Holding arrived ordered) (hrounds : ordered.pending.entries.length ≤ rounds) :
    ∃ released ordered', ordered.releaseRounds rounds ready = .ok (ready ++ released, ordered') ∧
      Ordered arrived ordered' ∧ (sent.map (·.payload)).take ordered'.nextSeq =
        (sent.map (·.payload)).take ordered.nextSeq ++ released := by
  -- Nothing more is released when the next number has not arrived.
  have hstop : ∀ ordered, Holding arrived ordered → ordered.pending.lookup ordered.nextSeq = none →
      Ordered arrived ordered := by
    intro ordered h hnone
    refine ⟨h, fun data hdata hseq => ?_⟩
    have hlookup := (h.pending_iff _ _).mpr ⟨Nat.le_refl _, data, hdata, hseq, rfl⟩
    simp [hnone] at hlookup
  induction rounds generalizing ordered ready with
  | zero =>
    have hempty : ordered.pending.lookup ordered.nextSeq = none := by
      rw [AList.lookup_eq_none, AList.mem_keys, AList.keys,
        List.length_eq_zero_iff.mp (Nat.le_zero.mp hrounds)]
      exact List.not_mem_nil
    exact ⟨[], ordered, by simp [OrderedCiphertextFrames.releaseRounds], hstop ordered h hempty,
      by simp⟩
  | succ rounds ih =>
    rcases hlookup : ordered.pending.lookup ordered.nextSeq with _ | payload
    · refine ⟨[], ordered, ?_, hstop ordered h hlookup, by simp⟩
      rw [OrderedCiphertextFrames.releaseRounds, hlookup, List.append_nil]
    · obtain ⟨-, data, hdata, hseq, rfl⟩ := (h.pending_iff _ _).mp hlookup
      have hmem : ordered.nextSeq ∈ ordered.pending :=
        AList.lookup_isSome.mp (Option.isSome_of_eq_some hlookup)
      have hlen := (entries_length_erase_lt hmem).trans_le hrounds
      obtain ⟨released, ordered', hrelease, hordered, htake⟩ :=
        ih _ (ready ++ [data.payload]) (h.release hdata hseq) (Nat.lt_succ_iff.mp hlen)
      refine ⟨data.payload :: released, ordered', ?_, hordered, ?_⟩
      · have hadvance := hsent.advance_ok (harrived data hdata) { ordered with
          pending := ordered.pending.erase ordered.nextSeq
          pendingBytes := ordered.pendingBytes - data.payload.length } hseq
        rw [OrderedCiphertextFrames.releaseRounds, hlookup]
        simp only
        rw [hadvance, ok_bind, hrelease, List.append_assoc]
        rfl
      · rw [htake, ← hseq, hsent.take_succ (harrived data hdata), List.append_assoc]
        rfl

lemma Holding.nextSeq_le (h : Holding arrived ordered) (hsent : Numbered sent)
    (harrived : ∀ data ∈ arrived, data ∈ sent) : ordered.nextSeq ≤ sent.length := by
  by_contra hlt
  obtain ⟨data, hdata, hseq⟩ := h.released sent.length (Nat.not_le.mp hlt)
  have hget := hsent.getElem?_seq (harrived data hdata)
  simp [hseq, List.getElem?_eq_none (Nat.le_refl _)] at hget

variable (h : Ordered arrived ordered)
include h

lemma Ordered.wait (hlt : ordered.nextSeq < data.seq)
    (hnew : ∀ data' ∈ arrived, data'.seq ≠ data.seq) :
    Ordered (arrived ++ [data]) { ordered with
      pending := ordered.pending.insert data.seq data.payload
      pendingBytes := ordered.pendingBytes + data.payload.length } where
  released := by
    intro i hi
    obtain ⟨data', hdata', heq⟩ := h.released i hi
    exact ⟨data', List.mem_append_left _ hdata', heq⟩
  pending_iff := by
    intro seq payload
    by_cases hseq : seq = data.seq
    · subst hseq
      rw [AList.lookup_insert]
      constructor
      · rintro ⟨⟩
        exact ⟨hlt.le, data, List.mem_append_right _ List.mem_cons_self, rfl, rfl⟩
      · rintro ⟨-, data', hdata', heq, rfl⟩
        rcases List.mem_append.mp hdata' with hdata' | hdata'
        · exact absurd heq (hnew data' hdata')
        · rw [List.mem_singleton.mp hdata']
    · rw [AList.lookup_insert_ne hseq, h.pending_iff]
      constructor
      · rintro ⟨hle, data', hdata', heq⟩
        exact ⟨hle, data', List.mem_append_left _ hdata', heq⟩
      · rintro ⟨hle, data', hdata', heq, hpayload⟩
        rcases List.mem_append.mp hdata' with hdata' | hdata'
        · exact ⟨hle, data', hdata', heq, hpayload⟩
        · rw [List.mem_singleton.mp hdata'] at heq
          exact absurd heq.symm hseq
  bytes := by
    have hnone : ordered.pending.lookup data.seq = none := by
      rw [Option.eq_none_iff_forall_ne_some]
      intro payload hlookup
      obtain ⟨-, data', hdata', heq, -⟩ := (h.pending_iff _ _).mp hlookup
      exact hnew data' hdata' heq
    rw [weight_insert, erase_of_lookup_eq_none hnone, h.bytes, Nat.add_comm]
  missing := by
    exact List.forall_mem_append.mpr ⟨h.missing, List.forall_mem_singleton.mpr hlt.ne'⟩

/-- The record that was missing is released at once. -/
theorem Ordered.next (hseq : data.seq = ordered.nextSeq) :
    Holding (arrived ++ [data]) { ordered with nextSeq := ordered.nextSeq + 1 } where
  released := by
    intro i hi
    rcases Nat.lt_succ_iff_lt_or_eq.mp hi with hlt | rfl
    · obtain ⟨data', hdata', heq⟩ := h.released i hlt
      exact ⟨data', List.mem_append_left _ hdata', heq⟩
    · exact ⟨data, List.mem_append_right _ List.mem_cons_self, hseq⟩
  pending_iff := by
    intro seq payload
    rw [h.pending_iff]
    constructor
    · rintro ⟨hle, data', hdata', rfl, heq⟩
      have hne := h.missing data' hdata'
      exact ⟨by simp only; omega, data', List.mem_append_left _ hdata', rfl, heq⟩
    · rintro ⟨hle, data', hdata', rfl, heq⟩
      rcases List.mem_append.mp hdata' with hdata' | hdata'
      · exact ⟨Nat.le_of_succ_le hle, data', hdata', rfl, heq⟩
      · rw [List.mem_singleton.mp hdata', hseq] at hle
        exact absurd hle (Nat.not_succ_le_self _)
  bytes := h.bytes

/-- **The reorder buffer.** Within the bounds, a record is taken and what is now complete up to the
first missing number is released. -/
theorem Ordered.push (hsent : Numbered sent)
    (harrived : ∀ data ∈ arrived, data ∈ sent) (hdata : data ∈ sent)
    (hbounds : WithinBounds (arrived ++ [data])) :
    ∃ ready ordered', ordered.push data.seq data.payload = .ok (ready, ordered') ∧
      Ordered (arrived ++ [data]) ordered' ∧ (sent.map (·.payload)).take ordered'.nextSeq =
        (sent.map (·.payload)).take ordered.nextSeq ++ ready := by
  by_cases hknown : data.seq < ordered.nextSeq ∨ data.seq ∈ ordered.pending
  · obtain ⟨data', hdata', heq⟩ := h.not_mem_pending_iff.mp hknown
    obtain rfl := hsent.eq_of_seq_eq (harrived data' hdata') hdata heq
    have hmem : ∀ d, d ∈ arrived ++ [data'] ↔ d ∈ arrived := by
      intro d
      rw [List.mem_append, List.mem_singleton]
      exact ⟨fun hd => hd.elim id fun hd => hd ▸ hdata', .inl⟩
    refine ⟨[], ordered, by rw [OrderedCiphertextFrames.push, if_pos hknown], ?_, by simp⟩
    refine ⟨⟨?_, ?_, h.bytes⟩, ?_⟩
    · simpa only [hmem] using h.released
    · simpa only [hmem] using h.pending_iff
    · simpa only [hmem] using h.missing
  · have hnew : ∀ data' ∈ arrived, data'.seq ≠ data.seq := fun data' hdata' heq =>
      hknown (h.not_mem_pending_iff.mpr ⟨data', hdata', heq⟩)
    rcases Nat.lt_or_ge ordered.nextSeq data.seq with hlt | hge
    · obtain ⟨hwindow, hbytes⟩ := hbounds arrived data [] rfl _ h.firstMissing hlt
        fun hmem => hnew data hmem rfl
      rw [h.waitingBytes_eq hsent harrived] at hbytes
      refine ⟨[], { ordered with
        pending := ordered.pending.insert data.seq data.payload
        pendingBytes := ordered.pendingBytes + data.payload.length }, ?_, ?_, by simp⟩
      · rw [OrderedCiphertextFrames.push, if_neg hknown, if_pos hlt, if_neg (by omega)]
        simp only
        rw [if_neg (by omega)]
      · exact h.wait hlt hnew
    · have hseq : data.seq = ordered.nextSeq := by
        have hle : ¬ data.seq < ordered.nextSeq := fun hlt => hknown (.inl hlt)
        omega
      obtain ⟨released, ordered', hrelease, hordered, htake⟩ :=
        releaseRounds_spec hsent (mem_sent_of_append harrived hdata) _ _ [data.payload]
          (h.next hseq) (Nat.le_refl _)
      refine ⟨data.payload :: released, ordered', ?_, hordered, ?_⟩
      · rw [OrderedCiphertextFrames.push, if_neg hknown, if_neg (Nat.not_lt.mpr hge),
          hsent.advance_ok hdata ordered hseq, ok_bind, hrelease]
        rfl
      · rw [htake, ← hseq, hsent.take_succ hdata, List.append_assoc]
        rfl

end window

/-! ### The stream -/

/-- A stream that was sent: messages, their framed bytes, the records of these, and the ciphertexts
that one end decrypts one after the other. -/
structure Carries (env : NoiseEnv Message Send Receive) (receive : Receive)
    (messages : List Message) (framed records ciphertexts : List (List UInt8)) : Prop where
  isFramed : Framed env messages framed
  cut : records.flatten <+: framed.flatten
  size : ∀ record ∈ records, record.length ≤ noiseRecordPlaintextLen
  reads : ∃ last, Reads env receive records ciphertexts last

/-- What a stream has done with the first `n` ciphertexts. -/
structure Receiving (env : NoiseEnv Message Send Receive) (messages : List Message)
    (framed records ciphertexts : List (List UInt8)) (n : ℕ)
    (stream : NoiseVirtualStream Message Receive) : Prop where
  reads : ∃ last, Reads env stream.receive (records.drop n) (ciphertexts.drop n) last
  decoded : ∃ m, Decoded messages framed m (records.take n).flatten stream.incoming
    stream.inboundDecoder
  decrypted : stream.decrypted = ciphertexts.take n

/-- The channel did not take a message of the stream. -/
structure Refused (accepts : ℕ → Bool) (messages : List Message) (ciphertexts : List (List UInt8))
    (stream : NoiseVirtualStream Message Receive) : Prop where
  refused : ∃ i < messages.length, accepts i = false
  incoming : stream.incoming <+: messages
  decrypted : stream.decrypted <+: ciphertexts

section stream

variable {messages : List Message} {framed : List (List UInt8)}
  {records ciphertexts : List (List UInt8)} {n : ℕ} {stream : NoiseVirtualStream Message Receive}

lemma Receiving.incoming_prefix (h : Receiving env messages framed records ciphertexts n stream) :
    stream.incoming <+: messages := by
  obtain ⟨m, hdecoded⟩ := h.decoded
  rw [hdecoded.emitted_eq]
  exact List.take_prefix m messages

variable (accepts : ℕ → Bool)

/-- The messages of one record go to the channel in their order, until it refuses one. -/
theorem sendMessages_spec (new : List Message) (stream : NoiseVirtualStream Message Receive)
    (h : stream.incoming ++ new <+: messages) :
    stream.sendMessages accepts new = (none, { stream with incoming := stream.incoming ++ new }) ∨
      ∃ error part, stream.sendMessages accepts new =
          (some error, { stream with incoming := stream.incoming ++ part }) ∧
        stream.incoming ++ part <+: messages ∧ ∃ i < messages.length, accepts i = false := by
  induction new generalizing stream with
  | nil =>
    left
    rw [NoiseVirtualStream.sendMessages, List.append_nil]
  | cons message new ih =>
    rw [NoiseVirtualStream.sendMessages]
    by_cases haccepts : accepts stream.incoming.length
    · rw [if_pos haccepts]
      rcases ih { stream with incoming := stream.incoming ++ [message] } (by simpa using h) with
        hsend | ⟨error, part, hsend, hpart, hrefused⟩
      · left
        rw [hsend]
        simp only [List.append_assoc, List.singleton_append]
      · right
        refine ⟨error, message :: part, ?_, by simpa using hpart, hrefused⟩
        rw [hsend]
        simp only [List.append_assoc, List.singleton_append]
    · right
      have hlen := h.length_le
      rw [List.length_append, List.length_cons] at hlen
      rw [if_neg haccepts]
      refine ⟨_, [], by rw [List.append_nil], ?_, stream.incoming.length, by omega,
        by simpa using haccepts⟩
      rw [List.append_nil]
      exact (List.prefix_append _ _).trans h

variable {agrees : Send → Receive → Prop} {receive : Receive}

/-- The next ciphertext: it is decrypted, and its messages go to the channel. -/
theorem Receiving.receiveCiphertext (hlawful : env.Lawful agrees)
    (hcarries : Carries env receive messages framed records ciphertexts)
    (h : Receiving env messages framed records ciphertexts n stream) {ciphertext : List UInt8}
    (hnext : ciphertexts[n]? = some ciphertext) :
    ∃ error stream', stream.receiveCiphertext env accepts ciphertext = (error, stream') ∧
      stream'.inboundCiphertexts = stream.inboundCiphertexts ∧
      (error = none ∧ Receiving env messages framed records ciphertexts (n + 1) stream' ∨
        error ≠ none ∧ Refused accepts messages ciphertexts stream') := by
  obtain ⟨last, hreads⟩ := h.reads
  obtain ⟨hn, rfl⟩ := List.getElem?_eq_some_iff.mp hnext
  have hlength : records.length = ciphertexts.length := by
    obtain ⟨last, hreads⟩ := hcarries.reads
    exact hreads.length_eq
  have hn' : n < records.length := hlength ▸ hn
  rw [List.drop_eq_getElem_cons hn, List.drop_eq_getElem_cons hn'] at hreads
  obtain _ | @⟨_, next, _, _, _, _, _, hdecrypt, hreads⟩ := hreads
  have hdecrypted : stream.decrypted ++ [ciphertexts[n]] = ciphertexts.take (n + 1) := by
    rw [h.decrypted, List.take_concat_get' _ _ hn]
  obtain ⟨m, hdecoded⟩ := h.decoded
  have hbytes : (records.take (n + 1)).flatten = (records.take n).flatten ++ records[n] := by
    rw [← List.take_concat_get' _ _ hn', List.flatten_append, List.flatten_singleton]
  have hcut : (records.take n).flatten ++ records[n] <+: framed.flatten := by
    rw [← hbytes]
    refine List.IsPrefix.trans ?_ hcarries.cut
    exact ⟨(records.drop (n + 1)).flatten, by rw [← List.flatten_append, List.take_append_drop]⟩
  obtain ⟨k, new, decoder, hpush, hdecoded'⟩ := hdecoded.push hlawful hcarries.isFramed hcut
    (hcarries.size _ (List.getElem_mem hn'))
  rw [← hbytes] at hdecoded'
  have hprefix : stream.incoming ++ new <+: messages := by
    rw [hdecoded'.emitted_eq]
    exact List.take_prefix k messages
  have hspec := sendMessages_spec accepts new { stream with
    receive := next
    inboundDecoder := decoder
    decrypted := stream.decrypted ++ [ciphertexts[n]] } hprefix
  simp only [NoiseVirtualStream.receiveCiphertext, hdecrypt, hpush]
  rcases hspec with hsend | ⟨error, part, hsend, hpart, hrefused⟩
  · exact ⟨_, _, hsend, rfl, .inl ⟨rfl, ⟨last, hreads⟩, ⟨k, hdecoded'⟩, hdecrypted⟩⟩
  · refine ⟨_, _, hsend, rfl, .inr ⟨Option.some_ne_none error, hrefused, hpart, ?_⟩⟩
    simp only [hdecrypted]
    exact List.take_prefix _ _

/-- The ciphertexts that the reorder buffer releases. -/
theorem Receiving.receiveCiphertexts (hlawful : env.Lawful agrees)
    (hcarries : Carries env receive messages framed records ciphertexts)
    (released : List (List UInt8)) (n : ℕ) (stream : NoiseVirtualStream Message Receive)
    (h : Receiving env messages framed records ciphertexts n stream)
    (hnext : released <+: ciphertexts.drop n) :
    ∃ error stream', stream.receiveCiphertexts env accepts released = (error, stream') ∧
      stream'.inboundCiphertexts = stream.inboundCiphertexts ∧
      (error = none ∧
          Receiving env messages framed records ciphertexts (n + released.length) stream' ∨
        error ≠ none ∧ Refused accepts messages ciphertexts stream') := by
  induction released generalizing n stream with
  | nil => exact ⟨none, stream, rfl, rfl, .inl ⟨rfl, h⟩⟩
  | cons ciphertext released ih =>
    have hfirst : ciphertexts[n]? = some ciphertext := by
      obtain ⟨later, hlater⟩ := hnext
      rw [← List.head?_drop, ← hlater]
      rfl
    have hrest : released <+: ciphertexts.drop (n + 1) := by
      obtain ⟨later, hlater⟩ := hnext
      rw [← List.tail_drop, ← hlater]
      exact List.prefix_append released later
    obtain ⟨error, stream₁, hreceive, hordered, hresult⟩ :=
      h.receiveCiphertext accepts hlawful hcarries hfirst
    rw [NoiseVirtualStream.receiveCiphertexts, hreceive]
    rcases hresult with ⟨rfl, h₁⟩ | ⟨herror, hrefused⟩
    · obtain ⟨error, stream', hrun, hordered', hresult⟩ := ih (n + 1) stream₁ h₁ hrest
      refine ⟨error, stream', hrun, hordered'.trans hordered, ?_⟩
      rwa [List.length_cons, Nat.add_comm released.length, ← Nat.add_assoc]
    · obtain ⟨error, rfl⟩ := Option.ne_none_iff_exists'.mp herror
      exact ⟨some error, stream₁, rfl, hordered, .inr ⟨herror, hrefused⟩⟩

/-- What holds of a stream and the data frames that have arrived, until the channel refuses. -/
structure Delivering (env : NoiseEnv Message Send Receive) (messages : List Message)
    (framed records : List (List UInt8)) (sent arrived : List RelayData)
    (stream : NoiseVirtualStream Message Receive) : Prop where
  ordered : Ordered arrived stream.inboundCiphertexts
  receiving : Receiving env messages framed records (sent.map (·.payload))
    stream.inboundCiphertexts.nextSeq stream

lemma Delivering.receiveData {sent arrived : List RelayData} {data : RelayData}
    (hlawful : env.Lawful agrees) (hsent : Numbered sent)
    (hcarries : Carries env receive messages framed records (sent.map (·.payload)))
    (h : Delivering env messages framed records sent arrived stream)
    (harrived : ∀ data ∈ arrived, data ∈ sent) (hdata : data ∈ sent)
    (hbounds : WithinBounds (arrived ++ [data])) :
    ∃ error stream', stream.receiveData env accepts data = (error, stream') ∧
      Ordered (arrived ++ [data]) stream'.inboundCiphertexts ∧
      (error = none ∧ Delivering env messages framed records sent (arrived ++ [data]) stream' ∨
        error ≠ none ∧ Refused accepts messages (sent.map (·.payload)) stream') := by
  obtain ⟨ready, ordered, hpush, hordered, htake⟩ := h.ordered.push hsent harrived hdata hbounds
  have hnext := h.ordered.nextSeq_le hsent harrived
  have hnext' := hordered.nextSeq_le hsent (mem_sent_of_append harrived hdata)
  have hcount : stream.inboundCiphertexts.nextSeq + ready.length = ordered.nextSeq := by
    have hlen := congrArg List.length htake
    rw [List.length_append, List.length_take, List.length_take, List.length_map] at hlen
    omega
  have hready : ready <+: (sent.map (·.payload)).drop stream.inboundCiphertexts.nextSeq := by
    refine ⟨(sent.map (·.payload)).drop ordered.nextSeq, ?_⟩
    have hall := List.take_append_drop ordered.nextSeq (sent.map (·.payload))
    rw [htake, List.append_assoc] at hall
    exact List.append_cancel_left (hall.trans (List.take_append_drop _ _).symm)
  obtain ⟨error, stream', hrun, hsame, hresult⟩ := Receiving.receiveCiphertexts accepts hlawful
    hcarries ready stream.inboundCiphertexts.nextSeq { stream with inboundCiphertexts := ordered }
    ⟨h.receiving.reads, h.receiving.decoded, h.receiving.decrypted⟩ hready
  rw [NoiseVirtualStream.receiveData, hpush]
  refine ⟨error, stream', hrun, by rwa [hsame], ?_⟩
  rcases hresult with ⟨rfl, hreceiving⟩ | hrefused
  · rw [hcount] at hreceiving
    exact .inl ⟨rfl, by rwa [hsame], by rwa [hsame]⟩
  · exact .inr hrefused

/-- **The data frames of a stream as they arrive.** -/
theorem Delivering.receiveRun {sent : List RelayData} (hlawful : env.Lawful agrees)
    (hsent : Numbered sent)
    (hcarries : Carries env receive messages framed records (sent.map (·.payload)))
    (arrivals arrived : List RelayData) (stream : NoiseVirtualStream Message Receive)
    (h : Delivering env messages framed records sent arrived stream)
    (harrived : ∀ data ∈ arrived ++ arrivals, data ∈ sent)
    (hbounds : WithinBounds (arrived ++ arrivals)) :
    ∃ error stream', stream.receiveRun env accepts arrivals = (error, stream') ∧
      (∃ taken, Ordered taken stream'.inboundCiphertexts) ∧
      (error = none ∧ Delivering env messages framed records sent (arrived ++ arrivals) stream' ∨
        error ≠ none ∧ Refused accepts messages (sent.map (·.payload)) stream') := by
  induction arrivals generalizing arrived stream with
  | nil =>
    rw [List.append_nil]
    exact ⟨none, stream, rfl, ⟨arrived, h.ordered⟩, .inl ⟨rfl, h⟩⟩
  | cons data arrivals ih =>
    rw [List.append_cons] at harrived hbounds ⊢
    obtain ⟨error, stream₁, hreceive, hordered, hresult⟩ := h.receiveData accepts hlawful hsent
      hcarries (fun d hd => harrived d (by simp [hd])) (harrived data (by simp))
      hbounds.of_append
    rw [NoiseVirtualStream.receiveRun, hreceive]
    rcases hresult with ⟨rfl, h₁⟩ | ⟨herror, hrefused⟩
    · exact ih (arrived ++ [data]) stream₁ h₁ harrived hbounds
    · obtain ⟨error, rfl⟩ := Option.ne_none_iff_exists'.mp herror
      exact ⟨some error, stream₁, rfl, ⟨_, hordered⟩, .inr ⟨herror, hrefused⟩⟩

lemma exists_framed (h : ∀ message ∈ messages, ∃ bytes,
    env.frameJsonrpcMessage message = .ok bytes) : ∃ framed, Framed env messages framed := by
  induction messages with
  | nil => exact ⟨[], .nil⟩
  | cons message messages ih =>
    obtain ⟨bytes, hbytes⟩ := h message List.mem_cons_self
    obtain ⟨framed, hframed⟩ := ih fun m hm => h m (List.mem_cons_of_mem _ hm)
    exact ⟨bytes :: framed, .cons hbytes hframed⟩

lemma Delivering.new {sent : List RelayData} (hlawful : env.Lawful agrees) (instanceId : ℕ)
    (hcarries : Carries env receive messages framed records (sent.map (·.payload))) :
    Delivering env messages framed records sent []
      (.new receive instanceId : NoiseVirtualStream Message Receive) where
  ordered := by
    refine ⟨⟨nofun, fun seq payload => ⟨nofun, ?_⟩, rfl⟩, nofun⟩
    rintro ⟨-, data, hdata, -⟩
    cases hdata
  receiving := by
    refine ⟨hcarries.reads, ⟨0, rfl, rfl, ?_⟩, rfl⟩
    rcases hcarries.isFramed with _ | ⟨hbytes, -⟩
    · exact nofun
    · rintro _ ⟨⟩
      obtain ⟨body, rfl, hpos, -⟩ := framed_spec hlawful hbytes
      rw [length_framed]
      exact Nat.add_pos_right _ hpos

/-- All frames have arrived: all messages are there. -/
theorem Delivering.complete {sent arrived : List RelayData} (hsent : Numbered sent)
    (hcarries : Carries env receive messages framed records (sent.map (·.payload)))
    (h : Delivering env messages framed records sent arrived stream)
    (hall : ∀ data ∈ sent, data ∈ arrived) (harrived : ∀ data ∈ arrived, data ∈ sent)
    (hwhole : records.flatten = framed.flatten) : stream.incoming = messages := by
  have hnext : stream.inboundCiphertexts.nextSeq = sent.length := by
    refine Nat.le_antisymm (h.ordered.nextSeq_le hsent harrived) ?_
    by_contra hlt
    have hseq := List.getElem_map (·.seq) (l := sent) (i := stream.inboundCiphertexts.nextSeq)
      (h := by rw [List.length_map]; omega)
    simp only [hsent.seqs, List.getElem_range] at hseq
    exact h.ordered.missing _ (hall _ (List.getElem_mem _)) hseq.symm
  have hlength : records.length = sent.length := by
    obtain ⟨last, hreads⟩ := hcarries.reads
    rw [hreads.length_eq, List.length_map]
  obtain ⟨m, hdecoded⟩ := h.receiving.decoded
  rw [hnext, ← hlength, List.take_length, hwhole] at hdecoded
  exact hdecoded.complete hcarries.isFramed

/-- **The relay delivers the message stream.** Messages within the size limit are written as frames
that are numbered from zero. However these arrive within the bounds of the reorder window, in any
order and any number of times: at every moment what the channel has taken is a prefix of the
messages, what was decrypted is a prefix of the ciphertexts in the order of their numbers, and the
count of the buffered bytes is right; nothing fails as long as the channel takes the messages; and
when all frames have arrived, and all messages were written, the channel has taken all messages. -/
theorem delivered_run (hlawful : env.Lawful agrees)
    (hlimit : ∀ message ∈ messages, ∃ bytes, env.frameJsonrpcMessage message = .ok bytes)
    {send : Send} (hagrees : agrees send receive) {sent : List RelayData}
    {result : Except ExecServerError (NoiseWriter Send)}
    (hsent : NoiseWriter.writeMessages env ⟨0, send⟩ messages = (sent, result))
    {arrivals : List RelayData} (harrivals : ∀ data ∈ arrivals, data ∈ sent)
    (hbounds : WithinBounds arrivals) (accepts : ℕ → Bool) (instanceId : ℕ) :
    sent.map (·.seq) = List.range sent.length ∧
    (∀ earlier, earlier <+: arrivals → ∃ error stream,
      NoiseVirtualStream.receiveRun env accepts (.new receive instanceId) earlier =
          (error, stream) ∧
        stream.incoming <+: messages ∧ stream.decrypted <+: sent.map (·.payload) ∧
        stream.inboundCiphertexts.pendingBytes =
          weight (fun _ payload => payload.length) stream.inboundCiphertexts.pending ∧
        (error = none ∨ ∃ i < messages.length, accepts i = false)) ∧
    ((∀ data ∈ sent, data ∈ arrivals) → (∀ i < messages.length, accepts i = true) →
      (∃ writer, result = .ok writer) → ∃ stream,
        NoiseVirtualStream.receiveRun env accepts (.new receive instanceId) arrivals =
          (none, stream) ∧ stream.incoming = messages) := by
  obtain ⟨framed, hframed⟩ := exists_framed hlimit
  obtain ⟨records, last, hcut, hsize, hwritten, hwhole⟩ :=
    written_writeMessages hlawful hframed ⟨0, send⟩ receive hagrees (Nat.zero_le _)
  rw [hsent] at hwritten hwhole
  have hseqs : sent.map (·.seq) = List.range sent.length := by
    rw [hwritten.numbered, List.range_eq_range']
  have hnumbered : Numbered sent := ⟨hseqs, by simpa using hwritten.bound⟩
  have hcarries : Carries env receive messages framed records (sent.map (·.payload)) :=
    ⟨hframed, hcut, hsize, last, hwritten.reads⟩
  refine ⟨hseqs, ?_, ?_⟩
  · rintro earlier ⟨later, rfl⟩
    obtain ⟨error, stream, hrun, ⟨taken, hordered⟩, hresult⟩ :=
      (Delivering.new hlawful instanceId hcarries).receiveRun accepts hlawful hnumbered hcarries
        earlier []
        _ (fun data hdata => harrivals data (List.mem_append_left _ hdata)) hbounds.of_append
    refine ⟨error, stream, hrun, ?_⟩
    rcases hresult with ⟨rfl, h⟩ | ⟨-, h⟩
    · refine ⟨h.receiving.incoming_prefix, ?_, hordered.bytes, .inl rfl⟩
      rw [h.receiving.decrypted]
      exact List.take_prefix _ _
    · exact ⟨h.incoming, h.decrypted, hordered.bytes, .inr h.refused⟩
  · intro hall haccepts ⟨writer, hwriter⟩
    obtain ⟨error, stream, hrun, -, hresult⟩ :=
      (Delivering.new hlawful instanceId hcarries).receiveRun accepts hlawful hnumbered hcarries
        arrivals [] _ harrivals hbounds
    rcases hresult with ⟨rfl, h⟩ | ⟨-, h⟩
    · exact ⟨stream, hrun, h.complete hnumbered hcarries hall harrivals (hwhole writer hwriter)⟩
    · obtain ⟨i, hi, hrefused⟩ := h.refused
      simp [haccepts i hi] at hrefused

/-- A notification as JSON. -/
def notificationBytes : List UInt8 :=
  "\x7b\"method\":\"initialized\"\x7d".toList.map fun c => UInt8.ofNat c.toNat

/-- One notification, and a cipher that shows the nonce in place of its tag. -/
def notificationEnv : NoiseEnv Unit ℕ ℕ where
  toWriter _ := .ok notificationBytes
  fromSlice bytes := if bytes = notificationBytes then .ok () else .error "expected value".toList
  sendVec nonce plaintext := .ok (plaintext ++ List.replicate tagLen (UInt8.ofNat nonce), nonce + 1)
  receiveVec nonce ciphertext :=
    let length := ciphertext.length - tagLen
    if ciphertext.drop length = List.replicate tagLen (UInt8.ofNat nonce) then
      .ok (ciphertext.take length, nonce + 1)
    else .error "decryption failed".toList

lemma notificationEnv_lawful : notificationEnv.Lawful Eq where
  fromSlice_toWriter := by
    rintro ⟨⟩ bytes hbytes
    obtain rfl : notificationBytes = bytes := Except.ok.inj hbytes
    simp only [notificationEnv, if_true]
  fromSlice_nil := by
    rintro message h
    have hne : ¬ [] = notificationBytes := by decide +kernel
    simp only [notificationEnv, if_neg hne] at h
    cases h
  receiveVec_sendVec := by
    rintro nonce _ plaintext ciphertext nonce' rfl h
    cases h
    have hlength : (plaintext ++ List.replicate tagLen (UInt8.ofNat nonce)).length =
        plaintext.length + tagLen := by
      rw [List.length_append, List.length_replicate]
    refine ⟨hlength, nonce + 1, ?_, rfl⟩
    simp only [notificationEnv, hlength, Nat.add_sub_cancel, List.drop_left, List.take_left,
      if_true]

/-- Two notifications whose records arrive in the wrong order and twice. -/
theorem delivered_run_reversed :
    ∃ stream, NoiseVirtualStream.receiveRun notificationEnv (fun _ => true) (.new 0 7)
      ((NoiseWriter.writeMessages notificationEnv ⟨0, 0⟩ [(), ()]).1.reverse ++
        (NoiseWriter.writeMessages notificationEnv ⟨0, 0⟩ [(), ()]).1) = (none, stream) ∧
      stream.incoming = [(), ()] := by
  refine (delivered_run notificationEnv_lawful (fun _ _ => ⟨_, rfl⟩) rfl
    (Prod.mk.eta).symm ?_ ?_ _ 7).2.2 ?_ (fun _ _ => rfl) ⟨⟨2, 2⟩, rfl⟩
  · intro data hdata
    simpa using hdata
  · apply withinBounds_of_le
    · decide +kernel
    · decide +kernel
  · intro data hdata
    exact List.mem_append_right _ hdata

end stream

end Codex.ExecServer
