import Codex.Lib.Saturating
import Mathlib.Data.List.DropRight

/-!
# The head and tail of an output

`core/src/unified_exec/head_tail_buffer.rs`: of the output of a process its first and its last bytes
are kept, each in a budget of its own, as the chunks they came in. The counters are `usize` and
their additions saturate.
-/

namespace Codex.UnifiedExec

open Codex.Lib

structure HeadTailBuffer where
  maxBytes : ℕ
  headBudget : ℕ
  tailBudget : ℕ
  head : List (List UInt8)
  tail : List (List UInt8)
  headBytes : ℕ
  tailBytes : ℕ
  omittedBytes : ℕ

namespace HeadTailBuffer

def new (maxBytes : ℕ) : HeadTailBuffer where
  maxBytes := maxBytes
  headBudget := maxBytes / 2
  tailBudget := maxBytes - maxBytes / 2
  head := []
  tail := []
  headBytes := 0
  tailBytes := 0
  omittedBytes := 0

variable (buffer : HeadTailBuffer)

def retainedBytes : ℕ := saturatingAdd buffer.headBytes buffer.tailBytes

/-- the loop of `trim_tail_to_budget`; gives the tail, its size and the omitted bytes -/
def trimLoop (excess : ℕ) : List (List UInt8) → ℕ → ℕ → List (List UInt8) × ℕ × ℕ
  | [], tailBytes, omittedBytes => ([], tailBytes, omittedBytes)
  | front :: rest, tailBytes, omittedBytes =>
    if excess = 0 then (front :: rest, tailBytes, omittedBytes)
    else if front.length ≤ excess then
      trimLoop (excess - front.length) rest (tailBytes - front.length)
        (saturatingAdd omittedBytes front.length)
    else (front.drop excess :: rest, tailBytes - excess, saturatingAdd omittedBytes excess)

def trimTailToBudget : HeadTailBuffer :=
  let excess := buffer.tailBytes - buffer.tailBudget
  let (tail, tailBytes, omittedBytes) :=
    trimLoop excess buffer.tail buffer.tailBytes buffer.omittedBytes
  { buffer with tail := tail, tailBytes := tailBytes, omittedBytes := omittedBytes }

def pushToTail (chunk : List UInt8) : HeadTailBuffer :=
  if buffer.tailBudget = 0 then
    { buffer with omittedBytes := saturatingAdd buffer.omittedBytes chunk.length }
  else if buffer.tailBudget ≤ chunk.length then
    let start := chunk.length - buffer.tailBudget
    let kept := chunk.drop start
    let dropped := chunk.length - kept.length
    { buffer with
      omittedBytes := saturatingAdd (saturatingAdd buffer.omittedBytes buffer.tailBytes) dropped
      tailBytes := kept.length
      tail := [kept] }
  else
    trimTailToBudget { buffer with
      tailBytes := saturatingAdd buffer.tailBytes chunk.length
      tail := buffer.tail ++ [chunk] }

def pushChunk (chunk : List UInt8) : HeadTailBuffer :=
  if buffer.maxBytes = 0 then
    { buffer with omittedBytes := saturatingAdd buffer.omittedBytes chunk.length }
  else if buffer.headBytes < buffer.headBudget then
    let remainingHead := buffer.headBudget - buffer.headBytes
    if chunk.length ≤ remainingHead then
      { buffer with
        headBytes := saturatingAdd buffer.headBytes chunk.length
        head := buffer.head ++ [chunk] }
    else
      let (headPart, tailPart) := chunk.splitAt remainingHead
      let buffer :=
        if headPart.isEmpty then buffer
        else
          { buffer with
            headBytes := saturatingAdd buffer.headBytes headPart.length
            head := buffer.head ++ [headPart] }
      buffer.pushToTail tailPart
  else buffer.pushToTail chunk

def snapshotChunks : List (List UInt8) := buffer.head ++ buffer.tail

def toBytes : List UInt8 := buffer.head.flatten ++ buffer.tail.flatten

def drainChunks : HeadTailBuffer × List (List UInt8) :=
  ({ buffer with head := [], tail := [], headBytes := 0, tailBytes := 0, omittedBytes := 0 },
    buffer.head ++ buffer.tail)

variable (limit : ℕ)

/-- The buffer that was given chunks. -/
def pushChunks (chunks : List (List UInt8)) : HeadTailBuffer :=
  chunks.foldl pushChunk (new limit)

/-! ### What is kept of a stream -/

variable (stream : List UInt8)

/-- The bytes of a stream behind its head. -/
def beyondHead : List UInt8 := stream.drop (limit / 2)

/-- The last bytes of a stream behind its head. -/
def tailOf : List UInt8 :=
  (beyondHead limit stream).rtake (limit - limit / 2)

/-- The bytes of a stream between its head and its tail. -/
def omittedOf : ℕ :=
  (beyondHead limit stream).length - (limit - limit / 2)

/-- The buffer holds the head and the tail of a stream. -/
structure Holds (limit : ℕ) (stream : List UInt8) (buffer : HeadTailBuffer) : Prop where
  maxBytes : buffer.maxBytes = limit
  headBudget : buffer.headBudget = limit / 2
  tailBudget : buffer.tailBudget = limit - limit / 2
  head : buffer.head.flatten = stream.take (limit / 2)
  tail : buffer.tail.flatten = tailOf limit stream
  headBytes : buffer.headBytes = buffer.head.flatten.length
  tailBytes : buffer.tailBytes = buffer.tail.flatten.length
  omittedBytes : buffer.omittedBytes = min (omittedOf limit stream) usizeMax

/-! ### The last elements of a list -/

section rtake

variable {α : Type} (l m : List α) {n : ℕ}

theorem length_rtake (n : ℕ) : (l.rtake n).length = min n l.length := by
  rw [List.rtake, List.length_drop]
  omega

theorem rtake_append_of_le (h : n ≤ m.length) : (l ++ m).rtake n = m.rtake n := by
  rw [List.rtake, List.rtake, List.length_append, Nat.add_sub_assoc h, List.drop_append,
    List.drop_eq_nil_of_le (Nat.le_add_right _ _), List.nil_append, Nat.add_sub_cancel_left]

theorem rtake_of_length_le (h : l.length ≤ n) : l.rtake n = l := by
  rw [List.rtake, Nat.sub_eq_zero_of_le h, List.drop_zero]

/-- What is not among the last elements is not among them later on. -/
theorem rtake_append (n : ℕ) : (l ++ m).rtake n = (l.rtake n ++ m).rtake n := by
  rcases Nat.le_total l.length n with hle | hle
  · rw [rtake_of_length_le l hle]
  · have hsplit : l ++ m = l.take (l.length - n) ++ (l.rtake n ++ m) := by
      rw [← List.append_assoc, List.rtake, List.take_append_drop]
    have hlen : n ≤ (l.rtake n ++ m).length := by
      rw [List.length_append, length_rtake, Nat.min_eq_left hle]
      exact Nat.le_add_right _ _
    rw [hsplit, rtake_append_of_le _ _ hlen]

end rtake

/-! ### One chunk -/

variable {limit : ℕ} {stream : List UInt8} {buffer : HeadTailBuffer}

theorem new_holds (limit : ℕ) : Holds limit [] (new limit) where
  maxBytes := rfl
  headBudget := rfl
  tailBudget := rfl
  head := List.take_nil.symm
  tail := by simp [new, tailOf, beyondHead]
  headBytes := rfl
  tailBytes := rfl
  omittedBytes := by simp [new, omittedOf, beyondHead]

/-- **Trimming cuts off the front of the tail**, whole chunks first. -/
theorem trimLoop_spec {excess : ℕ} {tail : List (List UInt8)} (omitted : ℕ)
    (h : excess ≤ tail.flatten.length) :
    ∃ trimmed, trimLoop excess tail tail.flatten.length (min omitted usizeMax) =
        (trimmed, trimmed.flatten.length, min (omitted + excess) usizeMax) ∧
      trimmed.flatten = tail.flatten.drop excess := by
  induction tail generalizing excess omitted with
  | nil =>
    obtain rfl := Nat.le_zero.mp h
    exact ⟨[], rfl, List.drop_nil.symm⟩
  | cons front rest ih =>
    rw [trimLoop]
    split_ifs with hzero hwhole
    · rw [hzero]
      exact ⟨front :: rest, rfl, rfl⟩
    · have hrest : excess - front.length ≤ rest.flatten.length := by
        rw [List.flatten_cons, List.length_append] at h
        omega
      obtain ⟨trimmed, hloop, htrimmed⟩ := ih (omitted + front.length) hrest
      refine ⟨trimmed, ?_, ?_⟩
      · rw [saturatingAdd_min, List.flatten_cons, List.length_append, Nat.add_sub_cancel_left,
          hloop, Nat.add_assoc, Nat.add_sub_cancel' hwhole]
      · rw [htrimmed, List.flatten_cons, List.drop_append,
          List.drop_eq_nil_of_le hwhole, List.nil_append]
    · have hle : excess ≤ front.length := (not_le.mp hwhole).le
      refine ⟨front.drop excess :: rest, ?_, ?_⟩
      · rw [saturatingAdd_min, List.flatten_cons, List.flatten_cons, List.length_append,
          List.length_append, List.length_drop, Nat.sub_add_comm hle]
      · rw [List.flatten_cons, List.flatten_cons, List.drop_append_of_le_length hle]

theorem beyondHead_append (chunk : List UInt8) (h : limit / 2 ≤ stream.length) :
    beyondHead limit (stream ++ chunk) = beyondHead limit stream ++ chunk :=
  List.drop_append_of_le_length h

theorem beyondHead_of_le (h : stream.length ≤ limit / 2) : beyondHead limit stream = [] :=
  List.drop_eq_nil_of_le h

variable (h : Holds limit stream buffer)
include h

/-- The bytes behind the head are in the tail or omitted. -/
theorem Holds.tailBytes_add :
    buffer.tailBytes + omittedOf limit stream = (beyondHead limit stream).length := by
  rw [h.tailBytes, h.tail, tailOf, length_rtake, omittedOf]
  omega

variable (hmax : limit ≤ usizeMax)
include hmax

variable (chunk : List UInt8)

theorem Holds.pushHead (hfits : stream.length + chunk.length ≤ limit / 2) :
    Holds limit (stream ++ chunk)
      { buffer with
        headBytes := saturatingAdd buffer.headBytes chunk.length
        head := buffer.head ++ [chunk] } := by
  have hstream : stream.length ≤ limit / 2 := (Nat.le_add_right _ _).trans hfits
  have hlength : (stream ++ chunk).length ≤ limit / 2 := by
    rwa [List.length_append]
  have hhead : (buffer.head ++ [chunk]).flatten = (stream ++ chunk).take (limit / 2) := by
    rw [List.flatten_append, List.flatten_singleton, h.head, List.take_of_length_le hstream,
      List.take_of_length_le hlength]
  refine { h with head := hhead, tail := ?_, headBytes := ?_, omittedBytes := ?_ }
  · rw [h.tail, tailOf, tailOf, beyondHead_of_le hlength, beyondHead_of_le hstream]
  · dsimp only
    rw [h.headBytes, h.head, hhead, List.take_of_length_le hstream,
      List.take_of_length_le hlength, List.length_append]
    exact saturatingAdd_of_le (hfits.trans ((Nat.div_le_self _ _).trans hmax))
  · dsimp only
    rw [h.omittedBytes, omittedOf, omittedOf, beyondHead_of_le hlength, beyondHead_of_le hstream]

theorem Holds.pushToTail (hfull : limit / 2 ≤ stream.length) :
    Holds limit (stream ++ chunk) (buffer.pushToTail chunk) := by
  have hhead : buffer.head.flatten = (stream ++ chunk).take (limit / 2) := by
    rw [h.head, List.take_append_of_le_length hfull]
  have hbeyond : beyondHead limit (stream ++ chunk) = beyondHead limit stream ++ chunk :=
    beyondHead_append chunk hfull
  have htail : tailOf limit (stream ++ chunk) =
      (buffer.tail.flatten ++ chunk).rtake (limit - limit / 2) := by
    rw [tailOf, hbeyond, rtake_append, h.tail, tailOf]
  have hadd := h.tailBytes_add
  have homitted : omittedOf limit (stream ++ chunk) =
      (beyondHead limit stream).length + chunk.length - (limit - limit / 2) := by
    rw [omittedOf, hbeyond, List.length_append]
  have hbudget : buffer.tailBytes ≤ limit - limit / 2 := by
    rw [h.tailBytes, h.tail, tailOf, length_rtake]
    exact Nat.min_le_left _ _
  rw [HeadTailBuffer.pushToTail]
  split_ifs with hzero hlarge
  · -- there is no tail: everything behind the head is omitted
    rw [h.tailBudget] at hzero
    refine { h with head := hhead, tail := ?_, omittedBytes := ?_ }
    · rw [htail, hzero, List.rtake_zero, h.tail, tailOf, hzero, List.rtake_zero]
    · dsimp only
      rw [h.omittedBytes, saturatingAdd_min, homitted]
      congr 1
      omega
  · -- the chunk alone fills the tail
    rw [h.tailBudget] at hlarge
    have hkept : (chunk.drop (chunk.length - (limit - limit / 2))).length = limit - limit / 2 := by
      rw [List.length_drop]
      omega
    dsimp only
    rw [h.tailBudget]
    refine { h with
      head := hhead, tailBudget := rfl, tail := ?_, tailBytes := ?_, omittedBytes := ?_ }
    · rw [htail, rtake_append_of_le _ _ hlarge, List.flatten_singleton, List.rtake]
    · dsimp only
      rw [List.flatten_singleton]
    · dsimp only
      rw [h.omittedBytes, saturatingAdd_min, saturatingAdd_min, homitted, hkept]
      congr 1
      omega
  · -- the chunk joins the tail, which is cut at its front
    rw [h.tailBudget] at hlarge
    have hsize : saturatingAdd buffer.tailBytes chunk.length =
        (buffer.tail ++ [chunk]).flatten.length := by
      rw [saturatingAdd_of_le (by omega), List.flatten_append, List.flatten_singleton,
        List.length_append, h.tailBytes]
    have hlen : (buffer.tail ++ [chunk]).flatten.length = buffer.tailBytes + chunk.length := by
      rw [List.flatten_append, List.flatten_singleton, List.length_append, h.tailBytes]
    obtain ⟨trimmed, hloop, htrimmed⟩ := trimLoop_spec (omittedOf limit stream)
      (Nat.sub_le (buffer.tail ++ [chunk]).flatten.length (limit - limit / 2))
    have hresult : trimTailToBudget { buffer with
          tailBytes := saturatingAdd buffer.tailBytes chunk.length
          tail := buffer.tail ++ [chunk] } =
        { buffer with
          tail := trimmed
          tailBytes := trimmed.flatten.length
          omittedBytes := min (omittedOf limit stream +
            ((buffer.tail ++ [chunk]).flatten.length - (limit - limit / 2))) usizeMax } := by
      rw [trimTailToBudget]
      dsimp only
      rw [hsize, h.tailBudget, h.omittedBytes, hloop]
    rw [hresult]
    refine { h with head := hhead, tail := ?_, tailBytes := rfl, omittedBytes := ?_ }
    · rw [htail, htrimmed, List.flatten_append, List.flatten_singleton, List.rtake]
    · dsimp only
      rw [homitted, hlen]
      have homittedOf :
          omittedOf limit stream = (beyondHead limit stream).length - (limit - limit / 2) :=
        rfl
      congr 1
      omega

/-- **A chunk is taken in as its bytes one by one would be.** -/
theorem Holds.pushChunk : Holds limit (stream ++ chunk) (buffer.pushChunk chunk) := by
  have hread : buffer.headBytes = min (limit / 2) stream.length := by
    rw [h.headBytes, h.head, List.length_take]
  have hbudget := h.headBudget
  rw [HeadTailBuffer.pushChunk]
  simp only [List.splitAt_eq]
  split_ifs with hzero hroom hfits hempty
  · -- a buffer for no bytes has no tail either
    rw [h.maxBytes] at hzero
    have hnone : buffer.tailBudget = 0 := by
      rw [h.tailBudget, hzero]
    have hnext := h.pushToTail hmax chunk (by omega)
    rwa [HeadTailBuffer.pushToTail, if_pos hnone] at hnext
  · exact h.pushHead hmax chunk (by omega)
  · -- there is room, so that some bytes go to the head
    rw [List.isEmpty_iff, ← List.length_eq_zero_iff, List.length_take] at hempty
    omega
  · -- the chunk straddles the end of the head
    have hlen : (chunk.take (buffer.headBudget - buffer.headBytes)).length =
        buffer.headBudget - buffer.headBytes := by
      rw [List.length_take]
      omega
    have hhead := h.pushHead hmax (chunk.take (buffer.headBudget - buffer.headBytes))
      (by omega)
    have hnext := hhead.pushToTail hmax (chunk.drop (buffer.headBudget - buffer.headBytes))
      (by rw [List.length_append]; omega)
    rwa [List.append_assoc, List.take_append_drop] at hnext
  · exact h.pushToTail hmax chunk (by omega)

/-! ### Any chunks -/

theorem Holds.foldl (chunks : List (List UInt8)) :
    Holds limit (stream ++ chunks.flatten) (chunks.foldl HeadTailBuffer.pushChunk buffer) := by
  induction chunks generalizing stream buffer with
  | nil => rwa [List.flatten_nil, List.append_nil]
  | cons chunk chunks ih =>
    rw [List.flatten_cons, ← List.append_assoc]
    exact ih (h.pushChunk hmax chunk)

omit hmax

omit h

/-- The buffer holds the head and the tail of the bytes it was given, in whatever chunks. -/
theorem pushChunks_holds (hmax : limit ≤ usizeMax) (chunks : List (List UInt8)) :
    Holds limit chunks.flatten (pushChunks limit chunks) :=
  (new_holds limit).foldl hmax chunks

variable (h : Holds limit stream buffer)
include h

theorem Holds.toBytes :
    buffer.toBytes = stream.take (limit / 2) ++
      (stream.drop (limit / 2)).rtake (limit - limit / 2) := by
  rw [HeadTailBuffer.toBytes, h.head, h.tail, tailOf, beyondHead]

theorem Holds.length_toBytes :
    buffer.toBytes.length = min (limit / 2) stream.length + buffer.tailBytes := by
  rw [HeadTailBuffer.toBytes, List.length_append, ← h.tailBytes, h.head, List.length_take]

theorem Holds.length_toBytes_le : buffer.toBytes.length ≤ limit := by
  rw [h.length_toBytes, h.tailBytes, h.tail, tailOf, length_rtake]
  omega

theorem Holds.retainedBytes (hmax : limit ≤ usizeMax) :
    buffer.retainedBytes = buffer.toBytes.length := by
  have hlen : buffer.headBytes + buffer.tailBytes = buffer.toBytes.length := by
    rw [HeadTailBuffer.toBytes, List.length_append, h.headBytes, h.tailBytes]
  rw [HeadTailBuffer.retainedBytes, saturatingAdd_of_le, hlen]
  exact hlen.trans_le (h.length_toBytes_le.trans hmax)

/-- What is omitted and what is retained make up the stream. -/
theorem Holds.omittedOf_add : omittedOf limit stream = stream.length - buffer.toBytes.length := by
  have hadd := h.tailBytes_add
  rw [beyondHead, List.length_drop] at hadd
  rw [h.length_toBytes]
  omega

omit h

/-- **The buffer keeps the head and the tail of the stream**, in its budget and whatever the chunks
are; the counter of the omitted bytes is exact until it reaches `usize::MAX`. -/
theorem pushChunks_keepsEnds (limit : ℕ) (hmax : limit ≤ usizeMax) (chunks : List (List UInt8)) :
    (pushChunks limit chunks).toBytes = chunks.flatten.take (limit / 2) ++
        (chunks.flatten.drop (limit / 2)).rtake (limit - limit / 2) ∧
      (pushChunks limit chunks).retainedBytes = (pushChunks limit chunks).toBytes.length ∧
      (pushChunks limit chunks).retainedBytes ≤ limit ∧
      (pushChunks limit chunks).omittedBytes =
        min (chunks.flatten.length - (pushChunks limit chunks).retainedBytes) usizeMax ∧
      ∀ chunks' : List (List UInt8), chunks'.flatten = chunks.flatten →
        (pushChunks limit chunks').toBytes = (pushChunks limit chunks).toBytes ∧
        (pushChunks limit chunks').retainedBytes = (pushChunks limit chunks).retainedBytes ∧
        (pushChunks limit chunks').omittedBytes = (pushChunks limit chunks).omittedBytes := by
  have h := pushChunks_holds hmax chunks
  refine ⟨h.toBytes, h.retainedBytes hmax, ?_, ?_, ?_⟩
  · rw [h.retainedBytes hmax]
    exact h.length_toBytes_le
  · rw [h.omittedBytes, h.omittedOf_add, h.retainedBytes hmax]
  · intro chunks' hflatten
    have h' := pushChunks_holds hmax chunks'
    rw [hflatten] at h'
    have hbytes : (pushChunks limit chunks').toBytes = (pushChunks limit chunks).toBytes := by
      rw [h'.toBytes, h.toBytes]
    refine ⟨hbytes, ?_, ?_⟩
    · rw [h'.retainedBytes hmax, h.retainedBytes hmax, hbytes]
    · rw [h'.omittedBytes, h.omittedBytes]

theorem pushChunks_keepsEnds_straddling :
    (3 ≤ usizeMax) ∧ (pushChunks 3 [[1, 2], [3], [4, 5, 6]]).toBytes = [1, 5, 6] := by
  refine ⟨by decide, ?_⟩
  rw [(pushChunks_keepsEnds 3 (by decide) [[1, 2], [3], [4, 5, 6]]).1]
  decide

/-- Three chunks of `2 ^ 64` bytes in all. -/
def hugeChunks : List (List UInt8) :=
  [List.replicate (2 ^ 63 - 1) 0, List.replicate (2 ^ 63 - 1) 0, [0, 0]]

theorem length_hugeChunks : hugeChunks.flatten.length = 2 ^ 64 := by
  rw [hugeChunks, List.length_flatten]
  simp only [List.map_cons, List.map_nil, List.length_replicate, List.sum_cons, List.sum_nil,
    List.length_cons, List.length_nil]
  rfl

/-- The counter of the omitted bytes stays at `usize::MAX`: of `2 ^ 64` bytes that are all omitted,
one is not counted. -/
theorem omittedBytes_saturated :
    ¬(pushChunks 0 hugeChunks).retainedBytes + (pushChunks 0 hugeChunks).omittedBytes =
      hugeChunks.flatten.length := by
  have h := pushChunks_holds (Nat.zero_le usizeMax) hugeChunks
  have hretained : (pushChunks 0 hugeChunks).retainedBytes = 0 :=
    Nat.le_zero.mp ((h.retainedBytes (Nat.zero_le _)).trans_le h.length_toBytes_le)
  have homitted : (pushChunks 0 hugeChunks).omittedBytes ≤ usizeMax := by
    rw [h.omittedBytes]
    exact Nat.min_le_right _ _
  have hmax : usizeMax < 2 ^ 64 := by decide
  rw [hretained, length_hugeChunks]
  omega

end HeadTailBuffer

end Codex.UnifiedExec
