import Mathlib.Algebra.Group.Nat.Defs
import Mathlib.Data.List.Basic

/-!
# Bytes of a framed stream

A stream of bytes is cut into records, and a message in it stands behind its length.

* `flatten_chunks`, `length_of_mem_chunks`: the records of a slice;
* `ofBeBytes_toBeBytes`: a `u32` as four bytes, the most significant first.
-/

namespace Codex.Lib

variable {α : Type}

/-! ### Chunks -/

/-- The rounds of `chunks`. -/
def chunkRounds (size : ℕ) : ℕ → List α → List (List α)
  | 0, _ => []
  | _ + 1, [] => []
  | rounds + 1, a :: l => (a :: l).take size :: chunkRounds size rounds ((a :: l).drop size)

/-- `chunks` of a slice: records of the given size, the last one maybe shorter. -/
def chunks (size : ℕ) (l : List α) : List (List α) := chunkRounds size l.length l

lemma flatten_chunkRounds {size : ℕ} (hsize : 0 < size) (rounds : ℕ) (l : List α)
    (h : l.length ≤ rounds) : (chunkRounds size rounds l).flatten = l := by
  induction rounds generalizing l with
  | zero =>
    rw [List.length_eq_zero_iff.mp (Nat.le_zero.mp h)]
    rfl
  | succ rounds ih =>
    rcases l with _ | ⟨a, l⟩
    · rfl
    · have hrest : ((a :: l).drop size).length ≤ rounds := by
        rw [List.length_drop]
        omega
      rw [chunkRounds, List.flatten_cons, ih _ hrest, List.take_append_drop]

lemma flatten_chunks {size : ℕ} (hsize : 0 < size) (l : List α) : (chunks size l).flatten = l :=
  flatten_chunkRounds hsize _ l (Nat.le_refl _)

lemma length_of_mem_chunkRounds {size rounds : ℕ} {l chunk : List α}
    (h : chunk ∈ chunkRounds size rounds l) : chunk.length ≤ size := by
  induction rounds generalizing l with
  | zero => cases h
  | succ rounds ih =>
    rcases l with _ | ⟨a, l⟩
    · cases h
    · rcases List.mem_cons.mp h with rfl | h
      · exact List.length_take_le _ _
      · exact ih h

lemma length_of_mem_chunks {size : ℕ} {l chunk : List α} (h : chunk ∈ chunks size l) :
    chunk.length ≤ size :=
  length_of_mem_chunkRounds h

/-! ### Lengths as bytes -/

def toBeBytes (n : ℕ) : List UInt8 :=
  [UInt8.ofNat (n / 2 ^ 24), UInt8.ofNat (n / 2 ^ 16), UInt8.ofNat (n / 2 ^ 8), UInt8.ofNat n]

/-- `u32::from_be_bytes`. -/
def ofBeBytes (bytes : List UInt8) : ℕ := bytes.foldl (fun n byte => n * 2 ^ 8 + byte.toNat) 0

@[simp] lemma length_toBeBytes (n : ℕ) : (toBeBytes n).length = 4 := rfl

lemma ofBeBytes_toBeBytes {n : ℕ} (h : n < 2 ^ 32) : ofBeBytes (toBeBytes n) = n := by
  simp only [ofBeBytes, toBeBytes, List.foldl_cons, List.foldl_nil, UInt8.toNat_ofNat']
  omega

end Codex.Lib
