import Codex.Lib.Text
import Mathlib.Data.String.Basic

/-!
# Byte offsets into UTF-8 text

Text is a list of characters; an offset counts the bytes of their UTF-8 encoding, as a Rust `&str`
is indexed. `IsBoundary l n` is `str::is_char_boundary`. A slice at an offset that is not a boundary
panics in Rust; here it is taken at the last boundary before it.
-/

namespace Codex.Lib

open String (utf8Len)

/-- The characters that end within the first `n` bytes. -/
def takeBytes : ℕ → Text → Text
  | _, [] => []
  | n, c :: l => if c.utf8Size ≤ n then c :: takeBytes (n - c.utf8Size) l else []

/-- The characters after `takeBytes`. -/
def dropBytes : ℕ → Text → Text
  | _, [] => []
  | n, c :: l => if c.utf8Size ≤ n then dropBytes (n - c.utf8Size) l else c :: l

variable (l : Text) (n : ℕ)

/-- `str::is_char_boundary`. -/
def IsBoundary : Prop := utf8Len (takeBytes n l) = n

instance (l : Text) (n : ℕ) : Decidable (IsBoundary l n) := inferInstanceAs (Decidable (_ = _))

/-- `&l[start..stop]`. -/
def slice (start stop : ℕ) : Text := takeBytes (stop - start) (dropBytes start l)

/-- `l.replace_range(start..stop, new)`. -/
def splice (start stop : ℕ) (new : Text) : Text :=
  takeBytes start l ++ new ++ dropBytes stop l

lemma takeBytes_append_dropBytes (l : Text) : takeBytes n l ++ dropBytes n l = l := by
  induction l generalizing n with
  | nil => rfl
  | cons c l ih =>
    rw [takeBytes, dropBytes]
    by_cases hc : c.utf8Size ≤ n
    · rw [if_pos hc, if_pos hc, List.cons_append, ih]
    · rw [if_neg hc, if_neg hc, List.nil_append]

lemma takeBytes_prefix_self (l : Text) : takeBytes n l <+: l :=
  ⟨dropBytes n l, takeBytes_append_dropBytes n l⟩

lemma utf8Len_takeBytes_le (l : Text) : utf8Len (takeBytes n l) ≤ n := by
  induction l generalizing n with
  | nil => exact Nat.zero_le n
  | cons c l ih =>
    rw [takeBytes]
    split_ifs with hc
    · have := ih (n - c.utf8Size)
      rw [String.utf8Len_cons]
      omega
    · exact Nat.zero_le n

lemma takeBytes_zero : takeBytes 0 l = [] := by
  cases l with
  | nil => rfl
  | cons c l => exact if_neg (by have := c.utf8Size_pos; omega)

lemma dropBytes_zero : dropBytes 0 l = l := by
  cases l with
  | nil => rfl
  | cons c l => exact if_neg (by have := c.utf8Size_pos; omega)

variable (a b : Text)

lemma takeBytes_append (n : ℕ) : takeBytes (utf8Len a + n) (a ++ b) = a ++ takeBytes n b := by
  induction a with
  | nil => simp
  | cons c a ih =>
    have hle : c.utf8Size ≤ utf8Len (c :: a) + n := by
      rw [String.utf8Len_cons]
      omega
    have hrest : utf8Len (c :: a) + n - c.utf8Size = utf8Len a + n := by
      rw [String.utf8Len_cons]
      omega
    rw [List.cons_append, takeBytes, if_pos hle, hrest, ih, List.cons_append]

lemma dropBytes_append (n : ℕ) : dropBytes (utf8Len a + n) (a ++ b) = dropBytes n b := by
  induction a with
  | nil => simp
  | cons c a ih =>
    have hle : c.utf8Size ≤ utf8Len (c :: a) + n := by
      rw [String.utf8Len_cons]
      omega
    have hrest : utf8Len (c :: a) + n - c.utf8Size = utf8Len a + n := by
      rw [String.utf8Len_cons]
      omega
    rw [List.cons_append, dropBytes, if_pos hle, hrest, ih]

@[simp] lemma takeBytes_utf8Len_append : takeBytes (utf8Len a) (a ++ b) = a := by
  have h := takeBytes_append a b 0
  rwa [takeBytes_zero, List.append_nil] at h

variable {n : ℕ}

/-- `takeBytes` is the longest prefix of no more bytes. -/
lemma prefix_takeBytes {l t : Text} (ht : t <+: l) (h : utf8Len t ≤ n) : t <+: takeBytes n l := by
  obtain ⟨rest, rfl⟩ := ht
  obtain ⟨m, rfl⟩ := Nat.exists_eq_add_of_le h
  rw [takeBytes_append]
  exact List.prefix_append _ _

@[simp] lemma dropBytes_utf8Len_append : dropBytes (utf8Len a) (a ++ b) = b := by
  have h := dropBytes_append a b 0
  rwa [dropBytes_zero] at h

/-! ### Boundaries -/

variable {l : Text}

lemma isBoundary_iff : IsBoundary l n ↔ ∃ a b, l = a ++ b ∧ utf8Len a = n := by
  constructor
  · intro h
    exact ⟨takeBytes n l, dropBytes n l, (takeBytes_append_dropBytes n l).symm, h⟩
  · rintro ⟨a, b, rfl, rfl⟩
    rw [IsBoundary, takeBytes_utf8Len_append]

lemma isBoundary_utf8Len_append : IsBoundary (a ++ b) (utf8Len a) :=
  isBoundary_iff.mpr ⟨a, b, rfl, rfl⟩

@[simp] lemma isBoundary_zero (l : Text) : IsBoundary l 0 := isBoundary_iff.mpr ⟨[], l, rfl, rfl⟩

@[simp] lemma isBoundary_utf8Len (l : Text) : IsBoundary l (utf8Len l) :=
  isBoundary_iff.mpr ⟨l, [], (List.append_nil l).symm, rfl⟩

lemma IsBoundary.le (h : IsBoundary l n) : n ≤ utf8Len l := by
  obtain ⟨a, b, rfl, rfl⟩ := isBoundary_iff.mp h
  rw [String.utf8Len_append]
  omega

/-- Of two prefixes the shorter is a prefix of the longer. -/
theorem exists_of_append_eq {a b a' b' : Text} (h : a ++ b = a' ++ b')
    (hle : utf8Len a ≤ utf8Len a') : ∃ m, a' = a ++ m ∧ b = m ++ b' := by
  rcases List.append_eq_append_iff.mp h with ⟨m, ha, hb⟩ | ⟨m, ha, hb⟩
  · exact ⟨m, ha, hb⟩
  · have hm : m = [] := by
      rw [ha, String.utf8Len_append] at hle
      exact String.utf8Len_eq_zero.mp (by omega)
    subst hm
    exact ⟨[], by simpa using ha.symm, by simpa using hb.symm⟩

lemma exists_split {start stop : ℕ} (hstart : IsBoundary l start) (hstop : IsBoundary l stop)
    (hle : start ≤ stop) :
    ∃ a x b, l = a ++ x ++ b ∧ utf8Len a = start ∧ utf8Len a + utf8Len x = stop := by
  obtain ⟨a, b, rfl, rfl⟩ := isBoundary_iff.mp hstart
  obtain ⟨a', b', h, rfl⟩ := isBoundary_iff.mp hstop
  obtain ⟨m, rfl, rfl⟩ := exists_of_append_eq h hle
  refine ⟨a, m, b', (List.append_assoc ..).symm, rfl, ?_⟩
  rw [String.utf8Len_append]

/-- A boundary of a suffix, counted from the start of the text. -/
theorem IsBoundary.add {n m : ℕ} (hn : IsBoundary l n) (hm : IsBoundary (dropBytes n l) m) :
    IsBoundary l (n + m) := by
  obtain ⟨a, b, rfl, rfl⟩ := isBoundary_iff.mp hn
  rw [dropBytes_utf8Len_append] at hm
  obtain ⟨b, b', rfl, rfl⟩ := isBoundary_iff.mp hm
  refine isBoundary_iff.mpr ⟨a ++ b, b', (List.append_assoc ..).symm, ?_⟩
  rw [String.utf8Len_append]

lemma IsBoundary.of_takeBytes {n m : ℕ} (h : IsBoundary (takeBytes n l) m) : IsBoundary l m := by
  obtain ⟨a, b, hab, rfl⟩ := isBoundary_iff.mp h
  refine isBoundary_iff.mpr ⟨a, b ++ dropBytes n l, ?_, rfl⟩
  rw [← List.append_assoc, ← hab, takeBytes_append_dropBytes]

/-- A boundary of a slice, counted from the start of the text. -/
theorem IsBoundary.add_slice {start stop m : ℕ} (hstart : IsBoundary l start)
    (h : IsBoundary (slice l start stop) m) : IsBoundary l (start + m) :=
  hstart.add h.of_takeBytes

lemma slice_append (a x b : Text) :
    slice (a ++ x ++ b) (utf8Len a) (utf8Len a + utf8Len x) = x := by
  rw [slice, List.append_assoc, dropBytes_utf8Len_append, Nat.add_sub_cancel_left,
    takeBytes_utf8Len_append]

lemma splice_append (a x b new : Text) :
    splice (a ++ x ++ b) (utf8Len a) (utf8Len a + utf8Len x) new = a ++ new ++ b := by
  rw [splice, ← String.utf8Len_append, dropBytes_utf8Len_append, List.append_assoc a x b,
    takeBytes_utf8Len_append]

/-! ### What an edit leaves alone -/

section splice

variable {l new : Text} {start stop p q : ℕ} (hstart : IsBoundary l start)
include hstart

variable (hstop : IsBoundary l stop)
include hstop

variable (hle : start ≤ stop)
include hle

lemma isBoundary_splice_of_le (hp : IsBoundary l p) (h : p ≤ start) :
    IsBoundary (splice l start stop new) p := by
  obtain ⟨a, x, b, rfl, rfl, rfl⟩ := exists_split hstart hstop hle
  obtain ⟨a₁, a₂, hap, rfl⟩ := isBoundary_iff.mp hp
  rw [List.append_assoc] at hap
  obtain ⟨m, rfl, -⟩ := exists_of_append_eq hap.symm h
  rw [splice_append, List.append_assoc, List.append_assoc]
  exact isBoundary_utf8Len_append ..

lemma isBoundary_splice_of_ge (hp : IsBoundary l p) (h : stop ≤ p) :
    IsBoundary (splice l start stop new) (p + utf8Len new - (stop - start)) := by
  obtain ⟨a, x, b, rfl, rfl, rfl⟩ := exists_split hstart hstop hle
  obtain ⟨a₁, a₂, hap, rfl⟩ := isBoundary_iff.mp hp
  rw [← String.utf8Len_append] at h
  obtain ⟨m, rfl, rfl⟩ := exists_of_append_eq hap h
  refine isBoundary_iff.mpr ⟨a ++ new ++ m, a₂, ?_, ?_⟩
  · rw [splice_append, List.append_assoc _ m]
  · simp only [String.utf8Len_append]
    omega

lemma isBoundary_splice_new : IsBoundary (splice l start stop new) (start + utf8Len new) := by
  obtain ⟨a, x, b, rfl, rfl, rfl⟩ := exists_split hstart hstop hle
  rw [splice_append, ← String.utf8Len_append]
  exact isBoundary_utf8Len_append ..

lemma slice_splice_new : slice (splice l start stop new) start (start + utf8Len new) = new := by
  obtain ⟨a, x, b, rfl, rfl, rfl⟩ := exists_split hstart hstop hle
  rw [splice_append, slice_append]

lemma slice_splice_of_le (hp : IsBoundary l p) (hq : IsBoundary l q) (hpq : p ≤ q)
    (h : q ≤ start) : slice (splice l start stop new) p q = slice l p q := by
  obtain ⟨a, x, b, rfl, rfl, rfl⟩ := exists_split hstart hstop hle
  obtain ⟨u, v, w, huvw, rfl, rfl⟩ := exists_split hp hq hpq
  rw [← String.utf8Len_append] at h
  rw [List.append_assoc] at huvw
  obtain ⟨m, rfl, -⟩ := exists_of_append_eq huvw.symm h
  rw [splice_append, List.append_assoc (u ++ v) m, List.append_assoc (u ++ v), slice_append,
    List.append_assoc (u ++ v) m, List.append_assoc (u ++ v), slice_append]

lemma slice_splice_of_ge (hp : IsBoundary l p) (hq : IsBoundary l q) (hpq : p ≤ q) (h : stop ≤ p) :
    slice (splice l start stop new) (p + utf8Len new - (stop - start))
      (q + utf8Len new - (stop - start)) = slice l p q := by
  obtain ⟨a, x, b, rfl, rfl, rfl⟩ := exists_split hstart hstop hle
  obtain ⟨u, v, w, huvw, rfl, rfl⟩ := exists_split hp hq hpq
  rw [← String.utf8Len_append] at h
  rw [List.append_assoc u] at huvw
  obtain ⟨m, rfl, rfl⟩ := exists_of_append_eq huvw h
  have hstart' : utf8Len (a ++ x ++ m) + utf8Len new - (utf8Len a + utf8Len x - utf8Len a) =
      utf8Len (a ++ new ++ m) := by
    simp only [String.utf8Len_append]
    omega
  have hstop' : utf8Len (a ++ x ++ m) + utf8Len v + utf8Len new
      - (utf8Len a + utf8Len x - utf8Len a) = utf8Len (a ++ new ++ m) + utf8Len v := by
    simp only [String.utf8Len_append]
    omega
  rw [splice_append, hstart', hstop', huvw, ← List.append_assoc (a ++ x ++ m), slice_append,
    ← List.append_assoc (a ++ new) m, ← List.append_assoc (a ++ new ++ m), slice_append]

end splice

/-! ### Finding characters -/

/-- `str::find` of a character: the offset of the first one with the property. -/
def findByte (p : Char → Bool) : Text → Option ℕ
  | [] => none
  | c :: l => if p c then some 0 else (findByte p l).map (· + c.utf8Size)

/-- `str::rfind` of a character: the last one with the property and its offset. -/
def rfindByte (p : Char → Bool) : Text → Option (ℕ × Char)
  | [] => none
  | c :: l =>
    match rfindByte p l with
    | some (i, d) => some (i + c.utf8Size, d)
    | none => if p c then some (0, c) else none

/-- `str::char_indices`, the first character standing at the offset given. -/
def charIndices (offset : ℕ) : Text → List (ℕ × Char)
  | [] => []
  | c :: l => (offset, c) :: charIndices (offset + c.utf8Size) l

/-- The character stands at the offset. -/
def CharAt (l : Text) (i : ℕ) (c : Char) : Prop := ∃ a b, l = a ++ c :: b ∧ utf8Len a = i

variable {l : Text} {i : ℕ}

lemma CharAt.cons {c d : Char} (h : CharAt l i c) : CharAt (d :: l) (i + d.utf8Size) c := by
  obtain ⟨a, b, rfl, rfl⟩ := h
  exact ⟨d :: a, b, rfl, String.utf8Len_cons d a⟩

variable {c : Char}

lemma CharAt.left (h : CharAt l i c) : IsBoundary l i := by
  obtain ⟨a, b, rfl, rfl⟩ := h
  exact isBoundary_utf8Len_append ..

lemma CharAt.right (h : CharAt l i c) : IsBoundary l (i + c.utf8Size) := by
  obtain ⟨a, b, rfl, rfl⟩ := h
  refine isBoundary_iff.mpr ⟨a ++ [c], b, by simp, ?_⟩
  simp

lemma findByte_eq_some {p : Char → Bool} (h : findByte p l = some i) :
    ∃ c, CharAt l i c ∧ p c = true := by
  induction l generalizing i with
  | nil => cases h
  | cons c l ih =>
    rw [findByte] at h
    by_cases hc : p c = true
    · rw [if_pos hc, Option.some.injEq] at h
      exact ⟨c, ⟨[], l, rfl, h⟩, hc⟩
    · rw [if_neg hc, Option.map_eq_some_iff] at h
      obtain ⟨j, hj, rfl⟩ := h
      obtain ⟨d, hd, hpd⟩ := ih hj
      exact ⟨d, hd.cons, hpd⟩

lemma rfindByte_eq_some {p : Char → Bool} {d : Char} (h : rfindByte p l = some (i, d)) :
    CharAt l i d ∧ p d = true := by
  induction l generalizing i with
  | nil => cases h
  | cons c l ih =>
    rw [rfindByte] at h
    cases hrest : rfindByte p l with
    | some found =>
      rw [hrest] at h
      cases h
      obtain ⟨hat, hp⟩ := ih hrest
      exact ⟨hat.cons, hp⟩
    | none =>
      rw [hrest] at h
      by_cases hc : p c = true
      · rw [if_pos hc] at h
        cases h
        exact ⟨⟨[], l, rfl, rfl⟩, hc⟩
      · simp [if_neg hc] at h

lemma exists_of_mem_charIndices {offset i : ℕ} (h : (i, c) ∈ charIndices offset l) :
    ∃ j, CharAt l j c ∧ i = offset + j := by
  induction l generalizing offset with
  | nil => cases h
  | cons d l ih =>
    rw [charIndices, List.mem_cons] at h
    rcases h with h | h
    · cases h
      exact ⟨0, ⟨[], l, rfl, rfl⟩, rfl⟩
    · obtain ⟨j, hj, rfl⟩ := ih h
      exact ⟨j + d.utf8Size, hj.cons, by omega⟩

lemma charAt_of_mem_charIndices (h : (i, c) ∈ charIndices 0 l) : CharAt l i c := by
  obtain ⟨j, hj, rfl⟩ := exists_of_mem_charIndices h
  rwa [Nat.zero_add]

/-! ### Rounding to a boundary -/

/-- The last boundary at or before the offset. -/
def prevBoundary (l : Text) : ℕ → ℕ
  | 0 => 0
  | n + 1 => if IsBoundary l (n + 1) then n + 1 else prevBoundary l n

/-- The first boundary at or after the offset, looking as far as the fuel goes. -/
def nextBoundary (l : Text) (n : ℕ) : ℕ → ℕ
  | 0 => n
  | fuel + 1 => if IsBoundary l n then n else nextBoundary l (n + 1) fuel

variable (l)

/-- The boundary nearest to the offset, of two the earlier one. -/
def clampToBoundary (n : ℕ) : ℕ :=
  let n := min n (utf8Len l)
  let prev := prevBoundary l n
  let next := nextBoundary l n (utf8Len l - n)
  if n - prev ≤ next - n then prev else next

lemma prevBoundary_spec (n : ℕ) :
    IsBoundary l (prevBoundary l n) ∧ prevBoundary l n ≤ n ∧
      ∀ m, IsBoundary l m → m ≤ n → m ≤ prevBoundary l n := by
  induction n with
  | zero => exact ⟨isBoundary_zero l, le_rfl, fun m _ hm => hm⟩
  | succ n ih =>
    obtain ⟨hb, hle, hmax⟩ := ih
    rw [prevBoundary]
    by_cases h : IsBoundary l (n + 1)
    · rw [if_pos h]
      exact ⟨h, le_rfl, fun m _ hm => hm⟩
    · rw [if_neg h]
      refine ⟨hb, by omega, fun m hm hmn => hmax m hm ?_⟩
      have hne : m ≠ n + 1 := fun hmn' => h (hmn' ▸ hm)
      omega

lemma nextBoundary_spec (n fuel : ℕ) (h : n + fuel = utf8Len l) :
    IsBoundary l (nextBoundary l n fuel) ∧ n ≤ nextBoundary l n fuel ∧
      ∀ m, IsBoundary l m → n ≤ m → nextBoundary l n fuel ≤ m := by
  induction fuel generalizing n with
  | zero =>
    obtain rfl : n = utf8Len l := h
    exact ⟨isBoundary_utf8Len l, le_rfl, fun m _ hm => hm⟩
  | succ fuel ih =>
    rw [nextBoundary]
    by_cases hn : IsBoundary l n
    · rw [if_pos hn]
      exact ⟨hn, le_rfl, fun m _ hm => hm⟩
    · rw [if_neg hn]
      obtain ⟨hb, hle, hmin⟩ := ih (n + 1) (by omega)
      refine ⟨hb, by omega, fun m hm hmn => hmin m hm ?_⟩
      have hne : m ≠ n := fun hmn' => hn (hmn' ▸ hm)
      omega

lemma isBoundary_clampToBoundary (n : ℕ) : IsBoundary l (clampToBoundary l n) := by
  simp only [clampToBoundary]
  split
  · exact (prevBoundary_spec l _).1
  · exact (nextBoundary_spec l _ _ (by omega)).1

variable {l}

lemma clampToBoundary_of_isBoundary (h : IsBoundary l n) : clampToBoundary l n = n := by
  have hprev := prevBoundary_spec l n
  have hge := hprev.2.2 n h le_rfl
  simp only [clampToBoundary, min_eq_left h.le]
  rw [if_pos (by omega)]
  omega

lemma clampToBoundary_mono {n m : ℕ} (h : n ≤ m) : clampToBoundary l n ≤ clampToBoundary l m := by
  have hnm : min n (utf8Len l) ≤ min m (utf8Len l) := by omega
  simp only [clampToBoundary]
  generalize hn' : min n (utf8Len l) = n' at hnm ⊢
  generalize hm' : min m (utf8Len l) = m' at hnm ⊢
  obtain ⟨hnb, hnle, hnmax⟩ := prevBoundary_spec l n'
  obtain ⟨hmb, hmle, hmmax⟩ := prevBoundary_spec l m'
  obtain ⟨hnb', hnle', hnmin⟩ := nextBoundary_spec l n' (utf8Len l - n') (by omega)
  obtain ⟨hmb', hmle', hmmin⟩ := nextBoundary_spec l m' (utf8Len l - m') (by omega)
  have hprev := hmmax _ hnb (by omega)
  have hnext := hnmin _ hmb' (by omega)
  -- either a boundary lies between the two offsets, or both have the same neighbours
  by_cases hbetween : n' ≤ prevBoundary l m'
  · have hle := hnmin _ hmb hbetween
    split <;> split <;> omega
  · have hsame := hnmax _ hmb (by omega)
    have hsame' : nextBoundary l m' (utf8Len l - m') ≤ nextBoundary l n' (utf8Len l - n') := by
      refine hmmin _ hnb' ?_
      by_contra hlt
      have := hmmax _ hnb' (by omega)
      omega
    split <;> split <;> omega

end Codex.Lib
