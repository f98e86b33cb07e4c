import Codex.Lib.Unicode

/-!
# Percent-encoding

A byte that may not stand for itself is a `%` and two hexadecimal digits. Decoding leaves a `%` that
two digits do not follow as it is.
-/

namespace Codex.Lib

/-! ### Hexadecimal digits -/

def hexDigit (n : ℕ) : Char := "0123456789ABCDEF".toList.getD n '0'

def hexValue (c : Char) : Option ℕ :=
  if c.isDigit then some (c.toNat - 0x30)
  else if 0x41 ≤ c.toNat ∧ c.toNat ≤ 0x46 then some (c.toNat - 0x37)
  else if 0x61 ≤ c.toNat ∧ c.toNat ≤ 0x66 then some (c.toNat - 0x57)
  else none

lemma hexValue_hexDigit {n : ℕ} (h : n < 16) : hexValue (hexDigit n) = some n := by
  have hall : ∀ n < 16, hexValue (hexDigit n) = some n := by decide
  exact hall n h

lemma hexDigit_isAlphanum {n : ℕ} (h : n < 16) : (hexDigit n).isAlphanum = true := by
  have hall : ∀ n < 16, (hexDigit n).isAlphanum = true := by decide
  exact hall n h

/-! ### Decoding -/

/-- `urlencoding::decode_binary` -/
def percentDecode : Text → Bytes
  | [] => []
  | c :: text =>
    if c = '%' then
      match text with
      | first :: second :: rest =>
        match hexValue first, hexValue second with
        | some high, some low => .ofNat (high * 16 + low) :: percentDecode rest
        | _, _ => 0x25 :: percentDecode (first :: second :: rest)
      | rest => 0x25 :: percentDecode rest
    else String.utf8EncodeChar c ++ percentDecode text

@[simp] lemma percentDecode_nil : percentDecode [] = [] := rfl

lemma percentDecode_cons_of_ne {c : Char} (h : c ≠ '%') (text : Text) :
    percentDecode (c :: text) = String.utf8EncodeChar c ++ percentDecode text := by
  rw [percentDecode.eq_def]
  exact if_neg h

lemma percentDecode_escape {high low : ℕ} {first second : Char}
    (hfirst : hexValue first = some high) (hsecond : hexValue second = some low) (rest : Text) :
    percentDecode ('%' :: first :: second :: rest) =
      .ofNat (high * 16 + low) :: percentDecode rest := by
  simp only [percentDecode, if_true, hfirst, hsecond]

/-- Two digits start the text. -/
def StartsEscape : Text → Prop
  | first :: second :: _ => (hexValue first).isSome ∧ (hexValue second).isSome
  | _ => False

lemma percentDecode_percent {text : Text} (h : ¬StartsEscape text) :
    percentDecode ('%' :: text) = 0x25 :: percentDecode text := by
  rw [percentDecode.eq_def]
  simp only [if_true]
  split
  next first second rest =>
    split
    next high low hfirst hsecond =>
      refine absurd ?_ h
      exact ⟨Option.isSome_of_mem hfirst, Option.isSome_of_mem hsecond⟩
    next => rfl
  next => rfl

lemma percentDecode_append_slash (a b : Text) :
    percentDecode (a ++ '/' :: b) = percentDecode a ++ percentDecode ('/' :: b) := by
  have hslash : (hexValue '/').isSome = false := rfl
  induction a using percentDecode.induct with
  | case1 => rfl
  | case2 first second rest high low hlow hhigh ih =>
    simp only [List.cons_append, percentDecode_escape hhigh hlow, ih]
  | case3 first second rest hno ih =>
    have hnot : ∀ rest, ¬StartsEscape (first :: second :: rest) := by
      rintro _ ⟨hfirst, hsecond⟩
      obtain ⟨high, hhigh⟩ := Option.isSome_iff_exists.mp hfirst
      obtain ⟨low, hlow⟩ := Option.isSome_iff_exists.mp hsecond
      exact hno high low hhigh hlow
    rw [percentDecode_percent (hnot rest), List.cons_append, List.cons_append, List.cons_append,
      percentDecode_percent (hnot _)]
    exact congrArg (0x25 :: ·) ih
  | case4 rest hshort ih =>
    have hnot : ¬StartsEscape rest := by
      intro h
      match rest, hshort with
      | first :: second :: rest, hshort => exact hshort first second rest rfl
    have hnot' : ¬StartsEscape (rest ++ '/' :: b) := by
      intro h
      match rest, hshort, h with
      | [], _, h =>
        cases b with
        | nil => exact h
        | cons c b => exact absurd h.1 (by rw [hslash]; exact Bool.false_ne_true)
      | [c], _, h => exact absurd h.2 (by rw [hslash]; exact Bool.false_ne_true)
      | first :: second :: rest, hshort, _ => exact hshort first second rest rfl
    rw [percentDecode_percent hnot, List.cons_append, percentDecode_percent hnot', ih,
      List.cons_append]
  | case5 c text hne ih =>
    rw [List.cons_append, percentDecode_cons_of_ne hne, percentDecode_cons_of_ne hne, ih,
      List.append_assoc]

/-! ### Encoding -/

/-- The encoding of a byte: the ones in `keep` stand for themselves. -/
def percentEncodeByte (keep : UInt8 → Bool) (b : UInt8) : Text :=
  if keep b then [.ofNat b.toNat] else ['%', hexDigit (b.toNat / 16), hexDigit (b.toNat % 16)]

def percentEncode (keep : UInt8 → Bool) (bytes : Bytes) : Text :=
  bytes.flatMap (percentEncodeByte keep)

section encode

variable {keep : UInt8 → Bool}

@[simp] lemma percentEncode_nil : percentEncode keep [] = [] := rfl

@[simp] lemma percentEncode_cons (b : UInt8) (bytes : Bytes) :
    percentEncode keep (b :: bytes) = percentEncodeByte keep b ++ percentEncode keep bytes := rfl

lemma percentEncodeByte_ne_nil (b : UInt8) : percentEncodeByte keep b ≠ [] := by
  rw [percentEncodeByte]
  split_ifs <;> exact List.cons_ne_nil _ _

@[simp] lemma percentEncode_eq_nil_iff {bytes : Bytes} :
    percentEncode keep bytes = [] ↔ bytes = [] := by
  cases bytes with
  | nil => exact iff_of_true rfl rfl
  | cons b bytes =>
    refine iff_of_false ?_ (List.cons_ne_nil b bytes)
    exact List.append_ne_nil_of_left_ne_nil (percentEncodeByte_ne_nil b) _

lemma ofNat_toNat_of_lt {b : UInt8} (h : b.toNat < 128) : (Char.ofNat b.toNat).toNat = b.toNat := by
  have hvalid : b.toNat.isValidChar := .inl (by omega)
  rw [Char.ofNat, dif_pos hvalid]
  rfl

/-- **What was encoded is decoded again.** -/
theorem percentDecode_percentEncode (hascii : ∀ b, keep b → b.toNat < 128)
    (hpercent : keep 0x25 = false) (bytes : Bytes) :
    percentDecode (percentEncode keep bytes) = bytes := by
  induction bytes with
  | nil => rfl
  | cons b bytes ih =>
    rw [percentEncode_cons, percentEncodeByte]
    split_ifs with hkeep
    · have hnat := ofNat_toNat_of_lt (hascii b hkeep)
      have hne : Char.ofNat b.toNat ≠ '%' := by
        intro h
        have hb : b = 0x25 := UInt8.toNat_inj.mp (by rw [← hnat, h]; rfl)
        simp [hb, hpercent] at hkeep
      have hencode := utf8EncodeChar_of_lt (c := Char.ofNat b.toNat) (by
        rw [hnat]; exact hascii b hkeep)
      rw [List.cons_append, List.nil_append, percentDecode_cons_of_ne hne, hencode, hnat,
        UInt8.ofNat_toNat, ih]
      rfl
    · have hlt := b.toNat_lt
      have hbyte : b.toNat / 16 * 16 + b.toNat % 16 = b.toNat := by omega
      rw [List.cons_append, List.cons_append, List.cons_append, List.nil_append,
        percentDecode_escape (hexValue_hexDigit (by omega)) (hexValue_hexDigit (by omega)), hbyte,
        UInt8.ofNat_toNat, ih]

/-- An encoding has only bytes that stand for themselves, `%` and digits. -/
theorem mem_percentEncode (hascii : ∀ b, keep b → b.toNat < 128) {bytes : Bytes} {c : Char}
    (h : c ∈ percentEncode keep bytes) :
    (c.toNat < 128 ∧ keep (.ofNat c.toNat) ∧ UInt8.ofNat c.toNat ∈ bytes) ∨ c = '%' ∨
      c.isAlphanum = true := by
  obtain ⟨b, hb, hmem⟩ := List.mem_flatMap.mp h
  rw [percentEncodeByte] at hmem
  split_ifs at hmem with hkeep
  · left
    obtain rfl := List.mem_singleton.mp hmem
    have hnat := ofNat_toNat_of_lt (hascii b hkeep)
    rw [hnat, UInt8.ofNat_toNat]
    exact ⟨hascii b hkeep, hkeep, hb⟩
  · right
    have hlt := b.toNat_lt
    simp only [List.mem_cons, List.not_mem_nil, or_false] at hmem
    rcases hmem with rfl | rfl | rfl
    · exact .inl rfl
    · exact .inr (hexDigit_isAlphanum (by omega))
    · exact .inr (hexDigit_isAlphanum (by omega))

end encode

end Codex.Lib
