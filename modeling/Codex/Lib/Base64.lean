import Codex.Lib.Text
import Mathlib.Algebra.Order.Floor.Div

/-!
# Base64

The standard alphabet with padding. Three bytes are four digits of six bits; one or two bytes at the
end are padded, and the bits that are left over are zero.
-/

namespace Codex.Lib.Base64

/-! ### Digits -/

def alphabet : Text := "ABCDEFGHIJKLMNOPQRSTUVWXYZabcdefghijklmnopqrstuvwxyz0123456789+/".toList

def padding : Char := '='

/-- The digit of six bits. -/
def digit (n : ℕ) : Char := alphabet.getD n padding

/-- The six bits of a digit. -/
def value (c : Char) : Option ℕ := alphabet.idxOf? c

lemma alphabet_eq : alphabet =
    ['A', 'B', 'C', 'D', 'E', 'F', 'G', 'H', 'I', 'J', 'K', 'L', 'M', 'N', 'O', 'P', 'Q', 'R',
      'S', 'T', 'U', 'V', 'W', 'X', 'Y', 'Z', 'a', 'b', 'c', 'd', 'e', 'f', 'g', 'h', 'i', 'j',
      'k', 'l', 'm', 'n', 'o', 'p', 'q', 'r', 's', 't', 'u', 'v', 'w', 'x', 'y', 'z', '0', '1',
      '2', '3', '4', '5', '6', '7', '8', '9', '+', '/'] :=
  String.toList_ofList

lemma length_alphabet : alphabet.length = 64 := by
  rw [alphabet_eq]
  rfl

lemma nodup_alphabet : alphabet.Nodup := by
  refine List.Nodup.of_map Char.toNat ?_
  rw [alphabet_eq]
  decide +kernel

lemma padding_notMem_alphabet : padding ∉ alphabet := by
  rw [alphabet_eq]
  decide

lemma digit_eq_getElem {n : ℕ} (h : n < alphabet.length) : digit n = alphabet[n] := by
  rw [digit, List.getD_eq_getElem?_getD, List.getElem?_eq_getElem h, Option.getD_some]

lemma value_digit {n : ℕ} (h : n < 64) : value (digit n) = some n := by
  rw [← length_alphabet] at h
  rw [digit_eq_getElem h, value, List.idxOf?_eq_some_iff]
  exact ⟨h, rfl, fun j hj => nodup_alphabet.getElem_inj_iff.not.mpr hj.ne⟩

lemma digit_ne_padding {n : ℕ} (h : n < 64) : digit n ≠ padding := by
  rw [← length_alphabet] at h
  rw [digit_eq_getElem h]
  exact ne_of_mem_of_not_mem (List.getElem_mem h) padding_notMem_alphabet

lemma digit_mem (n : ℕ) : digit n ∈ padding :: alphabet := by
  unfold digit
  rw [List.getD_eq_getElem?_getD]
  cases h : alphabet[n]? with
  | none => exact List.mem_cons_self
  | some c => exact List.mem_cons_of_mem _ (List.mem_of_getElem? h)

/-! ### Encoding and decoding -/

def encode : List UInt8 → Text
  | [] => []
  | [a] => [digit (a.toNat / 4), digit (a.toNat % 4 * 16), padding, padding]
  | [a, b] =>
    [digit (a.toNat / 4), digit (a.toNat % 4 * 16 + b.toNat / 16), digit (b.toNat % 16 * 4),
      padding]
  | a :: b :: c :: rest =>
    digit (a.toNat / 4) :: digit (a.toNat % 4 * 16 + b.toNat / 16) ::
      digit (b.toNat % 16 * 4 + c.toNat / 64) :: digit (c.toNat % 64) :: encode rest

/-- One byte from two digits. -/
def decodeOne (p q : Char) : Option (List UInt8) := do
  let p ← value p
  let q ← value q
  if q % 16 = 0 then some [.ofNat (p * 4 + q / 16)] else none

/-- Two bytes from three digits. -/
def decodeTwo (p q r : Char) : Option (List UInt8) := do
  let p ← value p
  let q ← value q
  let r ← value r
  if r % 4 = 0 then some [.ofNat (p * 4 + q / 16), .ofNat (q % 16 * 16 + r / 4)] else none

/-- Three bytes from four digits. -/
def decodeThree (p q r s : Char) : Option (List UInt8) := do
  let p ← value p
  let q ← value q
  let r ← value r
  let s ← value s
  some [.ofNat (p * 4 + q / 16), .ofNat (q % 16 * 16 + r / 4), .ofNat (r % 4 * 64 + s)]

def decode : Text → Option (List UInt8)
  | [] => some []
  | p :: q :: r :: s :: rest =>
    if rest = [] ∧ s = padding then
      if r = padding then decodeOne p q else decodeTwo p q r
    else do
      let bytes ← decodeThree p q r s
      let tail ← decode rest
      some (bytes ++ tail)
  | _ => none

/-! ### Round trip -/

lemma decodeOne_encode (a : UInt8) :
    decodeOne (digit (a.toNat / 4)) (digit (a.toNat % 4 * 16)) = some [a] := by
  have ha := a.toNat_lt
  have hbyte : a.toNat / 4 * 4 + a.toNat % 4 * 16 / 16 = a.toNat := by omega
  rw [decodeOne, value_digit (by omega), value_digit (by omega)]
  simp only [Option.bind_eq_bind, Option.bind_some, hbyte, UInt8.ofNat_toNat]
  rw [if_pos (Nat.mul_mod_left _ _)]

lemma decodeTwo_encode (a b : UInt8) :
    decodeTwo (digit (a.toNat / 4)) (digit (a.toNat % 4 * 16 + b.toNat / 16))
      (digit (b.toNat % 16 * 4)) = some [a, b] := by
  have ha := a.toNat_lt
  have hb := b.toNat_lt
  have hfirst : a.toNat / 4 * 4 + (a.toNat % 4 * 16 + b.toNat / 16) / 16 = a.toNat := by omega
  have hsecond : (a.toNat % 4 * 16 + b.toNat / 16) % 16 * 16 + b.toNat % 16 * 4 / 4 = b.toNat := by
    omega
  rw [decodeTwo, value_digit (by omega), value_digit (by omega), value_digit (by omega)]
  simp only [Option.bind_eq_bind, Option.bind_some, hfirst, hsecond, UInt8.ofNat_toNat]
  rw [if_pos (Nat.mul_mod_left _ _)]

lemma decodeThree_encode (a b c : UInt8) :
    decodeThree (digit (a.toNat / 4)) (digit (a.toNat % 4 * 16 + b.toNat / 16))
      (digit (b.toNat % 16 * 4 + c.toNat / 64)) (digit (c.toNat % 64)) = some [a, b, c] := by
  have ha := a.toNat_lt
  have hb := b.toNat_lt
  have hc := c.toNat_lt
  have hfirst : a.toNat / 4 * 4 + (a.toNat % 4 * 16 + b.toNat / 16) / 16 = a.toNat := by omega
  have hsecond : (a.toNat % 4 * 16 + b.toNat / 16) % 16 * 16 +
      (b.toNat % 16 * 4 + c.toNat / 64) / 4 = b.toNat := by omega
  have hthird : (b.toNat % 16 * 4 + c.toNat / 64) % 4 * 64 + c.toNat % 64 = c.toNat := by omega
  rw [decodeThree, value_digit (by omega), value_digit (by omega), value_digit (by omega),
    value_digit (by omega)]
  simp only [Option.bind_eq_bind, Option.bind_some, hfirst, hsecond, hthird, UInt8.ofNat_toNat]

variable (bytes : List UInt8)

/-- **What was encoded is decoded again.** -/
theorem decode_encode : decode (encode bytes) = some bytes := by
  induction bytes using encode.induct with
  | case1 => rfl
  | case2 a =>
    rw [encode, decode, if_pos ⟨rfl, rfl⟩, if_pos rfl]
    exact decodeOne_encode a
  | case3 a b =>
    have hdigit : digit (b.toNat % 16 * 4) ≠ padding := digit_ne_padding (by omega)
    rw [encode, decode, if_pos ⟨rfl, rfl⟩, if_neg hdigit]
    exact decodeTwo_encode a b
  | case4 a b c rest ih =>
    have hdigit : digit (c.toNat % 64) ≠ padding := digit_ne_padding (by omega)
    rw [encode, decode, if_neg fun h => hdigit h.2, decodeThree_encode, ih]
    rfl

lemma length_encode : (encode bytes).length = 4 * (bytes.length ⌈/⌉ 3) := by
  induction bytes using encode.induct with
  | case1 => rfl
  | case2 a => simp only [encode, List.length_cons, List.length_nil, Nat.ceilDiv_eq_add_pred_div]
  | case3 a b => simp only [encode, List.length_cons, List.length_nil, Nat.ceilDiv_eq_add_pred_div]
  | case4 a b c rest ih =>
    simp only [encode, List.length_cons, ih, Nat.ceilDiv_eq_add_pred_div]
    omega

variable {c : Char}

lemma mem_of_mem_encode {bytes : List UInt8} (h : c ∈ encode bytes) : c ∈ padding :: alphabet := by
  induction bytes using encode.induct with
  | case1 => cases h
  | case2 a =>
    simp only [encode, List.mem_cons, List.not_mem_nil, or_false] at h
    rcases h with rfl | rfl | rfl | rfl
    · exact digit_mem _
    · exact digit_mem _
    · exact List.mem_cons_self
    · exact List.mem_cons_self
  | case3 a b =>
    simp only [encode, List.mem_cons, List.not_mem_nil, or_false] at h
    rcases h with rfl | rfl | rfl | rfl
    · exact digit_mem _
    · exact digit_mem _
    · exact digit_mem _
    · exact List.mem_cons_self
  | case4 a b c' rest ih =>
    simp only [encode, List.mem_cons] at h
    rcases h with rfl | rfl | rfl | rfl | h
    · exact digit_mem _
    · exact digit_mem _
    · exact digit_mem _
    · exact digit_mem _
    · exact ih h

/-! ### The URL-safe alphabet, without padding -/

def toUrlSafe (c : Char) : Char := if c = '+' then '-' else if c = '/' then '_' else c

def fromUrlSafe (c : Char) : Char := if c = '-' then '+' else if c = '_' then '/' else c

def encodeUrlSafe (bytes : List UInt8) : Text := ((encode bytes).filter (· ≠ padding)).map toUrlSafe

/-- The padding that `encode` would have written. -/
def pad (digits : Text) : Text := digits ++ List.replicate ((4 - digits.length % 4) % 4) padding

def decodeUrlSafe (text : Text) : Option (List UInt8) :=
  if ∃ c ∈ text, c ∈ ['+', '/', padding] then none else decode (pad (text.map fromUrlSafe))

lemma mem_alphabet_of_mem_filter {bytes : List UInt8}
    (h : c ∈ (encode bytes).filter (· ≠ padding)) : c ∈ alphabet := by
  obtain ⟨hmem, hne⟩ := List.mem_filter.mp h
  rcases List.mem_cons.mp (mem_of_mem_encode hmem) with rfl | hmem
  · simp at hne
  · exact hmem

lemma fromUrlSafe_toUrlSafe (h : c ∈ alphabet) : fromUrlSafe (toUrlSafe c) = c := by
  have hall : ∀ c ∈ alphabet, fromUrlSafe (toUrlSafe c) = c := by
    rw [alphabet_eq]
    decide
  exact hall c h

lemma toUrlSafe_notMem (h : c ∈ alphabet) : toUrlSafe c ∉ ['+', '/', padding] := by
  have hall : ∀ c ∈ alphabet, toUrlSafe c ∉ ['+', '/', padding] := by
    rw [alphabet_eq]
    decide
  exact hall c h

lemma notMem_encodeUrlSafe {bytes : List UInt8} (h : c ∈ encodeUrlSafe bytes) :
    c ∉ ['+', '/', padding] := by
  obtain ⟨d, hd, rfl⟩ := List.mem_map.mp h
  exact toUrlSafe_notMem (mem_alphabet_of_mem_filter hd)

lemma pad_append {digits rest : Text} (h : digits.length % 4 = 0) :
    pad (digits ++ rest) = digits ++ pad rest := by
  have hlen : (digits ++ rest).length % 4 = rest.length % 4 := by
    rw [List.length_append]
    omega
  rw [pad, pad, hlen, List.append_assoc]

lemma pad_filter_encode : pad ((encode bytes).filter (· ≠ padding)) = encode bytes := by
  induction bytes using encode.induct with
  | case1 => rfl
  | case2 a =>
    have ha := a.toNat_lt
    have h1 : digit (a.toNat / 4) ≠ padding := digit_ne_padding (by omega)
    have h2 : digit (a.toNat % 4 * 16) ≠ padding := digit_ne_padding (by omega)
    simp [encode, h1, h2, pad]
  | case3 a b =>
    have ha := a.toNat_lt
    have hb := b.toNat_lt
    have h1 : digit (a.toNat / 4) ≠ padding := digit_ne_padding (by omega)
    have h2 : digit (a.toNat % 4 * 16 + b.toNat / 16) ≠ padding := digit_ne_padding (by omega)
    have h3 : digit (b.toNat % 16 * 4) ≠ padding := digit_ne_padding (by omega)
    simp [encode, h1, h2, h3, pad]
  | case4 a b c rest ih =>
    have ha := a.toNat_lt
    have hb := b.toNat_lt
    have hc := c.toNat_lt
    have h1 : digit (a.toNat / 4) ≠ padding := digit_ne_padding (by omega)
    have h2 : digit (a.toNat % 4 * 16 + b.toNat / 16) ≠ padding := digit_ne_padding (by omega)
    have h3 : digit (b.toNat % 16 * 4 + c.toNat / 64) ≠ padding := digit_ne_padding (by omega)
    have h4 : digit (c.toNat % 64) ≠ padding := digit_ne_padding (by omega)
    have hfilter : (encode (a :: b :: c :: rest)).filter (· ≠ padding) =
        [digit (a.toNat / 4), digit (a.toNat % 4 * 16 + b.toNat / 16),
          digit (b.toNat % 16 * 4 + c.toNat / 64), digit (c.toNat % 64)] ++
        (encode rest).filter (· ≠ padding) := by
      simp [encode, h1, h2, h3, h4]
    rw [hfilter, @pad_append [_, _, _, _] _ (by simp), ih]
    rfl

/-- **What was encoded is decoded again.** -/
theorem decodeUrlSafe_encodeUrlSafe : decodeUrlSafe (encodeUrlSafe bytes) = some bytes := by
  have hplain : ¬∃ c ∈ encodeUrlSafe bytes, c ∈ ['+', '/', padding] := by
    rintro ⟨c, hc, hmem⟩
    exact notMem_encodeUrlSafe hc hmem
  have hback : (encodeUrlSafe bytes).map fromUrlSafe = (encode bytes).filter (· ≠ padding) := by
    rw [encodeUrlSafe, List.map_map]
    refine (List.map_congr_left fun c hc => ?_).trans (List.map_id _)
    exact fromUrlSafe_toUrlSafe (mem_alphabet_of_mem_filter hc)
  rw [decodeUrlSafe, if_neg hplain, hback, pad_filter_encode, decode_encode]

@[simp] lemma encodeUrlSafe_eq_nil_iff {bytes : List UInt8} :
    encodeUrlSafe bytes = [] ↔ bytes = [] := by
  refine ⟨fun h => ?_, fun h => h ▸ rfl⟩
  have hnil : decodeUrlSafe [] = some [] := decodeUrlSafe_encodeUrlSafe []
  have hdecode := decodeUrlSafe_encodeUrlSafe bytes
  rw [h, hnil] at hdecode
  exact (Option.some.inj hdecode).symm

end Codex.Lib.Base64
