import Codex.Lib.LineLog
import Codex.Lib.Text
import Mathlib.Data.String.Basic

/-!
# The bytes of a text

UTF-8 and UTF-16 as Rust converts a text to them and back. What is not the encoding of a text is
read lossily: each ill-formed stretch becomes a replacement character.
-/

namespace Codex.Lib

/-! ### Letters and digits -/

variable {c : Char}

lemma toNat_lt_of_isAlpha (h : c.isAlpha = true) : c.toNat < 128 := by
  simp only [Char.isAlpha.eq_def, Char.isUpper.eq_def, Char.isLower.eq_def, Bool.or_eq_true,
    Bool.and_eq_true, decide_eq_true_eq, UInt32.le_iff_toNat_le] at h
  have hval : c.toNat = c.val.toNat := rfl
  rcases h with ⟨-, h⟩ | ⟨-, h⟩
  · exact lt_of_le_of_lt h (by decide)
  · exact lt_of_le_of_lt h (by decide)

lemma toNat_lt_of_isAlphanum (h : c.isAlphanum = true) : c.toNat < 128 := by
  rcases Bool.or_eq_true_iff.mp h with h | h
  · exact toNat_lt_of_isAlpha h
  · simp only [Char.isDigit, Bool.and_eq_true, decide_eq_true_eq, UInt32.le_iff_toNat_le] at h
    exact lt_of_le_of_lt h.2 (by decide)

/-! ### UTF-8 -/

abbrev Bytes := List UInt8

/-- `str::as_bytes` -/
def toBytes (text : Text) : Bytes := text.flatMap String.utf8EncodeChar

@[simp] lemma toBytes_nil : toBytes [] = [] := rfl

@[simp] lemma toBytes_cons (c : Char) (text : Text) :
    toBytes (c :: text) = String.utf8EncodeChar c ++ toBytes text := rfl

@[simp] lemma toBytes_append (a b : Text) : toBytes (a ++ b) = toBytes a ++ toBytes b :=
  List.flatMap_append

/-- The byte of a line feed. -/
def lineFeed : UInt8 := 10

lemma toBytes_encodeRecords (lines : List Text) :
    toBytes (encodeRecords '\n' lines) = encodeRecords lineFeed (lines.map toBytes) := by
  induction lines with
  | nil => rfl
  | cons line lines ih =>
    rw [encodeRecords_cons, List.map_cons, encodeRecords_cons, toBytes_append, toBytes_cons, ih]
    rfl

lemma utf8EncodeChar_of_lt (h : c.toNat < 128) : String.utf8EncodeChar c = [.ofNat c.toNat] := by
  have hle : c.val.toNat ≤ 127 := Nat.le_of_lt_succ h
  simp only [String.utf8EncodeChar, if_pos hle]
  rfl

/-- The bytes of a character that is not ASCII are not ASCII either. -/
theorem toNat_of_mem_utf8EncodeChar {b : UInt8} (h : b ∈ String.utf8EncodeChar c)
    (hb : b.toNat < 128) : c.toNat = b.toNat := by
  simp only [String.utf8EncodeChar] at h
  have hc : c.val.toNat = c.toNat := rfl
  split_ifs at h with h1 h2 h3 <;>
    simp only [List.mem_cons, List.not_mem_nil, or_false] at h
  · rw [h, UInt8.toNat_ofNat']
    omega
  · rcases h with rfl | rfl <;> rw [UInt8.toNat_ofNat'] at hb <;> omega
  · rcases h with rfl | rfl | rfl <;> rw [UInt8.toNat_ofNat'] at hb <;> omega
  · rcases h with rfl | rfl | rfl | rfl <;> rw [UInt8.toNat_ofNat'] at hb <;> omega

/-- An ASCII byte of a text is the byte of that character. -/
theorem mem_toBytes_iff (hc : c.toNat < 128) {text : Text} :
    UInt8.ofNat c.toNat ∈ toBytes text ↔ c ∈ text := by
  have hbyte : (UInt8.ofNat c.toNat).toNat = c.toNat := by
    rw [UInt8.toNat_ofNat']
    omega
  rw [toBytes, List.mem_flatMap]
  constructor
  · rintro ⟨d, hd, hmem⟩
    have hnat := toNat_of_mem_utf8EncodeChar hmem (by omega)
    rw [hbyte] at hnat
    rwa [← Char.toNat_inj.mp hnat]
  · intro hmem
    refine ⟨c, hmem, ?_⟩
    rw [utf8EncodeChar_of_lt hc]
    exact List.mem_singleton_self _

lemma utf8EncodeChar_ne_nil (c : Char) : String.utf8EncodeChar c ≠ [] := by
  intro h
  have hlen := String.length_utf8EncodeChar c
  have hpos := c.utf8Size_pos
  rw [h, List.length_nil] at hlen
  omega

@[simp] lemma toBytes_eq_nil_iff {text : Text} : toBytes text = [] ↔ text = [] := by
  cases text with
  | nil => exact iff_of_true rfl rfl
  | cons c text =>
    refine iff_of_false ?_ (List.cons_ne_nil c text)
    exact List.append_ne_nil_of_left_ne_nil (utf8EncodeChar_ne_nil c) _

/-! ### Lossy reading of UTF-8 -/

def replacementCharacter : Char := '\uFFFD'

/-- The character that the bytes start with. -/
def decodeUtf8Char (bytes : Bytes) : Option Char := bytes.toByteArray.utf8DecodeChar? 0

/-- Whether a byte goes on with a character of several bytes. -/
def isContinuation (b : UInt8) : Bool := 0x80 ≤ b && b ≤ 0xBF

/-- Whether a second byte can follow the first byte of a character of three or four bytes. -/
def isSecondByte (first second : UInt8) : Bool :=
  (first == 0xE0 && 0xA0 ≤ second && second ≤ 0xBF) ||
    (0xE1 ≤ first && first ≤ 0xEC && isContinuation second) ||
    (first == 0xED && 0x80 ≤ second && second ≤ 0x9F) ||
    (0xEE ≤ first && first ≤ 0xEF && isContinuation second) ||
    (first == 0xF0 && 0x90 ≤ second && second ≤ 0xBF) ||
    (0xF1 ≤ first && first ≤ 0xF3 && isContinuation second) ||
    (first == 0xF4 && 0x80 ≤ second && second ≤ 0x8F)

/-- How many bytes one replacement character stands for, where no character starts. -/
def invalidLen : Bytes → ℕ
  | first :: second :: rest =>
    if isSecondByte first second then
      match rest with
      | third :: _ => if 0xF0 ≤ first && isContinuation third then 3 else 2
      | [] => 2
    else 1
  | _ => 1

/-- `fromUtf8Lossy`, of at most that many characters. -/
def fromUtf8LossyUpTo : ℕ → Bytes → Text
  | 0, _ => []
  | _, [] => []
  | n + 1, b :: bytes =>
    match decodeUtf8Char (b :: bytes) with
    | some c => c :: fromUtf8LossyUpTo n ((b :: bytes).drop c.utf8Size)
    | none =>
      replacementCharacter :: fromUtf8LossyUpTo n ((b :: bytes).drop (invalidLen (b :: bytes)))

def fromUtf8Lossy (bytes : Bytes) : Text := fromUtf8LossyUpTo bytes.length bytes

lemma decodeUtf8Char_append (c : Char) (bytes : Bytes) :
    decodeUtf8Char (String.utf8EncodeChar c ++ bytes) = some c := by
  rw [decodeUtf8Char, List.toByteArray_append]
  exact ByteArray.utf8DecodeChar?_utf8EncodeChar_append

variable (text : Text)

lemma fromUtf8LossyUpTo_toBytes (n : ℕ) (hn : (toBytes text).length ≤ n) :
    fromUtf8LossyUpTo n (toBytes text) = text := by
  induction text generalizing n with
  | nil => cases n <;> rfl
  | cons c text ih =>
    rw [toBytes_cons] at hn ⊢
    have hdecode := decodeUtf8Char_append c (toBytes text)
    have hlen := String.length_utf8EncodeChar c
    cases hbytes : String.utf8EncodeChar c with
    | nil => exact absurd hbytes (utf8EncodeChar_ne_nil c)
    | cons b bytes =>
      cases n with
      | zero => simp [hbytes] at hn
      | succ n =>
        rw [hbytes, List.cons_append] at hdecode
        have hdrop : (b :: (bytes ++ toBytes text)).drop c.utf8Size = toBytes text := by
          rw [← hlen, hbytes, ← List.cons_append, List.drop_left]
        simp only [List.cons_append, fromUtf8LossyUpTo, hdecode, hdrop]
        rw [ih n (by simp [hbytes] at hn; omega)]

/-- **An encoded text is read back as it was.** -/
@[simp] theorem fromUtf8Lossy_toBytes : fromUtf8Lossy (toBytes text) = text :=
  fromUtf8LossyUpTo_toBytes text _ le_rfl

variable (bytes : Bytes)

def fromUtf8 : Option Text :=
  if toBytes (fromUtf8Lossy bytes) = bytes then some (fromUtf8Lossy bytes) else none

@[simp] lemma fromUtf8_toBytes : fromUtf8 (toBytes text) = some text := by
  rw [fromUtf8, fromUtf8Lossy_toBytes, if_pos rfl]

/-! ### Checked reading of UTF-8 -/

/-- The characters that the bytes start with, at most that many, and the bytes after them. -/
def decodeUpTo : ℕ → Bytes → Text × Bytes
  | 0, bytes => ([], bytes)
  | n + 1, bytes =>
    match decodeUtf8Char bytes with
    | some c =>
      let (text, rest) := decodeUpTo n (bytes.drop c.utf8Size)
      (c :: text, rest)
    | none => ([], bytes)

/-- The longest text that the bytes start with, and the bytes after it. -/
def validPrefix : Text × Bytes := decodeUpTo bytes.length bytes

/-- Whether the bytes are the beginning of a character: every first byte goes on with `0x80` or
`0xBF`. -/
def isIncomplete : Bool :=
  [0x80, 0xBF].any fun filler =>
    (decodeUtf8Char (bytes ++ List.replicate 3 filler)).any fun c => bytes.length < c.utf8Size

structure Utf8Error where
  validUpTo : ℕ
  errorLen : Option ℕ

/-- `str::from_utf8`; the error has no length where the bytes end within a character -/
def checkUtf8 (bytes : Bytes) : Except Utf8Error Text :=
  let (text, rest) := validPrefix bytes
  if rest.isEmpty then .ok text
  else .error ⟨(toBytes text).length, if isIncomplete rest then none else some (invalidLen rest)⟩

/-- The bytes are missing, or the beginning of a character without its end. -/
def PartialChar : Prop :=
  bytes = [] ∨ ∃ c missing, missing ≠ [] ∧ String.utf8EncodeChar c = bytes ++ missing

lemma PartialChar.length_le {bytes : Bytes} (h : PartialChar bytes) : bytes.length ≤ 3 := by
  obtain rfl | ⟨c, missing, hmissing, hc⟩ := h
  · exact Nat.zero_le 3
  · have hlen := congrArg List.length hc
    have := c.utf8Size_le_four
    have := List.length_pos_iff.mpr hmissing
    rw [String.length_utf8EncodeChar, List.length_append] at hlen
    omega

lemma eq_append_of_decodeUtf8Char {bytes : Bytes} (h : decodeUtf8Char bytes = some c) :
    bytes = String.utf8EncodeChar c ++ bytes.drop c.utf8Size := by
  obtain ⟨rest, hrest⟩ := ByteArray.exists_of_utf8DecodeChar?_eq_some h
  have hbytes : bytes = String.utf8EncodeChar c ++ rest.data.toList := by
    have := congrArg (fun b => b.data.toList) hrest
    simpa using this
  conv_rhs => rw [hbytes, ← String.length_utf8EncodeChar c, List.drop_left]
  exact hbytes

lemma decodeUtf8Char_nil : decodeUtf8Char [] = none := by decide

lemma decodeUpTo_spec {n : ℕ} {bytes : Bytes} (hn : bytes.length ≤ n) :
    toBytes (decodeUpTo n bytes).1 ++ (decodeUpTo n bytes).2 = bytes ∧
      decodeUtf8Char (decodeUpTo n bytes).2 = none := by
  induction n generalizing bytes with
  | zero =>
    obtain rfl := List.length_eq_zero_iff.mp (Nat.le_zero.mp hn)
    exact ⟨rfl, decodeUtf8Char_nil⟩
  | succ n ih =>
    rw [decodeUpTo]
    cases hdecode : decodeUtf8Char bytes with
    | none => exact ⟨rfl, hdecode⟩
    | some c =>
      have hsplit := eq_append_of_decodeUtf8Char hdecode
      have hpos := c.utf8Size_pos
      obtain ⟨hjoin, hnone⟩ := @ih (bytes.drop c.utf8Size) (by
        rw [List.length_drop]
        omega)
      refine ⟨?_, hnone⟩
      dsimp only
      rw [toBytes_cons, List.append_assoc, hjoin, ← hsplit]

lemma decodeUtf8Char_eq_none (h : PartialChar bytes) : decodeUtf8Char bytes = none := by
  obtain rfl | ⟨c, missing, hmissing, hc⟩ := h
  · exact decodeUtf8Char_nil
  · by_contra hsome
    obtain ⟨d, hd⟩ := Option.ne_none_iff_exists'.mp hsome
    have hsplit := eq_append_of_decodeUtf8Char hd
    have hdecode := decodeUtf8Char_append c []
    rw [List.append_nil, hc, hsplit, List.append_assoc, decodeUtf8Char_append] at hdecode
    cases hdecode
    rw [hsplit, List.append_assoc, List.self_eq_append_right] at hc
    exact hmissing (List.append_eq_nil_iff.mp hc).2

/-- No text goes beyond bytes that no character starts. -/
lemma prefix_of_toBytes_prefix {text received : Text} {rest : Bytes}
    (hrest : decodeUtf8Char rest = none) (h : toBytes text <+: toBytes received ++ rest) :
    text <+: received := by
  induction text generalizing received with
  | nil => exact List.nil_prefix
  | cons c text ih =>
    obtain ⟨tail, htail⟩ := h
    rw [toBytes_cons, List.append_assoc] at htail
    cases received with
    | nil =>
      have hdecode := decodeUtf8Char_append c (toBytes text ++ tail)
      simp [htail, toBytes_nil, List.nil_append, hrest] at hdecode
    | cons d received =>
      have hdecode := decodeUtf8Char_append c (toBytes text ++ tail)
      rw [htail, toBytes_cons, List.append_assoc, decodeUtf8Char_append] at hdecode
      cases hdecode
      rw [toBytes_cons, List.append_assoc] at htail
      exact (List.prefix_cons_inj _).mpr (ih ⟨tail, List.append_cancel_left htail⟩)

/-- **A text that ends where no character starts is the longest one.** -/
theorem validPrefix_eq {received : Text} {rest : Bytes} (hrest : decodeUtf8Char rest = none) :
    validPrefix (toBytes received ++ rest) = (received, rest) := by
  obtain ⟨hjoin, hnone⟩ := decodeUpTo_spec (le_refl (toBytes received ++ rest).length)
  rw [← validPrefix] at hjoin hnone
  have hle := prefix_of_toBytes_prefix hrest ⟨_, hjoin⟩
  have hge := prefix_of_toBytes_prefix hnone ⟨_, hjoin.symm⟩
  have heq := hle.eq_of_length (Nat.le_antisymm hle.length_le hge.length_le)
  rw [heq] at hjoin
  exact Prod.ext heq (List.append_cancel_left hjoin)

lemma checkUtf8_toBytes : checkUtf8 (toBytes text) = .ok text := by
  have h := @validPrefix_eq text [] decodeUtf8Char_nil
  rw [List.append_nil] at h
  rw [checkUtf8, h]
  rfl

lemma partialChar_of_isIncomplete {bytes : Bytes} (h : isIncomplete bytes = true) :
    PartialChar bytes := by
  obtain ⟨filler, -, hany⟩ := List.any_eq_true.mp h
  obtain ⟨c, hdecode, hlt⟩ := (Option.any_eq_true _ _).mp hany
  have hsplit := eq_append_of_decodeUtf8Char hdecode
  have hlen := String.length_utf8EncodeChar c
  rw [decide_eq_true_eq] at hlt
  obtain ⟨missing, hmissing⟩ : bytes <+: String.utf8EncodeChar c :=
    List.prefix_of_prefix_length_le ⟨_, rfl⟩ ⟨_, hsplit.symm⟩ (by omega)
  refine .inr ⟨c, missing, ?_, hmissing.symm⟩
  rintro rfl
  rw [← hmissing, List.append_nil] at hlen
  omega

lemma checkUtf8_cases (bytes : Bytes) :
    (∃ text, bytes = toBytes text ∧ checkUtf8 bytes = .ok text) ∨
    (∃ text rest, bytes = toBytes text ++ rest ∧ PartialChar rest ∧
      checkUtf8 bytes = .error ⟨(toBytes text).length, none⟩) ∨
    ∃ validUpTo errorLen, checkUtf8 bytes = .error ⟨validUpTo, some errorLen⟩ := by
  obtain ⟨hjoin, -⟩ := decodeUpTo_spec (le_refl bytes.length)
  rw [← validPrefix] at hjoin
  rw [checkUtf8]
  dsimp only
  split_ifs with hempty hincomplete
  · rw [List.isEmpty_iff.mp hempty, List.append_nil] at hjoin
    exact .inl ⟨_, hjoin.symm, rfl⟩
  · exact .inr (.inl ⟨_, _, hjoin.symm, partialChar_of_isIncomplete hincomplete, rfl⟩)
  · exact .inr (.inr ⟨_, _, rfl⟩)

/-! ### UTF-16 -/

/-- `char::encode_utf16` -/
def encodeUtf16Char (c : Char) : List UInt16 :=
  if c.toNat < 0x10000 then [.ofNat c.toNat]
  else
    [.ofNat (0xD800 + (c.toNat - 0x10000) / 0x400), .ofNat (0xDC00 + (c.toNat - 0x10000) % 0x400)]

def encodeUtf16 (text : Text) : List UInt16 := text.flatMap encodeUtf16Char

def toLeBytes (unit : UInt16) : Bytes := [.ofNat unit.toNat, .ofNat (unit.toNat / 256)]

/-- The units of `chunks_exact(2)`, each by `u16::from_le_bytes`. -/
def wideUnits : Bytes → List UInt16
  | low :: high :: bytes => .ofNat (low.toNat + 256 * high.toNat) :: wideUnits bytes
  | _ => []

def fromUtf16Lossy : List UInt16 → Text
  | [] => []
  | unit :: units =>
    if unit.toNat < 0xD800 ∨ 0xE000 ≤ unit.toNat then
      .ofNat unit.toNat :: fromUtf16Lossy units
    else if 0xDC00 ≤ unit.toNat then
      replacementCharacter :: fromUtf16Lossy units
    else
      match units with
      | [] => [replacementCharacter]
      | second :: rest =>
        if 0xDC00 ≤ second.toNat ∧ second.toNat < 0xE000 then
          .ofNat (0x10000 + (unit.toNat - 0xD800) * 0x400 + (second.toNat - 0xDC00)) ::
            fromUtf16Lossy rest
        else replacementCharacter :: fromUtf16Lossy (second :: rest)

@[simp] lemma wideUnits_flatMap_toLeBytes (units : List UInt16) :
    wideUnits (units.flatMap toLeBytes) = units := by
  induction units with
  | nil => rfl
  | cons unit units ih =>
    have hlt := unit.toNat_lt
    have hunit : unit.toNat % 256 + 256 * (unit.toNat / 256 % 256) = unit.toNat := by omega
    rw [List.flatMap_cons, toLeBytes, List.cons_append, List.cons_append, List.nil_append,
      wideUnits, ih, UInt8.toNat_ofNat', UInt8.toNat_ofNat', hunit, UInt16.ofNat_toNat]

lemma even_length_flatMap_toLeBytes (units : List UInt16) :
    (units.flatMap toLeBytes).length % 2 = 0 := by
  induction units with
  | nil => rfl
  | cons unit units ih =>
    rw [List.flatMap_cons, List.length_append, toLeBytes, List.length_cons, List.length_cons,
      List.length_nil]
    omega

lemma toNat_lt_or_of_char (c : Char) :
    c.toNat < 0xD800 ∨ 0xE000 ≤ c.toNat ∧ c.toNat < 0x110000 := by
  rcases c.valid with h | ⟨h, h'⟩
  · exact .inl h
  · exact .inr ⟨h, h'⟩

lemma fromUtf16Lossy_single {unit : UInt16} {rest : List UInt16}
    (h : unit.toNat < 0xD800 ∨ 0xE000 ≤ unit.toNat) :
    fromUtf16Lossy (unit :: rest) = .ofNat unit.toNat :: fromUtf16Lossy rest := by
  rw [fromUtf16Lossy.eq_def]
  exact if_pos h

lemma fromUtf16Lossy_pair {first second : UInt16} {rest : List UInt16}
    (hlow : 0xD800 ≤ first.toNat) (hhigh : first.toNat < 0xDC00)
    (hsecond : 0xDC00 ≤ second.toNat ∧ second.toNat < 0xE000) :
    fromUtf16Lossy (first :: second :: rest) =
      .ofNat (0x10000 + (first.toNat - 0xD800) * 0x400 + (second.toNat - 0xDC00)) ::
        fromUtf16Lossy rest := by
  rw [fromUtf16Lossy.eq_def]
  simp only
  rw [if_neg (by omega), if_neg (by omega), if_pos hsecond]

/-- **An encoded text is read back as it was.** -/
@[simp] theorem fromUtf16Lossy_encodeUtf16 : fromUtf16Lossy (encodeUtf16 text) = text := by
  induction text with
  | nil => rfl
  | cons c text ih =>
    have hrange := toNat_lt_or_of_char c
    rw [encodeUtf16, List.flatMap_cons, encodeUtf16Char]
    by_cases hc : c.toNat < 0x10000
    · have hunit : (UInt16.ofNat c.toNat).toNat = c.toNat := by
        rw [UInt16.toNat_ofNat']
        omega
      rw [if_pos hc, List.cons_append, List.nil_append, fromUtf16Lossy_single (by omega), hunit,
        Char.ofNat_toNat]
      exact congrArg (c :: ·) ih
    · have hfirst : (UInt16.ofNat (0xD800 + (c.toNat - 0x10000) / 0x400)).toNat =
          0xD800 + (c.toNat - 0x10000) / 0x400 := by
        rw [UInt16.toNat_ofNat']
        omega
      have hsecond : (UInt16.ofNat (0xDC00 + (c.toNat - 0x10000) % 0x400)).toNat =
          0xDC00 + (c.toNat - 0x10000) % 0x400 := by
        rw [UInt16.toNat_ofNat']
        omega
      have hcode : 0x10000 + (0xD800 + (c.toNat - 0x10000) / 0x400 - 0xD800) * 0x400 +
          (0xDC00 + (c.toNat - 0x10000) % 0x400 - 0xDC00) = c.toNat := by omega
      rw [if_neg hc, List.cons_append, List.cons_append, List.nil_append,
        fromUtf16Lossy_pair (by omega) (by omega) (by omega), hfirst, hsecond, hcode,
        Char.ofNat_toNat]
      exact congrArg (c :: ·) ih

end Codex.Lib
