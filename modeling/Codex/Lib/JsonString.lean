import Codex.Lib.Text

/-!
# Strings in JSON

The characters of a string as `serde_json` writes them between quotes: a quote, a backslash and the
control characters are escaped. `readString` reads what was written up to the quote at the end.
-/

namespace Codex.Lib

/-! ### Writing -/

/-- The letter of a character that is escaped by one. -/
def shortEscape (c : Char) : Option Char :=
  if c = '"' then some '"'
  else if c = '\\' then some '\\'
  else if c = '\x08' then some 'b'
  else if c = '\t' then some 't'
  else if c = '\n' then some 'n'
  else if c = '\x0c' then some 'f'
  else if c = '\r' then some 'r'
  else none

/-- A hexadecimal digit, in lower case. -/
def lowerHexDigit (n : ℕ) : Char := "0123456789abcdef".toList.getD n '0'

def escapeChar (c : Char) : Text :=
  match shortEscape c with
  | some letter => ['\\', letter]
  | none =>
    if c.toNat < 0x20 then
      ['\\', 'u', '0', '0', lowerHexDigit (c.toNat / 16), lowerHexDigit (c.toNat % 16)]
    else [c]

def escape (s : Text) : Text := s.flatMap escapeChar

/-! ### Reading -/

/-- The character that is escaped by a letter. -/
def shortUnescape (letter : Char) : Option Char :=
  if letter = '"' then some '"'
  else if letter = '\\' then some '\\'
  else if letter = 'b' then some '\x08'
  else if letter = 't' then some '\t'
  else if letter = 'n' then some '\n'
  else if letter = 'f' then some '\x0c'
  else if letter = 'r' then some '\r'
  else none

def lowerHexValue (digit : Char) : ℕ := "0123456789abcdef".toList.idxOf digit

/-- What was written up to the quote at the end, and what follows. -/
def readString : Text → Option (Text × Text)
  | [] => none
  | '"' :: rest => some ([], rest)
  | '\\' :: 'u' :: '0' :: '0' :: high :: low :: rest =>
    (readString rest).map fun (s, rest) =>
      (Char.ofNat (16 * lowerHexValue high + lowerHexValue low) :: s, rest)
  | '\\' :: letter :: rest =>
    (shortUnescape letter).bind fun c => (readString rest).map fun (s, rest) => (c :: s, rest)
  | c :: rest => (readString rest).map fun (s, rest) => (c :: s, rest)

/-! ### Round trip -/

lemma lowerHexValue_lowerHexDigit {n : ℕ} (h : n < 16) : lowerHexValue (lowerHexDigit n) = n := by
  have hall : ∀ n < 16, lowerHexValue (lowerHexDigit n) = n := by decide +kernel
  exact hall n h

lemma shortUnescape_of_shortEscape {c letter : Char} (h : shortEscape c = some letter) :
    shortUnescape letter = some c ∧ letter ≠ 'u' := by
  unfold shortEscape at h
  split_ifs at h <;> subst_vars <;> obtain rfl := Option.some.inj h <;> decide

lemma readString_escapeChar (c : Char) (rest : Text) :
    readString (escapeChar c ++ rest) = (readString rest).map fun (s, rest) => (c :: s, rest) := by
  rw [escapeChar]
  cases hshort : shortEscape c with
  | some letter =>
    obtain ⟨hread, hne⟩ := shortUnescape_of_shortEscape hshort
    simp [readString, hread, hne]
  | none =>
    simp only
    split_ifs with hcontrol
    · have hdigits : 16 * lowerHexValue (lowerHexDigit (c.toNat / 16)) +
          lowerHexValue (lowerHexDigit (c.toNat % 16)) = c.toNat := by
        rw [lowerHexValue_lowerHexDigit (by omega), lowerHexValue_lowerHexDigit (by omega)]
        omega
      simp [readString, hdigits, Char.ofNat_toNat]
    · have hquote : c ≠ '"' := by
        rintro rfl
        cases hshort
      have hbackslash : c ≠ '\\' := by
        rintro rfl
        cases hshort
      simp [readString, hbackslash]

/-- **A string is read back.** -/
theorem readString_escape (s rest : Text) :
    readString (escape s ++ '"' :: rest) = some (s, rest) := by
  induction s with
  | nil => rfl
  | cons c s ih =>
    rw [escape, List.flatMap_cons, List.append_assoc, readString_escapeChar, ← escape, ih]
    rfl

lemma le_toNat_of_mem_escape {c : Char} {s : Text} (h : c ∈ escape s) : 0x20 ≤ c.toNat := by
  have hletter : ∀ d letter : Char, shortEscape d = some letter → 0x20 ≤ letter.toNat := by
    intro d letter hshort
    unfold shortEscape at hshort
    split_ifs at hshort <;> obtain rfl := Option.some.inj hshort <;> decide
  have hdigit : ∀ n < 16, 0x20 ≤ (lowerHexDigit n).toNat := by decide +kernel
  obtain ⟨d, -, hc⟩ := List.mem_flatMap.mp h
  rw [escapeChar] at hc
  cases hshort : shortEscape d with
  | some letter =>
    rw [hshort] at hc
    simp only [List.mem_cons, List.not_mem_nil, or_false] at hc
    rcases hc with rfl | rfl
    · decide
    · exact hletter d _ hshort
  | none =>
    rw [hshort] at hc
    simp only at hc
    split_ifs at hc with hcontrol
    · simp only [List.mem_cons, List.not_mem_nil, or_false] at hc
      rcases hc with rfl | rfl | rfl | rfl | rfl | rfl
      · decide
      · decide
      · decide
      · decide
      · exact hdigit _ (by omega)
      · exact hdigit _ (by omega)
    · rw [List.mem_singleton.mp hc]
      omega

end Codex.Lib
