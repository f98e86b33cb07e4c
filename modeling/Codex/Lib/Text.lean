import Mathlib.Algebra.GroupWithZero.Nat
import Mathlib.Data.List.DropRight

/-!
# Text: character lists, whitespace, lines

Text is a list of Unicode scalar values (`List Char`); a Rust `&str` is read through its `chars()`.
The operations are the ones of the Rust standard library that line-oriented parsers use:

* `isWhitespace` is the Unicode `White_Space` property (`char::is_whitespace`);
* `trim`, `trimEnd` (`str::trim`, `str::trim_end`), `stripPrefix` (`str::strip_prefix`);
* `joinLines` is `[..].join("\n")`.

The lemmas say when trimming does nothing, what the first character of a trimmed line can be, and
how `lines` and `joinLines` undo each other.
-/

namespace Codex.Lib

/-- A text: the characters of a string. -/
abbrev Text := List Char

/-- Of a text only its own characters are asked, even where all characters can be enumerated. -/
instance (priority := high) decidableForallMem (p : Char → Prop) [DecidablePred p] (s : Text) :
    Decidable (∀ c ∈ s, p c) := List.decidableBAll p s

instance (priority := high) decidableExistsMem (p : Char → Prop) [DecidablePred p] (s : Text) :
    Decidable (∃ c ∈ s, p c) := List.decidableBEx p s

instance (priority := high) decidableForallMemOption (p : Char → Prop) [DecidablePred p]
    (o : Option Char) : Decidable (∀ c ∈ o, p c) := Option.decidableForallMem o

instance lawfulBEqText : LawfulBEq Text := inferInstance

instance lawfulBEqTexts : LawfulBEq (List Text) := inferInstance

/-! ### Whitespace and trimming -/

/-- The Unicode `White_Space` property, as `char::is_whitespace` decides it. -/
def isWhitespace (c : Char) : Bool :=
  let n := c.toNat
  (9 ≤ n && n ≤ 13) || n == 0x20 || n == 0x85 || n == 0xA0 || n == 0x1680 ||
    (0x2000 ≤ n && n ≤ 0x200A) || n == 0x2028 || n == 0x2029 || n == 0x202F || n == 0x205F ||
    n == 0x3000

variable (s : Text)

def trimEnd : Text := s.rdropWhile isWhitespace

def trimStart : Text := s.dropWhile isWhitespace

def trim : Text := trimEnd (trimStart s)

/-- A text without whitespace at its end: `trim_end` leaves it alone. -/
def NoTrailingWhitespace : Prop := ∀ c ∈ s.getLast?, isWhitespace c = false

/-- A text without whitespace at either end: `trim` leaves it alone. -/
def NoSurroundingWhitespace : Prop :=
  (∀ c ∈ s.head?, isWhitespace c = false) ∧ NoTrailingWhitespace s

instance (s : Text) : Decidable (NoTrailingWhitespace s) :=
  inferInstanceAs (Decidable (∀ c ∈ s.getLast?, isWhitespace c = false))

instance (s : Text) : Decidable (NoSurroundingWhitespace s) := inferInstanceAs (Decidable (_ ∧ _))

variable {s : Text} {c : Char} {ls : List Text}

lemma trimEnd_eq_self (h : NoTrailingWhitespace s) : trimEnd s = s := by
  refine List.rdropWhile_eq_self_iff.mpr fun hl => ?_
  have hc := h (s.getLast hl) (List.getLast?_eq_getLast_of_ne_nil hl)
  simp [hc]

lemma trimStart_eq_self (h : ∀ c ∈ s.head?, isWhitespace c = false) : trimStart s = s := by
  cases s with
  | nil => rfl
  | cons c s => simp [trimStart, h c (by simp)]

lemma trim_eq_self (h : NoSurroundingWhitespace s) : trim s = s := by
  unfold trim
  rw [trimStart_eq_self h.1, trimEnd_eq_self h.2]

/-- What precedes a nonempty text without trailing whitespace is kept by `trimEnd`. -/
theorem noTrailingWhitespace_append {a b : Text} (hb : b ≠ []) (h : NoTrailingWhitespace b) :
    NoTrailingWhitespace (a ++ b) := by
  unfold NoTrailingWhitespace
  rw [List.getLast?_append_of_ne_nil a hb]
  exact h

/-- `trim_end` only removes from the end, so a nonempty result starts with the same character. -/
theorem head?_trimEnd (h : trimEnd (c :: s) ≠ []) : (trimEnd (c :: s)).head? = some c := by
  obtain ⟨t, ht⟩ := List.rdropWhile_prefix isWhitespace (l := c :: s)
  rcases hr : trimEnd (c :: s) with _ | ⟨d, r⟩
  · exact absurd hr h
  · unfold trimEnd at hr
    rw [hr, List.cons_append, List.cons.injEq] at ht
    simp [ht.1]

/-- A line that starts with `c` is not a marker that starts with another character, trimmed or
not. -/
theorem trimEnd_ne_of_head {c d : Char} {s m : Text} (hcd : d ≠ c) : trimEnd (c :: s) ≠ d :: m := by
  intro h
  have hh := head?_trimEnd (c := c) (s := s) (by rw [h]; exact List.cons_ne_nil _ _)
  rw [h] at hh
  exact hcd (by simpa using hh)

/-- Whitespace at the end is not seen through `trim_end`. -/
theorem trimEnd_concat (hc : isWhitespace c = true) (s : Text) : trimEnd (s ++ [c]) = trimEnd s :=
  List.rdropWhile_concat_pos isWhitespace s c hc

lemma trim_concat (hc : isWhitespace c = true) (s : Text) : trim (s ++ [c]) = trim s := by
  unfold trim trimStart
  rw [List.dropWhile_append]
  split_ifs with hs
  · have hnil : s.dropWhile isWhitespace = [] := by simpa using hs
    rw [hnil]
    simp [hc]
  · exact trimEnd_concat hc _

/-- A text that ends in something other than whitespace is not blank. -/
theorem trim_ne_nil (hne : s ≠ []) (h : NoTrailingWhitespace s) : trim s ≠ [] := by
  obtain ⟨ys, c, rfl⟩ : ∃ ys c, s = ys ++ [c] :=
    ⟨s.dropLast, s.getLast hne, (List.dropLast_append_getLast hne).symm⟩
  have hc : ¬ isWhitespace c = true := by simpa using h c (by simp)
  unfold trim trimEnd trimStart
  rw [List.dropWhile_append]
  split_ifs
  · simp [List.dropWhile_cons_of_neg hc, List.rdropWhile_singleton, hc]
  · rw [List.rdropWhile_concat_neg _ _ _ hc]
    simp

/-! ### Prefixes -/

def stripPrefix (m s : Text) : Option Text := m.isPrefixOf? s

def startsWith (s m : Text) : Bool := m.isPrefixOf s

def endsWith (s m : Text) : Bool := m.isSuffixOf s

/-- `str::split_once`: what stands before and after the first occurrence of `m`. -/
def splitOnce (m : Text) : Text → Option (Text × Text)
  | [] => if m = [] then some ([], []) else none
  | c :: s =>
    match stripPrefix m (c :: s) with
    | some rest => some ([], rest)
    | none => (splitOnce m s).map fun (before, rest) => (c :: before, rest)

def eqIgnoreAsciiCase (s t : Text) : Bool := s.map Char.toLower == t.map Char.toLower

@[simp] lemma stripPrefix_append (m s : Text) : stripPrefix m (m ++ s) = some s := by
  simp [stripPrefix]

lemma stripPrefix_eq_some {m s t : Text} : stripPrefix m s = some t ↔ s = m ++ t := by
  unfold stripPrefix
  rw [List.isPrefixOf?_eq_some_iff_append_eq]
  exact eq_comm

lemma stripPrefix_eq_none {m s : Text} : stripPrefix m s = none ↔ ¬ m <+: s := by
  rw [Option.eq_none_iff_forall_ne_some]
  constructor
  · rintro h ⟨t, ht⟩
    exact h t (stripPrefix_eq_some.mpr ht.symm)
  · intro h t hs
    exact h ⟨t, (stripPrefix_eq_some.mp hs).symm⟩

lemma splitOnce_eq_some {m s before rest : Text} (h : splitOnce m s = some (before, rest)) :
    s = before ++ m ++ rest := by
  induction s generalizing before with
  | nil =>
    unfold splitOnce at h
    split at h
    · rename_i hm
      simp only [Option.some.injEq, Prod.mk.injEq] at h
      obtain ⟨rfl, rfl⟩ := h
      simp [hm]
    · cases h
  | cons c s ih =>
    unfold splitOnce at h
    cases hstrip : stripPrefix m (c :: s) with
    | some rest' =>
      simp only [hstrip, Option.some.injEq, Prod.mk.injEq] at h
      obtain ⟨rfl, rfl⟩ := h
      exact stripPrefix_eq_some.mp hstrip
    | none =>
      simp only [hstrip, Option.map_eq_some_iff] at h
      obtain ⟨⟨before', rest'⟩, hrec, heq⟩ := h
      simp only [Prod.mk.injEq] at heq
      obtain ⟨rfl, rfl⟩ := heq
      rw [ih hrec]
      rfl

/-- A marker stands first where its first character does. -/
theorem splitOnce_of_notMem {m s t : Text} (h : c ∉ s) :
    splitOnce (c :: m) (s ++ (c :: m) ++ t) = some (s, t) := by
  induction s with
  | nil =>
    have hstrip : stripPrefix (c :: m) (c :: (m ++ t)) = some t := stripPrefix_append (c :: m) t
    rw [List.nil_append, List.cons_append, splitOnce, hstrip]
  | cons d s ih =>
    rw [List.mem_cons, not_or] at h
    have hstrip : stripPrefix (c :: m) (d :: (s ++ (c :: m) ++ t)) = none := by
      rw [stripPrefix_eq_none, List.cons_prefix_cons]
      exact fun hholds => h.1 hholds.1
    rw [List.cons_append, List.cons_append, splitOnce, hstrip, ih h.2]
    rfl

lemma splitOnce_singleton {s t : Text} (h : c ∉ s) : splitOnce [c] (s ++ c :: t) = some (s, t) := by
  rw [List.append_cons]
  exact splitOnce_of_notMem h

lemma mem_of_mem_intercalate {sep : Text} (h : c ∈ sep.intercalate ls) :
    c ∈ sep ∨ ∃ l ∈ ls, c ∈ l := by
  induction ls with
  | nil => simp [List.intercalate] at h
  | cons l ls ih =>
    cases ls with
    | nil => exact .inr ⟨l, List.mem_cons_self, by simpa [List.intercalate] using h⟩
    | cons m ls =>
      have hcons : sep.intercalate (l :: m :: ls) = l ++ (sep ++ sep.intercalate (m :: ls)) := by
        simp [List.intercalate]
      rw [hcons, List.mem_append, List.mem_append] at h
      rcases h with h | h | h
      · exact .inr ⟨l, List.mem_cons_self, h⟩
      · exact .inl h
      · obtain h | ⟨k, hk, hc⟩ := ih h
        · exact .inl h
        · exact .inr ⟨k, List.mem_cons_of_mem _ hk, hc⟩

/-- Two markers neither of which starts the other: a text that starts with one does not start with
the other. -/
theorem stripPrefix_of_disjoint {m k : Text} (h₁ : ¬ m <+: k) (h₂ : ¬ k <+: m) (s : Text) :
    stripPrefix m (k ++ s) = none := by
  rw [stripPrefix_eq_none]
  intro h
  rcases List.prefix_or_prefix_of_prefix h (List.prefix_append k s) with h | h
  · exact h₁ h
  · exact h₂ h

/-- A trimmed line that starts with `c` has no prefix that starts with another character. -/
theorem stripPrefix_trimEnd_of_head {c d : Char} {s m : Text} (hcd : d ≠ c) :
    stripPrefix (d :: m) (trimEnd (c :: s)) = none := by
  rw [stripPrefix_eq_none]
  rintro ⟨t, ht⟩
  exact trimEnd_ne_of_head hcd ht.symm

lemma startsWith_trimEnd_of_head {c d : Char} {s m : Text} (hcd : d ≠ c) :
    startsWith (trimEnd (c :: s)) (d :: m) = false := by
  rw [startsWith, ← Bool.not_eq_true, List.isPrefixOf_iff_prefix]
  rintro ⟨t, ht⟩
  exact trimEnd_ne_of_head hcd ht.symm

/-! ### Lines -/

/-- Remove one carriage return from the end of a line. -/
def stripCr (s : Text) : Text := if s.getLast? = some '\r' then s.dropLast else s

/-- `str::lines`: the pieces between line feeds, one carriage return dropped before each line
feed, no empty line after a final line feed. -/
def lines (s : Text) : List Text :=
  let segments := s.splitOn '\n'
  segments.dropLast.map stripCr ++ segments.getLast?.toList.filter (· ≠ [])

/-- `[..].join("\n")`. -/
def joinLines (ls : List Text) : Text := ['\n'].intercalate ls

lemma stripCr_eq_self (h : s.getLast? ≠ some '\r') : stripCr s = s := by
  simp [stripCr, h]

lemma not_mem_stripCr (h : c ∉ s) : c ∉ stripCr s := by
  unfold stripCr
  split_ifs
  · exact fun hc => h ((List.dropLast_sublist s).subset hc)
  · exact h

lemma not_mem_of_mem_splitOn {s l : Text} (h : l ∈ s.splitOn c) : c ∉ l := by
  induction s generalizing l with
  | nil =>
    rw [List.splitOn_nil, List.mem_singleton] at h
    simp [h]
  | cons x xs ih =>
    rw [List.splitOn_cons_eq_if_modifyHead] at h
    split_ifs at h with hx
    · rcases List.mem_cons.mp h with rfl | h'
      · simp
      · exact ih h'
    · rcases hs : xs.splitOn c with _ | ⟨p, ps⟩
      · exact absurd hs (List.splitOn_ne_nil c xs)
      · rw [hs] at h ih
        rcases List.mem_cons.mp h with rfl | h'
        · have hp : c ∉ p := ih List.mem_cons_self
          have hxc : x ≠ c := by simpa using hx
          simp [hp, Ne.symm hxc]
        · exact ih (List.mem_cons_of_mem _ h')

/-- Joining lines without line feeds and splitting again gives the lines back. -/
theorem splitOn_joinLines (h : ∀ l ∈ ls, '\n' ∉ l) (hne : ls ≠ []) :
    (joinLines ls).splitOn '\n' = ls :=
  List.splitOn_intercalate '\n' h hne

lemma joinLines_splitOn (s : Text) : joinLines (s.splitOn '\n') = s := List.intercalate_splitOn '\n'

@[simp] lemma joinLines_singleton (l : Text) : joinLines [l] = l := by
  simp [joinLines, List.intercalate]

lemma joinLines_cons (l : Text) (hne : ls ≠ []) :
    joinLines (l :: ls) = l ++ '\n' :: joinLines ls := by
  cases ls with
  | nil => exact absurd rfl hne
  | cons m ls => simp [joinLines, List.intercalate]

lemma joinLines_concat (ls : List Text) (last : Text) (hne : ls ≠ []) :
    joinLines (ls ++ [last]) = joinLines ls ++ '\n' :: last := by
  induction ls with
  | nil => exact absurd rfl hne
  | cons l ls ih =>
    by_cases hls : ls = []
    · subst hls
      simp [joinLines, List.intercalate]
    · rw [List.cons_append, joinLines_cons l (by simp), ih hls, joinLines_cons l hls]
      simp

/-- The characters of the lines are characters of the text. -/
theorem mem_joinLines {l : Text} (hl : l ∈ ls) (hc : c ∈ l) : c ∈ joinLines ls := by
  induction ls with
  | nil => cases hl
  | cons m ls ih =>
    by_cases hls : ls = []
    · subst hls
      rw [joinLines_singleton, ← List.mem_singleton.mp hl]
      exact hc
    · rw [joinLines_cons m hls]
      rcases List.mem_cons.mp hl with rfl | hl'
      · simp [hc]
      · simp [ih hl']

/-- A nonempty text without trailing whitespace, as terminated lines and a last one: the last line
is not empty and has no trailing whitespace either, and `lines` keeps it as it is. -/
theorem exists_lines (hne : s ≠ []) (h : NoTrailingWhitespace s) :
    ∃ init last, s = joinLines (init ++ [last]) ∧ (∀ l ∈ init, '\n' ∉ l) ∧ '\n' ∉ last ∧
      last ≠ [] ∧ NoTrailingWhitespace last ∧ lines s = init.map stripCr ++ [last] := by
  have hsplit : s.splitOn '\n' ≠ [] := List.splitOn_ne_nil '\n' s
  set init := (s.splitOn '\n').dropLast with hinit
  set last := (s.splitOn '\n').getLast hsplit with hlast
  have hparts : s.splitOn '\n' = init ++ [last] := (List.dropLast_append_getLast hsplit).symm
  have hs : s = joinLines (init ++ [last]) := by rw [← hparts, joinLines_splitOn]
  have hmem : ∀ l ∈ init ++ [last], '\n' ∉ l := by
    intro l hl
    rw [← hparts] at hl
    exact not_mem_of_mem_splitOn hl
  -- an empty last line would leave a line feed at the end of the text
  have hlastne : last ≠ [] := by
    intro hnil
    rw [hnil] at hs
    by_cases hi : init = []
    · rw [hi] at hs
      exact hne (by simpa using hs)
    · rw [joinLines_concat init [] hi] at hs
      have hlf := h '\n' (by rw [hs]; simp)
      cases hlf
  have hnt : NoTrailingWhitespace last := by
    by_cases hi : init = []
    · rw [hi, List.nil_append, joinLines_singleton] at hs
      rwa [← hs]
    · rw [joinLines_concat init last hi] at hs
      intro c hc
      refine h c ?_
      rw [hs, List.getLast?_append_of_ne_nil _ (List.cons_ne_nil _ _), List.getLast?_cons]
      have hc' : last.getLast? = some c := hc
      simp [hc']
  refine ⟨init, last, hs, fun l hl => hmem l (by simp [hl]), hmem last (by simp), hlastne, hnt, ?_⟩
  unfold lines
  simp only [hparts]
  simp [hlastne]

/-- `lines` gives back joined lines that have no line feed and do not end in a carriage return. -/
theorem lines_joinLines {init : List Text} {last : Text}
    (h : ∀ l ∈ init, '\n' ∉ l ∧ l.getLast? ≠ some '\r') (hlf : '\n' ∉ last) (hne : last ≠ []) :
    lines (joinLines (init ++ [last])) = init ++ [last] := by
  have hmem : ∀ l ∈ init ++ [last], '\n' ∉ l := by
    intro l hl
    rcases List.mem_append.mp hl with hl | hl
    · exact (h l hl).1
    · rw [List.mem_singleton.mp hl]
      exact hlf
  have hstrip : init.map stripCr = init := by
    conv_rhs => rw [← List.map_id init]
    exact List.map_congr_left fun l hl => stripCr_eq_self (h l hl).2
  unfold lines
  simp only [splitOn_joinLines hmem (by simp)]
  simp [hstrip, hne]

/-- Lines joined in front of an empty last line: each with its line feed. -/
theorem joinLines_concat_nil (ls : List Text) :
    joinLines (ls ++ [[]]) = ls.flatMap (· ++ ['\n']) := by
  induction ls with
  | nil => simp
  | cons l ls ih =>
    rw [List.cons_append, joinLines_cons l (by simp), ih]
    simp

/-- A text that is empty or ends with a line feed is its lines, each with its line feed. -/
theorem flatMap_dropLast_splitOn (h : ∀ c ∈ s.getLast?, c = '\n') :
    (s.splitOn '\n').dropLast.flatMap (· ++ ['\n']) = s := by
  have hsplit : s.splitOn '\n' ≠ [] := List.splitOn_ne_nil '\n' s
  have hparts := List.dropLast_append_getLast hsplit
  have hlf : '\n' ∉ (s.splitOn '\n').getLast hsplit :=
    not_mem_of_mem_splitOn (List.getLast_mem hsplit)
  set init := (s.splitOn '\n').dropLast
  set last := (s.splitOn '\n').getLast hsplit
  have hs : s = joinLines (init ++ [last]) := by rw [hparts, joinLines_splitOn]
  have hlast : last = [] := by
    by_contra hne
    have hend : s.getLast? = last.getLast? := by
      by_cases hi : init = []
      · rw [hi, List.nil_append, joinLines_singleton] at hs
        rw [hs]
      · rw [hs, joinLines_concat init last hi,
          List.getLast?_append_of_ne_nil _ (List.cons_ne_nil _ _),
          ← List.singleton_append, List.getLast?_append_of_ne_nil _ hne]
    have hc := h (last.getLast hne) (by rw [hend]; exact List.getLast?_eq_getLast_of_ne_nil hne)
    exact hlf (hc ▸ List.getLast_mem hne)
  rw [← joinLines_concat_nil]
  conv_rhs => rw [hs, hlast]

lemma not_mem_of_mem_lines {s l : Text} (h : l ∈ lines s) : '\n' ∉ l := by
  unfold lines at h
  rcases List.mem_append.mp h with h | h
  · obtain ⟨m, hm, rfl⟩ := List.mem_map.mp h
    exact not_mem_stripCr (not_mem_of_mem_splitOn ((List.dropLast_sublist _).subset hm))
  · obtain ⟨hl, -⟩ := List.mem_filter.mp h
    exact not_mem_of_mem_splitOn (List.mem_of_getLast? (Option.mem_toList.mp hl))

/-! ### Lengths of lines -/

lemma length_stripCr_le (s : Text) : (stripCr s).length ≤ s.length := by
  unfold stripCr
  split_ifs <;> simp

lemma length_stripCr_lt (h : s.getLast? = some '\r') : (stripCr s).length < s.length := by
  have hne : s ≠ [] := by
    rintro rfl
    cases h
  have hpos := List.length_pos_iff.mpr hne
  rw [stripCr, if_pos h, List.length_dropLast]
  omega

lemma length_splitOn (c : Char) (s : Text) : (s.splitOn c).length = s.count c + 1 := by
  induction s with
  | nil => simp
  | cons x s ih =>
    rw [List.splitOn_cons_eq_if_modifyHead, List.count_cons]
    split_ifs with hx
    · rw [List.length_cons, ih]
    · rw [List.length_modifyHead, ih, Nat.add_zero]

/-- There are no more lines than there are pieces between line feeds. -/
theorem length_lines_le (s : Text) : (lines s).length ≤ s.count '\n' + 1 := by
  have hne := List.splitOn_ne_nil '\n' s
  have hsplit := length_splitOn '\n' s
  have hlast : ((s.splitOn '\n').getLast?.toList.filter (· ≠ [])).length ≤ 1 := by
    refine (List.length_filter_le _ _).trans ?_
    rw [List.getLast?_eq_some_getLast hne]
    exact le_rfl
  unfold lines
  rw [List.length_append, List.length_map, List.length_dropLast]
  omega

lemma length_joinLines_concat (init : List Text) (last : Text) :
    (joinLines (init ++ [last])).length =
      (init.map List.length).sum + init.length + last.length := by
  induction init with
  | nil => simp
  | cons l init ih =>
    rw [List.cons_append, joinLines_cons l (by simp), List.length_append, List.length_cons, ih,
      List.map_cons, List.sum_cons, List.length_cons]
    omega

/-! ### Lower case -/

/-- The text has no capital letters of ASCII. -/
def IsLower (s : Text) : Prop := ∀ c ∈ s, c.toLower = c

lemma IsLower.map_toLower (h : IsLower s) : s.map Char.toLower = s := by
  rw [List.map_congr_left h, List.map_id']

lemma toLower_toLower (c : Char) : c.toLower.toLower = c.toLower := by
  by_cases h : c.val ≥ 'A'.val ∧ c.val ≤ 'Z'.val
  · have hlow : ¬ c.toLower.val ≤ 'Z'.val := by
      simp only [Char.toLower.eq_def, h, and_self, dite_true]
      obtain ⟨hA, hZ⟩ := h
      simp [UInt32.le_iff_toNat_le] at *
      omega
    rw [Char.toLower.eq_def c.toLower, dif_neg fun hc => hlow hc.2]
  · have hc : c.toLower = c := by rw [Char.toLower.eq_def, dif_neg h]
    rw [hc, hc]

lemma isLower_map_toLower (s : Text) : IsLower (s.map Char.toLower) := by
  intro c hc
  obtain ⟨d, -, rfl⟩ := List.mem_map.mp hc
  exact toLower_toLower d

lemma toLower_eq_or_isUpper (c : Char) :
    c.toLower = c ∨ (c.isUpper = true ∧ c.toLower.isLower = true) := by
  by_cases h : c.val ≥ 'A'.val ∧ c.val ≤ 'Z'.val
  · right
    constructor
    · simpa [Char.isUpper.eq_def] using h
    · unfold Char.isLower Char.toLower
      simp only [h, and_self, dite_true]
      obtain ⟨hA, hZ⟩ := h
      simp [UInt32.le_iff_toNat_le] at *
      omega
  · left
    rw [Char.toLower.eq_def, dif_neg h]

lemma toLower_eq_iff {c d : Char} (hc : c.isAlpha = false) : d.toLower = c ↔ d = c := by
  simp only [Char.isAlpha.eq_def, Bool.or_eq_false_iff] at hc
  rcases toLower_eq_or_isUpper d with hd | ⟨hupper, hlower⟩
  · rw [hd]
  · constructor
    · rintro rfl
      simp [hc.2] at hlower
    · rintro rfl
      simp [hc.1] at hupper

lemma isWhitespace_toLower (c : Char) : isWhitespace c.toLower = isWhitespace c := by
  have hletter : ∀ d : Char, 65 ≤ d.toNat → d.toNat ≤ 122 → isWhitespace d = false := by
    intro d hlo hhi
    simp only [isWhitespace, Bool.or_eq_false_iff, Bool.and_eq_false_iff, beq_eq_false_iff_ne,
      decide_eq_false_iff_not]
    omega
  rcases toLower_eq_or_isUpper c with hc | ⟨hupper, hlower⟩
  · rw [hc]
  · simp only [Char.isUpper.eq_def, Char.isLower.eq_def, Bool.and_eq_true, decide_eq_true_eq,
      ge_iff_le, UInt32.le_iff_toNat_le] at hupper hlower
    rw [hletter c.toLower (le_trans (by decide) hlower.1) (le_trans hlower.2 (by decide)),
      hletter c (le_trans (by decide) hupper.1) (le_trans hupper.2 (by decide))]

lemma trim_map_toLower (s : Text) : trim (s.map Char.toLower) = (trim s).map Char.toLower := by
  have hcomp : isWhitespace ∘ Char.toLower = isWhitespace := funext isWhitespace_toLower
  unfold trim trimEnd trimStart List.rdropWhile
  rw [List.dropWhile_map, hcomp, ← List.map_reverse, List.dropWhile_map, hcomp, ← List.map_reverse]

lemma stripPrefix_map_toLower {m : Text} (hm : ∀ c ∈ m, c.isAlpha = false) (s : Text) :
    stripPrefix m (s.map Char.toLower) = (stripPrefix m s).map (List.map Char.toLower) := by
  have hprefix : ∀ {s t : Text}, s.map Char.toLower = m ++ t →
      ∃ t', s = m ++ t' ∧ t'.map Char.toLower = t := by
    intro s t h
    obtain ⟨m', t', rfl, hm', ht'⟩ := List.map_eq_append_iff.mp h
    refine ⟨t', ?_, ht'⟩
    have hself : m' = m := by
      rw [← hm'] at hm ⊢
      clear hm' h
      induction m' with
      | nil => rfl
      | cons c m' ih =>
        rw [List.map_cons] at hm ⊢
        have hc := (toLower_eq_iff (hm _ List.mem_cons_self)).mp rfl
        rw [← hc, ← ih fun d hd => hm d (List.mem_cons_of_mem _ hd)]
    rw [hself]
  cases hstrip : stripPrefix m s with
  | some t =>
    rw [stripPrefix_eq_some] at hstrip
    have hlow : m.map Char.toLower = m :=
      (List.map_congr_left fun c hc => (toLower_eq_iff (hm c hc)).mpr rfl).trans (List.map_id' m)
    rw [hstrip, List.map_append, hlow, stripPrefix_append]
    rfl
  | none =>
    rw [Option.map_none, stripPrefix_eq_none]
    rw [stripPrefix_eq_none] at hstrip
    rintro ⟨t, ht⟩
    obtain ⟨t', rfl, -⟩ := hprefix ht.symm
    exact hstrip (List.prefix_append m t')

lemma splitOnce_map_toLower {m : Text} (hm : ∀ c ∈ m, c.isAlpha = false) (s : Text) :
    splitOnce m (s.map Char.toLower) = (splitOnce m s).map fun (before, rest) =>
        (before.map Char.toLower, rest.map Char.toLower) := by
  induction s with
  | nil =>
    rw [List.map_nil, splitOnce]
    by_cases hnil : m = []
    · rw [if_pos hnil]
      rfl
    · rw [if_neg hnil]
      rfl
  | cons c s ih =>
    have hstrip := stripPrefix_map_toLower hm (c :: s)
    rw [List.map_cons] at hstrip ⊢
    rw [splitOnce, splitOnce, hstrip, ih]
    cases stripPrefix m (c :: s) with
    | some rest => rfl
    | none => cases splitOnce m s <;> rfl

/-! ### Numbers -/

lemma toDigits_injective {m n : ℕ} (h : Nat.toDigits 10 m = Nat.toDigits 10 n) : m = n := by
  rw [← Nat.ofDigitChars_ten_toDigits (n := m), h, Nat.ofDigitChars_ten_toDigits]

end Codex.Lib
