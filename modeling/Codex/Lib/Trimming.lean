import Codex.Lib.Text

/-!
# What trimming takes off

A text is what `trim` leaves of it, between two blank texts; and what stands before the characters
dropped at an end stays. With these a trimmed text is taken apart once, and its ends are compared
with those of the text.

* `rdropWhile_append_of_forall`: what is dropped at the end;
* `exists_trim`, `trim_append`: a text around what `trim` leaves of it.
-/

namespace Codex.Lib

/-- A text of whitespace only. -/
def IsBlank (s : Text) : Prop := ∀ c ∈ s, isWhitespace c = true

/-! ### The end of a list -/

section ends

variable {α : Type} {p : α → Bool} {s t : List α}

lemma rdropWhile_append_of_forall (ht : ∀ x ∈ t, p x = true)
    (hs : ∀ x ∈ s.getLast?, p x = false) : (s ++ t).rdropWhile p = s := by
  unfold List.rdropWhile
  have hrev : ∀ x ∈ t.reverse, p x = true := fun x hx => ht x (List.mem_reverse.mp hx)
  rw [List.reverse_append, List.dropWhile_append_of_pos hrev]
  cases hcases : s.reverse with
  | nil => simpa using hcases.symm
  | cons x l =>
    have hx : x ∈ s.getLast? := by
      rw [← List.head?_reverse, hcases]
      rfl
    rw [List.dropWhile_cons_of_neg (by simp [hs x hx]), ← hcases, List.reverse_reverse]

lemma exists_rdropWhile (p : α → Bool) (s : List α) :
    ∃ t, s = s.rdropWhile p ++ t ∧ ∀ x ∈ t, p x = true :=
  ⟨s.rtakeWhile p, List.rdropWhile_append_rtakeWhile.symm, fun _ hx => List.mem_rtakeWhile_imp hx⟩

lemma getLast?_rdropWhile (p : α → Bool) (s : List α) :
    ∀ x ∈ (s.rdropWhile p).getLast?, p x = false := by
  intro x hx
  have hne : s.rdropWhile p ≠ [] := by
    rintro hnil
    simp [hnil] at hx
  have hlast := List.rdropWhile_last_not p s hne
  rw [List.getLast?_eq_getLast_of_ne_nil hne, Option.mem_some_iff] at hx
  rw [← hx]
  simpa using hlast

end ends

/-! ### Around a trimmed text -/

variable {l s t r : Text}

variable (s)

lemma exists_trimStart : ∃ l, s = l ++ trimStart s ∧ IsBlank l :=
  ⟨s.takeWhile isWhitespace, (List.takeWhile_append_dropWhile (p := isWhitespace)).symm,
    fun _ hc => List.mem_takeWhile_imp hc⟩

/-- The first character that `trim_start` leaves is no whitespace. -/
theorem head?_trimStart : ∀ c ∈ (trimStart s).head?, isWhitespace c = false := by
  intro c hc
  unfold trimStart at hc
  have hpos : 0 < (s.dropWhile isWhitespace).length := by
    cases hcases : s.dropWhile isWhitespace with
    | nil => simp [hcases] at hc
    | cons d t => exact Nat.succ_pos _
  have hd := List.dropWhile_get_zero_not isWhitespace s hpos
  rw [List.head?_eq_getElem?, Option.mem_def, List.getElem?_eq_some_iff] at hc
  obtain ⟨-, rfl⟩ := hc
  simpa using hd

lemma noTrailingWhitespace_trimEnd : NoTrailingWhitespace (trimEnd s) :=
  getLast?_rdropWhile isWhitespace s

lemma noSurroundingWhitespace_trim : NoSurroundingWhitespace (trim s) := by
  refine ⟨fun c hc => ?_, noTrailingWhitespace_trimEnd (trimStart s)⟩
  cases hstart : trimStart s with
  | nil =>
    rw [trim, hstart] at hc
    simp [trimEnd] at hc
  | cons d t =>
    -- the first character left is the first that is no whitespace
    have hne : trimEnd (d :: t) ≠ [] := by
      intro hnil
      rw [trim, hstart, hnil] at hc
      simp at hc
    refine head?_trimStart s c ?_
    rw [trim, hstart, head?_trimEnd hne] at hc
    rw [hstart]
    exact hc

variable {s}

lemma trim_eq_self_iff : trim s = s ↔ NoSurroundingWhitespace s :=
  ⟨fun h => h ▸ noSurroundingWhitespace_trim s, trim_eq_self⟩

/-- A text is what `trim` leaves of it, between whitespace. -/
theorem exists_trim (s : Text) : ∃ l r, s = l ++ trim s ++ r ∧ IsBlank l ∧ IsBlank r := by
  obtain ⟨r, hr, hblank⟩ := exists_rdropWhile isWhitespace (trimStart s)
  obtain ⟨l, hl, hblank'⟩ := exists_trimStart s
  refine ⟨l, r, ?_, hblank', hblank⟩
  calc s = l ++ trimStart s := hl
    _ = l ++ (trim s ++ r) := congrArg _ hr
    _ = l ++ trim s ++ r := (List.append_assoc _ _ _).symm

lemma trim_append (hl : IsBlank l) (ht : NoSurroundingWhitespace t) (hr : IsBlank r) :
    trim (l ++ t ++ r) = t := by
  unfold trim trimStart
  rw [List.append_assoc, List.dropWhile_append_of_pos hl]
  cases t with
  | nil =>
    rw [List.nil_append, List.dropWhile_eq_nil_iff.mpr hr]
    rfl
  | cons c t =>
    have hc : isWhitespace c = false := ht.1 c rfl
    rw [List.cons_append, List.dropWhile_cons_of_neg (by simp [hc]), ← List.cons_append]
    exact rdropWhile_append_of_forall hr ht.2

/-- In front of text without whitespace at its ends, `trim` works at the start only. -/
theorem trim_append_right (hne : t ≠ []) (ht : NoSurroundingWhitespace t) (hr : IsBlank r) :
    trim (s ++ t ++ r) = trimStart s ++ t := by
  obtain ⟨l, hs, hl⟩ := exists_trimStart s
  have hmiddle : NoSurroundingWhitespace (trimStart s ++ t) := by
    refine ⟨fun c hc => ?_, noTrailingWhitespace_append hne ht.2⟩
    cases hcases : trimStart s with
    | nil =>
      rw [hcases] at hc
      exact ht.1 c hc
    | cons d rest =>
      refine head?_trimStart s c ?_
      rw [hcases] at hc ⊢
      exact hc
  conv_lhs => rw [hs, List.append_assoc l]
  exact trim_append hl hmiddle hr

/-- A text that `trim` makes no shorter is left alone. -/
theorem trim_eq_self_of_length (h : s.length ≤ (trim s).length) : trim s = s := by
  obtain ⟨l, r, hs, -, -⟩ := exists_trim s
  have hlen := congrArg List.length hs
  rw [List.length_append, List.length_append] at hlen
  have hl : l = [] := List.length_eq_zero_iff.mp (by omega)
  have hr : r = [] := List.length_eq_zero_iff.mp (by omega)
  rw [hl, hr, List.nil_append, List.append_nil] at hs
  exact hs.symm

lemma trim_sublist (s : Text) : (trim s).Sublist s :=
  (List.rdropWhile_prefix isWhitespace _).sublist.trans (List.dropWhile_suffix _).sublist

lemma length_trim_le (s : Text) : (trim s).length ≤ s.length := (trim_sublist s).length_le

lemma noSurroundingWhitespace_map_toLower_iff :
    NoSurroundingWhitespace (s.map Char.toLower) ↔ NoSurroundingWhitespace s := by
  rw [← trim_eq_self_iff, ← trim_eq_self_iff, trim_map_toLower]
  refine ⟨fun h => trim_eq_self_of_length ?_, fun h => h.symm ▸ rfl⟩
  have hlen := congrArg List.length h
  rw [List.length_map, List.length_map] at hlen
  exact hlen.ge

/-! ### The first occurrence of a marker -/

/-- What stands before a marker of one character does not have it. -/
theorem splitOnce_singleton_eq_some_iff {c : Char} :
    splitOnce [c] s = some (l, r) ↔ s = l ++ c :: r ∧ c ∉ l := by
  constructor
  · intro h
    have hs : s = l ++ c :: r := by simpa using splitOnce_eq_some h
    refine ⟨hs, fun hmem => ?_⟩
    obtain ⟨before, after, rfl, hnot⟩ := List.eq_append_cons_of_mem hmem
    rw [hs, List.append_assoc, List.cons_append, splitOnce_singleton hnot, Option.some_inj,
      Prod.mk.injEq] at h
    have hlen := congrArg List.length h.1
    simp at hlen
  · rintro ⟨rfl, hnot⟩
    exact splitOnce_singleton hnot

end Codex.Lib
