import Codex.Lib.Text
import Mathlib.Algebra.Group.Int.Defs
import Mathlib.Data.List.Destutter
import Mathlib.Data.List.Sort

/-!
# Fuzzy matching

`utils/fuzzy-match/src/lib.rs`: the characters of the needle are looked for one after the other in
the haystack, both in lower case. The haystack is put in lower case character by character, the
needle by `str::to_lowercase`, which writes a capital sigma at the end of a word as a final sigma.

* `isSome_findHits_iff`: the search finds every subsequence;
* `forall_soundAndComplete_iff`: the two lower cases agree where no capital sigma ends a word.
-/

namespace Codex.FuzzyMatch

open Codex.Lib
open scoped List

/-- What Unicode says of the characters: their lower case, and what decides where a word ends. -/
structure CaseTable where
  toLowercase : Char → Text
  cased : Char → Bool
  caseIgnorable : Char → Bool
  toLowercase_sigma : toLowercase 'Σ' = ['σ']

namespace CaseTable

variable (table : CaseTable)

def caseIgnorableThenCased (chars : Text) : Bool :=
  ((chars.dropWhile table.caseIgnorable).head?).any table.cased

/-- Whether a capital sigma between the characters, those before it last first, ends a word. -/
def isWordFinal (before after : Text) : Bool :=
  table.caseIgnorableThenCased before && !table.caseIgnorableThenCased after

/-- One character of `str::to_lowercase`; the characters before it are given last first. -/
def lowerBetween (before after : Text) (c : Char) : Text :=
  if c = 'Σ' then [if table.isWordFinal before after then 'ς' else 'σ'] else table.toLowercase c

/-- `str::to_lowercase`, of what follows the characters, which are given last first -/
def toLowercaseAfter : Text → Text → Text
  | _, [] => []
  | before, c :: after => table.lowerBetween before after c ++ toLowercaseAfter (c :: before) after

/-- The characters, each in lower case. -/
def lowerEach (text : Text) : Text := text.flatMap table.toLowercase

/-- Whether a capital sigma of what follows the characters ends a word. -/
def hasFinalSigmaAfter : Text → Text → Bool
  | _, [] => false
  | before, c :: after =>
    (c = 'Σ' && table.isWordFinal before after) || hasFinalSigmaAfter (c :: before) after

variable {table}

lemma length_lowerBetween (before after : Text) (c : Char) :
    (table.lowerBetween before after c).length = (table.toLowercase c).length := by
  by_cases hsigma : c = 'Σ'
  · simp [lowerBetween, hsigma, table.toLowercase_sigma]
  · simp [lowerBetween, hsigma]

lemma lowerBetween_eq_iff (before after : Text) (c : Char) :
    table.lowerBetween before after c = table.toLowercase c ↔
      (c = 'Σ' && table.isWordFinal before after) = false := by
  by_cases hsigma : c = 'Σ'
  · cases hfinal : table.isWordFinal before after <;>
      simp [lowerBetween, hsigma, table.toLowercase_sigma, hfinal]
  · simp [lowerBetween, hsigma]

lemma length_toLowercaseAfter (before text : Text) :
    (table.toLowercaseAfter before text).length = (table.lowerEach text).length := by
  induction text generalizing before with
  | nil => rfl
  | cons c text ih =>
    rw [toLowercaseAfter, lowerEach, List.flatMap_cons, List.length_append, List.length_append,
      length_lowerBetween, ih, lowerEach]

/-- The two lower cases differ at a capital sigma that ends a word, and nowhere else. -/
theorem toLowercaseAfter_eq_iff (before text : Text) :
    table.toLowercaseAfter before text = table.lowerEach text ↔
      table.hasFinalSigmaAfter before text = false := by
  induction text generalizing before with
  | nil => exact iff_of_true rfl rfl
  | cons c text ih =>
    rw [toLowercaseAfter, lowerEach, List.flatMap_cons, hasFinalSigmaAfter, Bool.or_eq_false_iff,
      ← lowerBetween_eq_iff, ← ih (c :: before)]
    constructor
    · exact fun h => List.append_inj h (length_lowerBetween before text c)
    · rintro ⟨hc, htext⟩
      rw [hc, htext, lowerEach]

end CaseTable

/-! ### The match -/

variable (table : CaseTable)

/-- `lowered_chars` and `lowered_to_orig_char_idx` -/
def loweredChars (haystack : Text) : List (Char × ℕ) :=
  haystack.zipIdx.flatMap fun (ch, origIdx) => (table.toLowercase ch).map (·, origIdx)

/-- The loop over `lowered_needle`: the positions found, each with its original index -/
def findHits : ℕ → List (Char × ℕ) → Text → Option (List (ℕ × ℕ))
  | _, _, [] => some []
  | _, [], _ :: _ => none
  | cur, (lc, origIdx) :: lowered, nc :: needle =>
    if lc = nc then (findHits (cur + 1) lowered needle).map ((cur, origIdx) :: ·)
    else findHits (cur + 1) lowered (nc :: needle)

variable (indices : List ℕ)

/-- `sort_unstable` and `dedup` -/
def sortDedup : List ℕ := (indices.mergeSort (· ≤ ·)).destutter (· ≠ ·)

def fuzzyMatch (haystack needle : Text) : Option (List ℕ × ℤ) :=
  if needle.isEmpty then some ([], 2 ^ 31 - 1)
  else do
    let lowered := loweredChars table haystack
    let loweredNeedle := table.toLowercaseAfter [] needle
    let hits ← findHits 0 lowered loweredNeedle
    let resultOrigIndices := hits.map Prod.snd
    let firstLowerPos :=
      match resultOrigIndices.head? with
      | none => 0
      | some targetOrig => (lowered.findIdx? fun entry => entry.2 = targetOrig).getD 0
    let lastLowerPos := (hits.getLast?.map Prod.fst).getD firstLowerPos
    let window : ℤ := (lastLowerPos - firstLowerPos + 1) - loweredNeedle.length
    let score := if firstLowerPos = 0 then max window 0 - 100 else max window 0
    some (sortDedup resultOrigIndices, score)

/-! ### The search -/

variable {lowered : List (Char × ℕ)}

lemma isSome_findHits_iff {cur : ℕ} {needle : Text} :
    (findHits cur lowered needle).isSome ↔ needle <+ lowered.map Prod.fst := by
  fun_induction findHits cur lowered needle with
  | case1 => exact iff_of_true rfl (List.nil_sublist _)
  | case2 => simp
  | case3 cur origIdx lowered nc needle ih => simpa using ih
  | case4 cur lc origIdx lowered nc needle hne ih =>
    rw [ih, List.map_cons]
    refine ⟨fun h => h.cons _, fun h => ?_⟩
    cases h with
    | cons _ h => exact h
    | cons_cons => exact absurd rfl hne

/-- The entries that are hit spell the needle. -/
lemma findHits_eq_some {cur : ℕ} {needle : Text}
    {hits : List (ℕ × ℕ)} (h : findHits cur lowered needle = some hits) :
    ∃ taken, taken <+ lowered ∧ taken.map Prod.fst = needle ∧
      taken.map Prod.snd = hits.map Prod.snd := by
  fun_induction findHits cur lowered needle generalizing hits with
  | case1 =>
    cases h
    exact ⟨[], List.nil_sublist _, rfl, rfl⟩
  | case2 => cases h
  | case3 cur origIdx lowered nc needle ih =>
    obtain ⟨hits', hrest, rfl⟩ := Option.map_eq_some_iff.mp h
    obtain ⟨taken, hsub, hneedle, horig⟩ := ih hrest
    exact ⟨(nc, origIdx) :: taken, hsub.cons_cons _, congrArg _ hneedle, congrArg _ horig⟩
  | case4 cur lc origIdx lowered nc needle hne ih =>
    obtain ⟨taken, hsub, hneedle, horig⟩ := ih h
    exact ⟨taken, hsub.cons _, hneedle, horig⟩

lemma sortDedup_eq_dedup :
    (indices.mergeSort (· ≤ ·)).Pairwise (· ≤ ·) ∧
      sortDedup indices = (indices.mergeSort (· ≤ ·)).dedup := by
  have hle : (indices.mergeSort fun a b => decide (a ≤ b)).Pairwise (· ≤ ·) := by
    have := @List.pairwise_mergeSort ℕ (fun a b => decide (a ≤ b))
      (by simpa using fun _ _ _ => Nat.le_trans) (by simpa using Nat.le_total) indices
    simpa using this
  exact ⟨hle, hle.destutter_eq_dedup⟩

lemma pairwise_sortDedup : (sortDedup indices).Pairwise (· < ·) := by
  obtain ⟨hle, heq⟩ := sortDedup_eq_dedup indices
  rw [heq]
  exact ((hle.sublist (List.dedup_sublist _)).and (List.nodup_dedup _)).imp
    fun h => Nat.lt_of_le_of_ne h.1 h.2

lemma mem_sortDedup {indices : List ℕ} {i : ℕ} : i ∈ sortDedup indices ↔ i ∈ indices := by
  rw [(sortDedup_eq_dedup indices).2, List.mem_dedup, List.mem_mergeSort]

variable {haystack : Text}

/-- The indices of a list that are among some are these, in order. -/
lemma sortDedup_eq {indices : List ℕ} (h : ∀ i ∈ indices, i < haystack.length) :
    sortDedup indices = (haystack.zipIdx.filter fun entry => entry.2 ∈ indices).map Prod.snd := by
  have hrange : (haystack.zipIdx.map Prod.snd).Pairwise (· < ·) := by
    rw [List.zipIdx_map_snd]
    exact List.pairwise_lt_range'
  refine (pairwise_sortDedup indices).eq_of_mem_iff
    (hrange.sublist (List.filter_sublist.map _)) fun i => ?_
  rw [mem_sortDedup]
  constructor
  · intro hi
    refine List.mem_map.mpr ⟨(haystack.get ⟨i, h i hi⟩, i), List.mem_filter.mpr ⟨?_, ?_⟩, rfl⟩
    · exact List.mem_zipIdx_iff_getElem?.mpr (List.getElem?_eq_getElem _)
    · simpa using hi
  · intro hi
    obtain ⟨entry, hmem, rfl⟩ := List.mem_map.mp hi
    simpa using (List.mem_filter.mp hmem).2

variable {table : CaseTable}

/-- The lowered characters of the entries with some indices. -/
lemma filter_lowered (entries : List (Char × ℕ)) (keep : ℕ → Bool) :
    ((entries.flatMap fun (ch, origIdx) => (table.toLowercase ch).map (·, origIdx)).filter
        fun entry => keep entry.2).map Prod.fst =
      table.lowerEach ((entries.filter fun entry => keep entry.2).map Prod.fst) := by
  induction entries with
  | nil => rfl
  | cons entry entries ih =>
    rw [List.flatMap_cons, List.filter_append, List.map_append, ih, List.filter_cons]
    cases hkeep : keep entry.2 with
    | true => simp [CaseTable.lowerEach, List.filter_map, Function.comp_def, hkeep]
    | false => simp [List.filter_map, Function.comp_def, hkeep]

lemma map_fst_loweredChars (haystack : Text) :
    (loweredChars table haystack).map Prod.fst = table.lowerEach haystack := by
  have h := @filter_lowered table haystack.zipIdx fun _ => true
  rwa [List.filter_true, List.filter_true, List.zipIdx_map_fst] at h

/-- Entries of some of the characters, in order, are among those of these characters alone. -/
lemma sublist_lowerEach {taken : List (Char × ℕ)} (h : taken <+ loweredChars table haystack) :
    taken.map Prod.fst <+ table.lowerEach
      ((haystack.zipIdx.filter fun entry => entry.2 ∈ taken.map Prod.snd).map Prod.fst) := by
  have hkept : taken.filter (fun entry => entry.2 ∈ taken.map Prod.snd) = taken := by
    rw [List.filter_eq_self]
    intro entry hmem
    simpa using ⟨entry.1, hmem⟩
  have hfilter := (h.filter fun entry => entry.2 ∈ taken.map Prod.snd).map Prod.fst
  rwa [hkept, loweredChars, filter_lowered _ fun i => i ∈ taken.map Prod.snd] at hfilter

lemma lt_length_of_mem_loweredChars {entry : Char × ℕ}
    (h : entry ∈ loweredChars table haystack) : entry.2 < haystack.length := by
  obtain ⟨source, hmem, hentry⟩ := List.mem_flatMap.mp h
  obtain ⟨lc, -, rfl⟩ := List.mem_map.mp hentry
  exact (List.mem_zipIdx' hmem).1

/-! ### The result -/

/-- The characters of the haystack at the indices. -/
def charsAt (haystack : Text) (indices : List ℕ) : Text := indices.filterMap (haystack[·]?)

lemma charsAt_map_snd {entries : List (Char × ℕ)} (h : entries ⊆ haystack.zipIdx) :
    charsAt haystack (entries.map Prod.snd) = entries.map Prod.fst := by
  rw [charsAt, List.filterMap_map, ← List.filterMap_eq_map]
  refine List.filterMap_congr fun entry hmem => ?_
  exact List.mem_zipIdx_iff_getElem?.mp (h hmem)

lemma map_fst_fuzzyMatch {haystack needle : Text} (hne : needle ≠ []) :
    (fuzzyMatch table haystack needle).map Prod.fst =
      (findHits 0 (loweredChars table haystack) (table.toLowercaseAfter [] needle)).map fun hits =>
        sortDedup (hits.map Prod.snd) := by
  rw [fuzzyMatch, if_neg (by simpa using hne)]
  dsimp only
  cases findHits 0 (loweredChars table haystack) (table.toLowercaseAfter [] needle) <;> rfl

lemma isSome_fuzzyMatch_iff {haystack needle : Text} (hne : needle ≠ []) :
    (fuzzyMatch table haystack needle).isSome ↔
      table.toLowercaseAfter [] needle <+ table.lowerEach haystack := by
  rw [← map_fst_loweredChars, ← isSome_findHits_iff, ← Option.isSome_map, map_fst_fuzzyMatch hne,
    Option.isSome_map]

/-- The indices point into the haystack, at characters that spell the needle in lower case. -/
theorem fuzzyMatch_indices {haystack needle : Text} {indices : List ℕ} {score : ℤ}
    (hne : needle ≠ []) (h : fuzzyMatch table haystack needle = some (indices, score)) :
    indices.Pairwise (· < ·) ∧ (∀ i ∈ indices, i < haystack.length) ∧
      table.toLowercaseAfter [] needle <+ table.lowerEach (charsAt haystack indices) := by
  have hmap := @map_fst_fuzzyMatch table haystack needle hne
  rw [h, Option.map_some, eq_comm, Option.map_eq_some_iff] at hmap
  obtain ⟨hits, hhits, hindices⟩ := hmap
  obtain ⟨taken, hsub, hneedle, horig⟩ := findHits_eq_some hhits
  rw [← horig] at hindices
  have hlt : ∀ i ∈ taken.map Prod.snd, i < haystack.length := by
    intro i hi
    obtain ⟨entry, hmem, rfl⟩ := List.mem_map.mp hi
    exact lt_length_of_mem_loweredChars (hsub.subset hmem)
  subst hindices
  refine ⟨pairwise_sortDedup _, fun i hi => hlt i (mem_sortDedup.mp hi), ?_⟩
  rw [sortDedup_eq hlt, charsAt_map_snd List.filter_sublist.subset, ← hneedle]
  exact sublist_lowerEach hsub

variable (table) in
/-- A case-insensitive test for a subsequence that tells where the subsequence is. -/
def SoundAndComplete (haystack needle : Text) : Prop :=
  ((fuzzyMatch table haystack needle).isSome ↔
      table.lowerEach needle <+ table.lowerEach haystack) ∧
    ∀ indices score, fuzzyMatch table haystack needle = some (indices, score) →
      indices.Pairwise (· < ·) ∧ (∀ i ∈ indices, i < haystack.length) ∧
        table.lowerEach needle <+ table.lowerEach (charsAt haystack indices)

/-- **Matching is sound and complete in every haystack if and only if no capital sigma of the needle
ends a word**: such a needle does not even match itself. -/
theorem forall_soundAndComplete_iff (table : CaseTable) (first : Char) (rest : Text) :
    (∀ haystack, SoundAndComplete table haystack (first :: rest)) ↔
      table.hasFinalSigmaAfter [] (first :: rest) = false := by
  have hne := List.cons_ne_nil first rest
  rw [← CaseTable.toLowercaseAfter_eq_iff]
  constructor
  · intro h
    have hself := (isSome_fuzzyMatch_iff hne).mp ((h (first :: rest)).1.mpr (List.Sublist.refl _))
    exact hself.eq_of_length (CaseTable.length_toLowercaseAfter _ _)
  · intro heq haystack
    rw [SoundAndComplete, ← heq]
    exact ⟨isSome_fuzzyMatch_iff hne, fun _ _ => fuzzyMatch_indices hne⟩

/-- What Unicode says of two Greek letters; the other characters are not letters here. -/
def greekLetters : CaseTable where
  toLowercase c := if c = 'Α' then ['α'] else if c = 'Σ' then ['σ'] else [c]
  cased c := c ∈ ['Α', 'α', 'Σ', 'σ', 'ς']
  caseIgnorable _ := false
  toLowercase_sigma := rfl

/-- A word in capitals that ends in a sigma does not match itself. -/
theorem not_soundAndComplete_capital_sigma : ¬SoundAndComplete greekLetters ['Α', 'Σ'] ['Α', 'Σ'] :=
  fun h => absurd (h.1.mpr (List.Sublist.refl _)) (by decide +kernel)

end Codex.FuzzyMatch
