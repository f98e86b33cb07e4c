import Codex.ApplyPatch.Replacements
import Mathlib.Order.Bounds.Basic

/-!
# What finding lines promises

The doc comment of `seek_sequence`: passes of decreasing strictness, each for the first match at or
after `start`; with `eof` the end of the file is tried first, with a fallback to the search from
`start`.
-/

namespace Codex.ApplyPatch

open Codex.Lib

variable {view : Text → Text} {ls pattern : List Text} {start : ℕ}

/-! ### Specification -/

/-- The pattern matches the lines from `i` on, both sides seen through `view`. -/
def MatchesAt (view : Text → Text) (ls pattern : List Text) (i : ℕ) : Prop :=
  ∀ k < pattern.length, (ls[i + k]?).map view = (pattern[k]?).map view

instance (view : Text → Text) (ls pattern : List Text) (i : ℕ) :
    Decidable (MatchesAt view ls pattern i) :=
  inferInstanceAs (Decidable (∀ k < _, _))

/-- What the passes compare, from the strictest on. -/
def seekViews : List (Text → Text) := [id, trimEnd, trim, normalise]

/-- The least match at or after `start` of the strictest pass that has one, or no pass has one. -/
def FoundFrom (views : List (Text → Text)) (ls pattern : List Text) (start : ℕ) :
    Option ℕ → Prop
  | some i => ∃ stricter view weaker, views = stricter ++ view :: weaker ∧
      (∀ v ∈ stricter, ∀ j ≥ start, ¬ MatchesAt v ls pattern j) ∧
      IsLeast {j | start ≤ j ∧ MatchesAt view ls pattern j} i
  | none => ∀ v ∈ views, ∀ j ≥ start, ¬ MatchesAt v ls pattern j

/-- The strictest least match is one place. -/
theorem FoundFrom.unique {views : List (Text → Text)} {found found' : Option ℕ}
    (h : FoundFrom views ls pattern start found) (h' : FoundFrom views ls pattern start found') :
    found = found' := by
  cases found with
  | none =>
    cases found' with
    | none => rfl
    | some i =>
      obtain ⟨stricter, view, weaker, rfl, -, ⟨hi, hmatch⟩, -⟩ := h'
      exact absurd hmatch (h view (by simp) i hi)
  | some i =>
    obtain ⟨stricter, view, weaker, hviews, hnone, hleast⟩ := h
    cases found' with
    | none => exact absurd hleast.1.2 (h' view (by simp [hviews]) i hleast.1.1)
    | some j =>
      obtain ⟨stricter', view', weaker', hviews', hnone', hleast'⟩ := h'
      have hview : view = view' := by
        rcases List.append_eq_append_iff.mp (hviews.symm.trans hviews') with
          ⟨between, rfl, heq⟩ | ⟨between, rfl, heq⟩
        · cases between with
          | nil => exact (List.cons.inj heq).1
          | cons v between =>
            obtain rfl := (List.cons.inj heq).1
            exact absurd hleast.1.2 (hnone' view (by simp) i hleast.1.1)
        · cases between with
          | nil => exact (List.cons.inj heq).1.symm
          | cons v between =>
            obtain rfl := (List.cons.inj heq).1
            exact absurd hleast'.1.2 (hnone view' (by simp) j hleast'.1.1)
      subst hview
      rw [hleast.unique hleast']

/-- The pattern matches the last lines of the file, in some pass. -/
def MatchesAtEnd (ls pattern : List Text) : Prop :=
  ∃ view ∈ seekViews, MatchesAt view ls pattern (ls.length - pattern.length)

instance (ls pattern : List Text) : Decidable (MatchesAtEnd ls pattern) :=
  inferInstanceAs (Decidable (∃ view ∈ seekViews, _))

/-- The doc comment of `seek_sequence`. An empty pattern is found at `start`; with `eof` the
end of the file comes first. -/
def MeetsDoc (ls pattern : List Text) (start : ℕ) (eof : Bool) (found : Option ℕ) : Prop :=
  if pattern = [] then found = some start
  else if eof = true ∧ MatchesAtEnd ls pattern then found = some (ls.length - pattern.length)
  else FoundFrom seekViews ls pattern start found

/-! ### One pass -/

lemma MatchesAt.bounded {i : ℕ} (hne : pattern ≠ []) (h : MatchesAt view ls pattern i) :
    i + pattern.length ≤ ls.length := by
  have hpos : 0 < pattern.length := List.length_pos_iff.mpr hne
  have hlast := h (pattern.length - 1) (by omega)
  rw [List.getElem?_eq_getElem (l := pattern) (by omega)] at hlast
  have hsome : (ls[i + (pattern.length - 1)]?).isSome := by
    rw [← Option.isSome_map (f := view), hlast]
    rfl
  have hlt : i + (pattern.length - 1) < ls.length := by simpa using hsome
  omega

lemma matchesAt_iff {i : ℕ} :
    ((ls.drop i).take pattern.length).map view = pattern.map view ↔
      MatchesAt view ls pattern i := by
  constructor
  · intro h k hk
    have hk' := congrArg (·[k]?) h
    simpa [List.getElem?_take, hk] using hk'
  · intro h
    apply List.ext_getElem?
    intro k
    by_cases hk : k < pattern.length
    · simpa [List.getElem?_take, hk] using h k hk
    · rw [List.getElem?_eq_none (by simpa using by omega),
        List.getElem?_eq_none (by simpa using hk)]

/-- **One pass**: the least match from its start on, if there is one. -/
theorem seekPass_spec (hne : pattern ≠ []) (hle : pattern.length ≤ ls.length) :
    FoundFrom [view] ls pattern start (seekPass view ls pattern start) := by
  have hmem : ∀ j, j ∈ List.range' start (ls.length - pattern.length + 1 - start) ↔
      start ≤ j ∧ j + pattern.length ≤ ls.length := by
    intro j
    rw [List.mem_range'_1]
    omega
  cases hfind : seekPass view ls pattern start with
  | none =>
    intro v hv j hj hmatch
    have hbound := hmatch.bounded hne
    have hnot := List.find?_eq_none.mp hfind j ((hmem j).mpr ⟨hj, hbound⟩)
    rw [List.mem_singleton.mp hv] at hmatch
    exact hnot (by simpa using matchesAt_iff.mpr hmatch)
  | some i =>
    have hrange := (hmem i).mp (List.mem_of_find?_eq_some hfind)
    have hmatch : MatchesAt view ls pattern i :=
      matchesAt_iff.mp (by simpa using List.find?_some hfind)
    refine ⟨[], view, [], rfl, by simp, ⟨hrange.1, hmatch⟩, ?_⟩
    rintro j ⟨hj, hmatchj⟩
    by_contra hlt
    have hbound := hmatchj.bounded hne
    have hbefore := List.find?_range'_eq_some.mp hfind
    have hnot := hbefore.2.2 j hj (by omega)
    simp only [Bool.not_eq_true', beq_eq_false_iff_ne, ne_eq] at hnot
    exact hnot (matchesAt_iff.mpr hmatchj)

/-- **The passes in turn.** -/
theorem FoundFrom.cons {views : List (Text → Text)} {found rest : Option ℕ}
    (hfound : FoundFrom [view] ls pattern start found)
    (hrest : FoundFrom views ls pattern start rest) :
    FoundFrom (view :: views) ls pattern start (found.or rest) := by
  cases found with
  | some i =>
    obtain ⟨stricter, v, weaker, hviews, hnone, hleast⟩ := hfound
    obtain ⟨rfl, rfl, rfl⟩ : stricter = [] ∧ v = view ∧ weaker = [] := by
      cases stricter with
      | nil => simpa [eq_comm] using hviews
      | cons s stricter => simp at hviews
    exact ⟨[], _, views, rfl, by simp, hleast⟩
  | none =>
    have hnot : ∀ j ≥ start, ¬ MatchesAt view ls pattern j := hfound view (by simp)
    cases rest with
    | some i =>
      obtain ⟨stricter, v, weaker, rfl, hnone, hleast⟩ := hrest
      refine ⟨view :: stricter, v, weaker, rfl, ?_, hleast⟩
      intro u hu
      rcases List.mem_cons.mp hu with rfl | hu
      · exact hnot
      · exact hnone u hu
    | none =>
      intro u hu
      rcases List.mem_cons.mp hu with rfl | hu
      · exact hnot
      · exact hrest u hu

lemma foundFrom_seekPasses (hne : pattern ≠ []) (hle : pattern.length ≤ ls.length) :
    FoundFrom seekViews ls pattern start
      ((seekPass id ls pattern start).or <| (seekPass trimEnd ls pattern start).or <|
        (seekPass trim ls pattern start).or <| seekPass normalise ls pattern start) := by
  refine FoundFrom.cons (seekPass_spec hne hle) ?_
  refine FoundFrom.cons (seekPass_spec hne hle) ?_
  exact FoundFrom.cons (seekPass_spec hne hle) (seekPass_spec hne hle)

/-! ### The search -/

/-- What `seek_sequence` finds: `start` for an empty pattern, else the strictest least match from
`start` on, or from the end of the file on. -/
theorem seekSequence_spec (hne : pattern ≠ []) (eof : Bool) :
    FoundFrom seekViews ls pattern (if eof then ls.length - pattern.length else start)
      (seekSequence ls pattern start eof) := by
  have hempty : ¬ pattern.isEmpty = true := by simpa using hne
  unfold seekSequence
  rw [if_neg hempty]
  by_cases hlong : ls.length < pattern.length
  · rw [if_pos hlong]
    intro v _ j _ hmatch
    have hbound := hmatch.bounded hne
    omega
  · rw [if_neg hlong]
    have hle : pattern.length ≤ ls.length := by omega
    have hstart : (if eof && decide (pattern.length ≤ ls.length) then ls.length - pattern.length
        else start) = if eof then ls.length - pattern.length else start := by simp [hle]
    simp only [hstart]
    exact foundFrom_seekPasses hne hle

/-- A match from the end of the file on is a match at the end of the file. -/
theorem MatchesAt.eq_end {i : ℕ} (hne : pattern ≠ []) (h : MatchesAt view ls pattern i)
    (hi : ls.length - pattern.length ≤ i) : i = ls.length - pattern.length := by
  have hbound := h.bounded hne
  omega

/-- **The doc comment holds exactly where the fallback is not needed**: without `eof`, for an empty
pattern, where the pattern matches at the end of the file, or where it matches nowhere from `start`
on. -/
theorem seekSequence_meets_iff (ls pattern : List Text) (start : ℕ) (eof : Bool) :
    MeetsDoc ls pattern start eof (seekSequence ls pattern start eof) ↔
      eof = false ∨ pattern = [] ∨ MatchesAtEnd ls pattern ∨
        ∀ view ∈ seekViews, ∀ i ≥ start, ¬ MatchesAt view ls pattern i := by
  by_cases hne : pattern = []
  · subst hne
    simp [MeetsDoc, seekSequence]
  have hspec : FoundFrom seekViews ls pattern (if eof then ls.length - pattern.length else start)
      (seekSequence ls pattern start eof) := seekSequence_spec hne eof
  unfold MeetsDoc
  rw [if_neg hne]
  cases eof with
  | false =>
    simp only [Bool.false_eq_true, false_and, if_false] at hspec ⊢
    simpa using hspec
  | true =>
    simp only [if_true, true_and] at hspec ⊢
    cases hfound : seekSequence ls pattern start true with
    | some i =>
      rw [hfound] at hspec
      obtain ⟨stricter, view, weaker, hviews, -, ⟨hi, hmatch⟩, -⟩ := hspec
      have hend := hmatch.eq_end hne hi
      have hat : MatchesAtEnd ls pattern := ⟨view, by simp [hviews], hend ▸ hmatch⟩
      simp [hat, hend]
    | none =>
      rw [hfound] at hspec
      have hnot : ¬ MatchesAtEnd ls pattern := by
        rintro ⟨view, hview, hmatch⟩
        exact hspec view hview _ le_rfl hmatch
      simp only [hne, hnot, Bool.true_eq_false, false_or]
      rfl

/-- With `eof`, a match before the end of the file is not found. -/
theorem seekSequence_noFallback :
    seekSequence ["a".toList, "b".toList] ["a".toList] 0 true = none ∧
      ¬ MeetsDoc ["a".toList, "b".toList] ["a".toList] 0 true
        (seekSequence ["a".toList, "b".toList] ["a".toList] 0 true) := by
  refine ⟨by decide, ?_⟩
  intro h
  have hnone : seekSequence ["a".toList, "b".toList] ["a".toList] 0 true = none := by decide
  rw [hnone, MeetsDoc, if_neg (by decide), if_neg (by decide)] at h
  exact h id (by simp [seekViews]) 0 le_rfl (by decide)

end Codex.ApplyPatch
