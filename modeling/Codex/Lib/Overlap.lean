import Codex.Lib.Text
import Mathlib.Data.Nat.Find

/-!
# Looking for a marker in a text that is still coming

A text in which a marker does not occur may end in a part of it. `overlapLen s m` is the length of
the longest end of `s` that starts `m` without being `m`; only this end has to be kept to find every
occurrence of `m` in what is still to come.
-/

namespace Codex.Lib

/-- The length of the longest proper start of `m` that `s` ends in. -/
def overlapLen (s m : Text) : ℕ :=
  Nat.findGreatest (fun k => m.take k <:+ s) (min s.length (m.length - 1))

/-- The end of `s` that may be the start of `m`. -/
def overlap (s m : Text) : Text := m.take (overlapLen s m)

variable (s m : Text)

lemma overlapLen_le : overlapLen s m ≤ s.length :=
  (Nat.findGreatest_le _).trans (Nat.min_le_left _ _)

lemma overlapLen_lt {m : Text} (hm : m ≠ []) (s : Text) : overlapLen s m < m.length := by
  have hle : overlapLen s m ≤ m.length - 1 := (Nat.findGreatest_le _).trans (Nat.min_le_right _ _)
  have hpos := List.length_pos_of_ne_nil hm
  omega

lemma overlap_suffix : overlap s m <:+ s := by
  by_cases hzero : overlapLen s m = 0
  · rw [overlap, hzero, List.take_zero]
    exact List.nil_suffix
  · exact Nat.findGreatest_of_ne_zero rfl hzero

lemma length_overlap : (overlap s m).length = overlapLen s m := by
  have hle : overlapLen s m ≤ m.length - 1 := (Nat.findGreatest_le _).trans (Nat.min_le_right _ _)
  rw [overlap, List.length_take]
  omega

/-- No longer proper start of `m` stands at the end of `s`. -/
theorem length_le_overlapLen {s m t : Text} (hsuffix : t <:+ s) (hinit : t <+: m)
    (hlt : t.length < m.length) : t.length ≤ overlapLen s m := by
  have htake : t = m.take t.length := List.prefix_iff_eq_take.mp hinit
  have hle : t.length ≤ min s.length (m.length - 1) := le_min hsuffix.length_le (by omega)
  exact Nat.le_findGreatest hle (htake ▸ hsuffix)

/-- What stands before the overlap. -/
def beforeOverlap (s m : Text) : Text := s.take (s.length - overlapLen s m)

lemma drop_overlap : s.drop (s.length - overlapLen s m) = overlap s m := by
  have hsuffix := List.suffix_iff_eq_drop.mp (overlap_suffix s m)
  rw [length_overlap] at hsuffix
  exact hsuffix.symm

lemma beforeOverlap_append : beforeOverlap s m ++ overlap s m = s := by
  rw [beforeOverlap, ← drop_overlap, List.take_append_drop]

/-! ### Occurrences -/

lemma not_infix_of_splitOnce {m s : Text} (h : splitOnce m s = none) : ¬m <:+: s := by
  induction s with
  | nil =>
    rintro hinfix
    simp [splitOnce, if_pos (List.infix_nil.mp hinfix)] at h
  | cons c s ih =>
    rw [splitOnce] at h
    cases hstrip : stripPrefix m (c :: s) with
    | some rest =>
      simp [hstrip] at h
    | none =>
      rw [hstrip, Option.map_eq_none_iff] at h
      intro hinfix
      rcases List.infix_cons_iff.mp hinfix with hinit | hinfix
      · exact stripPrefix_eq_none.mp hstrip hinit
      · exact ih h hinfix

/-- A text without an occurrence that starts in it is skipped. -/
theorem splitOnce_append_left {m before s : Text}
    (h : ∀ a b, before = a ++ b → b ≠ [] → ¬m <+: b ++ s) :
    splitOnce m (before ++ s) = (splitOnce m s).map fun (x, rest) => (before ++ x, rest) := by
  induction before with
  | nil =>
    rw [List.nil_append]
    exact Option.map_id'.symm
  | cons c before ih =>
    have hstrip : stripPrefix m (c :: (before ++ s)) = none :=
      stripPrefix_eq_none.mpr (h [] (c :: before) rfl (List.cons_ne_nil _ _))
    have hrest := ih fun a b hbefore => h (c :: a) b (by rw [hbefore, List.cons_append])
    rw [List.cons_append, splitOnce, hstrip, hrest, Option.map_map]
    rfl

lemma splitOnce_append_of_some {m s before rest : Text}
    (h : splitOnce m s = some (before, rest)) (t : Text) :
    splitOnce m (s ++ t) = some (before, rest ++ t) := by
  induction s generalizing before with
  | nil =>
    rw [splitOnce] at h
    split_ifs at h with hm
    rw [Option.some.injEq, Prod.mk.injEq] at h
    obtain ⟨rfl, rfl⟩ := h
    rw [hm]
    cases t <;> rfl
  | cons c s ih =>
    rw [splitOnce] at h
    rw [List.cons_append, splitOnce]
    cases hstrip : stripPrefix m (c :: s) with
    | some rest' =>
      rw [hstrip, Option.some.injEq, Prod.mk.injEq] at h
      obtain ⟨rfl, rfl⟩ := h
      have hfull : stripPrefix m (c :: (s ++ t)) = some (rest' ++ t) := by
        rw [stripPrefix_eq_some, ← List.append_assoc, ← stripPrefix_eq_some.mp hstrip]
        rfl
      rw [hfull]
    | none =>
      rw [hstrip, Option.map_eq_some_iff] at h
      obtain ⟨⟨before', rest'⟩, hsplit, hpair⟩ := h
      cases hpair
      -- The marker is no longer than what was searched already.
      have hlength : m.length ≤ (c :: s).length := by
        rw [splitOnce_eq_some hsplit]
        simp only [List.length_cons, List.length_append]
        omega
      have hfull : stripPrefix m (c :: (s ++ t)) = none := by
        rw [stripPrefix_eq_none] at hstrip ⊢
        exact fun hinit => hstrip
          (List.prefix_of_prefix_length_le hinit (List.prefix_append (c :: s) t) hlength)
      rw [hfull, ih hsplit]
      rfl

/-! ### What the overlap keeps -/

/-- No occurrence starts before the overlap, whatever follows. -/
theorem not_prefix_of_splitOnce {m s : Text} (h : splitOnce m s = none) (t : Text)
    {a b : Text} (hbefore : beforeOverlap s m = a ++ b) (hne : b ≠ []) :
    ¬m <+: b ++ (overlap s m ++ t) := by
  intro hinit
  have hs : s = a ++ (b ++ overlap s m) := by
    conv_lhs => rw [← beforeOverlap_append s m, hbefore, List.append_assoc]
  have hsuffix : b ++ overlap s m <:+ s := ⟨a, hs.symm⟩
  have hwhole : b ++ overlap s m <+: b ++ (overlap s m ++ t) := by
    rw [← List.append_assoc]
    exact List.prefix_append _ _
  by_cases hlt : (b ++ overlap s m).length < m.length
  · -- The marker would start with a longer end of the text than the overlap.
    have hstart := List.prefix_of_prefix_length_le hwhole hinit hlt.le
    have hle := length_le_overlapLen hsuffix hstart hlt
    have hpos := List.length_pos_of_ne_nil hne
    rw [List.length_append, length_overlap] at hle
    omega
  · -- The marker would occur in the text.
    have hinside := List.prefix_of_prefix_length_le hinit hwhole (Nat.le_of_not_lt hlt)
    exact not_infix_of_splitOnce h (hinside.isInfix.trans hsuffix.isInfix)

/-- Later occurrences are found without what stands before the overlap. -/
theorem splitOnce_append_of_none {m s : Text} (h : splitOnce m s = none) (t : Text) :
    splitOnce m (s ++ t) = (splitOnce m (overlap s m ++ t)).map fun (before, rest) =>
      (beforeOverlap s m ++ before, rest) := by
  conv_lhs => rw [← beforeOverlap_append s m, List.append_assoc]
  apply splitOnce_append_left
  intro a b hbefore hne
  exact not_prefix_of_splitOnce h t hbefore hne

/-- Later overlaps lie behind what stands before the overlap. -/
theorem overlapLen_append {m : Text} (hm : m ≠ []) (s t : Text) :
    overlapLen (s ++ t) m = overlapLen (overlap s m ++ t) m := by
  have hsuffix : overlap s m ++ t <:+ s ++ t := by
    obtain ⟨before, hbefore⟩ := overlap_suffix s m
    exact ⟨before, by rw [← List.append_assoc, hbefore]⟩
  apply le_antisymm
  · rw [← length_overlap (s ++ t) m]
    apply length_le_overlapLen
    · by_cases hle : (overlap (s ++ t) m).length ≤ (overlap s m ++ t).length
      · exact List.suffix_of_suffix_length_le (overlap_suffix _ m) hsuffix hle
      · -- A longer overlap would have an end of the first text before it.
        exfalso
        have hlong : t <:+ overlap (s ++ t) m := by
          apply List.suffix_of_suffix_length_le (List.suffix_append s t) (overlap_suffix _ m)
          rw [List.length_append] at hle
          omega
        obtain ⟨u, hu⟩ := hlong
        have hend : u <:+ s := by
          have hboth := overlap_suffix (s ++ t) m
          rw [← hu] at hboth
          exact List.suffix_append_self_iff.mp hboth
        have hstart : u <+: m := by
          have hboth : overlap (s ++ t) m <+: m := List.take_prefix _ _
          rw [← hu] at hboth
          exact (List.prefix_append u t).trans hboth
        have hshorter := congrArg List.length hu
        have hlt := overlapLen_lt hm (s ++ t)
        rw [List.length_append, length_overlap] at hshorter
        rw [List.length_append, length_overlap, length_overlap] at hle
        have hmax := length_le_overlapLen hend hstart (by omega)
        omega
    · exact List.take_prefix _ _
    · rw [length_overlap]
      exact overlapLen_lt hm _
  · rw [← length_overlap (overlap s m ++ t) m]
    apply length_le_overlapLen
    · exact (overlap_suffix _ m).trans hsuffix
    · exact List.take_prefix _ _
    · rw [length_overlap]
      exact overlapLen_lt hm _

lemma overlap_append {m : Text} (hm : m ≠ []) (s t : Text) :
    overlap (s ++ t) m = overlap (overlap s m ++ t) m := by
  rw [overlap, overlapLen_append hm]
  rfl

lemma beforeOverlap_append_text {m : Text} (hm : m ≠ []) (s t : Text) :
    beforeOverlap (s ++ t) m = beforeOverlap s m ++ beforeOverlap (overlap s m ++ t) m := by
  refine List.append_cancel_right (?_ : _ ++ overlap (s ++ t) m = _)
  rw [beforeOverlap_append, List.append_assoc, overlap_append hm, beforeOverlap_append,
    ← List.append_assoc, beforeOverlap_append]

end Codex.Lib
