import Codex.Lib.Overlap
import Mathlib.Data.List.Pairwise

/-!
# The first of several markers in a text that is still coming

`splitFirst key xs s` is the leftmost occurrence in `s` of a marker of one of the `xs`. Where no
marker occurs in another (`Separate`), it is the same whatever follows the text.
-/

namespace Codex.Lib

variable {α : Type} (key : α → Text) (xs : List α)

/-- What stands before and after the leftmost marker. -/
@[grind =] def splitFirst : Text → Option (Text × α × Text)
  | [] => none
  | c :: s =>
    match xs.find? fun x => (key x).isPrefixOf (c :: s) with
    | some x => some ([], x, (c :: s).drop (key x).length)
    | none => (splitFirst s).map fun (before, x, rest) => (c :: before, x, rest)

/-- No marker starts in `before`, if `s` follows it. -/
def NoStart (before s : Text) : Prop :=
  ∀ a b, before = a ++ b → b ≠ [] → ∀ x ∈ xs, ¬key x <+: b ++ s

/-- No marker occurs in another one. -/
def Separate : Prop := xs.Pairwise fun x y => ¬key x <:+: key y ∧ ¬key y <:+: key x

variable {key xs}

lemma NoStart.nil (s : Text) : NoStart key xs [] s := by
  intro a b hnil hb
  exact absurd (List.append_eq_nil_iff.mp hnil.symm).2 hb

lemma noStart_cons {c : Char} {before s : Text} :
    NoStart key xs (c :: before) s ↔
      (∀ x ∈ xs, ¬key x <+: c :: (before ++ s)) ∧ NoStart key xs before s := by
  constructor
  · intro h
    refine ⟨h [] (c :: before) rfl (List.cons_ne_nil _ _), ?_⟩
    intro a b hbefore hb
    exact h (c :: a) b (by rw [hbefore, List.cons_append]) hb
  · rintro ⟨hhere, hrest⟩ a b hbefore hb
    cases a with
    | nil =>
      rw [← show c :: before = b from hbefore]
      exact hhere
    | cons d a => exact hrest a b (List.cons_eq_cons.mp hbefore).2 hb

/-- Of two different markers none occurs in the other. -/
theorem Separate.eq_of_infix (h : Separate key xs) {x y : α} (hx : x ∈ xs) (hy : y ∈ xs)
    (hin : key x <:+: key y) : x = y := by
  by_contra hne
  have hsymm : Std.Symm fun x y => ¬key x <:+: key y ∧ ¬key y <:+: key x := ⟨fun _ _ h => h.symm⟩
  exact (List.Pairwise.forall h hx hy hne).1 hin

/-! ### The leftmost occurrence -/

variable {s : Text}

lemma splitFirst_cons_of_none {c : Char} (h : ∀ x ∈ xs, ¬key x <+: c :: s) :
    splitFirst key xs (c :: s) =
      (splitFirst key xs s).map fun (before, x, rest) => (c :: before, x, rest) := by
  have hnone : (xs.find? fun x => (key x).isPrefixOf (c :: s)) = none := by
    rw [List.find?_eq_none]
    intro x hx
    rw [List.isPrefixOf_iff_prefix]
    exact h x hx
  rw [splitFirst, hnone]

lemma splitFirst_append_left {before s : Text} (h : NoStart key xs before s) :
    splitFirst key xs (before ++ s) =
      (splitFirst key xs s).map fun (b, x, rest) => (before ++ b, x, rest) := by
  induction before with
  | nil => exact Option.map_id'.symm
  | cons c before ih =>
    obtain ⟨hhere, hrest⟩ := noStart_cons.mp h
    rw [List.cons_append, splitFirst_cons_of_none hhere, ih hrest, Option.map_map]
    rfl

variable {x : α}

lemma splitFirst_eq_some {s before rest : Text} (h : splitFirst key xs s = some (before, x, rest)) :
    x ∈ xs ∧ s = before ++ (key x ++ rest) ∧ NoStart key xs before (key x ++ rest) := by
  induction s generalizing before with
  | nil => cases h
  | cons c s ih =>
    rw [splitFirst] at h
    cases hfind : xs.find? fun x => (key x).isPrefixOf (c :: s) with
    | some y =>
      rw [hfind] at h
      obtain ⟨rfl, hrest⟩ := Prod.mk.inj (Option.some.inj h)
      cases hrest
      have hinit :=
        List.isPrefixOf_iff_prefix.mp (List.find?_some (p := fun x => (key x).isPrefixOf _) hfind)
      exact ⟨List.mem_of_find?_eq_some hfind, (List.prefix_iff_eq_append.mp hinit).symm,
        NoStart.nil _⟩
    | none =>
      rw [hfind] at h
      obtain ⟨⟨b, y, r⟩, hsplit, hpair⟩ := Option.map_eq_some_iff.mp h
      obtain ⟨rfl, hrest⟩ := Prod.mk.inj hpair
      cases hrest
      obtain ⟨hmem, hs, hstart⟩ := ih hsplit
      refine ⟨hmem, by rw [hs]; rfl, noStart_cons.mpr ⟨?_, hstart⟩⟩
      intro z hz hinit
      rw [← hs, ← List.isPrefixOf_iff_prefix] at hinit
      exact List.find?_eq_none.mp hfind z hz hinit

lemma splitFirst_eq_none (hne : ∀ x ∈ xs, key x ≠ [])
    (h : splitFirst key xs s = none) (hx : x ∈ xs) : ¬key x <:+: s := by
  induction s with
  | nil => exact fun hinfix => hne x hx (List.infix_nil.mp hinfix)
  | cons c s ih =>
    rw [splitFirst] at h
    cases hfind : xs.find? fun x => (key x).isPrefixOf (c :: s) with
    | some y =>
      simp [hfind] at h
    | none =>
      rw [hfind, Option.map_eq_none_iff] at h
      intro hinfix
      rcases List.infix_cons_iff.mp hinfix with hinit | hinfix
      · exact List.find?_eq_none.mp hfind x hx (List.isPrefixOf_iff_prefix.mpr hinit)
      · exact ih h hinfix

/-- **The leftmost occurrence is found**, as only one marker can stand there. -/
theorem splitFirst_of_first (hsep : Separate key xs) {before rest : Text} (hx : x ∈ xs)
    (hne : key x ≠ []) (h : NoStart key xs before (key x ++ rest)) :
    splitFirst key xs (before ++ (key x ++ rest)) = some (before, x, rest) := by
  have hhere : splitFirst key xs (key x ++ rest) = some ([], x, rest) := by
    obtain ⟨c, s, hkey⟩ := List.exists_cons_of_ne_nil hne
    rw [hkey, List.cons_append, splitFirst]
    cases hfind : xs.find? fun x => (key x).isPrefixOf (c :: (s ++ rest)) with
    | none =>
      have hinit := List.find?_eq_none.mp hfind x hx
      rw [List.isPrefixOf_iff_prefix, hkey] at hinit
      exact absurd ⟨rest, rfl⟩ hinit
    | some y =>
      have hy := List.mem_of_find?_eq_some hfind
      have hinit :=
        List.isPrefixOf_iff_prefix.mp (List.find?_some (p := fun x => (key x).isPrefixOf _) hfind)
      have hboth : key x <+: c :: (s ++ rest) := ⟨rest, by rw [hkey]; rfl⟩
      have hxy : x = y := by
        rcases List.prefix_or_prefix_of_prefix hinit hboth with hyx | hxy
        · exact (hsep.eq_of_infix hy hx hyx.isInfix).symm
        · exact hsep.eq_of_infix hx hy hxy.isInfix
      subst hxy
      dsimp only
      rw [← List.cons_append, ← hkey, List.drop_left]
  rw [splitFirst_append_left h, hhere, Option.map_some]
  dsimp only
  rw [List.append_nil]

/-! ### More text -/

/-- **A first occurrence stays the first one.** -/
theorem splitFirst_append_of_some (hsep : Separate key xs) (hne : ∀ x ∈ xs, key x ≠ [])
    {s before rest : Text} (h : splitFirst key xs s = some (before, x, rest)) (t : Text) :
    splitFirst key xs (s ++ t) = some (before, x, rest ++ t) := by
  obtain ⟨hx, hs, hstart⟩ := splitFirst_eq_some h
  rw [hs, List.append_assoc, List.append_assoc]
  apply splitFirst_of_first hsep hx (hne x hx)
  intro a b hbefore hb y hy hinit
  have hwhole : b ++ (key x ++ rest) <+: b ++ (key x ++ (rest ++ t)) := by
    exact ⟨t, by simp only [List.append_assoc]⟩
  rcases List.prefix_or_prefix_of_prefix hinit hwhole with hinside | hcovers
  · exact hstart a b hbefore hb y hy hinside
  · -- the earlier marker would contain the one that was found
    have hinfix : key x <:+: key y := by
      refine List.IsInfix.trans ?_ hcovers.isInfix
      exact ⟨b, rest, List.append_assoc _ _ _⟩
    obtain rfl := hsep.eq_of_infix hx hy hinfix
    have hlen := hcovers.length_le
    have hpos := List.length_pos_of_ne_nil hb
    rw [List.length_append, List.length_append] at hlen
    omega

/-- No occurrence starts before an end of the text that is at least as long as every overlap. -/
theorem noStart_take {keep : ℕ} (hnone : ∀ x ∈ xs, ¬key x <:+: s)
    (hkeep : ∀ x ∈ xs, overlapLen s (key x) ≤ keep) (t : Text) :
    NoStart key xs (s.take (s.length - keep)) (s.drop (s.length - keep) ++ t) := by
  intro a b hbefore hb x hx hinit
  have hlen : (s.take (s.length - keep)).length = s.length - keep := by
    rw [List.length_take]
    omega
  have hs : s = a ++ (b ++ s.drop (s.length - keep)) := by
    rw [← List.append_assoc, ← hbefore, List.take_append_drop]
  have hsuffix : b ++ s.drop (s.length - keep) <:+ s := ⟨a, hs.symm⟩
  have hwhole : b ++ s.drop (s.length - keep) <+: b ++ (s.drop (s.length - keep) ++ t) := by
    rw [← List.append_assoc]
    exact List.prefix_append _ _
  by_cases hlt : (b ++ s.drop (s.length - keep)).length < (key x).length
  · -- the marker would start with a longer end of the text than its overlap
    have hstart := List.prefix_of_prefix_length_le hwhole hinit hlt.le
    have hle := length_le_overlapLen hsuffix hstart hlt
    have hpos := List.length_pos_of_ne_nil hb
    have hoverlap := overlapLen_le s (key x)
    have hkept := hkeep x hx
    rw [hbefore, List.length_append] at hlen
    rw [List.length_append, List.length_drop] at hle
    omega
  · have hinside := List.prefix_of_prefix_length_le hinit hwhole (Nat.le_of_not_lt hlt)
    exact hnone x hx (hinside.isInfix.trans hsuffix.isInfix)

/-- **Later occurrences are found in an end of the text** that is at least as long as every
overlap. -/
theorem splitFirst_append_of_none {keep : ℕ} (hnone : ∀ x ∈ xs, ¬key x <:+: s)
    (hkeep : ∀ x ∈ xs, overlapLen s (key x) ≤ keep) (t : Text) :
    splitFirst key xs (s ++ t) = (splitFirst key xs (s.drop (s.length - keep) ++ t)).map
      fun (before, x, rest) => (s.take (s.length - keep) ++ before, x, rest) := by
  conv_lhs => rw [← List.take_append_drop (s.length - keep) s, List.append_assoc]
  exact splitFirst_append_left (noStart_take hnone hkeep t)

/-! ### The end that is kept -/

/-- The length of the longest overlap with a marker. -/
def keepLen (key : α → Text) (xs : List α) (s : Text) : ℕ :=
  (xs.map fun x => overlapLen s (key x)).foldl max 0

lemma foldl_max_le_iff {l : List ℕ} {a n : ℕ} : l.foldl max a ≤ n ↔ a ≤ n ∧ ∀ m ∈ l, m ≤ n := by
  induction l generalizing a with
  | nil => exact ⟨fun h => ⟨h, nofun⟩, And.left⟩
  | cons m l ih => rw [List.foldl_cons, ih, Nat.max_le, List.forall_mem_cons, and_assoc]

lemma overlapLen_le_keepLen (s : Text) (hx : x ∈ xs) : overlapLen s (key x) ≤ keepLen key xs s :=
  (foldl_max_le_iff.mp le_rfl).2 _ (List.mem_map_of_mem hx)

lemma keepLen_le (s : Text) : keepLen key xs s ≤ s.length := by
  refine foldl_max_le_iff.mpr ⟨Nat.zero_le _, ?_⟩
  intro n hn
  obtain ⟨x, -, rfl⟩ := List.mem_map.mp hn
  exact overlapLen_le s (key x)

lemma overlapLen_drop {s m : Text} {keep : ℕ} (h : overlapLen s m ≤ keep) (hm : m ≠ []) :
    overlapLen (s.drop (s.length - keep)) m = overlapLen s m := by
  apply le_antisymm
  · rw [← length_overlap (s.drop (s.length - keep)) m]
    apply length_le_overlapLen ((overlap_suffix _ m).trans (List.drop_suffix _ _))
    · exact List.take_prefix _ _
    · rw [length_overlap]
      exact overlapLen_lt hm _
  · rw [← length_overlap s m]
    apply length_le_overlapLen
    · apply List.suffix_of_suffix_length_le (overlap_suffix s m) (List.drop_suffix _ _)
      have hle := overlapLen_le s m
      rw [length_overlap, List.length_drop]
      omega
    · exact List.take_prefix _ _
    · rw [length_overlap]
      exact overlapLen_lt hm _

/-- What is kept of a longer text is kept of the end that was kept and what follows. -/
theorem keepLen_append (hne : ∀ x ∈ xs, key x ≠ []) (s t : Text) :
    keepLen key xs (s ++ t) = keepLen key xs (s.drop (s.length - keepLen key xs s) ++ t) := by
  unfold keepLen
  congr 1
  apply List.map_congr_left
  intro x hx
  have hdrop := overlapLen_drop (overlapLen_le_keepLen s hx) (hne x hx)
  rw [overlapLen_append (hne x hx) s t, overlapLen_append (hne x hx) (s.drop _) t]
  unfold overlap
  rw [← hdrop]
  rfl

lemma keep_append (hne : ∀ x ∈ xs, key x ≠ []) (s t : Text) :
    (s ++ t).take ((s ++ t).length - keepLen key xs (s ++ t)) =
        s.take (s.length - keepLen key xs s) ++
          (s.drop (s.length - keepLen key xs s) ++ t).take
            ((s.drop (s.length - keepLen key xs s) ++ t).length -
              keepLen key xs (s.drop (s.length - keepLen key xs s) ++ t)) ∧
      (s ++ t).drop ((s ++ t).length - keepLen key xs (s ++ t)) =
        (s.drop (s.length - keepLen key xs s) ++ t).drop
          ((s.drop (s.length - keepLen key xs s) ++ t).length -
            keepLen key xs (s.drop (s.length - keepLen key xs s) ++ t)) := by
  rw [keepLen_append hne s t]
  have hle : keepLen key xs (s.drop (s.length - keepLen key xs s) ++ t) ≤
      (s.drop (s.length - keepLen key xs s) ++ t).length := keepLen_le _
  have hs : s ++ t = s.take (s.length - keepLen key xs s) ++
      (s.drop (s.length - keepLen key xs s) ++ t) := by
    rw [← List.append_assoc, List.take_append_drop]
  generalize keepLen key xs (s.drop (s.length - keepLen key xs s) ++ t) = keep at hle ⊢
  rw [hs]
  refine ⟨List.rdrop_append_of_le_length keep hle, ?_⟩
  rw [List.length_append, Nat.add_sub_assoc hle, ← List.drop_drop, List.drop_left]

end Codex.Lib
