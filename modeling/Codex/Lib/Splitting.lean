import Mathlib.Data.List.Basic

/-!
# Splitting at separators

`splitOnP` cuts a list at every element that satisfies `p`, which are left out.
-/

namespace Codex.Lib

variable {α : Type} {p : α → Bool}

/-- The pieces are made of the elements that are no separators. -/
theorem of_mem_splitOnP {xs piece : List α} (h : piece ∈ xs.splitOnP p) :
    ∀ x ∈ piece, p x = false ∧ x ∈ xs := by
  induction xs generalizing piece with
  | nil =>
    rw [List.splitOnP_nil, List.mem_singleton] at h
    rw [h]
    exact fun _ hx => absurd hx List.not_mem_nil
  | cons y xs ih =>
    have hlater : ∀ {piece : List α}, (∀ x ∈ piece, p x = false ∧ x ∈ xs) →
        ∀ x ∈ piece, p x = false ∧ x ∈ y :: xs :=
      fun h x hx => ⟨(h x hx).1, List.mem_cons_of_mem _ (h x hx).2⟩
    rw [List.splitOnP_cons_eq_if_modifyHead] at h
    split_ifs at h with hy
    · rcases List.mem_cons.mp h with rfl | h
      · exact fun _ hx => absurd hx List.not_mem_nil
      · exact hlater (ih h)
    · cases hs : xs.splitOnP p with
      | nil => exact absurd hs (List.splitOnP_ne_nil p xs)
      | cons first rest =>
        rw [hs, List.modifyHead_cons] at h
        rw [hs] at ih
        rcases List.mem_cons.mp h with rfl | h
        · refine List.forall_mem_cons.mpr
            ⟨⟨Bool.eq_false_iff.mpr hy, List.mem_cons_self⟩, hlater (ih List.mem_cons_self)⟩
        · exact hlater (ih (List.mem_cons_of_mem _ h))

lemma eq_false_of_mem_splitOnP {xs piece : List α} (h : piece ∈ xs.splitOnP p) :
    ∀ x ∈ piece, p x = false := fun x hx => (of_mem_splitOnP h x hx).1

lemma mem_of_mem_splitOnP {xs piece : List α} (h : piece ∈ xs.splitOnP p) {x : α}
    (hx : x ∈ piece) : x ∈ xs := (of_mem_splitOnP h x hx).2

/-- A separator that is written as another one cuts at the same places. -/
theorem splitOnP_map {q : α → Bool} {f : α → α} (h : ∀ x, q (f x) = p x) (xs : List α) :
    (xs.map f).splitOnP q = (xs.splitOnP p).map (List.map f) := by
  induction xs with
  | nil => rfl
  | cons x xs ih =>
    rw [List.map_cons, List.splitOnP_cons_eq_if_modifyHead, List.splitOnP_cons_eq_if_modifyHead,
      h, ih]
    split_ifs
    · rfl
    · cases xs.splitOnP p <;> rfl

/-- Pieces that are each put after a separator are cut again. -/
theorem splitOnP_append_flatMap {sep : α} (hsep : p sep = true) {before : List α}
    (hbefore : ∀ x ∈ before, p x = false) {pieces : List (List α)}
    (hpieces : ∀ piece ∈ pieces, ∀ x ∈ piece, p x = false) :
    (before ++ pieces.flatMap (sep :: ·)).splitOnP p = before :: pieces := by
  induction pieces generalizing before with
  | nil => rw [List.flatMap_nil, List.append_nil, List.splitOnP_eq_singleton hbefore]
  | cons piece pieces ih =>
    obtain ⟨hpiece, hrest⟩ := List.forall_mem_cons.mp hpieces
    rw [List.flatMap_cons, List.cons_append,
      List.splitOnP_append_cons_of_forall_mem hbefore sep hsep, ih hpiece hrest]

end Codex.Lib
