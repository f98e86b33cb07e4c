import Mathlib.Data.List.Basic

/-!
# Lists that only grow at their end

`GrowsBy R xs ys`: all items of `xs` but the last are unchanged in `ys`, the last one has grown by
`R`, and `ys` may go on. This is what a reader of a list under construction may rely on.
-/

namespace Codex.Lib

variable {α : Type} {R : α → α → Prop} {xs ys zs : List α}

/-- `xs` grows to `ys`: the last item by `R`, and by further items. -/
def GrowsBy (R : α → α → Prop) (xs ys : List α) : Prop :=
  xs = [] ∨ ∃ init x y rest, xs = init ++ [x] ∧ ys = init ++ y :: rest ∧ R x y

lemma growsBy_append (hrefl : ∀ x, R x x) (xs rest : List α) : GrowsBy R xs (xs ++ rest) := by
  rcases List.eq_nil_or_concat' xs with rfl | ⟨init, x, rfl⟩
  · exact .inl rfl
  · exact .inr ⟨init, x, x, rest, rfl, by simp, hrefl x⟩

lemma GrowsBy.refl (hrefl : ∀ x, R x x) (xs : List α) : GrowsBy R xs xs := by
  simpa using growsBy_append hrefl xs []

lemma growsBy_setLast {x y : α} (hlast : xs.getLast? = some x) (h : R x y) :
    GrowsBy R xs (xs.dropLast ++ [y]) := by
  obtain ⟨init, rfl⟩ := List.getLast?_eq_some_iff.mp hlast
  exact .inr ⟨init, x, y, [], rfl, by simp, h⟩

/-- **Growth composes.** -/
theorem GrowsBy.trans (htrans : ∀ x y z, R x y → R y z → R x z) (h : GrowsBy R xs ys)
    (h' : GrowsBy R ys zs) : GrowsBy R xs zs := by
  rcases h with rfl | ⟨init, x, y, rest, rfl, hys, hxy⟩
  · exact .inl rfl
  refine .inr ?_
  rcases h' with rfl | ⟨init', y', z, rest', hys', rfl, hyz⟩
  · simp at hys
  · rw [hys] at hys'
    rcases List.eq_nil_or_concat' rest with rfl | ⟨rest, w, rfl⟩
    · -- the item that grew first is still the last one
      obtain ⟨rfl, hyy'⟩ := List.append_inj' hys' rfl
      obtain rfl : y = y' := by simpa using hyy'
      exact ⟨init, x, z, rest', rfl, rfl, htrans x y z hxy hyz⟩
    · have hsplit : (init ++ y :: rest) ++ [w] = init' ++ [y'] := by simpa using hys'
      obtain ⟨rfl, -⟩ := List.append_inj' hsplit rfl
      exact ⟨init, x, y, rest ++ z :: rest', rfl, by simp, hxy⟩

end Codex.Lib
