import Mathlib.Data.List.Forall2

/-!
# Lists that are read item by item
-/

namespace Codex.Lib

lemma forall₂_of_mapM {α β : Type} {f : α → Option β} {l : List α} {ys : List β}
    (h : l.mapM f = some ys) : List.Forall₂ (fun a b => f a = some b) l ys := by
  induction l generalizing ys with
  | nil =>
    rw [List.mapM_nil] at h
    cases h
    exact .nil
  | cons a l ih =>
    rw [List.mapM_cons] at h
    obtain ⟨b, hb, hrest⟩ := Option.bind_eq_some_iff.mp h
    obtain ⟨bs, hbs, heq⟩ := Option.bind_eq_some_iff.mp hrest
    cases heq
    exact .cons hb (ih hbs)

lemma map_eq_of_forall₂ {α β γ : Type} {R : α → β → Prop} {f : β → Option γ} {g : α → γ}
    {as : List α} {bs : List β} {cs : List γ} (h : List.Forall₂ R as bs)
    (hf : List.Forall₂ (fun b c => f b = some c) bs cs)
    (hread : ∀ a b c, R a b → f b = some c → c = g a) : cs = as.map g := by
  induction h generalizing cs with
  | nil =>
    rcases hf with _ | _
    rfl
  | cons hab _ ih =>
    rcases hf with _ | ⟨hbc, hf⟩
    rw [List.map_cons, hread _ _ _ hab hbc, ih hf]

end Codex.Lib
