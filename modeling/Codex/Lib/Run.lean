import Codex.Lib.Result
import Mathlib.Data.List.Basic

/-!
# Runs of a fallible step function

`step : σ → α → Except ε σ` takes a state and an input to the next state or to an error; a run over
a list of inputs is `List.foldlM step`. `Runs step P xs Q` is the total-correctness triple: from a
state with `P` the run over `xs` succeeds and ends in a state with `Q`.
-/

namespace Codex.Lib

variable {σ α β ε : Type} {step : σ → α → Except ε σ}

/-- From `P`, the run over the inputs succeeds and ends in `Q`. -/
def Runs (step : σ → α → Except ε σ) (P : σ → Prop) (xs : List α) (Q : σ → Prop) : Prop :=
  ∀ s, P s → ∃ s', xs.foldlM step s = .ok s' ∧ Q s'

namespace Runs

variable {P P' Q Q' R : σ → Prop} {xs ys : List α}

lemma nil (h : ∀ s, P s → Q s) : Runs step P [] Q := fun s hs => ⟨s, rfl, h s hs⟩

lemma single {x : α} (h : ∀ s, P s → ∃ s', step s x = .ok s' ∧ Q s') : Runs step P [x] Q := by
  intro s hs
  obtain ⟨s', hstep, hq⟩ := h s hs
  exact ⟨s', by simp [hstep], hq⟩

lemma append (h₁ : Runs step P xs Q) (h₂ : Runs step Q ys R) : Runs step P (xs ++ ys) R := by
  intro s hs
  obtain ⟨s₁, hrun₁, hq⟩ := h₁ s hs
  obtain ⟨s₂, hrun₂, hr⟩ := h₂ s₁ hq
  refine ⟨s₂, ?_, hr⟩
  rw [List.foldlM_append, hrun₁]
  exact hrun₂

lemma cons {x : α} (h₁ : ∀ s, P s → ∃ s', step s x = .ok s' ∧ Q s') (h₂ : Runs step Q xs R) :
    Runs step P (x :: xs) R :=
  (single h₁).append h₂

lemma weaken (h : Runs step P xs Q) (hp : ∀ s, P' s → P s) (hq : ∀ s, Q s → Q' s) :
    Runs step P' xs Q' := by
  intro s hs
  obtain ⟨s', hrun, h'⟩ := h s (hp s hs)
  exact ⟨s', hrun, hq s' h'⟩

/-- **The loop rule.** If each item of `items` takes `I done` to `I (done ++ [item])`, the run over
everything the items write takes `I done` to `I (done ++ items)`. -/
theorem flatMap (I : List β → σ → Prop) (write : β → List α) (items : List β)
    (h : ∀ done item, item ∈ items →
      Runs step (I done) (write item) (I (done ++ [item]))) (done : List β) :
    Runs step (I done) (items.flatMap write) (I (done ++ items)) := by
  induction items generalizing done with
  | nil => exact nil fun s hs => by simpa using hs
  | cons item items ih =>
    rw [List.flatMap_cons]
    refine (h done item List.mem_cons_self).append ?_
    have hrest := ih (fun d i hi => h d i (List.mem_cons_of_mem _ hi)) (done ++ [item])
    rwa [List.append_assoc, List.singleton_append] at hrest

end Runs

/-- The condition holds before every step that the run takes. -/
def Along (step : σ → α → Except ε σ) (C : σ → α → Prop) : σ → List α → Prop
  | _, [] => True
  | s, x :: xs => C s x ∧ ∀ s', step s x = .ok s' → Along step C s' xs

variable {xs : List α}

lemma Along.cons_ok {C : σ → α → Prop} {s s' : σ} {x : α} (hC : C s x) (hx : step s x = .ok s')
    (h : Along step C s' xs) : Along step C s (x :: xs) := by
  refine ⟨hC, fun next hnext => ?_⟩
  cases hx.symm.trans hnext
  exact h

lemma Along.and {C D : σ → α → Prop} {s : σ} (hc : Along step C s xs)
    (hd : Along step D s xs) : Along step (fun s x => C s x ∧ D s x) s xs := by
  induction xs generalizing s with
  | nil => trivial
  | cons x xs ih =>
    exact ⟨⟨hc.1, hd.1⟩, fun s' hx => ih (hc.2 s' hx) (hd.2 s' hx)⟩

variable {I : σ → Prop}

/-- The invariant rule for runs whose steps all meet a condition. -/
theorem Along.preserves {C : σ → α → Prop}
    (hstep : ∀ s x s', C s x → I s → step s x = .ok s' → I s') {s s' : σ}
    (hc : Along step C s xs) (hI : I s) (hrun : xs.foldlM step s = .ok s') : I s' := by
  induction xs generalizing s with
  | nil =>
    cases hrun
    exact hI
  | cons x xs ih =>
    rw [List.foldlM_cons] at hrun
    obtain ⟨next, hx, hrest⟩ := bind_eq_ok.mp hrun
    exact ih (hc.2 next hx) (hstep s x next hc.1 hI hx) hrest

/-- The condition holds before every step of a run that cannot fail. -/
def Throughout (next : σ → α → σ) (C : σ → α → Prop) : σ → List α → Prop
  | _, [] => True
  | s, x :: xs => C s x ∧ Throughout next C (next s x) xs

lemma Throughout.preserves {next : σ → α → σ} {C : σ → α → Prop}
    (hstep : ∀ s x, C s x → I s → I (next s x)) {s : σ}
    (hc : Throughout next C s xs) (hI : I s) : I (xs.foldl next s) := by
  induction xs generalizing s with
  | nil => exact hI
  | cons x xs ih => exact ih hc.2 (hstep s x hc.1 hI)

/-- What a condition gives under an invariant that it preserves, it gives at every step. -/
theorem Throughout.imp {next : σ → α → σ} {C D : σ → α → Prop}
    (hstep : ∀ s x, C s x → I s → D s x ∧ I (next s x)) {s : σ}
    (hc : Throughout next C s xs) (hI : I s) : Throughout next D s xs := by
  induction xs generalizing s with
  | nil => trivial
  | cons x xs ih =>
    obtain ⟨hd, hI'⟩ := hstep s x hc.1 hI
    exact ⟨hd, ih hc.2 hI'⟩

end Codex.Lib
