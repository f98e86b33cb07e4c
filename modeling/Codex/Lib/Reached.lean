import Mathlib.Data.List.Basic

/-!
# Reached states

The states that a system reaches from its initial states by steps that all meet a condition. A step
that is not possible is absent.
-/

namespace Codex.Lib

variable {σ α : Type} {step : σ → α → Option σ} {C : σ → α → Prop} {init : σ → Prop}

/-- The states that are reached by steps that meet a condition. -/
inductive Reached (step : σ → α → Option σ) (C : σ → α → Prop) (init : σ → Prop) : σ → Prop
  | init {s : σ} (h : init s) : Reached step C init s
  | step {s s' : σ} {a : α} (h : Reached step C init s) (hc : C s a) (hstep : step s a = some s') :
      Reached step C init s'

/-- **The invariant rule.** -/
theorem Reached.invariant {I : σ → Prop} (hinit : ∀ s, init s → I s)
    (hstep : ∀ s a s', I s → C s a → step s a = some s' → I s') {s : σ}
    (h : Reached step C init s) : I s := by
  induction h with
  | init h => exact hinit _ h
  | step _ hc hs ih => exact hstep _ _ _ ih hc hs

/-- A step that is possible where the condition holds. -/
def checked (step : σ → α → Option σ) (C : σ → α → Prop) [∀ s a, Decidable (C s a)] (s : σ)
    (a : α) :
    Option σ :=
  if C s a then step s a else none

/-- A run whose conditions are checked reaches its last state. -/
theorem reached_of_foldlM [∀ s a, Decidable (C s a)] {s s' : σ} {as : List α}
    (h : Reached step C init s) (hrun : as.foldlM (checked step C) s = some s') :
    Reached step C init s' := by
  induction as generalizing s with
  | nil =>
    cases hrun
    exact h
  | cons a as ih =>
    rw [List.foldlM_cons] at hrun
    obtain ⟨next, hnext, hrest⟩ := Option.bind_eq_some_iff.mp hrun
    rw [checked] at hnext
    split_ifs at hnext with hc
    exact ih (h.step hc hnext) hrest

end Codex.Lib
