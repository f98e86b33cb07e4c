import Mathlib.Tactic.SplitIfs

/-!
# Results: `Except` computations

How a computation that may fail is taken apart: `ok` and `error` under a bind, and what a
successful bind says about its parts (`bind_eq_ok`). `toOption` forgets the error, which is how two
computations are compared when only their successes matter. `OkUnless P x v` says that `x` gives `v`
unless `P` lets it fail, which is how an assertion that some builds leave out is reasoned about.
-/

namespace Codex.Lib

variable {ε α β : Type}

@[simp] lemma ok_bind (a : α) (f : α → Except ε β) : (Except.ok a >>= f) = f a := rfl

@[simp] lemma error_bind (e : ε) (f : α → Except ε β) : (Except.error e >>= f) = .error e := rfl

@[simp] lemma pure_eq_ok (a : α) : (pure a : Except ε α) = .ok a := rfl

variable {x : Except ε α}

/-- A bind succeeds exactly when its first part does and the rest does on its value. -/
theorem bind_eq_ok {f : α → Except ε β} {b : β} :
    (x >>= f) = .ok b ↔ ∃ a, x = .ok a ∧ f a = .ok b := by
  cases x with
  | error e => simp
  | ok a => simp

lemma mapError_eq_ok {ε' : Type} {f : ε → ε'} {a : α} : x.mapError f = .ok a ↔ x = .ok a := by
  cases x with
  | error e => simp [Except.mapError]
  | ok b => simp [Except.mapError]

@[simp] lemma toOption_ok (a : α) : (Except.ok a : Except ε α).toOption = some a := rfl

@[simp] lemma toOption_error (e : ε) : (Except.error e : Except ε α).toOption = none := rfl

lemma toOption_eq_some {a : α} : x.toOption = some a ↔ x = .ok a := by
  cases x with
  | error e => simp
  | ok b => simp

lemma toOption_eq_none : x.toOption = none ↔ ∀ a, x ≠ .ok a := by
  cases x with
  | error e => simp
  | ok b => simp

/-- A loop that pushes what `f` gives for each item. -/
def collectM (f : α → Except ε (List β)) (l : List α) : Except ε (List β) :=
  l.foldlM (fun acc a => do return acc ++ (← f a)) []

/-- `x` gives `v`, or `P` holds and `x` fails. -/
def OkUnless (P : Prop) (x : Except ε α) (v : α) : Prop := x = .ok v ∨ P ∧ ∃ e, x = .error e

namespace OkUnless

variable {P Q : Prop} {x : Except ε α} {v : α}

lemma ok (v : α) : OkUnless P (.ok v : Except ε α) v := .inl rfl

lemma eq_ok (h : OkUnless P x v) (hP : ¬ P) : x = .ok v := by
  obtain h | ⟨hp, -⟩ := h
  · exact h
  · exact absurd hp hP

lemma eq_of_ok {w : α} (h : OkUnless P x v) (hx : x = .ok w) : w = v := by
  obtain h | ⟨-, e, he⟩ := h
  · exact Except.ok.inj (hx.symm.trans h)
  · cases hx.symm.trans he

lemma mono (h : OkUnless P x v) (hPQ : P → Q) : OkUnless Q x v :=
  h.imp_right fun ⟨hp, he⟩ => ⟨hPQ hp, he⟩

lemma bind {f : α → Except ε β} {w : β} (h : OkUnless P x v) (hf : OkUnless P (f v) w) :
    OkUnless P (x >>= f) w := by
  obtain h | ⟨hp, e, he⟩ := h
  · rw [h]
    exact hf
  · exact .inr ⟨hp, e, by rw [he, error_bind]⟩

/-- A loop that pushes what `g` gives for each item, unless `P`, pushes it all unless `P`. -/
theorem collectM {f : α → Except ε (List β)} {g : α → List β} {l : List α}
    (h : ∀ a ∈ l, OkUnless P (f a) (g a)) : OkUnless P (collectM f l) (l.flatMap g) := by
  have hfold : ∀ acc, OkUnless P
      (l.foldlM (fun acc a => do return acc ++ (← f a)) acc) (acc ++ l.flatMap g) := by
    induction l with
    | nil =>
      intro acc
      rw [List.flatMap_nil, List.append_nil]
      exact ok acc
    | cons a l ih =>
      intro acc
      rw [List.foldlM_cons, List.flatMap_cons, ← List.append_assoc]
      refine bind ((h a List.mem_cons_self).bind (ok _)) ?_
      exact ih (fun b hb => h b (List.mem_cons_of_mem _ hb)) (acc ++ g a)
  exact hfold []

end OkUnless

end Codex.Lib
