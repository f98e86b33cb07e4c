import Mathlib.Data.Prod.Lex
import Mathlib.Data.List.Infix

/-!
# The most specific rule wins

Rules are attached to paths (lists of names) and hold at everything below their path. Of the rules
that hold at a path the one with the longest path governs it, and among rules with one path the one
with the greatest access. `maxByKey` is the fold that picks it.

* `governs_of_maxByKey`: what the fold picks governs;
* `Governs.path_unique`, `Governs.access_unique`: all governing rules agree;
* `Governs.congr`: only which rules there are matters, not their order.
-/

namespace Codex.Lib

section maxByKey

variable {α β : Type} [LinearOrder β]

/-- The last of the items with the greatest key. -/
def maxByKey (key : α → β) (l : List α) : Option α :=
  l.foldl (fun best x => match best with
    | none => some x
    | some b => if key x < key b then some b else some x) none

private theorem maxByKey_aux (key : α → β) (l : List α) (b : α) :
    ∃ m, l.foldl (fun best x => match best with
        | none => some x
        | some b => if key x < key b then some b else some x) (some b) = some m ∧
      (m = b ∨ m ∈ l) ∧ key b ≤ key m ∧ ∀ x ∈ l, key x ≤ key m := by
  induction l generalizing b with
  | nil => exact ⟨b, rfl, .inl rfl, le_refl _, by simp⟩
  | cons x l ih =>
    rw [List.foldl_cons]
    by_cases hlt : key x < key b
    · obtain ⟨m, hm, hmem, hb, hall⟩ := ih b
      simp only [if_pos hlt]
      refine ⟨m, hm, hmem.imp_right (List.mem_cons_of_mem _), hb, ?_⟩
      intro y hy
      rcases List.mem_cons.mp hy with rfl | hy
      · exact hlt.le.trans hb
      · exact hall y hy
    · obtain ⟨m, hm, hmem, hx, hall⟩ := ih x
      simp only [if_neg hlt]
      refine ⟨m, hm, .inr ?_, (not_lt.mp hlt).trans hx, ?_⟩
      · rcases hmem with rfl | hmem
        · exact List.mem_cons_self
        · exact List.mem_cons_of_mem _ hmem
      · intro y hy
        rcases List.mem_cons.mp hy with rfl | hy
        · exact hx
        · exact hall y hy

lemma maxByKey_eq_none_iff {key : α → β} {l : List α} : maxByKey key l = none ↔ l = [] := by
  cases l with
  | nil => simp [maxByKey]
  | cons b l =>
    obtain ⟨m, hm, -⟩ := maxByKey_aux key l b
    have hsome : maxByKey key (b :: l) = some m := hm
    simp [hsome]

lemma maxByKey_eq_some {key : α → β} {l : List α} {m : α} (h : maxByKey key l = some m) :
    m ∈ l ∧ ∀ x ∈ l, key x ≤ key m := by
  cases l with
  | nil => simp [maxByKey] at h
  | cons b l =>
    obtain ⟨m', hm', hmem, hb, hall⟩ := maxByKey_aux key l b
    have hsome : maxByKey key (b :: l) = some m' := hm'
    obtain rfl : m' = m := Option.some_inj.mp (hsome.symm.trans h)
    refine ⟨List.mem_cons.mpr hmem, ?_⟩
    intro x hx
    rcases List.mem_cons.mp hx with rfl | hx
    · exact hb
    · exact hall x hx

end maxByKey

variable {E N A : Type} [LinearOrder A]

/-- Longer paths first, then greater access. -/
def precedence (path : E → List N) (access : E → A) (e : E) : ℕ ×ₗ A :=
  toLex ((path e).length, access e)

/-- `e` is a rule of `es` that holds at `p`, and none that holds there comes before it. -/
def Governs (path : E → List N) (access : E → A) (es : List E) (p : List N) (e : E) : Prop :=
  e ∈ es ∧ path e <+: p ∧
    ∀ e' ∈ es, path e' <+: p → precedence path access e' ≤ precedence path access e

variable {path : E → List N} {access : E → A} {es es' : List E} {p q : List N} {e e' : E}

lemma precedence_le_iff : precedence path access e' ≤ precedence path access e ↔
    (path e').length < (path e).length ∨
      (path e').length = (path e).length ∧ access e' ≤ access e :=
  Prod.Lex.toLex_le_toLex

lemma governs_of_maxByKey [DecidableEq N] {key : E → ℕ ×ₗ A}
    (hkey : ∀ x y, key x ≤ key y ↔ precedence path access x ≤ precedence path access y)
    (h : maxByKey key (es.filter fun e => path e <+: p) = some e) :
    Governs path access es p e := by
  obtain ⟨hmem, hmax⟩ := maxByKey_eq_some h
  obtain ⟨hes, hp⟩ := List.mem_filter.mp hmem
  refine ⟨hes, of_decide_eq_true hp, ?_⟩
  intro x hx hxp
  rw [← hkey]
  exact hmax x (List.mem_filter.mpr ⟨hx, decide_eq_true hxp⟩)

namespace Governs

variable (h : Governs path access es p e)
include h

lemma length_le (he' : e' ∈ es) (hp : path e' <+: p) : (path e').length ≤ (path e).length := by
  rcases precedence_le_iff.mp (h.2.2 e' he' hp) with hlt | ⟨heq, -⟩
  · exact hlt.le
  · exact heq.le

/-- Every rule that holds at `p` stands at or above the governing one. -/
theorem path_prefix (he' : e' ∈ es) (hp : path e' <+: p) : path e' <+: path e :=
  List.prefix_of_prefix_length_le hp h.2.1 (h.length_le he' hp)

lemma path_unique (h' : Governs path access es p e') : path e = path e' :=
  (h'.path_prefix h.1 h.2.1).eq_of_length
    (le_antisymm (h'.length_le h.1 h.2.1) (h.length_le h'.1 h'.2.1))

lemma access_le (he' : e' ∈ es) (hpath : path e' = path e) : access e' ≤ access e := by
  rcases precedence_le_iff.mp (h.2.2 e' he' (hpath ▸ h.2.1)) with hlt | ⟨-, hle⟩
  · exact absurd (congrArg List.length hpath) hlt.ne
  · exact hle

lemma access_unique (h' : Governs path access es p e') : access e = access e' :=
  le_antisymm (h'.access_le h.1 (h.path_unique h')) (h.access_le h'.1 (h'.path_unique h))

/-- The rule that governs a path governs everything between its own path and that path. -/
theorem of_prefix (he : path e <+: q) (hq : q <+: p) : Governs path access es q e :=
  ⟨h.1, he, fun e' he' hp => h.2.2 e' he' (hp.trans hq)⟩

omit h

lemma congr (hmem : ∀ x, x ∈ es ↔ x ∈ es') :
    Governs path access es p e ↔ Governs path access es' p e := by
  unfold Governs
  simp only [hmem]

end Governs

end Codex.Lib
