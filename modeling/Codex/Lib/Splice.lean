import Mathlib.Data.List.Sort

/-!
# Edits of a list

An edit removes a region of a list and puts other items in its place. Edits whose regions follow one
another can be applied in place from the last to the first, or in one pass from left to right.
-/

namespace Codex.Lib

variable {α : Type}

/-- `removed` items from `start` on give way to `inserted`. -/
structure Edit (α : Type) where
  start : ℕ
  removed : ℕ
  inserted : List α

namespace Edit

variable (e : Edit α)

/-- The end of the region. -/
def stop : ℕ := e.start + e.removed

def apply (l : List α) : List α := l.take e.start ++ e.inserted ++ l.drop e.stop

/-- The region of `e` ends before that of `f` starts. -/
def Before (e f : Edit α) : Prop := e.stop ≤ f.start

/-- Sorted by start, with `e` first where both start at one place, one ends before the other
starts. -/
def Apart (e f : Edit α) : Prop := e.Before f ∨ f.start < e.start ∧ f.Before e

lemma start_le_stop : e.start ≤ e.stop := Nat.le_add_right _ _

end Edit

/-! ### From the last edit to the first, and from left to right -/

/-- In place, from the last edit to the first. -/
def applyAll (edits : List (Edit α)) (l : List α) : List α := edits.foldr Edit.apply l

/-- From left to right over the items from `pos` on: the gap before each edit, what it inserts, and
on after its region. -/
def spliceFrom : ℕ → List (Edit α) → List α → List α
  | _, [], rest => rest
  | pos, e :: edits, rest =>
    rest.take (e.start - pos) ++ e.inserted ++ spliceFrom e.stop edits (rest.drop (e.stop - pos))

/-- From left to right. -/
def leftToRight (edits : List (Edit α)) (l : List α) : List α := spliceFrom 0 edits l

variable {edits : List (Edit α)}

/-- The items before the first region are left alone; the rest is spliced. -/
theorem applyAll_eq_take_append {l : List α} {pos : ℕ}
    (hbefore : edits.Pairwise Edit.Before) (hpos : ∀ e ∈ edits, pos ≤ e.start)
    (hbound : ∀ e ∈ edits, e.stop ≤ l.length) :
    applyAll edits l = l.take pos ++ spliceFrom pos edits (l.drop pos) := by
  induction edits generalizing pos with
  | nil => simp [applyAll, spliceFrom]
  | cons e edits ih =>
    obtain ⟨hfirst, hrest⟩ := List.pairwise_cons.mp hbefore
    have hstart : pos ≤ e.start := hpos e List.mem_cons_self
    have hstop : e.stop ≤ l.length := hbound e List.mem_cons_self
    have hle := e.start_le_stop
    have hlater := ih hrest hfirst fun f hf => hbound f (List.mem_cons_of_mem _ hf)
    have hlength : (l.take e.stop).length = e.stop := by simpa using hstop
    have htake : (applyAll edits l).take e.start = l.take e.start := by
      rw [hlater, List.take_append_of_le_length (by omega), List.take_take, min_eq_left hle]
    have hdrop : (applyAll edits l).drop e.stop = spliceFrom e.stop edits (l.drop e.stop) := by
      rw [hlater, List.drop_append_of_le_length hlength.ge, List.drop_of_length_le hlength.le,
        List.nil_append]
    have hgap : l.take e.start = l.take pos ++ (l.drop pos).take (e.start - pos) := by
      rw [← List.take_add, Nat.add_sub_cancel' hstart]
    calc applyAll (e :: edits) l
        = (applyAll edits l).take e.start ++ e.inserted ++ (applyAll edits l).drop e.stop := rfl
      _ = l.take e.start ++ e.inserted ++ spliceFrom e.stop edits (l.drop e.stop) := by
          rw [htake, hdrop]
      _ = l.take pos ++ spliceFrom pos (e :: edits) (l.drop pos) := by
          rw [hgap, spliceFrom, List.drop_drop, Nat.add_sub_cancel' (hstart.trans hle)]
          simp only [List.append_assoc]

/-- **Both ways agree** where the regions follow one another within the list. -/
theorem applyAll_eq_leftToRight {l : List α}
    (hbefore : edits.Pairwise Edit.Before) (hbound : ∀ e ∈ edits, e.stop ≤ l.length) :
    applyAll edits l = leftToRight edits l := by
  simpa [leftToRight] using applyAll_eq_take_append hbefore (fun _ _ => Nat.zero_le _) hbound

lemma inserted_infix_spliceFrom {e : Edit α} (he : e ∈ edits) (pos : ℕ)
    (rest : List α) : e.inserted <:+: spliceFrom pos edits rest := by
  induction edits generalizing pos rest with
  | nil => simp at he
  | cons f edits ih =>
    rcases List.mem_cons.mp he with rfl | he
    · exact ⟨_, _, rfl⟩
    · exact (ih he f.stop _).trans (List.suffix_append _ _).isInfix

/-! ### Sorting edits -/

namespace Edit

variable {e f : Edit α}

lemma apart_iff_of_le (h : e.start ≤ f.start) : e.Apart f ↔ e.Before f := by
  unfold Apart
  exact or_iff_left fun hlt => absurd hlt.1 (not_lt_of_ge h)

lemma apart_iff_of_lt (h : f.start < e.start) : e.Apart f ↔ f.Before e := by
  have hnot : ¬ e.Before f := by
    intro hbefore
    have hle := e.start_le_stop
    unfold Before at hbefore
    omega
  unfold Apart
  rw [or_iff_right hnot, and_iff_right h]

end Edit

/-- Where a new edit goes among sorted ones, the regions still follow one another exactly when it is
apart from each of them. -/
theorem pairwise_before_orderedInsert (e : Edit α)
    (hsorted : edits.Pairwise fun a b => a.start ≤ b.start) :
    (edits.orderedInsert (fun a b => a.start ≤ b.start) e).Pairwise Edit.Before ↔
      (∀ f ∈ edits, e.Apart f) ∧ edits.Pairwise Edit.Before := by
  induction edits with
  | nil => simp
  | cons f edits ih =>
    obtain ⟨hfirst, hrest⟩ := List.pairwise_cons.mp hsorted
    by_cases hle : e.start ≤ f.start
    · have hall : ∀ g ∈ f :: edits, e.start ≤ g.start := by
        intro g hg
        rcases List.mem_cons.mp hg with rfl | hg
        · exact hle
        · exact hle.trans (hfirst g hg)
      rw [List.orderedInsert, if_pos hle, List.pairwise_cons]
      refine and_congr_left fun _ => forall₂_congr fun g hg => ?_
      exact (Edit.apart_iff_of_le (hall g hg)).symm
    · rw [List.orderedInsert, if_neg hle, List.pairwise_cons, List.pairwise_cons, ih hrest,
        List.forall_mem_cons, Edit.apart_iff_of_lt (not_le.mp hle)]
      simp only [List.mem_orderedInsert, forall_eq_or_imp]
      tauto

/-- **After a stable sort by start, the regions follow one another** exactly when they were pairwise
apart. -/
theorem pairwise_before_insertionSort (edits : List (Edit α)) :
    (edits.insertionSort fun a b => a.start ≤ b.start).Pairwise Edit.Before ↔
      edits.Pairwise Edit.Apart := by
  induction edits with
  | nil => simp
  | cons e edits ih =>
    have htotal : Std.Total fun a b : Edit α => a.start ≤ b.start :=
      ⟨fun a b => le_total a.start b.start⟩
    have htrans : IsTrans (Edit α) fun a b => a.start ≤ b.start := ⟨fun _ _ _ => le_trans⟩
    rw [List.insertionSort_cons, List.pairwise_cons,
      pairwise_before_orderedInsert e (List.pairwise_insertionSort _ _), ih]
    simp only [List.mem_insertionSort]

end Codex.Lib
