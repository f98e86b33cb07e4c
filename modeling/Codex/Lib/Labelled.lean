import Mathlib.Data.List.Basic
import Mathlib.Order.Nat

/-!
# Labels from a counter

Some entries of a list have a number as their label. An entry that gets its label from a counter is
appended; other entries may come anywhere. When the list is cut, the counter begins again after the
number of entries that are left: the labels stay different, because a label is never larger than the
place of its entry.
-/

namespace Codex.Lib

variable {α : Type} {label : α → ℕ → Prop} {l l' : List α} {next : ℕ} {x : α}

/-- The labels rise, do not exceed the places of their entries, and are below the counter. -/
structure Labelled (label : α → ℕ → Prop) (l : List α) (next : ℕ) : Prop where
  rising : l.Pairwise fun a b => ∀ m n, label a m → label b n → m < n
  placed : ∀ before a after, l = before ++ a :: after → ∀ n, label a n → n ≤ before.length + 1
  below : ∀ a ∈ l, ∀ n, label a n → n < next
  next_le : next ≤ l.length + 1

namespace Labelled

lemma nil (label : α → ℕ → Prop) : Labelled label [] 1 where
  rising := List.Pairwise.nil
  placed before a after h := by simp at h
  below _ h := absurd h List.not_mem_nil
  next_le := le_rfl

lemma push (h : Labelled label l next) (hx : ∀ n, label x n → n = next) :
    Labelled label (l ++ [x]) (next + 1) := by
  refine ⟨?_, ?_, ?_, ?_⟩
  · rw [List.pairwise_append]
    refine ⟨h.rising, List.pairwise_singleton _ _, ?_⟩
    intro a ha b hb m n hm hn
    obtain rfl := List.mem_singleton.mp hb
    rw [hx n hn]
    exact h.below a ha m hm
  · intro before a after hsplit n hn
    rcases List.eq_nil_or_concat after with rfl | ⟨init, last, rfl⟩
    · obtain ⟨rfl, hsingle⟩ := List.append_inj' hsplit rfl
      rw [List.singleton_inj.mp hsingle] at hx
      rw [hx n hn]
      exact h.next_le
    · rw [List.concat_eq_append, ← List.cons_append, ← List.append_assoc] at hsplit
      exact h.placed before a init (List.append_inj' hsplit rfl).1 n hn
  · intro a ha n hn
    rcases List.mem_append.mp ha with hold | hnew
    · exact (h.below a hold n hn).trans (Nat.lt_succ_self _)
    · obtain rfl := List.mem_singleton.mp hnew
      rw [hx n hn]
      exact Nat.lt_succ_self _
  · rw [List.length_append, List.length_singleton]
    exact Nat.succ_le_succ h.next_le

/-- An entry anywhere, without a label: the entries after it move on. -/
theorem insert (h : Labelled label (l ++ l') next) (hx : ∀ n, ¬ label x n) :
    Labelled label (l ++ x :: l') next := by
  have hrising := h.rising
  rw [List.pairwise_append] at hrising
  obtain ⟨hl, hl', hcross⟩ := hrising
  refine ⟨?_, ?_, ?_, ?_⟩
  · rw [List.pairwise_append, List.pairwise_cons]
    refine ⟨hl, ⟨?_, hl'⟩, ?_⟩
    · intro b _ m n hm
      exact absurd hm (hx m)
    · intro a ha b hb m n hm hn
      rcases List.mem_cons.mp hb with rfl | hb
      · exact absurd hn (hx n)
      · exact hcross a ha b hb m n hm hn
  · intro before a after hsplit n hn
    rcases List.append_eq_append_iff.mp hsplit with ⟨rest, rfl, hrest⟩ | ⟨rest, rfl, hrest⟩
    · rcases List.cons_eq_append_iff.mp hrest with ⟨rfl, hcons⟩ | ⟨rest, rfl, rfl⟩
      · cases hcons
        exact absurd hn (hx n)
      · have hle := h.placed (l ++ rest) a after (List.append_assoc _ _ _).symm n hn
        rw [List.length_append] at hle
        rw [List.length_append, List.length_cons]
        omega
    · rcases List.cons_eq_append_iff.mp hrest with ⟨rfl, hcons⟩ | ⟨rest, rfl, rfl⟩
      · cases hcons
        exact absurd hn (hx n)
      · exact h.placed before a (rest ++ l') (by simp) n hn
  · intro a ha n hn
    rcases List.mem_append.mp ha with ha | ha
    · exact h.below a (List.mem_append_left _ ha) n hn
    · rcases List.mem_cons.mp ha with rfl | ha
      · exact absurd hn (hx n)
      · exact h.below a (List.mem_append_right _ ha) n hn
  · have hle := h.next_le
    rw [List.length_append] at hle ⊢
    rw [List.length_cons]
    omega

lemma cut (h : Labelled label l next) (hcut : l' <+: l) : Labelled label l' (l'.length + 1) := by
  obtain ⟨rest, rfl⟩ := hcut
  have hplaced : ∀ before a after, l' = before ++ a :: after → ∀ n, label a n →
      n ≤ before.length + 1 := by
    intro before a after hsplit
    apply h.placed before a (after ++ rest)
    rw [hsplit, List.append_assoc, List.cons_append]
  refine ⟨(List.pairwise_append.mp h.rising).1, hplaced, ?_, le_rfl⟩
  intro a ha n hn
  obtain ⟨before, after, hsplit⟩ := List.append_of_mem ha
  have hle := hplaced before a after hsplit n hn
  rw [hsplit, List.length_append, List.length_cons]
  omega

lemma countP_le_one (h : Labelled label l next) {p : α → Bool} {n : ℕ}
    (hp : ∀ a, p a = true → label a n) : l.countP p ≤ 1 := by
  have hrising := h.rising
  clear h
  induction l with
  | nil => exact Nat.zero_le _
  | cons a l ih =>
    obtain ⟨hfirst, hrest⟩ := List.pairwise_cons.mp hrising
    rw [List.countP_cons]
    split_ifs with ha
    · have hzero : l.countP p = 0 := by
        rw [List.countP_eq_zero]
        intro b hb hpb
        exact lt_irrefl n (hfirst b hb n n (hp a ha) (hp b hpb))
      rw [hzero]
    · exact ih hrest

end Labelled

end Codex.Lib
