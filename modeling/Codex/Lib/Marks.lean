import Mathlib.Data.List.DropRight

/-!
# Cutting a list back by its marked elements

A list is read as a sequence of turns: a marked element opens a turn, what follows belongs to it,
and what stands before the first mark is a preamble. `dropLastMarked k` removes the newest `k`
turns and, above the cut, the run of elements that may be trimmed; it never touches the preamble.

* `dropLastMarked_of_countP_le`: when at most `k` turns are there, the preamble stays;
* `dropLastMarked_cut`: otherwise the list is cut before its `k`-th mark from the end;
* `countP_dropLastMarked`: `k` marks go, or all of them;
* `dropLastMarked_append`: what stands before an older mark that survives is left alone.
-/

namespace Codex.Lib

variable {α : Type*} {mark trim : α → Bool}

/-- The elements before the `k`-th mark from the end. -/
def beforeLastMarked (mark : α → Bool) (k : ℕ) : List α → List α
  | [] => []
  | x :: l => if l.countP mark < k then [] else x :: beforeLastMarked mark k l

/-- Removes the newest `k` turns and what may be trimmed above the cut. -/
def dropLastMarked (mark trim : α → Bool) (k : ℕ) (l : List α) : List α :=
  if k = 0 then l
  else if l.countP mark ≤ k then l.takeWhile (!mark ·)
  else (beforeLastMarked mark k l).rdropWhile trim

variable {k : ℕ}

lemma exists_marked_cut {l : List α} (hpos : 0 < k) (hk : k ≤ l.countP mark) :
    ∃ u b v, l = u ++ b :: v ∧ mark b = true ∧ (b :: v).countP mark = k := by
  induction l with
  | nil =>
    rw [List.countP_nil] at hk
    omega
  | cons x l ih =>
    by_cases hl : k ≤ l.countP mark
    · obtain ⟨u, b, v, rfl, hb, hcount⟩ := ih hl
      exact ⟨x :: u, b, v, rfl, hb, hcount⟩
    · have hx : mark x = true := by
        by_contra hx
        rw [List.countP_cons_of_neg hx] at hk
        exact hl hk
      refine ⟨[], x, l, rfl, hx, ?_⟩
      rw [List.countP_cons_of_pos hx] at hk ⊢
      omega

lemma beforeLastMarked_append {b : α} {v : List α} (hb : mark b = true)
    (hk : (b :: v).countP mark = k) (u : List α) :
    beforeLastMarked mark k (u ++ b :: v) = u := by
  induction u with
  | nil =>
    rw [List.countP_cons_of_pos hb] at hk
    have hlt : v.countP mark < k := by omega
    simp [beforeLastMarked, hlt]
  | cons x u ih =>
    have hge : ¬ (u ++ b :: v).countP mark < k := by
      rw [List.countP_append, hk]
      omega
    rw [List.cons_append, beforeLastMarked, if_neg hge, ih]

variable (l : List α)

lemma dropLastMarked_zero : dropLastMarked mark trim 0 l = l := if_pos rfl

lemma dropLastMarked_of_countP_le {l : List α} (hpos : 0 < k)
    (hk : l.countP mark ≤ k) : dropLastMarked mark trim k l = l.takeWhile (!mark ·) := by
  rw [dropLastMarked, if_neg (by omega), if_pos hk]

lemma dropLastMarked_cut {u v : List α} {b : α} (hb : mark b = true)
    (hk : (b :: v).countP mark = k) (hu : 0 < u.countP mark) :
    dropLastMarked mark trim k (u ++ b :: v) = u.rdropWhile trim := by
  have hpos : k ≠ 0 := by
    rw [List.countP_cons_of_pos hb] at hk
    omega
  have hmore : ¬ (u ++ b :: v).countP mark ≤ k := by
    rw [List.countP_append]
    omega
  rw [dropLastMarked, if_neg hpos, if_neg hmore, beforeLastMarked_append hb hk]

lemma countP_takeWhile_not : (l.takeWhile (!mark ·)).countP mark = 0 := by
  refine List.countP_eq_zero.mpr fun x hx => ?_
  have := List.mem_takeWhile_imp hx
  simpa using this

lemma exists_first_marked {l : List α} (h : 0 < l.countP mark) :
    ∃ b v, l = l.takeWhile (!mark ·) ++ b :: v ∧ mark b = true := by
  induction l with
  | nil => cases h
  | cons x l ih =>
    by_cases hx : mark x = true
    · exact ⟨x, l, by simp [hx], hx⟩
    · rw [List.countP_cons_of_neg hx] at h
      obtain ⟨b, v, hl, hb⟩ := ih h
      refine ⟨b, v, ?_, hb⟩
      rw [List.takeWhile_cons_of_pos (by simp [hx]), List.cons_append, ← hl]

lemma takeWhile_not_append {u : List α} (hu : 0 < u.countP mark) (v : List α) :
    (u ++ v).takeWhile (!mark ·) = u.takeWhile (!mark ·) := by
  induction u with
  | nil => cases hu
  | cons x u ih =>
    by_cases hx : mark x = true
    · rw [List.cons_append, List.takeWhile_cons_of_neg (by simp [hx]),
        List.takeWhile_cons_of_neg (by simp [hx])]
    · rw [List.countP_cons_of_neg hx] at hu
      rw [List.cons_append, List.takeWhile_cons_of_pos (by simp [hx]),
        List.takeWhile_cons_of_pos (by simp [hx]), ih hu]

/-- A run that is trimmed from the end stops at the last element that must stay. -/
theorem rdropWhile_append_cons {b : α} (hb : trim b = false) (p q : List α) :
    (p ++ b :: q).rdropWhile trim = p ++ b :: q.rdropWhile trim := by
  induction q using List.reverseRecOn with
  | nil => exact List.rdropWhile_concat_neg _ _ _ (by simp [hb])
  | append_singleton q x ih =>
    have hassoc : p ++ b :: (q ++ [x]) = (p ++ b :: q) ++ [x] := by simp
    by_cases hx : trim x = true
    · rw [hassoc, List.rdropWhile_concat_pos _ _ _ hx, List.rdropWhile_concat_pos _ _ _ hx, ih]
    · rw [hassoc, List.rdropWhile_concat_neg _ _ _ hx, List.rdropWhile_concat_neg _ _ _ hx,
        ← hassoc]

lemma rdropWhile_append_of_all {m : List α} (h : ∀ x ∈ m, trim x = true) :
    (l ++ m).rdropWhile trim = l.rdropWhile trim := by
  induction m using List.reverseRecOn with
  | nil => rw [List.append_nil]
  | append_singleton m x ih =>
    rw [← List.append_assoc, List.rdropWhile_concat_pos _ _ _ (h x (by simp))]
    exact ih fun y hy => h y (by simp [hy])

section Disjoint

variable (hdisjoint : ∀ x, trim x = true → mark x = false)

include hdisjoint

lemma countP_rdropWhile (l : List α) : (l.rdropWhile trim).countP mark = l.countP mark := by
  induction l using List.reverseRecOn with
  | nil => rfl
  | append_singleton l x ih =>
    by_cases hx : trim x = true
    · rw [List.rdropWhile_concat_pos _ _ _ hx, ih, List.countP_append]
      simp [hdisjoint x hx]
    · rw [List.rdropWhile_concat_neg _ _ _ hx]

lemma countP_dropLastMarked (k : ℕ) (l : List α) :
    (dropLastMarked mark trim k l).countP mark = l.countP mark - k := by
  rcases Nat.eq_zero_or_pos k with rfl | hpos
  · rw [dropLastMarked_zero, Nat.sub_zero]
  · by_cases hk : l.countP mark ≤ k
    · rw [dropLastMarked_of_countP_le hpos hk, countP_takeWhile_not]
      omega
    · obtain ⟨u, b, v, rfl, hb, hcount⟩ := exists_marked_cut hpos (by omega : k ≤ l.countP mark)
      rw [List.countP_append] at hk ⊢
      rw [dropLastMarked_cut hb hcount (by omega), countP_rdropWhile hdisjoint]
      omega

lemma dropLastMarked_append {k : ℕ} {b : α} (hb : mark b = true) (p q : List α)
    (hk : k < (b :: q).countP mark) :
    ∃ q', dropLastMarked mark trim k (p ++ b :: q) = p ++ b :: q' ∧
      (b :: q').countP mark = (b :: q).countP mark - k := by
  have hbtrim : trim b = false := by
    by_contra h
    simp [hdisjoint b (by simpa using h)] at hb
  rcases Nat.eq_zero_or_pos k with rfl | hpos
  · exact ⟨q, dropLastMarked_zero _, rfl⟩
  · -- the cut falls on a younger mark, so it lies inside `q`
    have hq : k ≤ q.countP mark := by
      rw [List.countP_cons_of_pos hb] at hk
      omega
    obtain ⟨u, c, v, rfl, hc, hcount⟩ := exists_marked_cut hpos hq
    have hsplit : p ++ b :: (u ++ c :: v) = (p ++ b :: u) ++ c :: v := by simp
    have hu : 0 < (p ++ b :: u).countP mark := by
      rw [List.countP_append, List.countP_cons_of_pos hb]
      omega
    refine ⟨u.rdropWhile trim, ?_, ?_⟩
    · rw [hsplit, dropLastMarked_cut hc hcount hu, rdropWhile_append_cons hbtrim]
    · rw [List.countP_cons_of_pos hb, List.countP_cons_of_pos hb, List.countP_append,
        countP_rdropWhile hdisjoint, hcount]
      omega

lemma takeWhile_prefix_dropLastMarked (k : ℕ) (l : List α) :
    l.takeWhile (!mark ·) <+: dropLastMarked mark trim k l := by
  rcases Nat.eq_zero_or_pos k with rfl | hpos
  · rw [dropLastMarked_zero]
    exact List.takeWhile_prefix _
  · by_cases hk : l.countP mark ≤ k
    · exact (dropLastMarked_of_countP_le hpos hk).symm ▸ List.prefix_rfl
    · obtain ⟨u, b, v, rfl, hb, hcount⟩ := exists_marked_cut hpos (by omega : k ≤ l.countP mark)
      have hu : 0 < u.countP mark := by
        rw [List.countP_append] at hk
        omega
      have htrimmed : 0 < (u.rdropWhile trim).countP mark := by
        rwa [countP_rdropWhile hdisjoint]
      obtain ⟨rest, hrest⟩ := List.rdropWhile_prefix trim u
      rw [dropLastMarked_cut hb hcount hu, takeWhile_not_append hu]
      nth_rewrite 1 [← hrest]
      rw [takeWhile_not_append htrimmed]
      exact List.takeWhile_prefix _

/-- Cutting twice is cutting once: trimming above the first cut opens and closes no turn. -/
theorem dropLastMarked_add (n m : ℕ) (l : List α) :
    dropLastMarked mark trim m (dropLastMarked mark trim n l) =
      dropLastMarked mark trim (n + m) l := by
  rcases Nat.eq_zero_or_pos m with rfl | hm
  · rw [dropLastMarked_zero, Nat.add_zero]
  rcases Nat.eq_zero_or_pos n with rfl | hn
  · rw [dropLastMarked_zero, Nat.zero_add]
  have hnm : 0 < n + m := by omega
  by_cases hall : l.countP mark ≤ n
  · -- the first cut leaves the preamble, which has no turn to cut
    have hzero : (l.takeWhile (!mark ·)).countP mark ≤ m := by
      rw [countP_takeWhile_not]
      omega
    rw [dropLastMarked_of_countP_le hn hall, dropLastMarked_of_countP_le hm hzero,
      dropLastMarked_of_countP_le hnm (by omega), List.takeWhile_idem]
  · obtain ⟨u, b, v, rfl, hb, hcount⟩ := exists_marked_cut hn (by omega : n ≤ l.countP mark)
    rw [List.countP_append] at hall
    have hu : 0 < u.countP mark := by omega
    rw [dropLastMarked_cut hb hcount hu]
    by_cases hrest : u.countP mark ≤ m
    · have htrimmed :
          (u.rdropWhile trim).countP mark = u.countP mark := countP_rdropWhile hdisjoint u
      obtain ⟨w, hw⟩ := List.rdropWhile_prefix trim u
      have hpre : u.takeWhile (!mark ·) = (u.rdropWhile trim).takeWhile (!mark ·) := by
        nth_rewrite 1 [← hw]
        exact takeWhile_not_append (by omega) w
      rw [dropLastMarked_of_countP_le hm (by omega), dropLastMarked_of_countP_le hnm ?_,
        takeWhile_not_append hu, hpre]
      rw [List.countP_append]
      omega
    · obtain ⟨p, c, q, rfl, hc, hqcount⟩ := exists_marked_cut hm (by omega : m ≤ u.countP mark)
      have hctrim : trim c = false := by
        by_contra h
        simp [hdisjoint c (by simpa using h)] at hc
      rw [List.countP_append] at hrest
      have hp : 0 < p.countP mark := by omega
      have hqtrimmed : (c :: q.rdropWhile trim).countP mark = m := by
        rw [← hqcount, List.countP_cons_of_pos hc, List.countP_cons_of_pos hc,
          countP_rdropWhile hdisjoint]
      have hwhole : (p ++ c :: q) ++ b :: v = p ++ c :: (q ++ b :: v) := by simp
      have hboth : (c :: (q ++ b :: v)).countP mark = n + m := by
        rw [← List.cons_append, List.countP_append, hqcount, hcount, Nat.add_comm]
      rw [rdropWhile_append_cons hctrim, dropLastMarked_cut hc hqtrimmed hp, hwhole,
        dropLastMarked_cut hc hboth hp]

lemma filter_rdropWhile {p : α → Bool} (hmark : ∀ x, p x = true → mark x = true)
    (l : List α) : (l.rdropWhile trim).filter p = l.filter p := by
  induction l using List.reverseRecOn with
  | nil => rfl
  | append_singleton l x ih =>
    by_cases hx : trim x = true
    · have hp : ¬ p x = true := by
        intro hp
        have hmarked := hmark x hp
        simp [hdisjoint x hx] at hmarked
      rw [List.rdropWhile_concat_pos _ _ _ hx, ih, List.filter_append, List.filter_cons_of_neg hp]
      exact (List.append_nil _).symm
    · rw [List.rdropWhile_concat_neg _ _ _ hx]

/-- The marked elements of one sort: those among the last `k` marks go. -/
theorem filter_dropLastMarked {p : α → Bool} (hmark : ∀ x, p x = true → mark x = true) (k : ℕ)
    (l : List α) : (dropLastMarked mark trim k l).filter p =
      (l.filter p).take ((l.filter p).length - ((l.filter mark).rtake k).countP p) := by
  have hsub : ∀ l : List α, (l.filter mark).countP p = (l.filter p).length := by
    intro l
    rw [List.countP_filter, List.countP_eq_length_filter]
    refine congrArg List.length (List.filter_congr fun x _ => ?_)
    by_cases hx : p x = true
    · rw [hx, hmark x hx]
      rfl
    · rw [Bool.not_eq_true] at hx
      rw [hx]
      rfl
  rcases Nat.eq_zero_or_pos k with rfl | hpos
  · rw [dropLastMarked_zero, List.rtake_zero, List.countP_nil, Nat.sub_zero, List.take_length]
  · by_cases hk : l.countP mark ≤ k
    · have hall : (l.filter mark).rtake k = l.filter mark := by
        rw [List.countP_eq_length_filter] at hk
        rw [List.rtake, Nat.sub_eq_zero_of_le hk, List.drop_zero]
      rw [dropLastMarked_of_countP_le hpos hk, hall, hsub, Nat.sub_self, List.take_zero]
      refine List.filter_eq_nil_iff.mpr fun x hx hp => ?_
      have hnot := List.mem_takeWhile_imp hx
      simp [hmark x hp] at hnot
    · obtain ⟨u, b, v, rfl, hb, hcount⟩ := exists_marked_cut hpos (by omega : k ≤ l.countP mark)
      have hu : 0 < u.countP mark := by
        rw [List.countP_append] at hk
        omega
      have hlast : ((u ++ b :: v).filter mark).rtake k = (b :: v).filter mark := by
        rw [List.countP_eq_length_filter] at hcount
        rw [List.rtake, List.filter_append, List.length_append, hcount, Nat.add_sub_cancel,
          List.drop_left]
      rw [dropLastMarked_cut hb hcount hu, filter_rdropWhile hdisjoint hmark, hlast, hsub,
        List.filter_append, List.length_append, Nat.add_sub_cancel, List.take_left]

end Disjoint

end Codex.Lib
