import Mathlib.Data.List.Basic

/-!
# Terminated lists and their pieces

`splitInclusive` cuts a list after every terminator (`str::split_inclusive`). A list that ends at a
terminator, or is empty, is `Terminated`; what is appended to such a list is cut by itself.

* `flatten_splitInclusive`: the pieces give the list back;
* `splitInclusive_append`: the pieces of a terminated list, then those of what is appended;
* `Terminated.of_mem_splitInclusive`: every piece of a terminated list is terminated;
* `splitInclusive_flatMap`: lines that are each put before a terminator.
-/

namespace Codex.Lib

variable {α : Type} {sep : α}

/-- The list is empty or ends at the terminator. -/
def Terminated (sep : α) (l : List α) : Prop := ∀ x ∈ l.getLast?, x = sep

namespace Terminated

lemma nil : Terminated sep [] := fun _ hx => absurd hx nofun

lemma concat (l : List α) : Terminated sep (l ++ [sep]) := by
  intro x hx
  rw [List.getLast?_concat] at hx
  exact (Option.some.inj hx).symm

lemma append {l m : List α} (hl : Terminated sep l) (hm : Terminated sep m) :
    Terminated sep (l ++ m) := by
  intro x hx
  by_cases hnil : m = []
  · rw [hnil, List.append_nil] at hx
    exact hl x hx
  · rw [List.getLast?_append_of_ne_nil _ hnil] at hx
    exact hm x hx

lemma flatten {pieces : List (List α)} (h : ∀ piece ∈ pieces, Terminated sep piece) :
    Terminated sep pieces.flatten := by
  induction pieces with
  | nil => exact nil
  | cons piece pieces ih =>
    rw [List.flatten_cons]
    exact (h piece List.mem_cons_self).append
      (ih fun other hother => h other (List.mem_cons_of_mem _ hother))

lemma of_cons {x : α} {l : List α} (h : Terminated sep (x :: l)) : Terminated sep l := by
  cases l with
  | nil => exact nil
  | cons y l => rwa [Terminated, List.getLast?_cons_cons] at h

/-- What is left of a terminated list from any place on. -/
theorem drop {l : List α} (h : Terminated sep l) (n : ℕ) : Terminated sep (l.drop n) := by
  induction n generalizing l with
  | zero => exact h
  | succ n ih =>
    cases l with
    | nil => exact h
    | cons x l => exact ih h.of_cons

end Terminated

variable [DecidableEq α]

/-- The pieces of a list, each up to and with its terminator. -/
def splitInclusive (sep : α) : List α → List (List α)
  | [] => []
  | x :: l =>
    if x = sep then [x] :: splitInclusive sep l
    else
      match splitInclusive sep l with
      | [] => [[x]]
      | piece :: pieces => (x :: piece) :: pieces

lemma splitInclusive_ne_nil {l : List α} (h : l ≠ []) : splitInclusive sep l ≠ [] := by
  cases l with
  | nil => exact absurd rfl h
  | cons x l =>
    rw [splitInclusive]
    split_ifs
    · exact List.cons_ne_nil _ _
    · split
      · exact List.cons_ne_nil _ _
      · exact List.cons_ne_nil _ _

lemma ne_nil_of_mem_splitInclusive {l piece : List α} (h : piece ∈ splitInclusive sep l) :
    piece ≠ [] := by
  induction l generalizing piece with
  | nil => cases h
  | cons x l ih =>
    rw [splitInclusive] at h
    split_ifs at h
    · rcases List.mem_cons.mp h with rfl | hrest
      · exact List.cons_ne_nil _ _
      · exact ih hrest
    · cases hsplit : splitInclusive sep l with
      | nil =>
        rw [hsplit] at h
        rw [List.mem_singleton.mp h]
        exact List.cons_ne_nil _ _
      | cons first pieces =>
        rw [hsplit] at h ih
        rcases List.mem_cons.mp h with rfl | hrest
        · exact List.cons_ne_nil _ _
        · exact ih (List.mem_cons_of_mem _ hrest)

lemma flatten_splitInclusive (sep : α) (l : List α) : (splitInclusive sep l).flatten = l := by
  induction l with
  | nil => rfl
  | cons x l ih =>
    rw [splitInclusive]
    split_ifs
    · rw [List.flatten_cons, ih, List.singleton_append]
    · cases hsplit : splitInclusive sep l with
      | nil =>
        rw [hsplit] at ih
        rw [← ih]
        rfl
      | cons piece pieces =>
        rw [hsplit, List.flatten_cons] at ih
        rw [← ih]
        rfl

lemma splitInclusive_append {l : List α} (h : Terminated sep l) (m : List α) :
    splitInclusive sep (l ++ m) = splitInclusive sep l ++ splitInclusive sep m := by
  induction l with
  | nil => rfl
  | cons x l ih =>
    rw [List.cons_append, splitInclusive, splitInclusive, ih h.of_cons]
    by_cases hx : x = sep
    · rw [if_pos hx, if_pos hx]
      rfl
    · have hl : l ≠ [] := by
        rintro rfl
        exact hx (h x rfl)
      rw [if_neg hx, if_neg hx]
      cases hsplit : splitInclusive sep l with
      | nil => exact absurd hsplit (splitInclusive_ne_nil hl)
      | cons piece pieces => rfl

lemma Terminated.of_mem_splitInclusive {l piece : List α} (h : Terminated sep l)
    (hpiece : piece ∈ splitInclusive sep l) : Terminated sep piece := by
  induction l generalizing piece with
  | nil => cases hpiece
  | cons x l ih =>
    rw [splitInclusive] at hpiece
    by_cases hx : x = sep
    · rw [if_pos hx] at hpiece
      rcases List.mem_cons.mp hpiece with rfl | hrest
      · rw [hx]
        exact Terminated.concat []
      · exact ih h.of_cons hrest
    · rw [if_neg hx] at hpiece
      have hl : l ≠ [] := by
        rintro rfl
        exact hx (h x rfl)
      cases hsplit : splitInclusive sep l with
      | nil => exact absurd hsplit (splitInclusive_ne_nil hl)
      | cons first pieces =>
        rw [hsplit] at hpiece ih
        rcases List.mem_cons.mp hpiece with rfl | hrest
        · have hfirst := ih h.of_cons List.mem_cons_self
          obtain ⟨z, first, rfl⟩ := List.exists_cons_of_ne_nil
            (ne_nil_of_mem_splitInclusive (hsplit ▸ List.mem_cons_self))
          intro y hy
          rw [List.getLast?_cons_cons] at hy
          exact hfirst y hy
        · exact ih h.of_cons (List.mem_cons_of_mem _ hrest)

lemma splitInclusive_concat {l : List α} (h : sep ∉ l) :
    splitInclusive sep (l ++ [sep]) = [l ++ [sep]] := by
  induction l with
  | nil => exact if_pos rfl
  | cons x l ih =>
    rw [List.mem_cons, not_or] at h
    rw [List.cons_append, splitInclusive, if_neg (Ne.symm h.1), ih h.2]

lemma splitInclusive_flatMap {lines : List (List α)} (h : ∀ line ∈ lines, sep ∉ line) :
    splitInclusive sep (lines.flatMap (· ++ [sep])) = lines.map (· ++ [sep]) := by
  induction lines with
  | nil => rfl
  | cons line lines ih =>
    obtain ⟨hline, hlines⟩ := List.forall_mem_cons.mp h
    rw [List.flatMap_cons, splitInclusive_append (Terminated.concat line),
      splitInclusive_concat hline, ih hlines]
    rfl

/-- The pieces are those of `splitOn`, each with its terminator but the last, which is left out
where it is empty. -/
theorem exists_splitOn_eq (sep : α) (l : List α) :
    ∃ pieces last, l.splitOn sep = pieces ++ [last] ∧ sep ∉ last ∧
      splitInclusive sep l = pieces.map (· ++ [sep]) ++ if last = [] then [] else [last] := by
  induction l with
  | nil => exact ⟨[], [], List.splitOn_nil sep, List.not_mem_nil, rfl⟩
  | cons x l ih =>
    obtain ⟨pieces, last, hsplit, hlast, hinclusive⟩ := ih
    rw [List.splitOn_cons_eq_if_modifyHead, hsplit, splitInclusive, hinclusive]
    by_cases hx : x = sep
    · refine ⟨[] :: pieces, last, ?_, hlast, ?_⟩
      · rw [if_pos (beq_iff_eq.mpr hx), List.cons_append]
      · rw [if_pos hx, hx]
        rfl
    · rw [if_neg fun h => hx (beq_iff_eq.mp h), if_neg hx]
      cases pieces with
      | nil =>
        refine ⟨[], x :: last, rfl, fun h => (List.mem_cons.mp h).elim (hx ∘ Eq.symm) hlast, ?_⟩
        by_cases hnil : last = []
        · rw [hnil]
          rfl
        · rw [if_neg hnil]
          rfl
      | cons piece pieces => exact ⟨(x :: piece) :: pieces, last, rfl, hlast, rfl⟩

/-- What is appended does not change the pieces that are terminated. -/
theorem take_splitInclusive_append (l m : List α) :
    (splitInclusive sep (l ++ m)).take (l.count sep) =
      (splitInclusive sep l).take (l.count sep) := by
  induction l with
  | nil => rfl
  | cons x l ih =>
    rw [List.cons_append, splitInclusive, splitInclusive]
    by_cases hx : x = sep
    · rw [if_pos hx, if_pos hx, hx, List.count_cons_self, List.take_succ_cons,
        List.take_succ_cons, ih]
    · rw [if_neg hx, if_neg hx, List.count_cons_of_ne hx]
      cases hcount : l.count sep with
      | zero => rfl
      | succ n =>
        rw [hcount] at ih
        cases hlong : splitInclusive sep (l ++ m) with
        | nil =>
          rw [hlong, List.take_nil] at ih
          cases hshort : splitInclusive sep l with
          | nil => rfl
          | cons piece pieces =>
            rw [hshort] at ih
            exact absurd ih nofun
        | cons piece pieces =>
          rw [hlong] at ih
          cases hshort : splitInclusive sep l with
          | nil =>
            rw [hshort] at ih
            exact absurd ih nofun
          | cons piece' pieces' =>
            rw [hshort] at ih
            obtain ⟨rfl, hrest⟩ := List.cons.inj ih
            rw [List.take_succ_cons, List.take_succ_cons, hrest]

end Codex.Lib
