import Mathlib.Logic.Relation
import Mathlib.Data.List.Basic

/-!
# Worklists

A node is taken from a stack of pending ones; where it was not visited before, its successors are
put on the stack. `worklist` is that loop with a bound on its turns.
-/

namespace Codex.Lib

variable {α : Type} [DecidableEq α]

/-- The visited nodes at the end, absent where the turns do not suffice. The top of the stack is the
head of the list. -/
def worklist (succ : α → List α) : ℕ → List α → List α → Option (List α)
  | _, [], visited => some visited
  | 0, _ :: _, _ => none
  | turns + 1, node :: pending, visited =>
    if node ∈ visited then worklist succ turns pending visited
    else worklist succ turns ((succ node).reverse ++ pending) (node :: visited)

variable {succ : α → List α} {pending visited result : List α} {turns : ℕ}

lemma worklist_nil : worklist succ turns [] visited = some visited := by
  cases turns <;> rfl

/-! ### The loop ends -/

/-- The number of successors of the nodes that were not visited. -/
def unseen (succ : α → List α) (visited : List α) : List α → ℕ
  | [] => 0
  | node :: nodes =>
    (if node ∈ visited then 0 else (succ node).length) + unseen succ visited nodes

lemma unseen_cons_le (succ : α → List α) (visited : List α) (node : α) (nodes : List α) :
    unseen succ (node :: visited) nodes ≤ unseen succ visited nodes := by
  induction nodes with
  | nil => exact Nat.le_refl _
  | cons first nodes ih =>
    refine Nat.add_le_add ?_ ih
    by_cases hfirst : first ∈ visited
    · rw [if_pos (List.mem_cons_of_mem _ hfirst)]
      exact Nat.zero_le _
    · rw [if_neg hfirst]
      split_ifs
      · exact Nat.zero_le _
      · exact Nat.le_refl _

/-- Where a node is visited, its successors move to the stack. -/
theorem unseen_cons_add_le (succ : α → List α) {nodes : List α} {node : α} (hmem : node ∈ nodes)
    (hnew : node ∉ visited) :
    unseen succ (node :: visited) nodes + (succ node).length ≤ unseen succ visited nodes := by
  induction nodes with
  | nil => cases hmem
  | cons first nodes ih =>
    by_cases hfirst : first = node
    · have hrest := unseen_cons_le succ visited node nodes
      rw [unseen, unseen, hfirst, if_pos List.mem_cons_self, if_neg hnew]
      omega
    · have hrest := ih ((List.mem_cons.mp hmem).resolve_left (Ne.symm hfirst))
      have hsame : first ∈ node :: visited ↔ first ∈ visited := by
        rw [List.mem_cons, or_iff_right hfirst]
      rw [unseen, unseen, if_congr hsame rfl rfl, Nat.add_assoc]
      exact Nat.add_le_add_left hrest _

/-- **The loop ends**: every turn takes a node from the stack, and no successor is put there
twice. -/
theorem exists_worklist {nodes : List α} (h : ∀ node, node ∉ nodes → succ node = [])
    (hturns : pending.length + unseen succ visited nodes ≤ turns) :
    ∃ result, worklist succ turns pending visited = some result := by
  induction turns generalizing pending visited with
  | zero =>
    cases pending with
    | nil => exact ⟨visited, rfl⟩
    | cons node pending =>
      rw [List.length_cons] at hturns
      omega
  | succ turns ih =>
    cases pending with
    | nil => exact ⟨visited, rfl⟩
    | cons node pending =>
      rw [List.length_cons] at hturns
      rw [worklist]
      split_ifs with hvisited
      · exact ih (by omega)
      · refine ih ?_
        rw [List.length_append, List.length_reverse]
        by_cases hmem : node ∈ nodes
        · have hmoved := unseen_cons_add_le succ hmem hvisited
          omega
        · have hless := unseen_cons_le succ visited node nodes
          rw [h node hmem, List.length_nil]
          omega

lemma worklist_mono {turns' : ℕ} (h : worklist succ turns pending visited = some result)
    (hle : turns ≤ turns') : worklist succ turns' pending visited = some result := by
  induction turns generalizing pending visited turns' with
  | zero =>
    cases pending with
    | nil => rwa [worklist_nil] at h ⊢
    | cons node pending => cases h
  | succ turns ih =>
    cases turns' with
    | zero => exact absurd hle (Nat.not_succ_le_zero turns)
    | succ turns' =>
      cases pending with
      | nil => rwa [worklist_nil] at h ⊢
      | cons node pending =>
        rw [worklist] at h ⊢
        split_ifs at h ⊢
        · exact ih h (Nat.le_of_succ_le_succ hle)
        · exact ih h (Nat.le_of_succ_le_succ hle)

/-! ### What is visited -/

/-- A step to a successor. -/
def IsSucc (succ : α → List α) (a b : α) : Prop := b ∈ succ a

/-- The loop keeps what holds of its stack and its visited nodes, if a turn does. -/
theorem worklist_induct {I : List α → List α → Prop}
    (hskip : ∀ {node pending visited}, I (node :: pending) visited → node ∈ visited →
      I pending visited)
    (hvisit : ∀ {node pending visited}, I (node :: pending) visited → node ∉ visited →
      I ((succ node).reverse ++ pending) (node :: visited))
    (h : worklist succ turns pending visited = some result) (hI : I pending visited) :
    I [] result := by
  induction turns generalizing pending visited with
  | zero =>
    cases pending with
    | nil => exact Option.some.inj h ▸ hI
    | cons node pending => cases h
  | succ turns ih =>
    cases pending with
    | nil => exact Option.some.inj h ▸ hI
    | cons node pending =>
      rw [worklist] at h
      split_ifs at h with hvisited
      · exact ih h (hskip hI hvisited)
      · exact ih h (hvisit hI hvisited)

variable (h : worklist succ turns pending [] = some result)
include h

/-- What was pending is visited at the end, with the successors of what is visited. -/
theorem closed_of_worklist :
    (∀ node ∈ pending, node ∈ result) ∧ ∀ node ∈ result, ∀ next ∈ succ node, next ∈ result := by
  have hend := worklist_induct (I := fun pending' visited =>
      (∀ node ∈ pending, node ∈ visited ∨ node ∈ pending') ∧
        ∀ node ∈ visited, ∀ next ∈ succ node, next ∈ visited ∨ next ∈ pending')
    ?_ ?_ h ⟨fun _ => Or.inr, fun _ hnode => absurd hnode List.not_mem_nil⟩
  · simpa only [List.not_mem_nil, or_false] using hend
  · intro node pending' visited hI hvisited
    have hstill : ∀ other, other ∈ visited ∨ other ∈ node :: pending' →
        other ∈ visited ∨ other ∈ pending' := by
      rintro other (hother | hother)
      · exact .inl hother
      · rcases List.mem_cons.mp hother with rfl | hother
        · exact .inl hvisited
        · exact .inr hother
    exact ⟨fun other hother => hstill other (hI.1 other hother),
      fun other hother next hnext => hstill next (hI.2 other hother next hnext)⟩
  · intro node pending' visited hI _
    have hstill : ∀ other, other ∈ visited ∨ other ∈ node :: pending' →
        other ∈ node :: visited ∨ other ∈ (succ node).reverse ++ pending' := by
      rintro other (hother | hother)
      · exact .inl (List.mem_cons_of_mem _ hother)
      · rcases List.mem_cons.mp hother with rfl | hother
        · exact .inl List.mem_cons_self
        · exact .inr (List.mem_append_right _ hother)
    refine ⟨fun other hother => hstill other (hI.1 other hother), ?_⟩
    intro other hother next hnext
    rcases List.mem_cons.mp hother with rfl | hother
    · exact .inr (List.mem_append_left _ (List.mem_reverse.mpr hnext))
    · exact hstill next (hI.2 other hother next hnext)

/-- **What is visited at the end is what can be reached.** -/
theorem mem_worklist_iff {node : α} :
    node ∈ result ↔ ∃ start ∈ pending, Relation.ReflTransGen (IsSucc succ) start node := by
  constructor
  · have hsound := worklist_induct (I := fun pending' visited => ∀ node ∈ visited ++ pending',
        ∃ start ∈ pending, Relation.ReflTransGen (IsSucc succ) start node)
      ?_ ?_ h fun node hnode => ⟨node, hnode, .refl⟩
    · intro hnode
      exact hsound node (List.mem_append_left _ hnode)
    · intro first pending' visited hI _ other hother
      refine hI other ?_
      rcases List.mem_append.mp hother with hother | hother
      · exact List.mem_append_left _ hother
      · exact List.mem_append_right _ (List.mem_cons_of_mem _ hother)
    · intro first pending' visited hI _ other hother
      have hfirst := hI first (List.mem_append_right _ List.mem_cons_self)
      simp only [List.mem_append, List.mem_cons, List.mem_reverse] at hother
      rcases hother with (rfl | hother) | hother | hother
      · exact hfirst
      · exact hI other (List.mem_append_left _ hother)
      · obtain ⟨start, hstart, hreach⟩ := hfirst
        exact ⟨start, hstart, hreach.tail hother⟩
      · exact hI other (List.mem_append_right _ (List.mem_cons_of_mem _ hother))
  · rintro ⟨start, hstart, hreach⟩
    obtain ⟨hpending, hclosed⟩ := closed_of_worklist h
    induction hreach with
    | refl => exact hpending start hstart
    | tail _ hnext ih => exact hclosed _ ih _ hnext

end Codex.Lib
