import Mathlib.Data.List.Infix

/-!
# Lexical resolution of a path

The parts of a path are visited with a stack of the names so far: a part is skipped, is put on the
stack, or takes the last name off, as long as more than `anchor` names are there.

* `resolve_append`: parts are visited one after the other;
* `dotKind_eq_name`: which parts are names where one and two dots are not.
-/

namespace Codex.Lib

/-- What a part of a path asks for. -/
inductive PartKind where
  | skip
  | up
  | name
  deriving DecidableEq

variable {α : Type} (kind : α → PartKind) (anchor : ℕ)

def visitPart (stack : List α) (part : α) : List α :=
  match kind part with
  | .skip => stack
  | .up => if anchor < stack.length then stack.dropLast else stack
  | .name => stack ++ [part]

def resolve (stack parts : List α) : List α := parts.foldl (visitPart kind anchor) stack

@[simp] lemma resolve_nil (stack : List α) : resolve kind anchor stack [] = stack := rfl

@[simp] lemma resolve_cons (stack parts : List α) (part : α) :
    resolve kind anchor stack (part :: parts) =
      resolve kind anchor (visitPart kind anchor stack part) parts := rfl

lemma resolve_append (stack parts rest : List α) :
    resolve kind anchor stack (parts ++ rest) =
      resolve kind anchor (resolve kind anchor stack parts) rest :=
  List.foldl_append

section visit

variable {kind anchor} {stack parts : List α} {part : α}

lemma visitPart_of_skip (h : kind part = .skip) : visitPart kind anchor stack part = stack := by
  simp only [visitPart, h]

lemma visitPart_of_up (h : kind part = .up) :
    visitPart kind anchor stack part =
      if anchor < stack.length then stack.dropLast else stack := by
  simp only [visitPart, h]

lemma visitPart_of_name (h : kind part = .name) :
    visitPart kind anchor stack part = stack ++ [part] := by
  simp only [visitPart, h]

lemma take_prefix_visitPart (h : stack.take anchor <+: parts) :
    stack.take anchor <+: visitPart kind anchor parts part := by
  cases hkind : kind part with
  | skip => rwa [visitPart_of_skip hkind]
  | up =>
    rw [visitPart_of_up hkind]
    split_ifs with hlen
    · rw [List.dropLast_eq_take]
      refine List.prefix_take_iff.mpr ⟨h, ?_⟩
      have := List.length_take_le anchor stack
      omega
    · exact h
  | name =>
    rw [visitPart_of_name hkind]
    exact h.trans (List.prefix_append _ _)

/-- **The first names stay.** -/
theorem take_prefix_resolve (stack parts : List α) :
    stack.take anchor <+: resolve kind anchor stack parts := by
  have hfrom : ∀ parts current : List α, stack.take anchor <+: current →
      stack.take anchor <+: resolve kind anchor current parts := by
    intro parts
    induction parts with
    | nil => exact fun _ h => h
    | cons part parts ih => exact fun current h => ih _ (take_prefix_visitPart h)
  exact hfrom parts stack (List.take_prefix _ _)

lemma resolve_of_forall_ne_up (h : ∀ part ∈ parts, kind part ≠ .up) :
    resolve kind anchor stack parts = stack ++ parts.filter (kind · = .name) := by
  induction parts generalizing stack with
  | nil => simp
  | cons part parts ih =>
    obtain ⟨hpart, hparts⟩ := List.forall_mem_cons.mp h
    rw [resolve_cons, ih hparts]
    cases hkind : kind part with
    | skip => simp [visitPart_of_skip hkind, hkind]
    | up => exact absurd hkind hpart
    | name => simp [visitPart_of_name hkind, hkind]

/-- **What was resolved is its own resolution.** -/
theorem resolve_names (h : ∀ part ∈ parts, kind part = .name) :
    resolve kind anchor stack parts = stack ++ parts := by
  rw [resolve_of_forall_ne_up fun part hpart => by rw [h part hpart]; exact PartKind.noConfusion]
  congr 1
  exact List.filter_eq_self.mpr fun part hpart => decide_eq_true (h part hpart)

/-- A name of the resolution was there or is one of the parts. -/
theorem mem_resolve {name : α} (h : name ∈ resolve kind anchor stack parts) :
    name ∈ stack ∨ name ∈ parts ∧ kind name = .name := by
  induction parts generalizing stack with
  | nil => exact .inl h
  | cons part parts ih =>
    rcases ih h with hvisit | ⟨hmem, hname⟩
    · cases hkind : kind part with
      | skip =>
        rw [visitPart_of_skip hkind] at hvisit
        exact .inl hvisit
      | up =>
        rw [visitPart_of_up hkind] at hvisit
        split_ifs at hvisit
        · exact .inl (List.mem_of_mem_dropLast hvisit)
        · exact .inl hvisit
      | name =>
        rw [visitPart_of_name hkind] at hvisit
        rcases List.mem_append.mp hvisit with hvisit | hvisit
        · exact .inl hvisit
        · obtain rfl := List.mem_singleton.mp hvisit
          exact .inr ⟨List.mem_cons_self, hkind⟩
    · exact .inr ⟨List.mem_cons_of_mem _ hmem, hname⟩

lemma mem_resolve_nil {name : α} (h : name ∈ resolve kind anchor [] parts) :
    name ∈ parts ∧ kind name = .name :=
  (mem_resolve h).resolve_left List.not_mem_nil

end visit

/-! ### Dots -/

/-- One dot and no text are skipped, two dots go up. -/
def dotKind [DecidableEq α] (dot : α) (part : List α) : PartKind :=
  if part = [] ∨ part = [dot] then .skip else if part = [dot, dot] then .up else .name

section dots

variable [DecidableEq α] {dot : α} {part : List α}

lemma dotKind_eq_up : dotKind dot part = .up ↔ part = [dot, dot] := by
  rw [dotKind]
  split_ifs with hskip hup
  · refine iff_of_false nofun ?_
    rintro rfl
    simp at hskip
  · exact iff_of_true rfl hup
  · exact iff_of_false nofun hup

lemma dotKind_eq_name :
    dotKind dot part = .name ↔ part ≠ [] ∧ part ≠ [dot] ∧ part ≠ [dot, dot] := by
  rw [dotKind]
  split_ifs with hskip hup
  · refine iff_of_false nofun fun h => ?_
    rcases hskip with hskip | hskip
    · exact h.1 hskip
    · exact h.2.1 hskip
  · exact iff_of_false nofun fun h => h.2.2 hup
  · rw [not_or] at hskip
    exact iff_of_true rfl ⟨hskip.1, hskip.2, hup⟩

end dots

end Codex.Lib
