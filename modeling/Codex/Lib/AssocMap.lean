import Mathlib.Data.List.AList
import Mathlib.Algebra.BigOperators.Group.List.Basic
import Mathlib.Algebra.GroupWithZero.Nat

/-!
# The size of an association list

Mathlib's `AList` is a map with finitely many keys; here is how its operations change the number of
entries, and the total weight of the values.

* `entries_length_insert_le`, `entries_length_insert_of_mem`: an insertion;
* `entries_length_erase_le`, `entries_length_erase_lt`: a removal;
* `weight_insert`, `weight_erase`, `weight_eq_sum`: the sum of a measure over the values;
* `weight_insert_lookup`, `weight_erase_lookup`: the same with the value that was there before;
* `lookup_insert_eq_ite`, `lookup_erase_eq_ite`: what is found after an operation.
-/

namespace Codex.Lib

variable {α : Type} {β : α → Type} {s : AList β} {a : α} {b : β a}

lemma entries_length_eq (s : AList β) : s.entries.length = s.keys.length := (List.length_map _).symm

variable [DecidableEq α]

lemma entries_length_erase_le : (s.erase a).entries.length ≤ s.entries.length := by
  rw [entries_length_eq, entries_length_eq, AList.keys_erase]
  exact List.length_erase_le

lemma entries_length_erase_lt (h : a ∈ s) : (s.erase a).entries.length < s.entries.length := by
  have hmem : a ∈ s.keys := h
  rw [entries_length_eq, entries_length_eq, AList.keys_erase, List.length_erase_of_mem hmem]
  exact Nat.sub_lt (List.length_pos_of_mem hmem) Nat.one_pos

lemma entries_length_insert_le : (s.insert a b).entries.length ≤ s.entries.length + 1 := by
  rw [entries_length_eq, entries_length_eq, AList.keys_insert, List.length_cons]
  exact Nat.succ_le_succ List.length_erase_le

lemma entries_length_insert_of_mem (h : a ∈ s) :
    (s.insert a b).entries.length = s.entries.length := by
  have hmem : a ∈ s.keys := h
  rw [entries_length_eq, entries_length_eq, AList.keys_insert, List.length_cons,
    List.length_erase_of_mem hmem]
  exact Nat.sub_add_cancel (List.length_pos_of_mem hmem)

lemma entries_length_insert_of_notMem (h : a ∉ s) :
    (s.insert a b).entries.length = s.entries.length + 1 := by
  have hmem : a ∉ s.keys := h
  rw [entries_length_eq, entries_length_eq, AList.keys_insert, List.length_cons,
    List.erase_of_not_mem hmem]

lemma entries_length_erase_of_mem (h : a ∈ s) :
    (s.erase a).entries.length + 1 = s.entries.length := by
  have hmem : a ∈ s.keys := h
  rw [entries_length_eq, entries_length_eq, AList.keys_erase, List.length_erase_of_mem hmem]
  exact Nat.sub_add_cancel (List.length_pos_of_mem hmem)

/-! ### Weights -/

/-- The sum of a measure over all values. -/
def weight (f : ∀ a, β a → ℕ) (s : AList β) : ℕ := (s.entries.map fun e => f e.1 e.2).sum

variable (f : ∀ a, β a → ℕ)

lemma weight_erase (h : s.lookup a = some b) : weight f (s.erase a) + f a b = weight f s := by
  have hmem : a ∈ s.entries.keys := AList.lookup_isSome.mp (Option.isSome_of_eq_some h)
  obtain ⟨b', l₁, l₂, -, hentries, herase⟩ := List.exists_of_kerase hmem
  have hb : b' = b := by
    have hin : ⟨a, b'⟩ ∈ s.entries := by
      rw [hentries]
      exact List.mem_append_right _ List.mem_cons_self
    have hlookup : s.lookup a = some b' := (List.mem_dlookup_iff s.nodupKeys).mpr hin
    exact Option.some.inj (hlookup.symm.trans h)
  subst hb
  have herased : (s.erase a).entries = l₁ ++ l₂ := herase
  unfold weight
  rw [hentries, herased]
  simp only [List.map_append, List.map_cons, List.sum_append, List.sum_cons]
  omega

lemma weight_insert (s : AList β) (a : α) (b : β a) :
    weight f (s.insert a b) = f a b + weight f (s.erase a) := by
  unfold weight
  rw [AList.entries_insert, List.map_cons, List.sum_cons]
  rfl

/-- The weight of a map whose entries are listed once each. -/
theorem weight_eq_sum {γ : Type} {l : List γ} {entry : γ → Sigma β} (hnodup : (l.map entry).Nodup)
    (hmem : ∀ e, e ∈ l.map entry ↔ s.lookup e.1 = some e.2) :
    weight f s = (l.map fun c => f (entry c).1 (entry c).2).sum := by
  have hperm : s.entries.Perm (l.map entry) := by
    rw [List.perm_ext_iff_of_nodup s.nodupKeys.nodup hnodup]
    intro e
    rw [hmem]
    exact (List.mem_dlookup_iff s.nodupKeys).symm
  unfold weight
  rw [(hperm.map _).sum_eq, List.map_map]
  rfl

lemma erase_of_lookup_eq_none (h : s.lookup a = none) : s.erase a = s :=
  AList.ext (List.kerase_of_notMem_keys (AList.lookup_eq_none.mp h))

lemma weight_erase_lookup (s : AList β) (a : α) :
    weight f (s.erase a) + (s.lookup a).elim 0 (f a) = weight f s := by
  cases hlookup : s.lookup a with
  | none => rw [erase_of_lookup_eq_none hlookup, Option.elim_none, Nat.add_zero]
  | some b => exact weight_erase f hlookup

lemma weight_insert_lookup (s : AList β) (a : α) (b : β a) :
    weight f (s.insert a b) + (s.lookup a).elim 0 (f a) = weight f s + f a b := by
  have herase := weight_erase_lookup f s a
  rw [weight_insert]
  omega

omit [DecidableEq α] in
lemma weight_indicator (p : ∀ a, β a → Bool) (s : AList β) :
    weight (fun a b => if p a b then 1 else 0) s = s.entries.countP fun e => p e.1 e.2 := by
  unfold weight
  induction s.entries with
  | nil => rfl
  | cons e l ih =>
    rw [List.map_cons, List.sum_cons, List.countP_cons, ih]
    exact Nat.add_comm _ _

/-! ### Lookups -/

section lookups

variable {γ : Type}

lemma lookup_insert_eq_ite (s : AList fun _ : α => γ) (a a' : α) (c : γ) :
    (s.insert a c).lookup a' = if a' = a then some c else s.lookup a' := by
  split_ifs with h
  · subst h
    exact AList.lookup_insert s
  · exact AList.lookup_insert_ne h

lemma lookup_erase_eq_ite (s : AList fun _ : α => γ) (a a' : α) :
    (s.erase a).lookup a' = if a' = a then none else s.lookup a' := by
  split_ifs with h
  · subst h
    exact AList.lookup_erase _ s
  · exact AList.lookup_erase_ne h

lemma forall_entries_iff {s : AList fun _ : α => γ} {p : α → γ → Prop} :
    (∀ e ∈ s.entries, p e.1 e.2) ↔ ∀ a c, s.lookup a = some c → p a c := by
  constructor
  · intro h a c hlookup
    exact h ⟨a, c⟩ (AList.mem_lookup_iff.mp hlookup)
  · intro h e he
    exact h e.1 e.2 (AList.mem_lookup_iff.mpr he)

end lookups

end Codex.Lib
