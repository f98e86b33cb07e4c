import Mathlib.Data.List.Sort
import Mathlib.Data.List.Destutter

/-!
# Sorting by a key

`sort_by` with the comparison of a key, and `dedup_by` with its equality, as the Rust standard
library has them: the sort is stable, and the first of several neighbours with one key is kept.

* `sortByKey_map`: the key is all that matters;
* `dedupByKey_sortByKey_perm`, `length_dedupByKey_sortByKey_iff`: after sorting, nothing is dropped
  exactly when the keys are distinct.
-/

namespace Codex.Lib

variable {α β κ : Type} [LinearOrder κ] (key : α → κ) {l l' : List α}

/-- `sort_by` with the order of a key. -/
def sortByKey (l : List α) : List α := l.insertionSort fun a b => key a ≤ key b

/-- `dedup_by` with the equality of a key. -/
def dedupByKey (l : List α) : List α := l.destutter fun a b => key a ≠ key b

lemma sortByKey_perm (l : List α) : (sortByKey key l).Perm l := List.perm_insertionSort _ l

lemma mem_sortByKey {a : α} : a ∈ sortByKey key l ↔ a ∈ l := (sortByKey_perm key l).mem_iff

lemma sortByKey_sorted (l : List α) : (sortByKey key l).Pairwise fun a b => key a ≤ key b := by
  have htotal : Std.Total fun a b : α => key a ≤ key b := ⟨fun a b => le_total (key a) (key b)⟩
  have htrans : IsTrans α fun a b => key a ≤ key b := ⟨fun _ _ _ => le_trans⟩
  exact List.pairwise_insertionSort _ l

lemma sortByKey_strict (hnodup : (l.map key).Nodup) :
    (sortByKey key l).Pairwise fun a b => key a < key b := by
  have hsorted := sortByKey_sorted key l
  have hnodup' : ((sortByKey key l).map key).Nodup :=
    ((sortByKey_perm key l).map key).nodup_iff.mpr hnodup
  rw [List.Nodup, List.pairwise_map] at hnodup'
  exact (hsorted.and hnodup').imp fun h => lt_of_le_of_ne h.1 h.2

/-- **The order of the list does not matter** where the keys are distinct. -/
theorem sortByKey_eq_of_perm (hperm : l.Perm l') (hnodup : (l.map key).Nodup) :
    sortByKey key l = sortByKey key l' := by
  have hnodup' : (l'.map key).Nodup := (hperm.map key).nodup_iff.mp hnodup
  refine List.Perm.eq_of_pairwise ?_ (sortByKey_strict key hnodup) (sortByKey_strict key hnodup')
    ((sortByKey_perm key l).trans (hperm.trans (sortByKey_perm key l').symm))
  intro a b _ _ hab hba
  exact absurd hba hab.asymm

lemma sortByKey_map {key' : β → κ} (f : α → β) (hkey : ∀ a, key' (f a) = key a) :
    sortByKey key' (l.map f) = (sortByKey key l).map f := by
  refine (List.map_insertionSort _ _ f l ?_).symm
  intro a _ b _
  rw [hkey, hkey]

/-- Nothing is dropped where the keys are distinct. -/
theorem dedupByKey_sortByKey_of_nodup (hnodup : (l.map key).Nodup) :
    dedupByKey key (sortByKey key l) = sortByKey key l := by
  apply List.destutter_of_isChain
  exact ((sortByKey_strict key hnodup).imp fun h => h.ne).isChain

/-- **Nothing is dropped exactly when the keys are distinct.** -/
theorem length_dedupByKey_sortByKey_iff :
    (dedupByKey key (sortByKey key l)).length = l.length ↔ (l.map key).Nodup := by
  have hlength := (sortByKey_perm key l).length_eq
  constructor
  · intro h
    have heq : dedupByKey key (sortByKey key l) = sortByKey key l :=
      (List.destutter_sublist _ _).eq_of_length (h.trans hlength.symm)
    have hchain : (sortByKey key l).IsChain fun a b => key a ≠ key b := by
      rw [← heq]
      exact List.isChain_destutter _ _
    have hstrict : (sortByKey key l).IsChain fun a b => key a < key b := by
      have hsorted := (sortByKey_sorted key l).isChain
      rw [List.isChain_iff_getElem] at hchain hsorted ⊢
      exact fun i hi => lt_of_le_of_ne (hsorted i hi) (hchain i hi)
    have htrans : IsTrans α fun a b => key a < key b := ⟨fun _ _ _ => lt_trans⟩
    have hnodup : ((sortByKey key l).map key).Nodup := by
      rw [List.Nodup, List.pairwise_map]
      exact hstrict.pairwise.imp fun h => h.ne
    exact ((sortByKey_perm key l).map key).nodup_iff.mp hnodup
  · intro h
    rw [dedupByKey_sortByKey_of_nodup key h, hlength]

end Codex.Lib
