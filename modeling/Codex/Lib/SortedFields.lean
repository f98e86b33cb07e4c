import Codex.Lib.KeyedList
import Mathlib.Order.Lattice

/-!
# Maps as lists of fields in the order of their keys

A map from keys to values is the list of its fields in the strictly rising order of the keys, so
that two maps with the same fields are equal. `put` writes a field, `without` removes one.
-/

namespace Codex.Lib

variable {κ V : Type} [LinearOrder κ] [BEq κ] [LawfulBEq κ] {fields fields' : List (κ × V)}
  {key key' : κ} {v : V}

/-- The keys rise strictly. -/
def Ascending (fields : List (κ × V)) : Prop := fields.Pairwise fun a b => a.1 < b.1

/-- Writes a field in its place. -/
def put (key : κ) (v : V) : List (κ × V) → List (κ × V)
  | [] => [(key, v)]
  | (key', v') :: fields =>
    if key < key' then (key, v) :: (key', v') :: fields
    else if key' < key then (key', v') :: put key v fields
    else (key, v) :: fields

/-- Removes a field. -/
def without (key : κ) (fields : List (κ × V)) : List (κ × V) :=
  fields.filter fun field => field.1 ≠ key

/-! ### Lookups -/

lemma lookup_put (key key' : κ) (v : V) (fields : List (κ × V)) :
    (put key v fields).lookup key' = if key' = key then some v else fields.lookup key' := by
  induction fields with
  | nil => rw [put, lookup_cons_eq_ite]
  | cons field fields ih =>
    obtain ⟨first, w⟩ := field
    rw [put]
    by_cases hlt : key < first
    · rw [if_pos hlt, lookup_cons_eq_ite]
    by_cases hgt : first < key
    · rw [if_neg hlt, if_pos hgt, lookup_cons_eq_ite, ih, lookup_cons_eq_ite]
      by_cases hkey : key' = first
      · rw [if_pos hkey, if_pos hkey, if_neg (hkey.trans_ne hgt.ne)]
      · rw [if_neg hkey, if_neg hkey]
    · have hfirst : key = first := le_antisymm (not_lt.mp hgt) (not_lt.mp hlt)
      rw [if_neg hlt, if_neg hgt, lookup_cons_eq_ite, lookup_cons_eq_ite, ← hfirst]
      split_ifs <;> rfl

lemma lookup_filter (p : κ → Bool) (key : κ) (fields : List (κ × V)) :
    (fields.filter fun field => p field.1).lookup key =
      if p key then fields.lookup key else none := by
  induction fields with
  | nil => exact (ite_self none).symm
  | cons field fields ih =>
    obtain ⟨first, w⟩ := field
    by_cases hfirst : p first = true
    · rw [List.filter_cons_of_pos (p := fun field : κ × V => p field.1) hfirst,
        lookup_cons_eq_ite, ih, lookup_cons_eq_ite]
      by_cases hkey : key = first
      · rw [if_pos hkey, if_pos hkey, hkey, if_pos hfirst]
      · rw [if_neg hkey, if_neg hkey]
    · rw [List.filter_cons_of_neg (p := fun field : κ × V => p field.1) hfirst, ih,
        lookup_cons_eq_ite]
      by_cases hkey : key = first
      · rw [hkey, if_neg hfirst, if_neg hfirst]
      · rw [if_neg hkey]

omit [BEq κ] [LawfulBEq κ] in
lemma mem_without {key : κ} {fields : List (κ × V)} {field : κ × V} :
    field ∈ without key fields ↔ field ∈ fields ∧ field.1 ≠ key :=
  List.mem_filter.trans (and_congr_right fun _ => decide_eq_true_iff)

lemma lookup_without (key key' : κ) (fields : List (κ × V)) :
    (without key fields).lookup key' = if key' = key then none else fields.lookup key' := by
  rw [without, lookup_filter fun other => decide (other ≠ key)]
  by_cases hkey : key' = key
  · rw [if_pos hkey, if_neg (by simpa using hkey)]
  · rw [if_neg hkey, if_pos (by simpa using hkey)]

/-! ### The order of the keys -/

omit [BEq κ] [LawfulBEq κ] in
lemma Ascending.nodup (h : Ascending fields) : (keysOf fields).Nodup :=
  List.pairwise_map.mpr (h.imp fun hlt => hlt.ne)

omit [BEq κ] [LawfulBEq κ] in
lemma mem_put {field : κ × V} (h : field ∈ put key v fields) :
    field = (key, v) ∨ field ∈ fields := by
  induction fields with
  | nil => exact .inl (List.mem_singleton.mp h)
  | cons first fields ih =>
    obtain ⟨key', v'⟩ := first
    rw [put] at h
    split_ifs at h
    · exact List.mem_cons.mp h
    · rcases List.mem_cons.mp h with hfirst | hrest
      · exact .inr (hfirst ▸ List.mem_cons_self)
      · exact (ih hrest).imp_right (List.mem_cons_of_mem _)
    · exact (List.mem_cons.mp h).imp_right (List.mem_cons_of_mem _)

omit [BEq κ] [LawfulBEq κ] in
lemma Ascending.put (h : Ascending fields) (key : κ) (v : V) : Ascending (put key v fields) := by
  induction fields with
  | nil => exact List.pairwise_singleton _ _
  | cons field fields ih =>
    obtain ⟨key', v'⟩ := field
    obtain ⟨hfirst, hrest⟩ := List.pairwise_cons.mp h
    rw [Lib.put]
    split_ifs with hlt hgt
    · refine List.pairwise_cons.mpr ⟨?_, h⟩
      intro other hother
      rcases List.mem_cons.mp hother with rfl | hother
      · exact hlt
      · exact hlt.trans (hfirst other hother)
    · refine List.pairwise_cons.mpr ⟨?_, ih hrest⟩
      intro other hother
      rcases mem_put hother with rfl | hother
      · exact hgt
      · exact hfirst other hother
    · have hkey : key = key' := le_antisymm (not_lt.mp hgt) (not_lt.mp hlt)
      exact List.pairwise_cons.mpr ⟨hkey ▸ hfirst, hrest⟩

omit [BEq κ] [LawfulBEq κ] in
lemma Ascending.without (h : Ascending fields) (key : κ) : Ascending (without key fields) :=
  h.filter _

lemma Ascending.ext (h : Ascending fields) (h' : Ascending fields')
    (hlookup : ∀ key, fields.lookup key = fields'.lookup key) : fields = fields' := by
  have hmem : ∀ field : κ × V, field ∈ fields ↔ field ∈ fields' := by
    intro field
    rw [mem_iff_lookup h.nodup, mem_iff_lookup h'.nodup, hlookup]
  have hperm : fields.Perm fields' :=
    (List.perm_ext_iff_of_nodup (.of_map _ h.nodup) (.of_map _ h'.nodup)).mpr hmem
  exact hperm.eq_of_pairwise (fun a b _ _ hab hba => absurd hab hba.asymm) h h'

lemma Ascending.put_eq_self (h : Ascending fields) (hlookup : fields.lookup key = some v) :
    Lib.put key v fields = fields := by
  refine (h.put key v).ext h fun other => ?_
  rw [lookup_put]
  split_ifs with hkey
  · rw [hkey, hlookup]
  · rfl

end Codex.Lib
