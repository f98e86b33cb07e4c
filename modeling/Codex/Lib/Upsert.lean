import Mathlib.Data.List.AList

/-!
# Tables of keyed rows

A table is a list of rows, each with a key; `upsert` replaces the row with the key of the new one in
its place, or appends. A log of upserts may be coalesced: of the rows with one key only the last is
kept, at the place of the first. `Slots` does that with an index from keys to places, where a
removed row leaves its slot empty.
-/

namespace Codex.Lib

variable {α κ : Type} [DecidableEq κ] {key : α → κ}

/-- The row replaces the one with its key, or is appended. -/
def upsert (key : α → κ) (x : α) : List α → List α
  | [] => [x]
  | y :: l => if key y = key x then x :: l else y :: upsert key x l

/-- The rows of a log, one after the other. -/
def upsertAll (key : α → κ) (log table : List α) : List α :=
  log.foldl (fun table x => upsert key x table) table

lemma upsertAll_nil (table : List α) : upsertAll key [] table = table := rfl

lemma upsertAll_cons (x : α) (log table : List α) :
    upsertAll key (x :: log) table = upsertAll key log (upsert key x table) :=
  List.foldl_cons ..

lemma upsertAll_append (log log' table : List α) :
    upsertAll key (log ++ log') table = upsertAll key log' (upsertAll key log table) :=
  List.foldl_append

/-! ### One row -/

variable {l : List α} {x : α}

lemma upsert_of_notMem (h : key x ∉ l.map key) : upsert key x l = l ++ [x] := by
  induction l with
  | nil => rfl
  | cons y l ih =>
    rw [List.map_cons, List.mem_cons, not_or] at h
    rw [upsert, if_neg (Ne.symm h.1), ih h.2, List.cons_append]

lemma upsert_append_cons {x y : α} {l l' : List α} (h : key x ∉ l.map key)
    (hkey : key y = key x) : upsert key x (l ++ y :: l') = l ++ x :: l' := by
  induction l with
  | nil => exact if_pos hkey
  | cons z l ih =>
    rw [List.map_cons, List.mem_cons, not_or] at h
    rw [List.cons_append, upsert, if_neg (Ne.symm h.1), ih h.2, List.cons_append]

/-- A row that is replaced is the first with its key. -/
theorem exists_of_mem_keys {k : κ} (h : k ∈ l.map key) :
    ∃ l₁ y l₂, l = l₁ ++ y :: l₂ ∧ key y = k ∧ k ∉ l₁.map key := by
  induction l with
  | nil => cases h
  | cons z l ih =>
    by_cases hz : key z = k
    · exact ⟨[], z, l, rfl, hz, List.not_mem_nil⟩
    · rw [List.map_cons, List.mem_cons] at h
      obtain ⟨l₁, y, l₂, rfl, hy, hl₁⟩ := ih (h.resolve_left (Ne.symm hz))
      refine ⟨z :: l₁, y, l₂, rfl, hy, ?_⟩
      rw [List.map_cons, List.mem_cons, not_or]
      exact ⟨Ne.symm hz, hl₁⟩

lemma keys_upsert_of_mem (h : key x ∈ l.map key) : (upsert key x l).map key = l.map key := by
  obtain ⟨l₁, y, l₂, rfl, hy, hl₁⟩ := exists_of_mem_keys h
  rw [upsert_append_cons hl₁ hy]
  simp [hy]

lemma keys_upsert_of_notMem (h : key x ∉ l.map key) :
    (upsert key x l).map key = l.map key ++ [key x] := by
  rw [upsert_of_notMem h, List.map_append]
  rfl

lemma nodup_keys_upsert (x : α) (h : (l.map key).Nodup) : ((upsert key x l).map key).Nodup := by
  by_cases hmem : key x ∈ l.map key
  · rwa [keys_upsert_of_mem hmem]
  · rw [keys_upsert_of_notMem hmem]
    rw [← List.concat_eq_append]
    exact h.concat hmem

lemma mem_keys_upsert {k : κ} : k ∈ (upsert key x l).map key ↔ k = key x ∨ k ∈ l.map key := by
  by_cases hmem : key x ∈ l.map key
  · rw [keys_upsert_of_mem hmem]
    refine ⟨Or.inr, ?_⟩
    rintro (rfl | h)
    · exact hmem
    · exact h
  · rw [keys_upsert_of_notMem hmem, List.mem_append, List.mem_singleton]
    exact or_comm

lemma mem_upsert {x z : α} (h : z ∈ upsert key x l) : z = x ∨ z ∈ l := by
  by_cases hmem : key x ∈ l.map key
  · obtain ⟨l₁, y, l₂, rfl, hy, hl₁⟩ := exists_of_mem_keys hmem
    rw [upsert_append_cons hl₁ hy, List.mem_append, List.mem_cons] at h
    rw [List.mem_append, List.mem_cons]
    rcases h with h | h | h
    · exact .inr (.inl h)
    · exact .inl h
    · exact .inr (.inr (.inr h))
  · rw [upsert_of_notMem hmem, List.mem_append, List.mem_singleton] at h
    exact h.symm

/-- What is read off the rows is a table too, where its keys tell rows apart as theirs do. -/
theorem map_upsert {β κ' : Type} [DecidableEq κ'] {key' : β → κ'} {f : α → β}
    (h : ∀ y ∈ l, key y = key x ↔ key' (f y) = key' (f x)) :
    (upsert key x l).map f = upsert key' (f x) (l.map f) := by
  induction l with
  | nil => rfl
  | cons y l ih =>
    have hy := h y List.mem_cons_self
    by_cases hkey : key y = key x
    · rw [upsert, if_pos hkey, List.map_cons, List.map_cons, upsert, if_pos (hy.mp hkey)]
    · rw [upsert, if_neg hkey, List.map_cons, List.map_cons, upsert, if_neg (hkey ∘ hy.mpr),
        ih fun z hz => h z (List.mem_cons_of_mem _ hz)]

/-! ### Choosing rows by their keys -/

section choose

variable {p : α → Bool} (hp : ∀ a b, key a = key b → p a = p b)
include hp

lemma filter_upsert_of_neg {x : α} (h : p x = false)
    (l : List α) : (upsert key x l).filter p = l.filter p := by
  by_cases hmem : key x ∈ l.map key
  · obtain ⟨l₁, y, l₂, rfl, hy, hl₁⟩ := exists_of_mem_keys hmem
    have hpy : p y = false := (hp y x hy).trans h
    rw [upsert_append_cons hl₁ hy, List.filter_append, List.filter_append,
      List.filter_cons_of_neg (Bool.not_eq_true _ ▸ h),
      List.filter_cons_of_neg (Bool.not_eq_true _ ▸ hpy)]
  · rw [upsert_of_notMem hmem, List.filter_append, List.filter_cons, h]
    exact List.append_nil _

lemma filter_upsert_of_pos {x : α} (h : p x = true)
    (l : List α) : (upsert key x l).filter p = upsert key x (l.filter p) := by
  by_cases hmem : key x ∈ l.map key
  · obtain ⟨l₁, y, l₂, rfl, hy, hl₁⟩ := exists_of_mem_keys hmem
    have hpy : p y = true := (hp y x hy).trans h
    have hfilter : key x ∉ (l₁.filter p).map key :=
      fun hin => hl₁ (List.map_subset key (List.filter_subset_self _) hin)
    rw [upsert_append_cons hl₁ hy, List.filter_append, List.filter_append,
      List.filter_cons_of_pos h, List.filter_cons_of_pos hpy, upsert_append_cons hfilter hy]
  · have hfilter : key x ∉ (l.filter p).map key :=
      fun hin => hmem (List.map_subset key (List.filter_subset_self _) hin)
    rw [upsert_of_notMem hmem, upsert_of_notMem hfilter, List.filter_append,
      List.filter_cons_of_pos h, List.filter_nil]

/-- **Rows chosen by their keys** do not see the others. -/
theorem filter_upsertAll (log table : List α) :
    (upsertAll key log table).filter p = upsertAll key (log.filter p) (table.filter p) := by
  induction log generalizing table with
  | nil => rfl
  | cons x log ih =>
    rw [upsertAll_cons, ih]
    by_cases hx : p x = true
    · rw [List.filter_cons_of_pos hx, upsertAll_cons, filter_upsert_of_pos hp hx]
    · rw [List.filter_cons_of_neg hx, filter_upsert_of_neg hp (Bool.not_eq_true _ ▸ hx)]

end choose

/-! ### Coalescing -/

lemma upsert_upsert {x y : α} (h : key y = key x) (l : List α) :
    upsert key x (upsert key y l) = upsert key x l := by
  by_cases hmem : key y ∈ l.map key
  · obtain ⟨l₁, z, l₂, rfl, hz, hl₁⟩ := exists_of_mem_keys hmem
    rw [upsert_append_cons hl₁ hz, upsert_append_cons (h ▸ hl₁) h,
      upsert_append_cons (h ▸ hl₁) (hz.trans h)]
  · rw [upsert_of_notMem hmem, upsert_append_cons (h ▸ hmem) h, upsert_of_notMem (h ▸ hmem)]

/-- A row that is there is replaced before or after another one. -/
theorem upsert_comm {x z : α} (hne : key z ≠ key x) {l : List α} (hmem : key x ∈ l.map key) :
    upsert key x (upsert key z l) = upsert key z (upsert key x l) := by
  induction l with
  | nil => cases hmem
  | cons y l ih =>
    by_cases hy : key y = key x
    · have hyz : key y ≠ key z := fun h => hne (h.symm.trans hy)
      rw [upsert, if_neg hyz, upsert, if_pos hy, upsert, if_pos hy, upsert, if_neg (Ne.symm hne)]
    · rw [List.map_cons, List.mem_cons] at hmem
      by_cases hyz : key y = key z
      · rw [upsert, if_pos hyz, upsert, if_neg hne, upsert, if_neg hy, upsert, if_pos hyz]
      · rw [upsert, if_neg hyz, upsert, if_neg hy, ih (hmem.resolve_left (Ne.symm hy)), upsert,
          if_neg hy, upsert, if_neg hyz]

lemma upsertAll_comm {log : List α} (hlog : key x ∉ log.map key) {table : List α}
    (hmem : key x ∈ table.map key) :
    upsertAll key log (upsert key x table) = upsert key x (upsertAll key log table) := by
  induction log generalizing table with
  | nil => rfl
  | cons z log ih =>
    rw [List.map_cons, List.mem_cons, not_or] at hlog
    rw [upsertAll_cons, upsertAll_cons, ← upsert_comm (Ne.symm hlog.1) hmem,
      ih hlog.2 (mem_keys_upsert.mpr (.inr hmem))]

/-- **A coalesced log has the effect of the log.** -/
theorem upsertAll_upsert {log : List α} (hlog : (log.map key).Nodup) (x : α) (table : List α) :
    upsertAll key (upsert key x log) table = upsert key x (upsertAll key log table) := by
  induction log generalizing table with
  | nil => rfl
  | cons y log ih =>
    rw [List.map_cons, List.nodup_cons] at hlog
    by_cases hy : key y = key x
    · rw [upsert, if_pos hy, upsertAll_cons, upsertAll_cons,
        ← upsert_upsert hy table, upsertAll_comm (hy ▸ hlog.1)]
      exact mem_keys_upsert.mpr (.inl hy.symm)
    · rw [upsert, if_neg hy, upsertAll_cons, upsertAll_cons, ih hlog.2]

/-! ### Slots -/

/-- The index has the places of the rows. -/
def Indexed (key : α → κ) (slots : List (Option α)) (indexes : AList fun _ : κ => ℕ) : Prop :=
  ∀ k i, indexes.lookup k = some i ↔ ∃ x, slots[i]? = some (some x) ∧ key x = k

namespace Indexed

variable {slots : List (Option α)} {indexes : AList fun _ : κ => ℕ} {k : κ} {i j : ℕ} {x y : α}
  (h : Indexed key slots indexes)
include h

lemma unique (hlookup : indexes.lookup k = some i)
    (hget : slots[j]? = some (some y)) (hy : key y = k) : j = i := by
  have hj := (h k j).mpr ⟨y, hget, hy⟩
  exact Option.some.inj (hj.symm.trans hlookup)

lemma set (hlookup : indexes.lookup (key x) = some i) :
    Indexed key (slots.set i (some x)) indexes := by
  intro k j
  obtain ⟨y, hget, hy⟩ := (h (key x) i).mp hlookup
  obtain ⟨hlt, -⟩ := List.getElem?_eq_some_iff.mp hget
  by_cases hji : j = i
  · subst hji
    rw [List.getElem?_set_self hlt, h]
    constructor
    · rintro ⟨z, hz, rfl⟩
      have hzy := Option.some.inj (Option.some.inj (hz.symm.trans hget))
      exact ⟨x, rfl, by rw [hzy, hy]⟩
    · rintro ⟨z, hz, rfl⟩
      have hzx := Option.some.inj (Option.some.inj hz)
      exact ⟨y, hget, by rw [hy, hzx]⟩
  · rw [List.getElem?_set_ne (Ne.symm hji), h]

lemma append (hlookup : indexes.lookup (key x) = none) :
    Indexed key (slots ++ [some x]) (indexes.insert (key x) slots.length) := by
  intro k j
  by_cases hk : k = key x
  · subst hk
    rw [AList.lookup_insert]
    constructor
    · intro hj
      cases hj
      exact ⟨x, by simp, rfl⟩
    · rintro ⟨y, hget, hy⟩
      by_cases hlt : j < slots.length
      · rw [List.getElem?_append_left hlt] at hget
        have hj := (h (key x) j).mpr ⟨y, hget, hy⟩
        simp [hlookup] at hj
      · obtain ⟨hbound, -⟩ := List.getElem?_eq_some_iff.mp hget
        rw [List.length_append, List.length_singleton] at hbound
        exact congrArg some (by omega)
  · rw [AList.lookup_insert_ne hk, h]
    refine exists_congr fun y => and_congr_left fun hy => ?_
    by_cases hlt : j < slots.length
    · rw [List.getElem?_append_left hlt]
    · rw [List.getElem?_eq_none (by omega)]
      refine iff_of_false nofun fun hget => ?_
      obtain ⟨hbound, -⟩ := List.getElem?_eq_some_iff.mp hget
      rw [List.length_append, List.length_singleton] at hbound
      obtain rfl : j = slots.length := by omega
      rw [List.getElem?_append_right le_rfl, Nat.sub_self] at hget
      exact hk (by rw [← hy, Option.some.inj (Option.some.inj hget)])

lemma erase (hlookup : indexes.lookup k = some i) :
    Indexed key (slots.set i none) (indexes.erase k) := by
  intro k' j
  obtain ⟨y, hget, hy⟩ := (h k i).mp hlookup
  obtain ⟨hlt, -⟩ := List.getElem?_eq_some_iff.mp hget
  by_cases hk : k' = k
  · subst hk
    rw [AList.lookup_erase]
    refine iff_of_false nofun ?_
    rintro ⟨z, hz, hzk⟩
    by_cases hji : j = i
    · subst hji
      rw [List.getElem?_set_self hlt] at hz
      cases Option.some.inj hz
    · rw [List.getElem?_set_ne (Ne.symm hji)] at hz
      exact hji (h.unique hlookup hz hzk)
  · rw [AList.lookup_erase_ne hk, h]
    by_cases hji : j = i
    · subst hji
      rw [List.getElem?_set_self hlt, hget]
      refine iff_of_false ?_ ?_
      · rintro ⟨z, hz, hzk⟩
        rw [← Option.some.inj (Option.some.inj hz), hy] at hzk
        exact hk hzk.symm
      · rintro ⟨z, hz, -⟩
        cases Option.some.inj hz
    · rw [List.getElem?_set_ne (Ne.symm hji)]

end Indexed

/-- A coalesced log: the rows in slots, and the places of their keys. -/
structure Slots (key : α → κ) where
  slots : List (Option α)
  indexes : AList fun _ : κ => ℕ
  indexed : Indexed key slots indexes

namespace Slots

variable (s : Slots key)

/-- The rows that are left. -/
def toList : List α := s.slots.filterMap id

/-- No rows. -/
def empty (key : α → κ) : Slots key where
  slots := []
  indexes := ∅
  indexed k i := by simp

lemma notMem_of_lookup_eq_none {s : Slots key} {k : κ} (h : s.indexes.lookup k = none) :
    k ∉ s.toList.map key := by
  intro hmem
  obtain ⟨y, hmem, hy⟩ := List.mem_map.mp hmem
  obtain ⟨slot, hslot, hsome⟩ := List.mem_filterMap.mp hmem
  obtain ⟨j, hget⟩ := List.mem_iff_getElem?.mp hslot
  have hj := (s.indexed k j).mpr ⟨y, by rw [hget, ← hsome]; rfl, hy⟩
  simp [h] at hj

/-- The place of a key splits the slots, and no other row has the key. -/
theorem exists_split {s : Slots key} {k : κ} {i : ℕ} (h : s.indexes.lookup k = some i) :
    ∃ l₁ y l₂, s.slots = l₁ ++ some y :: l₂ ∧ l₁.length = i ∧ key y = k ∧
      k ∉ (l₁.filterMap id).map key ∧ k ∉ (l₂.filterMap id).map key := by
  obtain ⟨y, hget, hy⟩ := (s.indexed k i).mp h
  obtain ⟨hlt, hgetElem⟩ := List.getElem?_eq_some_iff.mp hget
  have hslots : s.slots = s.slots.take i ++ some y :: s.slots.drop (i + 1) := by
    rw [← hgetElem, ← List.drop_eq_getElem_cons hlt, List.take_append_drop]
  have hlen : (s.slots.take i).length = i := List.length_take_of_le (Nat.le_of_lt hlt)
  refine ⟨s.slots.take i, y, s.slots.drop (i + 1), hslots, hlen, hy, ?_, ?_⟩
  · intro hmem
    obtain ⟨z, hmem, hz⟩ := List.mem_map.mp hmem
    obtain ⟨slot, hslot, hsome⟩ := List.mem_filterMap.mp hmem
    obtain ⟨j, hj, hgetj⟩ := List.mem_take_iff_getElem.mp hslot
    have hji := s.indexed.unique h (List.getElem?_eq_some_iff.mpr ⟨by omega, hgetj.trans hsome⟩) hz
    omega
  · intro hmem
    obtain ⟨z, hmem, hz⟩ := List.mem_map.mp hmem
    obtain ⟨slot, hslot, hsome⟩ := List.mem_filterMap.mp hmem
    obtain ⟨j, hgetj⟩ := List.mem_iff_getElem?.mp hslot
    rw [List.getElem?_drop] at hgetj
    have hji := s.indexed.unique h (by rw [hgetj, ← hsome]; rfl) hz
    omega

lemma nodup_keys : (s.toList.map key).Nodup := by
  rw [List.Nodup, List.pairwise_map, toList, List.pairwise_filterMap, List.pairwise_iff_getElem]
  intro i j hi hj hij y hy z hz heq
  have hgeti : s.slots[i]? = some (some y) := by rw [List.getElem?_eq_getElem hi, ← hy]; rfl
  have hgetj : s.slots[j]? = some (some z) := by rw [List.getElem?_eq_getElem hj, ← hz]; rfl
  have hplace := (s.indexed (key y) i).mpr ⟨y, hgeti, rfl⟩
  have hji := s.indexed.unique hplace hgetj heq.symm
  omega

/-- The row goes to the place of its key, or to a slot of its own. -/
def put (x : α) : Slots key :=
  match hlookup : s.indexes.lookup (key x) with
  | some i => ⟨s.slots.set i (some x), s.indexes, s.indexed.set hlookup⟩
  | none =>
    ⟨s.slots ++ [some x], s.indexes.insert (key x) s.slots.length, s.indexed.append hlookup⟩

/-- The row with the key leaves its slot empty. -/
def remove (k : κ) : Slots key :=
  match hlookup : s.indexes.lookup k with
  | some i => ⟨s.slots.set i none, s.indexes.erase k, s.indexed.erase hlookup⟩
  | none => s

lemma toList_put (x : α) : (s.put x).toList = upsert key x s.toList := by
  rw [put]
  split
  next i hlookup =>
    obtain ⟨l₁, y, l₂, hslots, hlen, hy, hl₁, -⟩ := exists_split hlookup
    change (s.slots.set i (some x)).filterMap id = _
    rw [toList, hslots, ← hlen, List.set_append_right _ _ le_rfl, Nat.sub_self,
      List.set_cons_zero, List.filterMap_append, List.filterMap_append]
    exact (upsert_append_cons hl₁ hy).symm
  next hlookup =>
    rw [upsert_of_notMem (notMem_of_lookup_eq_none hlookup), toList, List.filterMap_append]
    rfl

lemma toList_remove (k : κ) : (s.remove k).toList = s.toList.filter fun x => key x ≠ k := by
  rw [remove]
  split
  next i hlookup =>
    obtain ⟨l₁, y, l₂, hslots, hlen, hy, hl₁, hl₂⟩ := exists_split hlookup
    have hkeep : ∀ l : List α, k ∉ l.map key → (l.filter fun x => key x ≠ k) = l := by
      intro l hl
      apply List.filter_eq_self.mpr
      intro z hz
      rw [decide_eq_true_eq]
      rintro rfl
      exact hl (List.mem_map_of_mem hz)
    have hsplit : s.toList = l₁.filterMap id ++ y :: l₂.filterMap id := by
      rw [toList, hslots, List.filterMap_append]
      rfl
    change (s.slots.set i none).filterMap id = _
    rw [hsplit, List.filter_append, List.filter_cons_of_neg (by simp [hy]), hkeep _ hl₁,
      hkeep _ hl₂,
      hslots, ← hlen, List.set_append_right _ _ le_rfl, Nat.sub_self, List.set_cons_zero,
      List.filterMap_append]
    rfl
  next hlookup =>
    refine (List.filter_eq_self.mpr fun z hz => ?_).symm
    rw [decide_eq_true_eq]
    rintro rfl
    exact notMem_of_lookup_eq_none hlookup (List.mem_map_of_mem hz)

lemma toList_foldl_remove (ks : List κ) :
    (ks.foldl remove s).toList = s.toList.filter fun x => key x ∉ ks := by
  induction ks generalizing s with
  | nil => exact (List.filter_eq_self.mpr fun _ _ => by simp).symm
  | cons k ks ih =>
    rw [List.foldl_cons, ih, toList_remove, List.filter_filter]
    apply List.filter_congr
    intro x _
    rw [← Bool.decide_and, decide_eq_decide, List.mem_cons, not_or, and_comm]

lemma key_mem_indexes {s : Slots key} {x : α} (h : x ∈ s.toList) : key x ∈ s.indexes := by
  by_contra hmem
  exact notMem_of_lookup_eq_none (AList.lookup_eq_none.mpr hmem) (List.mem_map_of_mem h)

end Slots

end Codex.Lib
