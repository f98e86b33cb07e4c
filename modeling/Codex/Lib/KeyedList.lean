import Codex.Lib.Upsert

/-!
# Lists of keyed values

A table in the order its keys were inserted: a list of pairs with distinct keys, read by
`List.lookup` and written by `upsert`.
-/

namespace Codex.Lib

variable {κ V W : Type}

/-- The keys of a list of pairs. -/
def keysOf (table : List (κ × V)) : List κ := table.map Prod.fst

@[simp] lemma keysOf_nil : keysOf ([] : List (κ × V)) = [] := rfl

@[simp] lemma keysOf_cons (entry : κ × V) (table : List (κ × V)) :
    keysOf (entry :: table) = entry.1 :: keysOf table := rfl

lemma keysOf_map_snd (f : κ → V → W) (table : List (κ × V)) :
    keysOf (table.map fun entry => (entry.1, f entry.1 entry.2)) = keysOf table := by
  rw [keysOf, List.map_map]
  rfl

lemma keysOf_map (f : V → W) (table : List (κ × V)) :
    keysOf (table.map (Prod.map id f)) = keysOf table :=
  keysOf_map_snd (fun _ => f) table

variable [DecidableEq κ] [BEq κ] [LawfulBEq κ]

lemma lookup_cons_eq_ite (key k : κ) (v : V) (table : List (κ × V)) :
    ((k, v) :: table).lookup key = if key = k then some v else table.lookup key := by
  rw [List.lookup_cons]
  by_cases hk : key = k
  · rw [if_pos hk, beq_iff_eq.mpr hk]
  · rw [if_neg hk, beq_eq_false_iff_ne.mpr hk]

variable {table : List (κ × V)} {key : κ}

lemma lookup_eq_none_iff_notMem : table.lookup key = none ↔ key ∉ keysOf table := by
  induction table with
  | nil => exact ⟨fun _ => List.not_mem_nil, fun _ => rfl⟩
  | cons entry table ih =>
    rw [lookup_cons_eq_ite, keysOf_cons, List.mem_cons, not_or, ← ih]
    split_ifs with hkey
    · exact ⟨nofun, fun h => absurd hkey h.1⟩
    · exact ⟨fun h => ⟨hkey, h⟩, And.right⟩

lemma mem_keysOf_of_lookup {v : V} (h : table.lookup key = some v) : key ∈ keysOf table := by
  by_contra hmem
  rw [lookup_eq_none_iff_notMem.mpr hmem] at h
  exact nomatch h

lemma mem_of_lookup {v : V} (h : table.lookup key = some v) : (key, v) ∈ table := by
  induction table with
  | nil => exact nomatch h
  | cons entry table ih =>
    rw [lookup_cons_eq_ite] at h
    split_ifs at h with hkey
    · rw [hkey, ← Option.some.inj h]
      exact List.mem_cons_self
    · exact List.mem_cons_of_mem _ (ih h)

lemma mem_iff_lookup (h : (keysOf table).Nodup) {v : V} :
    (key, v) ∈ table ↔ table.lookup key = some v := by
  refine ⟨fun hmem => ?_, mem_of_lookup⟩
  induction table with
  | nil => cases hmem
  | cons entry table ih =>
    obtain ⟨hentry, hrest⟩ := List.nodup_cons.mp h
    rw [lookup_cons_eq_ite]
    rcases List.mem_cons.mp hmem with rfl | hmem
    · exact if_pos rfl
    · have hne : key ≠ entry.1 := by
        rintro rfl
        exact hentry (List.mem_map.mpr ⟨_, hmem, rfl⟩)
      rw [if_neg hne]
      exact ih hrest hmem

lemma lookup_upsert (key k : κ) (v : V) (table : List (κ × V)) :
    (upsert Prod.fst (k, v) table).lookup key = if key = k then some v else table.lookup key := by
  induction table with
  | nil => exact lookup_cons_eq_ite key k v []
  | cons entry table ih =>
    obtain ⟨k', v'⟩ := entry
    rw [upsert]
    by_cases hk : k' = k
    · subst hk
      rw [if_pos rfl, lookup_cons_eq_ite, lookup_cons_eq_ite]
      split_ifs <;> rfl
    · rw [if_neg hk, lookup_cons_eq_ite, ih, lookup_cons_eq_ite]
      by_cases hkey : key = k'
      · rw [if_pos hkey, if_pos hkey, if_neg (fun h => hk (hkey.symm.trans h))]
      · rw [if_neg hkey, if_neg hkey]

/-! ### Changing the values -/

/-- Values can be changed before or after one is looked up. -/
theorem lookup_map_snd (f : κ → V → W) (table : List (κ × V)) (key : κ) :
    (table.map fun entry => (entry.1, f entry.1 entry.2)).lookup key =
      (table.lookup key).map (f key) := by
  induction table with
  | nil => rfl
  | cons entry table ih =>
    rw [List.map_cons, lookup_cons_eq_ite, lookup_cons_eq_ite, ih]
    split_ifs with hkey
    · rw [hkey]
      rfl
    · rfl

lemma lookup_map (f : V → W) (table : List (κ × V)) (key : κ) :
    (table.map (Prod.map id f)).lookup key = (table.lookup key).map f :=
  lookup_map_snd (fun _ => f) table key

/-- **Entries with distinct keys are written independently of each other.** -/
theorem lookup_foldl_upsert (f : κ → W → Option V → V) {writes : List (κ × W)}
    (h : (keysOf writes).Nodup) (table : List (κ × V)) (key : κ) :
    (writes.foldl (fun table write =>
        upsert Prod.fst (write.1, f write.1 write.2 (table.lookup write.1)) table) table).lookup
        key =
      match writes.lookup key with
      | some w => some (f key w (table.lookup key))
      | none => table.lookup key := by
  induction writes generalizing table with
  | nil => rfl
  | cons write writes ih =>
    obtain ⟨hwrite, hrest⟩ := List.nodup_cons.mp h
    rw [List.foldl_cons, ih hrest, lookup_upsert, lookup_cons_eq_ite]
    by_cases hkey : key = write.1
    · subst hkey
      rw [if_pos rfl, if_pos rfl, lookup_eq_none_iff_notMem.mpr hwrite]
    · rw [if_neg hkey, if_neg hkey]

omit [LawfulBEq κ] in
lemma nodup_keysOf_foldl_upsert (f : κ → W → Option V → V) (writes : List (κ × W))
    (h : (keysOf table).Nodup) :
    (keysOf (writes.foldl (fun table write =>
      upsert Prod.fst (write.1, f write.1 write.2 (table.lookup write.1)) table) table)).Nodup := by
  induction writes generalizing table with
  | nil => exact h
  | cons write writes ih => exact ih (nodup_keys_upsert _ h)

/-- What holds of the values, and of every value that is written, holds afterwards. -/
theorem forall_foldl_upsert {f : κ → W → Option V → V} {p : V → Prop} {writes : List (κ × W)}
    (hwrites : ∀ write ∈ writes, ∀ old, (∀ v, old = some v → p v) → p (f write.1 write.2 old))
    (htable : ∀ entry ∈ table, p entry.2) :
    ∀ entry ∈ writes.foldl (fun table write =>
      upsert Prod.fst (write.1, f write.1 write.2 (table.lookup write.1)) table) table,
      p entry.2 := by
  induction writes generalizing table with
  | nil => exact htable
  | cons write writes ih =>
    apply ih fun write hmem => hwrites write (List.mem_cons_of_mem _ hmem)
    intro entry hentry
    rcases mem_upsert hentry with rfl | hentry
    · apply hwrites write List.mem_cons_self
      exact fun v hlookup => htable _ (mem_of_lookup hlookup)
    · exact htable entry hentry

/-! ### Removing and adding keys -/

section entries

variable {κ V W : Type} [DecidableEq κ]

/-- The entries with another key. -/
def eraseKey (key : κ) (table : List (κ × V)) : List (κ × V) :=
  table.filter fun entry => entry.1 ≠ key

/-- The entry is added unless its key is there. -/
def orInsert (entry : κ × V) (table : List (κ × V)) : List (κ × V) :=
  if entry.1 ∈ keysOf table then table else table ++ [entry]

variable {table : List (κ × V)}

lemma mem_keysOf_eraseKey {key k : κ} :
    k ∈ keysOf (eraseKey key table) ↔ k ∈ keysOf table ∧ k ≠ key := by
  constructor
  · intro h
    obtain ⟨entry, hmem, rfl⟩ := List.mem_map.mp h
    obtain ⟨hmem, hne⟩ := List.mem_filter.mp hmem
    exact ⟨List.mem_map.mpr ⟨entry, hmem, rfl⟩, of_decide_eq_true hne⟩
  · rintro ⟨h, hne⟩
    obtain ⟨entry, hmem, rfl⟩ := List.mem_map.mp h
    exact List.mem_map.mpr ⟨entry, List.mem_filter.mpr ⟨hmem, decide_eq_true hne⟩, rfl⟩

lemma nodup_keysOf_eraseKey (h : (keysOf table).Nodup) (key : κ) :
    (keysOf (eraseKey key table)).Nodup :=
  List.Nodup.sublist (List.Sublist.map _ List.filter_sublist) h

lemma mem_keysOf_orInsert {k : κ} {entry : κ × V} :
    k ∈ keysOf (orInsert entry table) ↔ k = entry.1 ∨ k ∈ keysOf table := by
  rw [orInsert]
  split_ifs with hmem
  · exact ⟨Or.inr, fun h => h.elim (fun heq => heq ▸ hmem) id⟩
  · rw [keysOf, List.map_append, List.mem_append, List.map_singleton, List.mem_singleton]
    exact or_comm

lemma nodup_keysOf_orInsert (h : (keysOf table).Nodup) (entry : κ × V) :
    (keysOf (orInsert entry table)).Nodup := by
  rw [orInsert]
  split_ifs with hmem
  · exact h
  · rw [keysOf, List.map_append, List.map_singleton, ← List.concat_eq_append]
    exact h.concat hmem

lemma mem_orInsert {e entry : κ × V} (h : e ∈ orInsert entry table) : e = entry ∨ e ∈ table := by
  rw [orInsert] at h
  split_ifs at h with hmem
  · exact Or.inr h
  · rcases List.mem_append.mp h with h | h
    · exact Or.inr h
    · exact Or.inl (List.mem_singleton.mp h)

lemma eraseKey_map (f : V → W) (key : κ) (table : List (κ × V)) :
    eraseKey key (table.map (Prod.map id f)) = (eraseKey key table).map (Prod.map id f) := by
  rw [eraseKey, eraseKey, List.filter_map]
  rfl

lemma orInsert_map (f : V → W) (key : κ) (v : V) (table : List (κ × V)) :
    orInsert (key, f v) (table.map (Prod.map id f)) =
      (orInsert (key, v) table).map (Prod.map id f) := by
  rw [orInsert, orInsert, keysOf_map]
  split_ifs with hmem
  · rfl
  · rw [List.map_append]
    rfl

end entries

end Codex.Lib
