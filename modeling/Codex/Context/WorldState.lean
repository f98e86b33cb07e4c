import Codex.Lib.Json

/-!
# Patches of the world state

`core/src/context/world_state/mod.rs`: the state that the model has seen is persisted as a snapshot
and a merge patch for every change. A patch has null for a field that is removed, and an object for
one that changes inside; anything else replaces what was there.
-/

namespace Codex.Context

open Codex.Lib

variable {Number : Type} [DecidableEq Number]

/-! ### Values -/

namespace Json

/-- `Value::as_object`, with no fields for another value -/
def fieldsOf : Json Number → List (Text × Json Number)
  | .object fields => fields
  | _ => []

mutual
@[grind =] def removeNullObjectFields : Json Number → Json Number
  | .object fields => .object (removeNullFields fields)
  | value => value

@[grind =] def removeNullFields : List (Text × Json Number) → List (Text × Json Number)
  | [] => []
  | (key, value) :: fields =>
    if value = .null then removeNullFields fields
    else (key, removeNullObjectFields value) :: removeNullFields fields
end

/-- `create_merge_patch`, the loop over the keys of `previous` -/
def removedKeys (previous current : List (Text × Json Number)) : List (Text × Json Number) :=
  previous.foldl (fun patch field =>
    if (current.lookup field.1).isNone then put field.1 .null patch else patch) []

mutual
/-- `create_merge_patch` -/
@[grind =] def createPatch (previous : Json Number) : Json Number → Option (Json Number)
  | .object current =>
    if previous = .object current then none
    else
      let previous := fieldsOf previous
      some (.object (insertPatches previous (removedKeys previous current) current))
  | current => if previous = current then none else some current

/-- `create_merge_patch`, the loop over `current` -/
@[grind =] def insertPatches (previous patch : List (Text × Json Number)) :
    List (Text × Json Number) → List (Text × Json Number)
  | [] => patch
  | (key, currentValue) :: current =>
    match previous.lookup key with
    | none => insertPatches previous (put key currentValue patch) current
    | some previousValue =>
      match createPatch previousValue currentValue with
      | some valuePatch => insertPatches previous (put key valuePatch patch) current
      | none => insertPatches previous patch current
end

mutual
/-- `apply_merge_patch_value` -/
@[grind =] def applyValue (target : Json Number) : Json Number → Json Number
  | .object patch => .object (applyFields (fieldsOf target) patch)
  | patch => patch

/-- `apply_merge_patch_value`, the loop over the patch -/
@[grind =] def applyFields (target : List (Text × Json Number)) :
    List (Text × Json Number) → List (Text × Json Number)
  | [] => target
  | (key, value) :: patch =>
    if value = .null then applyFields (without key target) patch
    else
      let entry := (target.lookup key).getD .null
      applyFields (put key (applyValue entry value) target) patch
end

/-! ### What is written for a field -/

section fields

variable {previous current patch target : List (Text × Json Number)}
  {key : Text} {value : Json Number}

omit [DecidableEq Number] in
lemma lookup_removedKeys (previous current : List (Text × Json Number)) (key : Text) :
    (removedKeys previous current).lookup key =
      if (current.lookup key).isNone ∧ (previous.lookup key).isSome then some .null else none := by
  have hfold : ∀ patch : List (Text × Json Number),
      (previous.foldl (fun patch field =>
        if (current.lookup field.1).isNone then put field.1 .null patch else patch) patch).lookup
          key =
        if (current.lookup key).isNone ∧ (previous.lookup key).isSome then some .null
        else patch.lookup key := by
    induction previous with
    | nil => intro patch; simp
    | cons field previous ih =>
      intro patch
      obtain ⟨first, w⟩ := field
      rw [List.foldl_cons, ih, lookup_cons_eq_ite]
      by_cases hkey : key = first
      · subst hkey
        by_cases hnone : (current.lookup key).isNone = true
        · simp [hnone, lookup_put]
        · simp [hnone]
      · rw [if_neg hkey]
        by_cases hnone : (current.lookup first).isNone = true
        · rw [if_pos hnone, lookup_put, if_neg hkey]
        · rw [if_neg hnone]
  exact hfold []

lemma lookup_insertPatches (hnodup : (keysOf current).Nodup) (key : Text) :
    (insertPatches previous patch current).lookup key =
      match current.lookup key with
      | none => patch.lookup key
      | some currentValue =>
        match previous.lookup key with
        | none => some currentValue
        | some previousValue =>
          (createPatch previousValue currentValue).or (patch.lookup key) := by
  induction current generalizing patch with
  | nil => rfl
  | cons field current ih =>
    obtain ⟨first, currentValue⟩ := field
    obtain ⟨hfirst, hrest⟩ := List.nodup_cons.mp hnodup
    rw [insertPatches, lookup_cons_eq_ite]
    by_cases hkey : key = first
    · -- the rest does not write this key again
      subst hkey
      have hnone : current.lookup key = none := lookup_eq_none_iff_notMem.mpr hfirst
      rw [if_pos rfl]
      cases previous.lookup key with
      | none =>
        simp only
        rw [ih hrest, hnone, lookup_put, if_pos rfl]
      | some previousValue =>
        simp only
        cases createPatch previousValue currentValue with
        | none =>
          simp only
          rw [ih hrest, hnone, Option.none_or]
        | some valuePatch =>
          simp only
          rw [ih hrest, hnone, lookup_put, if_pos rfl, Option.some_or]
    · rw [if_neg hkey]
      cases previous.lookup first with
      | none =>
        simp only
        rw [ih hrest, lookup_put, if_neg hkey]
      | some previousValue =>
        simp only
        cases createPatch previousValue currentValue with
        | none => exact ih hrest
        | some valuePatch =>
          simp only
          rw [ih hrest, lookup_put, if_neg hkey]

lemma lookup_applyFields (hnodup : (keysOf patch).Nodup) (key : Text) :
    (applyFields target patch).lookup key =
      match patch.lookup key with
      | none => target.lookup key
      | some value =>
        if value = .null then none
        else some (applyValue ((target.lookup key).getD .null) value) := by
  induction patch generalizing target with
  | nil => rfl
  | cons field patch ih =>
    obtain ⟨first, value⟩ := field
    obtain ⟨hfirst, hrest⟩ := List.nodup_cons.mp hnodup
    rw [applyFields, lookup_cons_eq_ite]
    by_cases hkey : key = first
    · subst hkey
      have hnone : patch.lookup key = none := lookup_eq_none_iff_notMem.mpr hfirst
      rw [if_pos rfl]
      by_cases hnull : value = .null
      · rw [if_pos hnull, ih hrest, hnone]
        simp only
        rw [lookup_without, if_pos rfl, if_pos hnull]
      · rw [if_neg hnull, ih hrest, hnone]
        simp only
        rw [lookup_put, if_pos rfl, if_neg hnull]
    · rw [if_neg hkey]
      by_cases hnull : value = .null
      · rw [if_pos hnull, ih hrest, lookup_without, if_neg hkey]
      · rw [if_neg hnull, ih hrest, lookup_put, if_neg hkey]

/-! ### The order of the keys -/

omit [DecidableEq Number] in
lemma ascending_removedKeys (previous current : List (Text × Json Number)) :
    Ascending (removedKeys previous current) := by
  refine List.foldlRecOn (motive := Ascending) previous _ List.Pairwise.nil ?_
  intro patch h field _
  split_ifs
  · exact h.put field.1 .null
  · exact h

lemma ascending_insertPatches (h : Ascending patch) :
    Ascending (insertPatches previous patch current) := by
  induction current generalizing patch with
  | nil => exact h
  | cons field current ih =>
    obtain ⟨first, currentValue⟩ := field
    rw [insertPatches]
    split
    · exact ih (h.put first currentValue)
    · split
      next valuePatch _ => exact ih (h.put first valuePatch)
      next => exact ih h

lemma ascending_applyFields (h : Ascending target) : Ascending (applyFields target patch) := by
  induction patch generalizing target with
  | nil => exact h
  | cons field patch ih =>
    obtain ⟨first, value⟩ := field
    rw [applyFields]
    split_ifs
    · exact ih (h.without first)
    · exact ih (h.put first _)

omit [DecidableEq Number] in
lemma ascending_fieldsOf {value : Json Number} (h : value.WellFormed) :
    Ascending (fieldsOf value) := by
  cases h with
  | object ascending => exact ascending
  | _ => exact List.Pairwise.nil

omit [DecidableEq Number] in
lemma wellFormed_fieldsOf {value : Json Number} (h : value.WellFormed) :
    (Json.object (fieldsOf value)).WellFormed := by
  cases h with
  | object ascending fields_wf => exact .object ascending fields_wf
  | _ => exact .empty

end fields

/-! ### A patch and its effect -/

section patch

variable {previous current patch : Json Number}

lemma createPatch_eq_none_iff : createPatch previous current = none ↔ previous = current := by
  cases current with
  | object fields =>
    rw [createPatch]
    split_ifs with heq
    · exact ⟨fun _ => heq, fun _ => rfl⟩
    · exact ⟨nofun, fun h => absurd h heq⟩
  | _ =>
    simp only [createPatch]
    split_ifs with heq
    · exact ⟨fun _ => heq, fun _ => rfl⟩
    · exact ⟨nofun, fun h => absurd h heq⟩

lemma createPatch_ne_null (h : createPatch previous current = some patch)
    (hcurrent : current ≠ .null) : patch ≠ .null := by
  cases current with
  | object fields =>
    rw [createPatch] at h
    split_ifs at h
    rw [← Option.some.inj h]
    exact nofun
  | _ =>
    simp only [createPatch] at h
    split_ifs at h
    rwa [← Option.some.inj h]

/-- A value without null fields, applied where there was nothing. -/
theorem applyValue_null (hwf : current.WellFormed) (hfree : current.NullFree) :
    applyValue .null current = current := by
  induction current using Json.ind with
  | object fields ih =>
    rw [applyValue]
    congr 1
    refine (ascending_applyFields List.Pairwise.nil).ext hwf.ascending ?_
    intro key
    rw [lookup_applyFields hwf.ascending.nodup]
    cases hlookup : fields.lookup key with
    | none => rfl
    | some value =>
      obtain ⟨hne, hvalue⟩ := hfree.of_lookup hlookup
      simp only [if_neg hne]
      exact congrArg some (ih _ (mem_of_lookup hlookup) (hwf.of_lookup hlookup) hvalue)
  | _ => rfl

/-- **A patch takes the previous value to the current one.** -/
theorem applyValue_createPatch (hprevious : previous.WellFormed) (hcurrent : current.WellFormed)
    (hfree : current.NullFree) (h : createPatch previous current = some patch) :
    applyValue previous patch = current := by
  induction current using Json.ind generalizing previous patch with
  | object fields ih =>
    rw [createPatch] at h
    split_ifs at h
    cases h
    rw [applyValue]
    congr 1
    have hpatch := @ascending_insertPatches _ _ (fieldsOf previous) fields _
      (ascending_removedKeys (fieldsOf previous) fields)
    refine (ascending_applyFields (ascending_fieldsOf hprevious)).ext hcurrent.ascending ?_
    intro key
    rw [lookup_applyFields hpatch.nodup, lookup_insertPatches hcurrent.ascending.nodup,
      lookup_removedKeys]
    cases hlookup : fields.lookup key with
    | none =>
      cases hbefore : (fieldsOf previous).lookup key with
      | none => rfl
      | some previousValue => rfl
    | some value =>
      obtain ⟨hne, hvalue⟩ := hfree.of_lookup hlookup
      have hvalueWf := hcurrent.of_lookup hlookup
      cases hbefore : (fieldsOf previous).lookup key with
      | none =>
        simp only [if_neg hne]
        exact congrArg some (applyValue_null hvalueWf hvalue)
      | some previousValue =>
        cases hinner : createPatch previousValue value with
        | none =>
          obtain rfl := createPatch_eq_none_iff.mp hinner
          simp [hinner]
        | some valuePatch =>
          have hpreviousWf := (wellFormed_fieldsOf hprevious).of_lookup hbefore
          have happlied := ih _ (mem_of_lookup hlookup) hpreviousWf hvalueWf hvalue hinner
          simp only [hinner, Option.some_or, if_neg (createPatch_ne_null hinner hne)]
          exact congrArg some happlied
  | _ =>
    simp only [createPatch] at h
    split_ifs at h
    rw [← Option.some.inj h]
    rfl

/-! #### Well-formed results -/

omit [DecidableEq Number] in
lemma wellFormed_removedKeys (previous fields : List (Text × Json Number)) :
    (Json.object (removedKeys previous fields)).WellFormed := by
  refine List.foldlRecOn (motive := fun patch => (Json.object patch).WellFormed)
    previous _ .empty ?_
  intro patch h field _
  split_ifs
  · exact h.put field.1 .null
  · exact h

lemma wellFormed_createPatch (hcurrent : current.WellFormed)
    (h : createPatch previous current = some patch) : patch.WellFormed := by
  induction current using Json.ind generalizing previous patch with
  | object fields ih =>
    rw [createPatch] at h
    split_ifs at h
    cases h
    have hinsert : ∀ (rest : List (Text × Json Number)) (patch : List (Text × Json Number)),
        (∀ field ∈ rest, field ∈ fields) → (Json.object patch).WellFormed →
        (Json.object (insertPatches (fieldsOf previous) patch rest)).WellFormed := by
      intro rest
      induction rest with
      | nil => exact fun _ _ hpatch => hpatch
      | cons field rest ihrest =>
        intro patch hmem hpatch
        obtain ⟨hfield, hrest⟩ := List.forall_mem_cons.mp hmem
        have hvalue := hcurrent.field field hfield
        rw [insertPatches]
        split
        · exact ihrest _ hrest (hpatch.put _ hvalue)
        · split
          next hinner => exact ihrest _ hrest (hpatch.put _ (ih field hfield hvalue hinner))
          next => exact ihrest _ hrest hpatch
    exact hinsert fields _ (fun _ hfield => hfield) (wellFormed_removedKeys _ fields)
  | _ =>
    simp only [createPatch] at h
    split_ifs at h
    rwa [← Option.some.inj h]

lemma wellFormed_applyValue {target : Json Number} (htarget : target.WellFormed)
    (hpatch : patch.WellFormed) : (applyValue target patch).WellFormed := by
  induction patch using Json.ind generalizing target with
  | object fields ih =>
    have happly : ∀ (rest : List (Text × Json Number)) (target : List (Text × Json Number)),
        (∀ field ∈ rest, field ∈ fields) → (Json.object target).WellFormed →
        (Json.object (applyFields target rest)).WellFormed := by
      intro rest
      induction rest with
      | nil => exact fun _ _ htarget => htarget
      | cons field rest ihrest =>
        intro target hmem htarget
        obtain ⟨hfield, hrest⟩ := List.forall_mem_cons.mp hmem
        have hentry : ((target.lookup field.1).getD .null).WellFormed := by
          cases hlookup : target.lookup field.1 with
          | none => exact .null
          | some value => exact htarget.of_lookup hlookup
        rw [applyFields]
        split_ifs
        · exact ihrest _ hrest (htarget.without _)
        · exact ihrest _ hrest (htarget.put _ (ih field hfield hentry (hpatch.field field hfield)))
    exact happly fields _ (fun _ hfield => hfield) (wellFormed_fieldsOf htarget)
  | _ => exact hpatch

lemma removeNullFields_subset {fields : List (Text × Json Number)} :
    ∀ field ∈ removeNullFields fields, ∃ original ∈ fields, original.1 = field.1 ∧
      original.2 ≠ .null ∧ field.2 = removeNullObjectFields original.2 := by
  induction fields with
  | nil => exact fun _ h => absurd h List.not_mem_nil
  | cons first fields ih =>
    intro field hfield
    obtain ⟨key, value⟩ := first
    rw [removeNullFields] at hfield
    have hrest : field ∈ removeNullFields fields → ∃ original ∈ (key, value) :: fields,
        original.1 = field.1 ∧ original.2 ≠ .null ∧
          field.2 = removeNullObjectFields original.2 := by
      intro hmem
      obtain ⟨original, horiginal, h⟩ := ih field hmem
      exact ⟨original, List.mem_cons_of_mem _ horiginal, h⟩
    split_ifs at hfield with hnull
    · exact hrest hfield
    · rcases List.mem_cons.mp hfield with rfl | hmem
      · exact ⟨(key, value), List.mem_cons_self, rfl, hnull, rfl⟩
      · exact hrest hmem

lemma removeNullObjectFields_ne_null {value : Json Number} (h : value ≠ .null) :
    removeNullObjectFields value ≠ .null := by
  cases value with
  | null => exact absurd rfl h
  | _ => exact nofun

/-- **A snapshot has no null fields**. -/
theorem nullFree_removeNullObjectFields (value : Json Number) :
    (removeNullObjectFields value).NullFree := by
  induction value using Json.ind with
  | null => exact .null
  | bool value => exact .bool value
  | number value => exact .number value
  | string value => exact .string value
  | array items _ => exact .array items
  | object fields ih =>
    rw [removeNullObjectFields]
    refine .object ?_ ?_
    · intro field hfield
      obtain ⟨original, -, -, hne, heq⟩ := removeNullFields_subset field hfield
      rw [heq]
      exact removeNullObjectFields_ne_null hne
    · intro field hfield
      obtain ⟨original, horiginal, -, -, heq⟩ := removeNullFields_subset field hfield
      rw [heq]
      exact ih original horiginal

lemma keysOf_removeNullFields (fields : List (Text × Json Number)) :
    (keysOf (removeNullFields fields)).Sublist (keysOf fields) := by
  induction fields with
  | nil => exact List.Sublist.refl _
  | cons field fields ih =>
    obtain ⟨key, value⟩ := field
    rw [removeNullFields]
    split_ifs
    · exact ih.cons key
    · exact ih.cons_cons key

lemma wellFormed_removeNullObjectFields {value : Json Number} (h : value.WellFormed) :
    (removeNullObjectFields value).WellFormed := by
  induction value using Json.ind with
  | object fields ih =>
    rw [removeNullObjectFields]
    refine .object ?_ ?_
    · exact List.pairwise_map.mp
        ((List.pairwise_map.mpr h.ascending).sublist (keysOf_removeNullFields fields))
    · intro field hfield
      obtain ⟨original, horiginal, -, -, heq⟩ := removeNullFields_subset field hfield
      rw [heq]
      exact ih original horiginal (h.field original horiginal)
  | _ => exact h

end patch

end Json

/-! ### Snapshots -/

abbrev Value (Number : Type) := { json : Json Number // json.WellFormed }

structure WorldStateSnapshot (Number : Type) where
  sections : List (Text × Json Number)
  wellFormed : (Json.object sections).WellFormed

/-- `ErasedWorldStateSection::snapshot`; `none` is a value that does not serialize -/
def sectionSnapshot (value : Option (Value Number)) : Option (Value Number) :=
  value.bind fun value =>
    if Json.removeNullObjectFields value.1 = .null then none
    else some ⟨Json.removeNullObjectFields value.1, Json.wellFormed_removeNullObjectFields value.2⟩

namespace WorldStateSnapshot

/-- `WorldState::snapshot`, for what the sections are -/
def ofSections : List (Text × Option (Value Number)) → WorldStateSnapshot Number
  | [] => ⟨[], .empty⟩
  | (id, value) :: sections =>
    match sectionSnapshot value with
    | some snapshot =>
      ⟨put id snapshot.1 (ofSections sections).sections,
        (ofSections sections).wellFormed.put id snapshot.2⟩
    | none => ofSections sections

variable (snapshot : WorldStateSnapshot Number)

def intoValue : Value Number :=
  ⟨.object snapshot.sections, snapshot.wellFormed⟩

/-- `serde_json::from_value` of a snapshot -/
def fromValue : Value Number → Option (WorldStateSnapshot Number)
  | ⟨.object sections, wellFormed⟩ => some ⟨sections, wellFormed⟩
  | _ => none

def mergePatchFrom (current previous : WorldStateSnapshot Number) : Option (Value Number) :=
  (Json.createPatch previous.intoValue.1 current.intoValue.1).pmap Subtype.mk fun _ h =>
    Json.wellFormed_createPatch current.wellFormed h

def applyMergePatch (patch : Value Number) : Option (WorldStateSnapshot Number) :=
  fromValue ⟨Json.applyValue snapshot.intoValue.1 patch.1,
    Json.wellFormed_applyValue snapshot.wellFormed patch.2⟩

/-- The patches that are persisted for a chain of snapshots. -/
def persistedPatches : WorldStateSnapshot Number → List (WorldStateSnapshot Number) →
    List (Value Number)
  | _, [] => []
  | previous, current :: rest =>
    (current.mergePatchFrom previous).toList ++ persistedPatches current rest

/-- No value has a null field outside arrays, or is null. -/
def NullFree (snapshot : WorldStateSnapshot Number) : Prop := snapshot.intoValue.1.NullFree

section snapshots

variable {previous current first : WorldStateSnapshot Number}
  {rest : List (WorldStateSnapshot Number)} {patch : Value Number}

omit [DecidableEq Number] in
lemma ext_sections (h : previous.sections = current.sections) : previous = current := by
  cases previous
  cases current
  cases h
  rfl

/-- What the code takes a snapshot of has no null fields. -/
theorem nullFree_ofSections (sections : List (Text × Option (Value Number))) :
    (ofSections sections).NullFree := by
  induction sections with
  | nil => exact .object (fun _ h => absurd h List.not_mem_nil) fun _ h => absurd h List.not_mem_nil
  | cons entry sections ih =>
    obtain ⟨id, value⟩ := entry
    rw [ofSections]
    split
    next snapshot hsnapshot =>
      obtain ⟨original, -, hsome⟩ := Option.bind_eq_some_iff.mp hsnapshot
      split_ifs at hsome with hnull
      cases hsome
      have hold : ∀ field ∈ (ofSections sections).sections, field.2 ≠ .null ∧ field.2.NullFree := by
        cases ih with
        | object fields_ne fields_free =>
          exact fun field hfield => ⟨fields_ne field hfield, fields_free field hfield⟩
      refine .object ?_ ?_
      · intro field hfield
        rcases mem_put hfield with rfl | hfield
        · exact hnull
        · exact (hold field hfield).1
      · intro field hfield
        rcases mem_put hfield with rfl | hfield
        · exact Json.nullFree_removeNullObjectFields _
        · exact (hold field hfield).2
    next => exact ih

lemma mergePatchFrom_eq_none_iff : current.mergePatchFrom previous = none ↔ previous = current := by
  rw [mergePatchFrom, Option.pmap_eq_none_iff, Json.createPatch_eq_none_iff]
  constructor
  · exact fun h => ext_sections (Json.object.inj h)
  · exact fun h => h ▸ rfl

lemma applyMergePatch_mergePatchFrom (hfree : current.NullFree)
    (h : current.mergePatchFrom previous = some patch) :
    previous.applyMergePatch patch = some current := by
  obtain ⟨json, _, hcreate, rfl⟩ := Option.pmap_eq_some_iff.mp h
  have happly := Json.applyValue_createPatch previous.wellFormed current.wellFormed hfree hcreate
  exact congrArg fromValue (Subtype.ext happly : _ = current.intoValue)

lemma replay_persistedPatches (hfree : ∀ snapshot ∈ rest, snapshot.NullFree) :
    (persistedPatches first rest).foldlM applyMergePatch first = some (rest.getLastD first) := by
  induction rest generalizing first with
  | nil => rfl
  | cons current rest ih =>
    obtain ⟨hcurrent, hrest⟩ := List.forall_mem_cons.mp hfree
    rw [persistedPatches, List.foldlM_append, List.getLastD_cons]
    cases hpatch : current.mergePatchFrom first with
    | none =>
      rw [mergePatchFrom_eq_none_iff.mp hpatch]
      exact ih hrest
    | some patch =>
      have happlied := applyMergePatch_mergePatchFrom hcurrent hpatch
      simp only [Option.toList_some, List.foldlM_cons, List.foldlM_nil, happlied]
      exact ih hrest

/-- **The persisted patches replay to the last snapshot.** For snapshots without null fields there
is a patch from one to another exactly when they differ, it takes the one to the other, and the
patches of a chain take its first snapshot to its last. -/
theorem snapshots_replay (hfree : ∀ snapshot ∈ first :: rest, snapshot.NullFree) :
    (∀ previous ∈ first :: rest, ∀ current ∈ first :: rest,
      (current.mergePatchFrom previous = none ↔ previous = current) ∧
        ∀ patch, current.mergePatchFrom previous = some patch →
          previous.applyMergePatch patch = some current) ∧
      (persistedPatches first rest).foldlM applyMergePatch first = some (rest.getLastD first) := by
  refine ⟨?_, replay_persistedPatches fun snapshot h => hfree snapshot (List.mem_cons_of_mem _ h)⟩
  intro previous _ current hcurrent
  refine ⟨mergePatchFrom_eq_none_iff, ?_⟩
  intro patch hpatch
  exact applyMergePatch_mergePatchFrom (hfree current hcurrent) hpatch

end snapshots

/-- A snapshot of one section with one field. -/
def oneField (id key : Text) (value : ℕ) : WorldStateSnapshot ℕ :=
  ofSections [(id, some ⟨.object [(key, .number value)],
    Json.WellFormed.empty.put key (.number value)⟩)]

/-- A field that is replaced, and a section that is. -/
theorem snapshots_replay_oneField :
    (persistedPatches (oneField ['a'] ['x'] 1)
      [oneField ['a'] ['y'] 2, oneField ['b'] ['y'] 2]).foldlM
        applyMergePatch (oneField ['a'] ['x'] 1) = some (oneField ['b'] ['y'] 2) := by
  have hfree : ∀ snapshot ∈ [oneField ['a'] ['x'] 1, oneField ['a'] ['y'] 2,
      oneField ['b'] ['y'] 2], snapshot.NullFree := by
    intro snapshot hsnapshot
    simp only [List.mem_cons, List.not_mem_nil, or_false] at hsnapshot
    rcases hsnapshot with rfl | rfl | rfl <;> exact nullFree_ofSections _
  exact (snapshots_replay hfree).2

end WorldStateSnapshot

end Codex.Context
