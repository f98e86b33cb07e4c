import Codex.Tools.SchemaReferences
import Codex.Tools.SchemaCompaction

/-!
# References that lead nowhere

What `parse_tool_input_schema` of `tools/src/json_schema.rs` does to the local references of a
schema all of which lead to definitions at the root. It keeps the definitions that its traversal
reaches, and drops them all where the schema stays too large; the references that are `Hidden` from
the traversal stay in either case.

* `mem_schemaRefs_sanitize`: sanitizing adds no reference;
* `parseToolInputSchema_noDangling_iff`: exactly when no reference of the result leads nowhere.
-/

namespace Codex.Tools

open Codex.Lib

variable {Number : Type} {format : SchemaFormat Number} {map map' : Fields Number}
  {cut : ℕ → Fields Number → Prop} {pointer : DefinitionPointer}

/-- Every reference leads to a definition at the root. -/
def NoDangling (format : SchemaFormat Number) (value : Json Number) : Prop :=
  ∀ pointer ∈ schemaRefs format value, (definitionForPointer value pointer).isSome = true

/-! ### The passes -/

lemma localRef_of_sameHead (h : SameHead map map') :
    localRef format map' = localRef format map := by
  rw [localRef, localRef, h.ref]

lemma sameHead_without_description (map : Fields Number) :
    SameHead map (without "description".toList map) :=
  .of_lookup fun key hkey => by
    have hne : ∀ key ∈ "$ref".toList :: cutKeys, key ≠ "description".toList := by decide
    rw [lookup_without, if_neg (hne key hkey)]

lemma mem_without_description {field : Text × Json Number} (hkey : field.1 ∈ visitedKeys) :
    field ∈ without "description".toList map ↔ field ∈ map := by
  have hne : ∀ key ∈ visitedKeys, key ≠ "description".toList := by decide +kernel
  exact mem_without.trans (and_iff_left (hne field.1 hkey))

lemma inPlace_stripPass : InPlace (stripPass : Pass Number) where
  visits _ hkey := schemaChildVisit_of_notMem_tables hkey
  leaf := rfl
  head := sameHead_without_description
  kept _ _ hkey := mem_without_description hkey

lemma stripPass_rewrite_object (depth : ℕ) (map : Fields Number) :
    stripPass.rewrite depth (.object map) =
      .object (stripPass.finish (stripPass.fields (depth + 1) map)) :=
  (Pass.rewrite_object map).trans (if_neg Bool.false_ne_true)

variable {value : Json Number}

/-- **Stripping keeps the references.** -/
theorem mem_schemaRefs_strip {depth : ℕ} :
    pointer ∈ schemaRefs format (stripPass.rewrite depth value) ↔
      pointer ∈ schemaRefs format value := by
  induction value using Json.visitInduct (schemaChildVisit .included) generalizing depth with
  | array items ih =>
    rw [Pass.rewrite_array, mem_schemaRefs_array, mem_schemaRefs_array]
    simp only [List.mem_map, exists_exists_and_eq_and]
    exact exists_congr fun item => and_congr_right fun hitem => ih item hitem
  | object map ih =>
    rw [stripPass_rewrite_object, schemaRefs, Json.mem_collect_object, Json.mem_collect_object,
      localRef_of_sameHead (inPlace_stripPass.sameHead (depth + 1) map)]
    refine or_congr_right ((inPlace_stripPass.exists_field (P := fun key value =>
      ∃ child ∈ (schemaChildVisit .included key).children value, pointer ∈ schemaRefs format child)
      ?_).trans ?_)
    · rintro key value ⟨child, hchild, -⟩
      exact mem_visitedKeys hchild
    · refine exists_congr fun field => and_congr_right fun hfield => ?_
      have hvisit :
          (stripPass : Pass Number).visits field.1 = schemaChildVisit .included field.1 := rfl
      rw [hvisit, Visit.children_map inPlace_stripPass.isBool]
      simp only [List.mem_map, exists_exists_and_eq_and]
      exact exists_congr fun child => and_congr_right fun hchild => ih field hfield child hchild
  | leaf value harray hobject => rw [Pass.rewrite_leaf harray hobject]; rfl

variable (format)

lemma keepsTables_stripPass : KeepsTables format stripPass := by
  intro key hkey depth value pointer
  have hvisit : (stripPass : Pass Number).visits key = .table := (schemaChildVisit_table hkey).1
  rw [hvisit, Visit.children_map inPlace_stripPass.isBool]
  simp only [List.mem_map, exists_exists_and_eq_and]
  exact exists_congr fun definition => and_congr_right fun _ => mem_schemaRefs_strip

lemma inPlace_cutPass (cut : ℕ → Fields Number → Bool) : InPlace (cutPass cut) where
  visits _ _ := rfl
  leaf := rfl
  head _ := ⟨rfl, fun _ _ => rfl⟩
  kept _ _ _ := Iff.rfl

lemma keepsTables_cutPass (cut : ℕ → Fields Number → Bool) : KeepsTables format (cutPass cut) := by
  intro key hkey depth value pointer
  have hvisit : (cutPass cut).visits key = .skip := (schemaChildVisit_table hkey).2
  rw [hvisit]
  exact Iff.rfl

variable {format}

lemma tableOf_cutPass_fields {cut : ℕ → Fields Number → Bool} (depth : ℕ)
    (table : DefinitionTable) :
    tableOf ((cutPass cut).fields depth map) table = tableOf map table := by
  have hvisit : (cutPass cut).visits table.key = .skip := (schemaChildVisit_table table.key_mem).2
  rw [tableOf, Pass.lookup_fields, hvisit, tableOf]
  cases map.lookup table.key <;> rfl

lemma definitionForPointer_strip (value : Json Number) :
    (definitionForPointer (stripSchemaDescriptions value) pointer).isSome =
      (definitionForPointer value pointer).isSome := by
  cases value with
  | object map =>
    have hne : ∀ table : DefinitionTable, table.key ≠ "description".toList := by
      intro table
      cases table <;> decide
    have hvisit : (stripPass : Pass Number).visits pointer.table.key = .table :=
      (schemaChildVisit_table pointer.table.key_mem).1
    have hfinish : (stripPass : Pass Number).finish = without "description".toList := rfl
    rw [stripSchemaDescriptions, stripPass_rewrite_object, definitionForPointer, fieldsOf, tableOf,
      hfinish, lookup_without, if_neg (hne _), Pass.lookup_fields, hvisit, definitionForPointer,
        fieldsOf,
      tableOf]
    cases map.lookup pointer.table.key with
    | none => rfl
    | some value =>
      cases value with
      | object definitions =>
        exact (congrArg Option.isSome (lookup_map_snd
          (fun _ => stripPass.rewrite 1) definitions pointer.name)).trans Option.isSome_map
      | _ => rfl
  | array items => rw [stripSchemaDescriptions, Pass.rewrite_array]; rfl
  | _ => rfl

lemma noDangling_strip :
    NoDangling format (stripSchemaDescriptions value) ↔ NoDangling format value :=
  forall_congr' fun pointer => by
    rw [definitionForPointer_strip, stripSchemaDescriptions, mem_schemaRefs_strip]

/-- **The lossy passes leave only what is hidden**, and what they do not cut. -/
theorem collectRefsOutsideDefinitions_cut {cut : ℕ → Fields Number → Bool} {depth : ℕ}
    (h : pointer ∈ collectRefsOutsideDefinitions format ((cutPass cut).rewrite depth value)) :
    pointer ∈ collectRefsOutsideDefinitions format value ∧
      ∃ depth map, cut depth map = false ∧ localRef format map = some pointer := by
  induction value using Json.visitInduct (schemaChildVisit .skipped) generalizing depth with
  | array items ih =>
    rw [Pass.rewrite_array, collectRefsOutsideDefinitions, Json.mem_collect_array] at h
    obtain ⟨_, hrewritten, hpointer⟩ := h
    obtain ⟨item, hitem, rfl⟩ := List.mem_map.mp hrewritten
    obtain ⟨hbefore, hkept⟩ := ih item hitem hpointer
    exact ⟨Json.mem_collect_array.mpr ⟨item, hitem, hbefore⟩, hkept⟩
  | object map ih =>
    rw [Pass.rewrite_object] at h
    split_ifs at h with hcut
    · cases h
    rw [collectRefsOutsideDefinitions_object, (inPlace_cutPass cut).exists_child,
      localRef_of_sameHead ((inPlace_cutPass cut).sameHead (depth + 1) map)] at h
    rw [collectRefsOutsideDefinitions_object]
    rcases h with hown | ⟨field, hfield, child, hchild, hpointer⟩
    · exact ⟨.inl hown, depth, map, Bool.eq_false_iff.mpr hcut, hown⟩
    · obtain ⟨hbefore, hkept⟩ := ih field hfield child hchild hpointer
      exact ⟨.inr ⟨field, hfield, child, hchild, hbefore⟩, hkept⟩
  | leaf value harray hobject =>
    rw [Pass.rewrite_leaf harray hobject] at h
    cases value with
    | array items => exact absurd rfl (harray items)
    | object map => exact absurd rfl (hobject map)
    | _ => cases h

/-! ### Objects that differ in their tables -/

/-- Objects that are the same beside their definition tables. -/
structure SameBesideTables (map map' : Fields Number) : Prop where
  before : Ascending map
  after : Ascending map'
  lookup : ∀ key ∉ definitionTableKeys, map'.lookup key = map.lookup key

namespace SameBesideTables

variable (h : SameBesideTables map map')
include h

lemma sameHead : SameHead map map' :=
  .of_lookup fun key hkey => by
    have hother : ∀ key ∈ "$ref".toList :: cutKeys, key ∉ definitionTableKeys := by decide +kernel
    exact h.lookup key (hother key hkey)

lemma exists_child {P : Json Number → Prop} :
    (∃ field ∈ map', ∃ child ∈ (schemaChildVisit .skipped field.1).children field.2, P child) ↔
      ∃ field ∈ map, ∃ child ∈ (schemaChildVisit .skipped field.1).children field.2, P child := by
  refine exists_congr fun field => ?_
  by_cases hkey : field.1 ∈ definitionTableKeys
  · rw [(schemaChildVisit_table hkey).2]
    exact iff_of_false (fun ⟨_, _, h, _⟩ => List.not_mem_nil h) fun ⟨_, _, h, _⟩ =>
      List.not_mem_nil h
  · obtain ⟨key, value⟩ := field
    rw [mem_iff_lookup h.after.nodup, mem_iff_lookup h.before.nodup, h.lookup key hkey]

lemma hidden (hcut : ReadsHead cut) :
    Hidden format cut 0 (.object map') pointer ↔ Hidden format cut 0 (.object map) pointer := by
  rw [hidden_object, hidden_object, hcut 0 map map' h.sameHead, h.exists_child]
  exact and_congr_right fun _ => or_congr_left
    (iff_of_false (fun h => absurd h.1 (lt_irrefl 0)) fun h => absurd h.1 (lt_irrefl 0))

lemma outside :
    pointer ∈ collectRefsOutsideDefinitions format (.object map') ↔
      pointer ∈ collectRefsOutsideDefinitions format (.object map) := by
  rw [collectRefsOutsideDefinitions_object, collectRefsOutsideDefinitions_object, h.exists_child,
    localRef_of_sameHead h.sameHead]

end SameBesideTables

lemma sameBesideTables_prunedTables (h : Ascending map) (reachable : List DefinitionPointer) :
    SameBesideTables map (prunedTables reachable map) :=
  ⟨h, ascending_prunedTables h, fun _ => lookup_prunedTables_of_ne⟩

lemma sameBesideTables_withoutTables (h : Ascending map) :
    SameBesideTables map (definitionTableKeys.foldl (fun map key => without key map) map) := by
  refine ⟨h, (h.without _).without _, fun key hkey => ?_⟩
  have hne : ∀ table : DefinitionTable, key ≠ table.key := by
    rintro table rfl
    exact hkey table.key_mem
  exact (lookup_without _ _ _).trans ((if_neg (hne .definitions)).trans
    ((lookup_without _ _ _).trans (if_neg (hne .defs))))

/-! ### Schemas without definitions -/

/-- A schema with no definitions of its own, and no references outside definition tables. -/
structure Bare (format : SchemaFormat Number) (value : Json Number) : Prop where
  tables : ∀ table, tableOf (fieldsOf value) table = []
  outside : ∀ pointer, pointer ∉ collectRefsOutsideDefinitions format value

variable {value : Json Number}

lemma Bare.rewrite (h : Bare format value) (cut : ℕ → Fields Number → Bool) :
    Bare format ((cutPass cut).rewrite 0 value) := by
  refine ⟨fun table => ?_, fun pointer hpointer =>
    h.outside pointer (collectRefsOutsideDefinitions_cut hpointer).1⟩
  cases value with
  | object map =>
    rw [Pass.rewrite_object]
    split_ifs
    · rfl
    · exact (tableOf_cutPass_fields 1 table).trans (h.tables table)
  | array items => rw [Pass.rewrite_array]; rfl
  | _ => rfl

/-- **Dropping the definitions leaves nothing of them.** -/
theorem bare_dropSchemaDefinitions (h : SchemaShaped value) :
    Bare format (dropSchemaDefinitions format value) := by
  have hcut := h.cut (hasLocalRef format)
  have houtside : ∀ pointer, pointer ∉ collectRefsOutsideDefinitions format
      ((cutPass (hasLocalRef format)).rewrite 0 value) := by
    intro pointer hpointer
    obtain ⟨-, depth, map, hkept, hlocal⟩ := collectRefsOutsideDefinitions_cut hpointer
    rw [hasLocalRef, hlocal] at hkept
    exact absurd hkept.symm Bool.false_ne_true
  rw [dropSchemaDefinitions, rewriteDefinitionRefsToEmptySchemas]
  cases hvalue : (cutPass (hasLocalRef format)).rewrite 0 value with
  | object map =>
    rw [hvalue] at hcut houtside
    refine ⟨fun table => ?_, fun pointer hpointer => houtside pointer
      ((sameBesideTables_withoutTables hcut.ascending).outside.mp hpointer)⟩
    have hnone : (definitionTableKeys.foldl (fun map key => without key map) map).lookup table.key =
        none := by
      refine (lookup_without _ _ _).trans ?_
      cases table with
      | defs => exact (if_neg (by decide)).trans ((lookup_without _ _ _).trans (if_pos rfl))
      | definitions => exact if_pos rfl
    rw [withoutTables, fieldsOf, tableOf, hnone]
  | _ =>
    rw [hvalue] at houtside
    exact ⟨fun _ => rfl, houtside⟩

lemma hidden_dropSchemaDefinitions (h : SchemaShaped value) (hcut : ReadsHead cut) :
    Hidden format cut 0 (dropSchemaDefinitions format value) pointer ↔
      Hidden format (fun depth map => hasLocalRef format depth map = true ∨ cut depth map) 0 value
        pointer := by
  have hshape := h.cut (hasLocalRef format)
  refine Iff.trans ?_ ((inPlace_cutPass (hasLocalRef format)).hidden_rewrite
    (keepsTables_cutPass format _) hcut)
  rw [dropSchemaDefinitions, rewriteDefinitionRefsToEmptySchemas]
  cases hvalue : (cutPass (hasLocalRef format)).rewrite 0 value with
  | object map =>
    rw [hvalue] at hshape
    exact (sameBesideTables_withoutTables hshape.ascending).hidden hcut
  | _ => exact Iff.rfl

lemma notMem_inTables (h : Ascending map) (htables : ∀ table, tableOf map table = []) :
    ¬InTables format map pointer := by
  rw [inTables_iff h]
  rintro ⟨table, definition, hdefinition, -⟩
  rw [htables] at hdefinition
  exact List.not_mem_nil hdefinition

/-- Without definitions, no hidden reference leads anywhere. -/
theorem Bare.noDangling_iff (h : Bare format (.object map)) (hascending : Ascending map) :
    NoDangling format (.object map) ↔ ∀ pointer,
      ¬Hidden format CutsNothing 0 (.object map) pointer := by
  refine forall_congr' fun pointer => ?_
  have hnone : definitionForPointer (.object map) pointer = none := by
    rw [definitionForPointer, h.tables]
    rfl
  rw [hnone, mem_schemaRefs_root]
  constructor
  · exact fun hdangling hhidden => absurd (hdangling (.inr (.inr hhidden))) Bool.false_ne_true
  · rintro hhidden (houtside | htables | hhidden')
    · exact absurd houtside (h.outside pointer)
    · exact absurd htables (notMem_inTables hascending h.tables)
    · exact absurd hhidden' hhidden

/-! ### Sanitizing -/

lemma tableOf_dropMalformedTable (key : Text) (table : DefinitionTable) :
    tableOf (dropMalformedTable map key) table = tableOf map table := by
  by_cases hkey : table.key = key
  · subst hkey
    rw [dropMalformedTable]
    split
    · rfl
    next value hother hlookup =>
      rw [tableOf, lookup_without, if_pos rfl, tableOf, hlookup]
      cases value with
      | object definitions => exact absurd rfl (hother definitions)
      | _ => rfl
    · rfl
  · rw [tableOf, lookup_dropMalformedTable_of_ne hkey, tableOf]

/-- Sanitizing clears an object or keeps its definitions. -/
theorem tableOf_sanitizeObject (map : Fields Number) :
    sanitizeObject map = [] ∨ ∀ table, tableOf (sanitizeObject map) table = tableOf map table := by
  have hdrop : ∀ table,
      tableOf (constToEnum (definitionTableKeys.foldl dropMalformedTable map)) table =
      tableOf map table := by
    intro table
    have hne : table.key ≠ "const".toList ∧ table.key ≠ "enum".toList := by cases table <;> decide
    rw [tableOf, lookup_constToEnum_of_ne hne.1 hne.2]
    exact (tableOf_dropMalformedTable _ table).trans (tableOf_dropMalformedTable _ table)
  rcases inferTypes_cases (constToEnum (definitionTableKeys.foldl dropMalformedTable map)) with
    ⟨hsame, -⟩ | hempty | ⟨schemaTypes, -, htyped⟩
  · rw [sanitizeObject, hsame]
    exact .inr hdrop
  · exact .inl hempty
  · rw [sanitizeObject, htyped]
    refine .inr fun table => ?_
    have hne : table.key ≠ "type".toList ∧ table.key ≠ "properties".toList ∧
        table.key ≠ "items".toList := by cases table <;> decide
    rw [tableOf, lookup_ensureDefaultChildren_of_ne hne.2.1 hne.2.2, lookup_put, if_neg hne.1]
    exact hdrop table

lemma localRef_of_sanitizeObject (h : localRef format (sanitizeObject map) = some pointer) :
    localRef format map = some pointer := by
  rw [localRef] at h ⊢
  split at h
  next schemaRef hlookup =>
    have hbefore := lookup_inferTypes_of_ne (by decide) hlookup
    rw [lookup_constToEnum_of_ne (by decide) (by decide)] at hbefore
    have hmap : map.lookup "$ref".toList = some (.string schemaRef) := by
      rw [← hbefore]
      exact ((lookup_dropMalformedTable_of_ne (by decide)).trans
        (lookup_dropMalformedTable_of_ne (by decide))).symm
    rw [hmap]
    exact h
  next => exact absurd h (Option.some_ne_none _).symm

lemma isBool_of_sanitize (h : (sanitizeJsonSchema value).isBool = true) : value.isBool = true := by
  have hleaf : ∀ value, ((sanitizePass : Pass Number).leaf value).isBool = true →
      value.isBool = true := by
    intro value hvalue
    cases value with
    | bool value => rfl
    | _ => exact hvalue
  exact Pass.isBool_of_rewrite hleaf value h

/-- **Sanitizing adds no reference.** -/
theorem mem_schemaRefs_sanitize (h : pointer ∈ schemaRefs format (sanitizeJsonSchema value)) :
    pointer ∈ schemaRefs format value := by
  induction value using Json.visitInduct (schemaChildVisit .included) with
  | array items ih =>
    rw [sanitizeJsonSchema_array, mem_schemaRefs_array] at h
    obtain ⟨_, hsanitized, hpointer⟩ := h
    obtain ⟨item, hitem, rfl⟩ := List.mem_map.mp hsanitized
    exact mem_schemaRefs_array.mpr ⟨item, hitem, ih item hitem hpointer⟩
  | object map ih =>
    rw [sanitizeJsonSchema_object, schemaRefs, Json.mem_collect_object, Option.mem_toList] at h
    rw [schemaRefs, Json.mem_collect_object, Option.mem_toList]
    rcases h with hown | ⟨field, hfield, child, hchild, hpointer⟩
    · have hlocal := localRef_of_sanitizeObject hown
      rw [localRef_of_sameHead (SameHead.fields rfl 0)] at hlocal
      exact .inl hlocal
    have hkey := mem_visitedKeys hchild
    rcases mem_sanitizeObject hfield with hmem | ⟨_, rfl, -⟩ | ⟨_, rfl⟩ | rfl | rfl
    · obtain ⟨before, hbefore, rfl⟩ := List.mem_map.mp hmem
      have hvisit :
          (sanitizePass : Pass Number).visits before.1 = schemaChildVisit .included before.1 :=
        sanitizeVisit_of_mem before.1 hkey
      rw [hvisit] at hchild
      rw [Visit.children_map (f := sanitizePass.rewrite 0) fun _ => isBool_of_sanitize] at hchild
      obtain ⟨child', hchild', rfl⟩ := List.mem_map.mp hchild
      exact .inr ⟨before, hbefore, child', hchild', ih before hbefore child' hchild' hpointer⟩
    · have henum : "enum".toList ∉ visitedKeys := by decide
      exact absurd hkey henum
    · have htype : "type".toList ∉ visitedKeys := by decide
      exact absurd hkey htype
    · cases hchild
    · rw [List.mem_singleton.mp hchild] at hpointer
      cases hpointer
  | leaf value harray hobject =>
    cases value with
    | array items => exact absurd rfl (harray items)
    | object map => exact absurd rfl (hobject map)
    | _ => cases h

/-- Where every reference leads somewhere, it does so after sanitizing. -/
theorem NoDangling.sanitize (h : NoDangling format value) :
    NoDangling format (sanitizeJsonSchema value) := by
  intro pointer hpointer
  have hbefore := h pointer (mem_schemaRefs_sanitize hpointer)
  cases value with
  | object map =>
    rw [sanitizeJsonSchema_object] at hpointer ⊢
    rcases tableOf_sanitizeObject (sanitizePass.fields 0 map) with hempty | htables
    · rw [hempty] at hpointer
      cases hpointer
    · have hvisit : (sanitizePass : Pass Number).visits pointer.table.key = .table := by
        cases pointer.table <;> rfl
      rw [definitionForPointer, fieldsOf] at hbefore ⊢
      rw [htables, tableOf, Pass.lookup_fields, hvisit]
      rw [tableOf] at hbefore
      split at hbefore
      next definitions hlookup =>
        rw [hlookup]
        exact (congrArg Option.isSome (lookup_map_snd (fun _ => sanitizePass.rewrite 0)
          definitions pointer.name)).trans (Option.isSome_map.trans hbefore)
      next => exact absurd hbefore Bool.false_ne_true
  | _ => cases hbefore

/-- The names in a table of definitions are distinct after sanitizing. -/
theorem nodup_tableOf_sanitize (h : value.WellFormed)
    (hvalue : sanitizeJsonSchema value = .object map) (table : DefinitionTable) :
    (keysOf (tableOf map table)).Nodup := by
  cases value with
  | object before =>
    rw [sanitizeJsonSchema_object] at hvalue
    cases hvalue
    rcases tableOf_sanitizeObject (sanitizePass.fields 0 before) with hempty | htables
    · rw [hempty]
      exact List.nodup_nil
    · have hvisit : (sanitizePass : Pass Number).visits table.key = .table := by
        cases table <;> rfl
      rw [htables, tableOf, Pass.lookup_fields, hvisit]
      cases hlookup : before.lookup table.key with
      | none => exact List.nodup_nil
      | some value =>
        cases value with
        | object definitions =>
          have hkeys : keysOf (definitions.map fun field =>
              (field.1, sanitizePass.rewrite 0 field.2)) = keysOf definitions := by
            rw [keysOf, keysOf, List.map_map]
            rfl
          exact hkeys ▸ (h.of_lookup hlookup).ascending.nodup
        | _ => exact List.nodup_nil
  | bool value =>
    cases hvalue
    cases table <;> exact List.nodup_nil
  | array items =>
    rw [sanitizeJsonSchema_array] at hvalue
    cases hvalue
  | _ => cases hvalue

/-! ### Pruning -/

lemma mem_collectRefs_of_mem_schemaRefs (h : pointer ∈ schemaRefs format value) :
    pointer ∈ collectRefs format value := by
  obtain ⟨fields, hvisited, hfound⟩ := Json.mem_collect_iff.mp h
  exact Json.mem_collect_iff.mpr ⟨fields, hvisited.whole, hfound⟩

/-- **Pruning leaves a reference dangling exactly where it is hidden**, and of a definition that the
traversal does not reach. -/
theorem noDangling_prune (hascending : Ascending map)
    (htables : ∀ table, (keysOf (tableOf map table)).Nodup)
    (hpresent : NoDangling format (.object map)) :
    NoDangling format (pruneUnreachableDefinitions format (.object map)) ↔
      ∀ pointer, Hidden format CutsNothing 0 (.object map) pointer →
        pointer ∈ collectReachableDefinitions format (.object map) := by
  have hsame := sameBesideTables_prunedTables hascending
    (collectReachableDefinitions format (.object map))
  rw [pruneUnreachableDefinitions_object]
  constructor
  · intro hdangling pointer hhidden
    have hpointer := hdangling pointer
      (mem_schemaRefs_root.mpr (.inr (.inr ((hsame.hidden readsHead_cutsNothing).mpr hhidden))))
    rw [definitionForPointer_prunedTables] at hpointer
    split_ifs at hpointer with hreachable
    · exact hreachable
    · cases hpointer
  · intro hhidden pointer hpointer
    -- the reference is one of before, and of a definition that is reached
    have hkept : pointer ∈ schemaRefs format (.object map) ∧
        pointer ∈ collectReachableDefinitions format (.object map) := by
      rcases mem_schemaRefs_root.mp hpointer with houtside | htable | hinner
      · have hbefore := hsame.outside.mp houtside
        exact ⟨mem_schemaRefs_root.mpr (.inl hbefore),
          mem_collectReachableDefinitions.mpr ⟨pointer, hbefore, .refl⟩⟩
      · obtain ⟨table, definition, hdefinition, hmem⟩ := (inTables_iff hsame.after).mp htable
        rw [tableOf_prunedTables] at hdefinition
        obtain ⟨hbefore, hreachable⟩ := List.mem_filter.mp hdefinition
        obtain ⟨start, hstart, hreach⟩ :=
          mem_collectReachableDefinitions.mp (of_decide_eq_true hreachable)
        have hlookup : definitionForPointer (.object map) ⟨table, definition.1⟩ =
            some definition.2 := (mem_iff_lookup (htables table)).mp hbefore
        refine ⟨mem_schemaRefs_root.mpr (.inr (.inl ((inTables_iff hascending).mpr
          ⟨table, definition, hbefore, hmem⟩))), mem_collectReachableDefinitions.mpr
          ⟨start, hstart, hreach.tail ?_⟩⟩
        rw [IsSucc, refsOfDefinition, hlookup]
        exact mem_collectRefs_of_mem_schemaRefs hmem
      · have hbefore := (hsame.hidden readsHead_cutsNothing).mp hinner
        exact ⟨mem_schemaRefs_root.mpr (.inr (.inr hbefore)), hhidden pointer hbefore⟩
    rw [definitionForPointer_prunedTables, if_pos hkept.2]
    exact hpresent pointer hkept.1

/-! ### The whole -/

variable (format)

variable (prepared : Json Number)

/-- The schemas that the lossy passes cut, as far as the passes go before the schema fits. -/
def Emptied (depth : ℕ) (map : Fields Number) : Prop :=
  let large := StaysLarge (compactSchemaFitsBudget format)
  (large [stripSchemaDescriptions] prepared ∧ hasLocalRef format depth map = true) ∨
    (large [stripSchemaDescriptions, dropSchemaDefinitions format] prepared ∧
      isDeepAndComplex depth map = true) ∨
    large [stripSchemaDescriptions, dropSchemaDefinitions format, collapseDeepSchemaObjectsFromRoot]
        prepared ∧ isComposition depth map = true

lemma readsHead_emptied : ReadsHead (Emptied format prepared) :=
  ((readsHead_hasLocalRef format).and _).or
    ((readsHead_isDeepAndComplex.and _).or (readsHead_isComposition.and _))

/-- The definitions are dropped, as the schema is too large without its descriptions. -/
def DropsDefinitions : Prop :=
  StaysLarge (compactSchemaFitsBudget format) [stripSchemaDescriptions] prepared

variable {format}

lemma noDangling_compact_of_fits (h : ¬DropsDefinitions format value) :
    NoDangling format (compactLargeToolSchema format value) ↔ NoDangling format value := by
  cases hfits : compactSchemaFitsBudget format value with
  | true => exact iff_of_eq (congrArg (NoDangling format) (applyPasses_of_fits hfits))
  | false =>
    cases hstripped : compactSchemaFitsBudget format (stripSchemaDescriptions value) with
    | true =>
      have hcompact : compactLargeToolSchema format value = stripSchemaDescriptions value :=
        (applyPasses_of_large hfits).trans (applyPasses_of_fits hstripped)
      rw [hcompact]
      exact noDangling_strip
    | false => exact absurd ⟨hfits, hstripped⟩ h

lemma hidden_drop_strip (h : SchemaShaped value) (hcut : ReadsHead cut) :
    Hidden format cut 0 (dropSchemaDefinitions format (stripSchemaDescriptions value)) pointer ↔
      Hidden format (fun depth map => hasLocalRef format depth map = true ∨ cut depth map) 0 value
        pointer :=
  (hidden_dropSchemaDefinitions h.strip hcut).trans <|
    (inPlace_stripPass.hidden_rewrite (keepsTables_stripPass format)
      ((readsHead_hasLocalRef format).or hcut)).trans
      (hidden_congr fun _ _ => or_iff_right Bool.false_ne_true)

lemma hidden_cut {cut' : ℕ → Fields Number → Bool} (hcut : ReadsHead cut) :
    Hidden format cut 0 ((cutPass cut').rewrite 0 value) pointer ↔
      Hidden format (fun depth map => cut' depth map = true ∨ cut depth map) 0 value pointer :=
  (inPlace_cutPass cut').hidden_rewrite (keepsTables_cutPass format cut') hcut

/-- **The lossy passes leave a reference dangling exactly where it is hidden** and not cut. -/
theorem noDangling_compact_of_large {prepared : Json Number} (hshape : SchemaShaped prepared)
    (hlarge : DropsDefinitions format prepared)
    (hcompact : compactLargeToolSchema format prepared = .object map) (hascending : Ascending map) :
    NoDangling format (.object map) ↔
      ∀ pointer, ¬Hidden format (Emptied format prepared) 0 prepared pointer := by
  have hbare : Bare format (dropSchemaDefinitions format (stripSchemaDescriptions prepared)) :=
    bare_dropSchemaDefinitions hshape.strip
  have hlarge' : StaysLarge (compactSchemaFitsBudget format)
      [stripSchemaDescriptions] prepared := hlarge
  -- the later passes that are applied
  have hlater : (StaysLarge (compactSchemaFitsBudget format)
      [stripSchemaDescriptions, dropSchemaDefinitions format] prepared ↔
        compactSchemaFitsBudget format
          (dropSchemaDefinitions format (stripSchemaDescriptions prepared)) = false) ∧
      (StaysLarge (compactSchemaFitsBudget format) [stripSchemaDescriptions,
        dropSchemaDefinitions format, collapseDeepSchemaObjectsFromRoot] prepared ↔
        compactSchemaFitsBudget format
          (dropSchemaDefinitions format (stripSchemaDescriptions prepared)) = false ∧
        compactSchemaFitsBudget format (collapseDeepSchemaObjectsFromRoot
          (dropSchemaDefinitions format (stripSchemaDescriptions prepared))) = false) :=
    ⟨(and_iff_right hlarge.1).trans (and_iff_right hlarge.2),
      (and_iff_right hlarge.1).trans (and_iff_right hlarge.2)⟩
  have hpasses : compactLargeToolSchema format prepared =
      applyPasses (compactSchemaFitsBudget format)
        [collapseDeepSchemaObjectsFromRoot, pruneSchemaCompositions]
        (dropSchemaDefinitions format (stripSchemaDescriptions prepared)) :=
    (applyPasses_of_large hlarge.1).trans (applyPasses_of_large hlarge.2)
  rw [hpasses] at hcompact
  cases hdropped : compactSchemaFitsBudget format
      (dropSchemaDefinitions format (stripSchemaDescriptions prepared)) with
  | true =>
    rw [applyPasses_of_fits hdropped] at hcompact
    rw [hcompact] at hbare
    rw [hbare.noDangling_iff hascending, ← hcompact]
    refine forall_congr' fun pointer => not_congr ?_
    rw [hidden_drop_strip hshape readsHead_cutsNothing]
    refine hidden_congr fun depth map => ?_
    simp [Emptied, hlater, hlarge', hdropped, CutsNothing]
  | false =>
    rw [applyPasses_of_large hdropped] at hcompact
    cases hcollapsed : compactSchemaFitsBudget format (collapseDeepSchemaObjectsFromRoot
        (dropSchemaDefinitions format (stripSchemaDescriptions prepared))) with
    | true =>
      have hbare := hbare.rewrite isDeepAndComplex
      rw [applyPasses_of_fits hcollapsed, collapseDeepSchemaObjectsFromRoot] at hcompact
      rw [hcompact] at hbare
      rw [hbare.noDangling_iff hascending, ← hcompact]
      refine forall_congr' fun pointer => not_congr ?_
      rw [hidden_cut readsHead_cutsNothing, hidden_drop_strip hshape
        (readsHead_isDeepAndComplex.or readsHead_cutsNothing)]
      refine hidden_congr fun depth map => ?_
      simp [Emptied, hlater, hlarge', hdropped, hcollapsed, CutsNothing]
    | false =>
      have hbare := (hbare.rewrite isDeepAndComplex).rewrite isComposition
      rw [applyPasses_of_large hcollapsed, applyPasses, pruneSchemaCompositions,
        collapseDeepSchemaObjectsFromRoot] at hcompact
      rw [hcompact] at hbare
      rw [hbare.noDangling_iff hascending, ← hcompact]
      refine forall_congr' fun pointer => not_congr ?_
      rw [hidden_cut readsHead_cutsNothing, hidden_cut
        (readsHead_isComposition.or readsHead_cutsNothing), hidden_drop_strip hshape
        (readsHead_isDeepAndComplex.or (readsHead_isComposition.or readsHead_cutsNothing))]
      refine hidden_congr fun depth map => ?_
      simp [Emptied, hlater, hlarge', hdropped, hcollapsed, CutsNothing]

lemma exists_object_of_compact {input : Json Number}
    (h : compactLargeToolSchema format (prepareToolInputSchema format input) = .object map) :
    ∃ sanitized, sanitizeJsonSchema input = .object sanitized := by
  by_contra hnone
  rw [not_exists] at hnone
  have hprepared : ∀ map, prepareToolInputSchema format input ≠ .object map := by
    rw [prepareToolInputSchema]
    intro map
    cases hvalue : sanitizeJsonSchema input with
    | object sanitized => exact absurd hvalue (hnone sanitized)
    | _ => intro h; cases h
  have hrewrite : ∀ pass : Pass Number, pass.leaf = id → ∀ value : Json Number,
      (∀ map, value ≠ .object map) → ∀ map, pass.rewrite 0 value ≠ .object map := by
    intro pass hleaf value hvalue map
    cases value with
    | array items => rw [Pass.rewrite_array]; intro h; cases h
    | object fields => exact absurd rfl (hvalue fields)
    | _ =>
      rw [Pass.rewrite_leaf (by simp) (by simp), hleaf]
      intro h; cases h
  refine applyPasses_induct (P := fun value => ∀ map, value ≠ .object map) _ ?_ hprepared map h
  intro pass hpass value hvalue
  simp only [largeSchemaCompactionPasses, List.mem_cons, List.not_mem_nil, or_false] at hpass
  rcases hpass with rfl | rfl | rfl | rfl
  · exact hrewrite stripPass rfl value hvalue
  · have hcut := hrewrite (cutPass (hasLocalRef format)) rfl value hvalue
    intro map
    rw [dropSchemaDefinitions, rewriteDefinitionRefsToEmptySchemas]
    cases hcutValue : (cutPass (hasLocalRef format)).rewrite 0 value with
    | object map => exact absurd hcutValue (hcut map)
    | _ => intro h; cases h
  · exact hrewrite (cutPass isDeepAndComplex) rfl value hvalue
  · exact hrewrite (cutPass isComposition) rfl value hvalue

lemma fromValue_of_deserialize {value schema : Json Number}
    (h : deserializeToolInputSchema value = some schema) : fromValue value = some schema := by
  obtain ⟨read, hread, hschema⟩ := Option.bind_eq_some_iff.mp h
  split at hschema
  · split_ifs at hschema
    rw [hread, hschema]
  · rw [hread, hschema]

/-- **A reference of the returned schema leads nowhere exactly where it was hidden**, unless its
definition is kept for another one. -/
theorem parseToolInputSchema_noDangling_iff (format : SchemaFormat Number)
    {input schema : Json Number}
    (hwell : input.WellFormed) (hshape : SchemaShaped input) (hinput : NoDangling format input)
    (hparse : parseToolInputSchema format input = some schema) :
    NoDangling format schema ↔
      ∀ pointer, Hidden format (Emptied format (prepareToolInputSchema format input)) 0
          (sanitizeJsonSchema input) pointer →
        ¬DropsDefinitions format (prepareToolInputSchema format input) ∧
          pointer ∈ collectReachableDefinitions format (sanitizeJsonSchema input) := by
  -- what is read has the references and definitions of the compacted schema
  have hread := fromValue_of_deserialize hparse
  obtain ⟨map, read, hcompact, -, -⟩ := exists_of_fromValue hshape.compact hread
  have hcompacted : SchemaShaped (.object map) := hcompact ▸ hshape.compact
  have hdangling : NoDangling format schema ↔ NoDangling format (.object map) := by
    rw [← hcompact]
    exact forall_congr' fun pointer => by
      rw [schemaRefs_of_fromValue hshape.compact hread pointer,
        definition_of_fromValue hshape.compact hread pointer]
  obtain ⟨sanitized, hsanitized⟩ := exists_object_of_compact hcompact
  have hascending : Ascending sanitized := by
    have hshaped := hshape.sanitize
    rw [hsanitized] at hshaped
    exact hshaped.ascending
  have hpresent := hinput.sanitize
  rw [hsanitized] at hpresent
  have hprepared : prepareToolInputSchema format input =
      pruneUnreachableDefinitions format (.object sanitized) := by
    rw [prepareToolInputSchema, hsanitized]
  have hhidden : ∀ pointer, Hidden format (Emptied format (prepareToolInputSchema format input)) 0
      (prepareToolInputSchema format input) pointer ↔
        Hidden format (Emptied format (prepareToolInputSchema format input)) 0 (.object sanitized)
          pointer := by
    intro pointer
    nth_rewrite 2 [hprepared]
    exact (sameBesideTables_prunedTables hascending _).hidden (readsHead_emptied _ _)
  rw [hdangling, hsanitized]
  by_cases hdrops : DropsDefinitions format (prepareToolInputSchema format input)
  · have hshaped : SchemaShaped (prepareToolInputSchema format input) := hshape.sanitize.prune
    rw [noDangling_compact_of_large hshaped hdrops hcompact hcompacted.ascending]
    refine forall_congr' fun pointer => ?_
    rw [hhidden]
    exact ⟨fun hnot h => absurd h hnot, fun h hhidden => (h hhidden).1 hdrops⟩
  · have hcuts : ∀ depth map, Emptied format (prepareToolInputSchema format input) depth map ↔
        CutsNothing depth map := by
      refine fun depth map => iff_of_false ?_ not_false
      rintro (⟨h, -⟩ | ⟨h, -⟩ | ⟨h, -⟩)
      · exact hdrops h
      · exact hdrops ⟨h.1, h.2.1⟩
      · exact hdrops ⟨h.1, h.2.1⟩
    have hkept : NoDangling format (.object map) ↔
        NoDangling format (pruneUnreachableDefinitions format (.object sanitized)) := by
      rw [← hcompact, ← hprepared]
      exact noDangling_compact_of_fits hdrops
    rw [hkept, noDangling_prune hascending (nodup_tableOf_sanitize hwell hsanitized) hpresent]
    refine forall_congr' fun pointer => ?_
    rw [hidden_congr hcuts]
    exact imp_congr_right fun _ => (and_iff_right hdrops).symm

/-! ### A hidden reference -/

section samples

variable {a b : Text} {v w : Json ℕ}

lemma wellFormed_single (hv : v.WellFormed) : (Json.object [(a, v)]).WellFormed :=
  .object (List.pairwise_singleton _ _) fun _ hfield => List.mem_singleton.mp hfield ▸ hv

lemma wellFormed_pair (hab : a < b) (hv : v.WellFormed) (hw : w.WellFormed) :
    (Json.object [(a, v), (b, w)]).WellFormed := by
  refine .object (List.pairwise_pair.mpr hab) fun field hfield => ?_
  rcases List.mem_pair.mp hfield with rfl | rfl
  · exact hv
  · exact hw

lemma schemaShaped_pair (hab : a < b) (hv : ∀ schema ∈ schemasIn a v, SchemaShaped schema)
    (hw : ∀ schema ∈ schemasIn b w, SchemaShaped schema) :
    SchemaShaped (.object [(a, v), (b, w)]) := by
  refine .object (List.pairwise_pair.mpr hab) fun field hfield => ?_
  rcases List.mem_pair.mp hfield with rfl | rfl
  · exact hv
  · exact hw

end samples

def refBar : Json ℕ := .object [("$ref".toList, .string "#/$defs/Bar".toList)]

lemma schemaShaped_refBar : SchemaShaped refBar :=
  .object (List.pairwise_singleton _ _) fun field hfield schema hschema => by
    rw [List.mem_singleton.mp hfield] at hschema
    cases hschema

/-- A schema with a table of definitions, which refer to `Bar`. -/
def schemaWithTable : Json ℕ :=
  .object [("$defs".toList, .object [("Foo".toList, refBar)]),
    ("type".toList, .string "string".toList)]

lemma schemaShaped_schemaWithTable : SchemaShaped schemaWithTable := by
  refine schemaShaped_pair (by decide) (fun schema hschema => ?_) fun schema hschema => ?_
  · exact List.mem_singleton.mp hschema ▸ schemaShaped_refBar
  · cases hschema

/-- The reference in the table is hidden; another one keeps its definition. -/
def sharedReference : Json ℕ :=
  .object [("$defs".toList, .object [("Bar".toList, stringSchema)]),
    ("properties".toList, .object [(['x'], schemaWithTable), (['y'], refBar)])]

lemma wellFormed_sharedReference : sharedReference.WellFormed :=
  have hbar : refBar.WellFormed := wellFormed_single (.string _)
  have hinner : schemaWithTable.WellFormed :=
    wellFormed_pair (by decide) (wellFormed_single hbar) (.string _)
  wellFormed_pair (by decide) (wellFormed_single (wellFormed_single (.string _)))
    (wellFormed_pair (by decide) hinner hbar)

lemma schemaShaped_sharedReference : SchemaShaped sharedReference := by
  refine schemaShaped_pair (by decide) (fun schema hschema => ?_) fun schema hschema => ?_
  · exact List.mem_singleton.mp hschema ▸ schemaShaped_stringSchema
  · rcases List.mem_pair.mp hschema with rfl | rfl
    · exact schemaShaped_schemaWithTable
    · exact schemaShaped_refBar

/-- The hidden reference does not dangle, since its definition is reached from the other one. -/
theorem parseToolInputSchema_noDangling_iff_sharedReference :
    ∃ schema, parseToolInputSchema plainFormat sharedReference = some schema ∧
      NoDangling plainFormat schema ∧
      Hidden plainFormat (Emptied plainFormat (prepareToolInputSchema plainFormat sharedReference))
        0 (sanitizeJsonSchema sharedReference) ⟨.defs, "Bar".toList⟩ ∧
      ⟨.defs, "Bar".toList⟩ ∈
        collectReachableDefinitions plainFormat (sanitizeJsonSchema sharedReference) := by
  obtain ⟨schema, hparse⟩ := Option.isSome_iff_exists.mp
    (by decide +kernel : (parseToolInputSchema plainFormat sharedReference).isSome = true)
  have hiff := parseToolInputSchema_noDangling_iff plainFormat wellFormed_sharedReference
    schemaShaped_sharedReference (by unfold NoDangling; decide +kernel) hparse
  have hkept : (parseToolInputSchema plainFormat sharedReference).all (fun schema =>
      (schemaRefs plainFormat schema).all fun pointer =>
        (definitionForPointer schema pointer).isSome) = true := by decide +kernel
  rw [hparse, Option.all_some, List.all_eq_true] at hkept
  have hhidden : Hidden plainFormat
      (Emptied plainFormat (prepareToolInputSchema plainFormat sharedReference)) 0
      (sanitizeJsonSchema sharedReference) ⟨.defs, "Bar".toList⟩ := by
    have hfits : compactSchemaFitsBudget plainFormat
        (prepareToolInputSchema plainFormat sharedReference) = true := by decide +kernel
    have hcut : ∀ depth map, ¬Emptied plainFormat
        (prepareToolInputSchema plainFormat sharedReference) depth map := by
      have hnot : ¬compactSchemaFitsBudget plainFormat
          (prepareToolInputSchema plainFormat sharedReference) = false := by
        rw [hfits]
        exact Bool.false_ne_true.symm
      rintro depth map (h | h | h)
      · exact hnot h.1.1
      · exact hnot h.1.1
      · exact hnot h.1.1
    have hsanitized : sanitizeJsonSchema sharedReference =
        .object [("$defs".toList, .object [("Bar".toList, stringSchema)]),
          ("properties".toList, .object [(['x'], schemaWithTable), (['y'], refBar)]),
          ("type".toList, .string "object".toList)] := by decide +kernel
    rw [hsanitized]
    exact .child (hcut _ _) (List.mem_cons_of_mem _ List.mem_cons_self) List.mem_cons_self
      (.table Nat.zero_lt_one (hcut _ _) List.mem_cons_self (by decide) List.mem_cons_self
        (by decide +kernel))
  exact ⟨schema, hparse, hkept, hhidden, (hiff.mp hkept _ hhidden).2⟩

/-- A reference in the table of a property, to a definition that nothing else refers to. -/
def hiddenReference : Json ℕ :=
  .object [("$defs".toList, .object [("Bar".toList, stringSchema)]),
    ("properties".toList, .object [(['x'], schemaWithTable)]),
    ("type".toList, .string "object".toList)]

/-- The definition is pruned, and the reference is kept. -/
theorem hiddenReference_dangles :
    (∀ pointer ∈ collectRefs plainFormat hiddenReference,
        (definitionForPointer hiddenReference pointer).isSome = true) ∧
      (parseToolInputSchema plainFormat hiddenReference).map (fun schema =>
          (schemaRefs plainFormat schema,
            (definitionForPointer schema ⟨.defs, "Bar".toList⟩).isSome)) =
        some ([⟨.defs, "Bar".toList⟩], false) := by
  decide +kernel

end Codex.Tools
