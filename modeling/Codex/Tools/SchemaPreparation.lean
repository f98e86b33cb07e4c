import Codex.Tools.JsonSchema

/-!
# Preparing a schema twice

`prepare_tool_input_schema` of `tools/src/json_schema.rs`: a sanitized schema is `Settled`, so that
sanitizing leaves it as it is, and pruning takes no definition away that is still referred to.

* `pruneUnreachableDefinitions_idem`: pruning a pruned schema changes nothing;
* `prepareToolInputSchema_idem`: nor does preparing a prepared one.
-/

namespace Codex.Tools

open Codex.Lib

variable {Number : Type} {format : SchemaFormat Number} {map : Fields Number}

/-! ### Settled objects -/

/-- The types are written with the children they need, or are left open, or nothing is known. -/
def TypesSettled (map : Fields Number) : Prop :=
  (normalizedSchemaTypes map = [] ∧
      (containsKey map "$ref".toList = true ∨ hasCompositionKeyword map = true)) ∨
    map = [] ∨
    ∃ schemaTypes, schemaTypes ≠ [] ∧
      map.lookup "type".toList = some (schemaTypesValue schemaTypes) ∧
      (.object ∈ schemaTypes → containsKey map "properties".toList = true) ∧
      (.array ∈ schemaTypes → containsKey map "items".toList = true)

/-- An object that sanitizing leaves as it is. -/
structure Settled (map : Fields Number) : Prop where
  ascending : Ascending map
  tables : ∀ key ∈ definitionTableKeys, ∀ value, map.lookup key = some value →
    ∃ definitions, value = .object definitions
  const : map.lookup "const".toList = none
  types : TypesSettled map

lemma schemaTypeFromStr_schemaTypeName (schemaType : JsonSchemaPrimitiveType) :
    schemaTypeFromStr (schemaTypeName schemaType) = some schemaType := by
  cases schemaType <;> decide

variable {key : Text} {value : Json Number} {schemaTypes : List JsonSchemaPrimitiveType}

lemma normalizedSchemaTypes_of_lookup (hne : schemaTypes ≠ [])
    (h : map.lookup "type".toList = some (schemaTypesValue schemaTypes)) :
    normalizedSchemaTypes map = schemaTypes := by
  rw [normalizedSchemaTypes, h]
  rcases schemaTypes with _ | ⟨first, _ | ⟨second, rest⟩⟩
  · exact absurd rfl hne
  · show (schemaTypeFromStr (schemaTypeName first)).toList = [first]
    rw [schemaTypeFromStr_schemaTypeName]
    rfl
  · show ((first :: second :: rest).map fun schemaType =>
      Json.string (schemaTypeName schemaType)).filterMap _ = _
    rw [List.filterMap_map]
    refine (List.filterMap_congr fun schemaType _ => ?_).trans List.filterMap_some
    exact schemaTypeFromStr_schemaTypeName schemaType

lemma ensureDefaultChildren_eq_self
    (hobject : .object ∈ schemaTypes → containsKey map "properties".toList = true)
    (harray : .array ∈ schemaTypes → containsKey map "items".toList = true) :
    ensureDefaultChildrenForSchemaTypes map schemaTypes = map := by
  have hproperties : ¬(.object ∈ schemaTypes ∧ (!containsKey map "properties".toList) = true) := by
    rintro ⟨hmem, hmissing⟩
    rw [hobject hmem] at hmissing
    exact Bool.false_ne_true hmissing
  have hitems : ¬(.array ∈ schemaTypes ∧ (!containsKey map "items".toList) = true) := by
    rintro ⟨hmem, hmissing⟩
    rw [harray hmem] at hmissing
    exact Bool.false_ne_true hmissing
  rw [ensureDefaultChildrenForSchemaTypes]
  simp only [if_neg hproperties, if_neg hitems]

lemma inferTypes_eq_self (hascending : Ascending map) (h : TypesSettled map) :
    inferTypes map = map := by
  rcases h with hopen | rfl | ⟨schemaTypes, hne, htype, hobject, harray⟩
  · exact if_pos hopen
  · rfl
  · have hread := normalizedSchemaTypes_of_lookup hne htype
    rw [inferTypes, hread, if_neg fun h => hne h.1, if_neg hne]
    dsimp only
    rw [writeSchemaTypes, if_neg hne, hascending.put_eq_self htype,
      ensureDefaultChildren_eq_self hobject harray]

lemma dropMalformedTable_eq_self
    (h : ∀ value, map.lookup key = some value → ∃ definitions, value = .object definitions) :
    dropMalformedTable map key = map := by
  rw [dropMalformedTable]
  cases hlookup : map.lookup key with
  | none => rfl
  | some value =>
    obtain ⟨definitions, rfl⟩ := h value hlookup
    rfl

lemma Settled.sanitizeObject_eq_self (h : Settled map) : sanitizeObject map = map := by
  have htables : definitionTableKeys.foldl dropMalformedTable map = map := by
    have hsome : ∀ keys ⊆ definitionTableKeys, keys.foldl dropMalformedTable map = map := by
      intro keys hkeys
      induction keys with
      | nil => rfl
      | cons key keys ih =>
        rw [List.foldl_cons, dropMalformedTable_eq_self (h.tables key (hkeys List.mem_cons_self))]
        exact ih fun _ hmem => hkeys (List.mem_cons_of_mem _ hmem)
    exact hsome _ (List.Subset.refl _)
  rw [sanitizeObject, htables, constToEnum, h.const]
  exact inferTypes_eq_self h.ascending h.types

/-! ### Sanitizing settles an object -/

lemma ascending_dropMalformedTable (h : Ascending map) (key : Text) :
    Ascending (dropMalformedTable map key) := by
  rw [dropMalformedTable]
  split
  · exact h
  · exact h.without key
  · exact h

lemma lookup_dropMalformedTable_of_ne {key key' : Text} (hne : key' ≠ key) :
    (dropMalformedTable map key).lookup key' = map.lookup key' := by
  rw [dropMalformedTable]
  split
  · rfl
  · rw [lookup_without, if_neg hne]
  · rfl

lemma isObject_of_lookup_dropMalformedTable
    (h : (dropMalformedTable map key).lookup key = some value) :
    ∃ definitions, value = .object definitions := by
  rw [dropMalformedTable] at h
  split at h
  next definitions hlookup => exact ⟨definitions, Option.some.inj (h.symm.trans hlookup)⟩
  next =>
    rw [lookup_without, if_pos rfl] at h
    cases h
  next hlookup =>
    rw [hlookup] at h
    cases h

lemma ascending_constToEnum (h : Ascending map) : Ascending (constToEnum map) := by
  rw [constToEnum]
  split
  · exact (h.without _).put _ _
  · exact h

lemma lookup_constToEnum_of_ne (hconst : key ≠ "const".toList) (henum : key ≠ "enum".toList) :
    (constToEnum map).lookup key = map.lookup key := by
  rw [constToEnum]
  split
  · rw [lookup_put, if_neg henum, lookup_without, if_neg hconst]
  · rfl

lemma lookup_const_constToEnum : (constToEnum map).lookup "const".toList = none := by
  rw [constToEnum]
  split
  · rw [lookup_put, if_neg (by decide), lookup_without, if_pos rfl]
  next hlookup => exact hlookup

/-- What `ensure_default_children_for_schema_types` leaves alone. -/
theorem lookup_ensureDefaultChildren_of_ne (hproperties : key ≠ "properties".toList)
    (hitems : key ≠ "items".toList) (schemaTypes : List JsonSchemaPrimitiveType) :
    (ensureDefaultChildrenForSchemaTypes map schemaTypes).lookup key = map.lookup key := by
  rw [ensureDefaultChildrenForSchemaTypes]
  split_ifs <;> simp only [lookup_put, if_neg hproperties, if_neg hitems]

lemma ascending_ensureDefaultChildren (h : Ascending map)
    (schemaTypes : List JsonSchemaPrimitiveType) :
    Ascending (ensureDefaultChildrenForSchemaTypes map schemaTypes) := by
  rw [ensureDefaultChildrenForSchemaTypes]
  split_ifs
  · exact (h.put _ _).put _ _
  · exact h.put _ _
  · exact h.put _ _
  · exact h

/-- The children that the types need are there then. -/
theorem containsKey_ensureDefaultChildren (map : Fields Number)
    (schemaTypes : List JsonSchemaPrimitiveType) :
    let map' := ensureDefaultChildrenForSchemaTypes map schemaTypes
    (.object ∈ schemaTypes → containsKey map' "properties".toList = true) ∧
      (.array ∈ schemaTypes → containsKey map' "items".toList = true) := by
  have hne : "properties".toList ≠ "items".toList := by decide
  have hput : ∀ key : Text, ∀ value : Json Number, ∀ map : Fields Number,
      containsKey (put key value map) key = true := by
    intro key value map
    rw [containsKey, lookup_put, if_pos rfl, Option.isSome_some]
  have hother : ∀ value : Json Number, ∀ map : Fields Number,
      containsKey (put "items".toList value map) "properties".toList =
        containsKey map "properties".toList := by
    intro value map
    rw [containsKey, lookup_put, if_neg hne, containsKey]
  rw [ensureDefaultChildrenForSchemaTypes]
  constructor
  · intro hobject
    split_ifs with hproperties
    · rw [hother, hput]
    · exact hput _ _ _
    · rw [hother]
      simpa [hobject] using hproperties
    · simpa [hobject] using hproperties
  · intro harray
    split_ifs with hproperties hitems hitems
    · exact hput _ _ _
    · simpa [harray] using hitems
    · exact hput _ _ _
    · simpa [harray] using hitems

lemma ne_nil_of_inferredSchemaTypes (h : inferredSchemaTypes map = some schemaTypes) :
    schemaTypes ≠ [] := by
  rw [inferredSchemaTypes] at h
  split_ifs at h <;> exact Option.some.inj h ▸ List.cons_ne_nil _ _

/-- The types are left open, or nothing is known, or types are written. -/
theorem inferTypes_cases (map : Fields Number) :
    (inferTypes map = map ∧ TypesSettled map) ∨ inferTypes map = [] ∨
      ∃ schemaTypes, schemaTypes ≠ [] ∧ inferTypes map = ensureDefaultChildrenForSchemaTypes
          (put "type".toList (schemaTypesValue schemaTypes) map) schemaTypes := by
  by_cases hopen : normalizedSchemaTypes map = [] ∧
      (containsKey map "$ref".toList ∨ hasCompositionKeyword map)
  · exact .inl ⟨if_pos hopen, .inl hopen⟩
  rw [inferTypes, if_neg hopen]
  cases htypes : if normalizedSchemaTypes map = [] then inferredSchemaTypes map
      else some (normalizedSchemaTypes map) with
  | none => exact .inr (.inl rfl)
  | some schemaTypes =>
    have hne : schemaTypes ≠ [] := by
      split_ifs at htypes with hnil
      · exact ne_nil_of_inferredSchemaTypes htypes
      · exact Option.some.inj htypes ▸ hnil
    refine .inr (.inr ⟨schemaTypes, hne, ?_⟩)
    dsimp only
    rw [writeSchemaTypes, if_neg hne]

lemma ascending_inferTypes (h : Ascending map) : Ascending (inferTypes map) := by
  rcases inferTypes_cases map with ⟨hsame, -⟩ | hempty | ⟨schemaTypes, -, htyped⟩
  · rwa [hsame]
  · rw [hempty]
    exact List.Pairwise.nil
  · rw [htyped]
    exact ascending_ensureDefaultChildren (h.put _ _) schemaTypes

/-- What `infer_types` leaves alone, unless it clears the object. -/
theorem lookup_inferTypes_of_ne (hkey : key ∉ ["type".toList, "properties".toList, "items".toList])
    (h : (inferTypes map).lookup key = some value) : map.lookup key = some value := by
  simp only [List.mem_cons, List.not_mem_nil, or_false, not_or] at hkey
  rcases inferTypes_cases map with ⟨hsame, -⟩ | hempty | ⟨schemaTypes, -, htyped⟩
  · rwa [hsame] at h
  · rw [hempty] at h
    cases h
  · rwa [htyped, lookup_ensureDefaultChildren_of_ne hkey.2.1 hkey.2.2, lookup_put,
      if_neg hkey.1] at h

lemma typesSettled_inferTypes (map : Fields Number) : TypesSettled (inferTypes map) := by
  rcases inferTypes_cases map with ⟨hsame, hsettled⟩ | hempty | ⟨schemaTypes, hne, htyped⟩
  · rwa [hsame]
  · exact .inr (.inl hempty)
  · obtain ⟨hobject, harray⟩ := containsKey_ensureDefaultChildren
      (put "type".toList (schemaTypesValue schemaTypes) map) schemaTypes
    rw [htyped]
    refine .inr (.inr ⟨schemaTypes, hne, ?_, hobject, harray⟩)
    rw [lookup_ensureDefaultChildren_of_ne (by decide) (by decide), lookup_put, if_pos rfl]

/-- **Sanitizing settles an object.** -/
theorem settled_sanitizeObject (h : Ascending map) : Settled (sanitizeObject map) := by
  have hdrop : definitionTableKeys.foldl dropMalformedTable map =
      dropMalformedTable (dropMalformedTable map "$defs".toList) "definitions".toList := rfl
  have hascending : Ascending (constToEnum (definitionTableKeys.foldl dropMalformedTable map)) := by
    rw [hdrop]
    exact ascending_constToEnum (ascending_dropMalformedTable (ascending_dropMalformedTable h _) _)
  refine ⟨ascending_inferTypes hascending, ?_, ?_, typesSettled_inferTypes _⟩
  · intro key hkey value hlookup
    have hother : key ∉ ["type".toList, "properties".toList, "items".toList] ∧
        key ≠ "const".toList ∧ key ≠ "enum".toList := by
      have hall : ∀ key ∈ definitionTableKeys,
          key ∉ ["type".toList, "properties".toList, "items".toList] ∧
            key ≠ "const".toList ∧ key ≠ "enum".toList := by decide
      exact hall key hkey
    have htable := lookup_inferTypes_of_ne hother.1 hlookup
    rw [lookup_constToEnum_of_ne hother.2.1 hother.2.2, hdrop] at htable
    rcases List.mem_cons.mp hkey with rfl | hkey
    · rw [lookup_dropMalformedTable_of_ne (by decide)] at htable
      exact isObject_of_lookup_dropMalformedTable htable
    · rw [List.mem_singleton.mp hkey] at htable
      exact isObject_of_lookup_dropMalformedTable htable
  · cases hconst : (sanitizeObject map).lookup "const".toList with
    | none => rfl
    | some value =>
      have := lookup_inferTypes_of_ne (by decide) hconst
      rw [lookup_const_constToEnum] at this
      exact absurd this nofun

/-! ### Sanitizing twice -/

lemma sanitizeJsonSchema_array (items : List (Json Number)) :
    sanitizeJsonSchema (.array items) = .array (items.map sanitizeJsonSchema) :=
  Pass.rewrite_array items

lemma sanitizeJsonSchema_object (map : Fields Number) :
    sanitizeJsonSchema (.object map) = .object (sanitizeObject (sanitizePass.fields 0 map)) := by
  have hdepth : sanitizePass.fields 1 map = sanitizePass.fields 0 map :=
    List.map_congr_left fun field _ => by
      rw [Visit.map_congr fun child _ => Pass.rewrite_depth (fun _ _ _ => rfl) child 1 0]
  have hcut : ¬(sanitizePass : Pass Number).cut 0 map = true := Bool.false_ne_true
  rw [sanitizeJsonSchema, Pass.rewrite_object, if_neg hcut]
  exact congrArg (Json.object ∘ sanitizeObject) hdepth

lemma sanitizeJsonSchema_stringSchema :
    sanitizeJsonSchema (stringSchema : Json Number) = stringSchema := rfl

/-- A field of a sanitized object is one of before, or has nothing to sanitize. -/
theorem mem_sanitizeObject {field : Text × Json Number} (h : field ∈ sanitizeObject map) :
    field ∈ map ∨
      (∃ constValue, field = ("enum".toList, .array [constValue]) ∧
        ("const".toList, constValue) ∈ map) ∨
      (∃ schemaTypes, field = ("type".toList, schemaTypesValue schemaTypes)) ∨
      field = ("properties".toList, .object []) ∨ field = ("items".toList, stringSchema) := by
  have hdrop : ∀ (map : Fields Number) (key : Text), ∀ field ∈ dropMalformedTable map key,
      field ∈ map := by
    intro map key field hmem
    rw [dropMalformedTable] at hmem
    split at hmem
    · exact hmem
    · exact (List.mem_filter.mp hmem).1
    · exact hmem
  have hconst : ∀ (map : Fields Number), ∀ field ∈ constToEnum map, field ∈ map ∨
      ∃ constValue, field = ("enum".toList, .array [constValue]) ∧
        ("const".toList, constValue) ∈ map := by
    intro map field hmem
    rw [constToEnum] at hmem
    split at hmem
    next constValue hlookup =>
      rcases mem_put hmem with hnew | hmem
      · exact .inr ⟨constValue, hnew, mem_of_lookup hlookup⟩
      · exact .inl (List.mem_filter.mp hmem).1
    next => exact .inl hmem
  have hdefault : ∀ (map : Fields Number) (schemaTypes : List JsonSchemaPrimitiveType),
      ∀ field ∈ ensureDefaultChildrenForSchemaTypes map schemaTypes, field ∈ map ∨
        field = ("properties".toList, .object []) ∨ field = ("items".toList, stringSchema) := by
    intro map schemaTypes field hmem
    rw [ensureDefaultChildrenForSchemaTypes] at hmem
    split_ifs at hmem
    · rcases mem_put hmem with hnew | hmem
      · exact .inr (.inr hnew)
      · exact (mem_put hmem).symm.imp_right .inl
    · exact (mem_put hmem).symm.imp_right .inl
    · exact (mem_put hmem).symm.imp_right .inr
    · exact .inl hmem
  have hbefore : ∀ field ∈ constToEnum (definitionTableKeys.foldl dropMalformedTable map),
      field ∈ map ∨ ∃ constValue, field = ("enum".toList, .array [constValue]) ∧
        ("const".toList, constValue) ∈ map := by
    intro field hmem
    rcases hconst _ field hmem with hmem | ⟨constValue, hfield, hmem⟩
    · exact .inl (hdrop _ _ _ (hdrop _ _ _ hmem))
    · exact .inr ⟨constValue, hfield, hdrop _ _ _ (hdrop _ _ _ hmem)⟩
  rcases inferTypes_cases (constToEnum (definitionTableKeys.foldl dropMalformedTable map)) with
    ⟨hsame, -⟩ | hempty | ⟨schemaTypes, -, htyped⟩
  · rw [sanitizeObject, hsame] at h
    exact (hbefore field h).imp_right .inl
  · rw [sanitizeObject, hempty] at h
    cases h
  · rw [sanitizeObject, htyped] at h
    rcases hdefault _ _ field h with hmem | hnew
    · rcases mem_put hmem with hnew | hmem
      · exact .inr (.inr (.inl ⟨schemaTypes, hnew⟩))
      · exact (hbefore field hmem).imp_right .inl
    · exact .inr (.inr (.inr hnew))

/-- An object that was sanitized from its children up. -/
structure Sanitized (map : Fields Number) : Prop where
  settled : Settled map
  children : ∀ field ∈ map, ∀ child ∈ (sanitizeVisit field.1).children field.2,
    sanitizeJsonSchema child = child

lemma Sanitized.eq_self (h : Sanitized map) : sanitizeJsonSchema (.object map) = .object map := by
  have hfields : sanitizePass.fields 0 map = map := by
    refine (List.map_congr_left fun field hfield => ?_).trans (List.map_id map)
    rw [show (sanitizePass : Pass Number).visits = sanitizeVisit from rfl]
    exact Prod.ext rfl (Visit.map_eq_self (h.children field hfield))
  rw [sanitizeJsonSchema_object, hfields, h.settled.sanitizeObject_eq_self]

/-- **A sanitized object is sanitized from its children up.** -/
theorem sanitized_sanitizeObject (hascending : Ascending map)
    (hchildren : ∀ field ∈ map, ∀ child ∈ (sanitizeVisit field.1).children field.2,
      sanitizeJsonSchema (sanitizeJsonSchema child) = sanitizeJsonSchema child) :
    Sanitized (sanitizeObject (sanitizePass.fields 0 map)) := by
  refine ⟨settled_sanitizeObject (Pass.ascending_fields hascending), ?_⟩
  intro field hfield child hchild
  rcases mem_sanitizeObject hfield with hmem | ⟨_, rfl, -⟩ | ⟨_, rfl⟩ | rfl | rfl
  · obtain ⟨before, hbefore, rfl⟩ := List.mem_map.mp hmem
    have hbool : ∀ value : Json Number, (sanitizeJsonSchema value).isBool = true →
        value.isBool = true := by
      refine Pass.isBool_of_rewrite fun value hvalue => ?_
      cases value with
      | bool value => rfl
      | _ => exact hvalue
    have hsanitized : (sanitizeVisit before.1).children
        ((sanitizeVisit before.1).map sanitizeJsonSchema before.2) =
          ((sanitizeVisit before.1).children before.2).map sanitizeJsonSchema :=
      Visit.children_map hbool
    obtain ⟨inner, hinner, rfl⟩ := List.mem_map.mp (hsanitized ▸ hchild)
    exact hchildren before hbefore inner hinner
  · cases hchild
  · cases hchild
  · cases hchild
  · rw [List.mem_singleton.mp hchild]
    exact sanitizeJsonSchema_stringSchema

/-- **Sanitizing a sanitized schema changes nothing.** -/
theorem sanitizeJsonSchema_idem (h : value.WellFormed) :
    sanitizeJsonSchema (sanitizeJsonSchema value) = sanitizeJsonSchema value := by
  induction value using Json.visitInduct sanitizeVisit with
  | array items ih =>
    cases h with
    | array items_wf =>
      rw [sanitizeJsonSchema_array, sanitizeJsonSchema_array, List.map_map]
      exact congrArg Json.array
        (List.map_congr_left fun item hitem => ih item hitem (items_wf item hitem))
  | object map ih =>
    have hsanitized := sanitized_sanitizeObject h.ascending fun field hfield child hchild =>
      ih field hfield child hchild ((h.field field hfield).of_mem_children hchild)
    rw [sanitizeJsonSchema_object, hsanitized.eq_self]
  | leaf value harray hobject =>
    cases value with
    | array items => exact absurd rfl (harray items)
    | object map => exact absurd rfl (hobject map)
    | _ => rfl

/-! ### The loop over the references -/

variable {pointer : DefinitionPointer}

lemma mem_rootDefinitions :
    pointer ∈ rootDefinitions value ↔ (definitionForPointer value pointer).isSome = true := by
  rw [rootDefinitions, definitionForPointer, Option.isSome_iff_ne_none, ne_eq,
    lookup_eq_none_iff_notMem, not_not, keysOf, List.mem_map]
  simp only [List.mem_flatMap, List.mem_map]
  constructor
  · rintro ⟨table, -, definition, hdefinition, rfl⟩
    exact ⟨definition, hdefinition, rfl⟩
  · rintro ⟨definition, hdefinition, hname⟩
    refine ⟨pointer.table, by cases pointer.table <;> decide, definition, hdefinition, ?_⟩
    rw [hname]

/-- **The loop over the references ends**, also where definitions refer to each other. -/
theorem exists_reachableWithin (format : SchemaFormat Number) (value : Json Number) :
    ∀ turns, reachableTurns format value ≤ turns →
      reachableWithin format value turns = some (collectReachableDefinitions format value) := by
  intro turns hturns
  have hleaf : ∀ pointer, pointer ∉ rootDefinitions value →
      refsOfDefinition format value pointer = [] := by
    intro pointer hpointer
    rw [mem_rootDefinitions, Bool.not_eq_true, Option.isSome_eq_false_iff,
      Option.isNone_iff_eq_none] at hpointer
    rw [refsOfDefinition, hpointer]
  obtain ⟨reachable, hreachable⟩ : ∃ reachable,
      reachableWithin format value (reachableTurns format value) = some reachable :=
    exists_worklist hleaf (by rw [List.length_reverse, reachableTurns])
  have hcollect : collectReachableDefinitions format value = reachable := by
    rw [collectReachableDefinitions, hreachable, Option.getD_some]
  rw [hcollect]
  exact worklist_mono hreachable hturns

/-- What a reference outside the definitions leads to, over any number of definitions. -/
theorem mem_collectReachableDefinitions :
    pointer ∈ collectReachableDefinitions format value ↔
      ∃ start ∈ collectRefsOutsideDefinitions format value,
        Relation.ReflTransGen (IsSucc (refsOfDefinition format value)) start pointer := by
  have hloop := exists_reachableWithin format value _ le_rfl
  rw [mem_worklist_iff hloop]
  simp only [List.mem_reverse]

/-! ### Pruned tables -/

variable (reachable : List DefinitionPointer)

/-- The definitions of a table that are kept. -/
def prunedValue (table : DefinitionTable) :
    Option (Json Number) → Option (Json Number)
  | some (.object definitions) =>
    let definitions := definitions.filter fun definition => ⟨table, definition.1⟩ ∈ reachable
    if definitions.isEmpty then none else some (.object definitions)
  | value => value

/-- The root of a pruned schema. -/
def prunedTables (map : Fields Number) : Fields Number :=
  definitionTables.foldl (pruneSchemaTable reachable) map

section prune

variable {reachable : List DefinitionPointer} {table : DefinitionTable}

lemma lookup_pruneSchemaTable (key : Text) :
    (pruneSchemaTable reachable map table).lookup key =
      if key = table.key then prunedValue reachable table (map.lookup key) else map.lookup key := by
  rw [pruneSchemaTable]
  split
  next definitions hlookup =>
    dsimp only
    by_cases hkey : key = table.key
    · rw [if_pos hkey, hkey, hlookup, prunedValue]
      split_ifs
      · rw [lookup_without, if_pos rfl]
      · rw [lookup_put, if_pos rfl]
    · rw [if_neg hkey]
      split_ifs
      · rw [lookup_without, if_neg hkey]
      · rw [lookup_put, if_neg hkey]
  next hlookup =>
    split_ifs with hkey
    · rw [hkey]
      cases hvalue : map.lookup table.key with
      | none => rfl
      | some value =>
        cases value with
        | object definitions => exact absurd hvalue (hlookup definitions)
        | _ => rfl
    · rfl

lemma ascending_pruneSchemaTable (h : Ascending map) :
    Ascending (pruneSchemaTable reachable map table) := by
  rw [pruneSchemaTable]
  split
  · dsimp only
    split_ifs
    · exact h.without _
    · exact h.put _ _
  · exact h

lemma ascending_prunedTables (h : Ascending map) : Ascending (prunedTables reachable map) :=
  ascending_pruneSchemaTable (ascending_pruneSchemaTable h)

lemma lookup_prunedTables_of_ne {key : Text} (hkey : key ∉ definitionTableKeys) :
    (prunedTables reachable map).lookup key = map.lookup key := by
  have hne : ∀ table : DefinitionTable, key ≠ table.key := by
    rintro table rfl
    exact hkey (by cases table <;> decide)
  show (pruneSchemaTable reachable (pruneSchemaTable reachable map .defs) .definitions).lookup key =
    map.lookup key
  rw [lookup_pruneSchemaTable, if_neg (hne _), lookup_pruneSchemaTable, if_neg (hne _)]

lemma lookup_prunedTables (table : DefinitionTable) :
    (prunedTables reachable map).lookup table.key =
      prunedValue reachable table (map.lookup table.key) := by
  show (pruneSchemaTable reachable (pruneSchemaTable reachable map .defs) .definitions).lookup
    table.key = _
  rw [lookup_pruneSchemaTable, lookup_pruneSchemaTable]
  cases table with
  | defs => rw [if_neg (by decide), if_pos rfl]
  | definitions => rw [if_pos rfl, if_neg (by decide)]

/-- What is left of a table is not empty and was reached. -/
theorem of_lookup_prunedTables {value : Json Number}
    (h : (prunedTables reachable map).lookup table.key = some value) :
    map.lookup table.key = some value ∧ (∀ definitions, value ≠ .object definitions) ∨
      ∃ definitions, value = .object definitions ∧ definitions ≠ [] ∧
        ∀ definition ∈ definitions, definition ∈ tableOf map table ∧
          (⟨table, definition.1⟩ : DefinitionPointer) ∈ reachable := by
  rw [lookup_prunedTables] at h
  cases hvalue : map.lookup table.key with
  | none =>
    rw [hvalue] at h
    cases h
  | some before =>
    rw [hvalue] at h
    cases before with
    | object definitions =>
      rw [prunedValue] at h
      split_ifs at h with hempty
      cases h
      refine .inr ⟨_, rfl, fun hnil => hempty (List.isEmpty_iff.mpr hnil), ?_⟩
      intro definition hdefinition
      obtain ⟨hmem, hreachable⟩ := List.mem_filter.mp hdefinition
      rw [tableOf, hvalue]
      exact ⟨hmem, of_decide_eq_true hreachable⟩
    | _ => exact .inl ⟨h, by rintro definitions rfl; exact absurd h nofun⟩

lemma tableOf_prunedTables (table : DefinitionTable) :
    tableOf (prunedTables reachable map) table = (tableOf map table).filter fun definition =>
      (⟨table, definition.1⟩ : DefinitionPointer) ∈ reachable := by
  rw [tableOf, lookup_prunedTables, tableOf]
  cases map.lookup table.key with
  | none => rfl
  | some value =>
    cases value with
    | object definitions =>
      rw [prunedValue]
      dsimp only
      split_ifs with hempty
      · exact (List.isEmpty_iff.mp hempty).symm
      · rfl
    | _ => rfl

lemma definitionForPointer_prunedTables (pointer : DefinitionPointer) :
    definitionForPointer (.object (prunedTables reachable map)) pointer =
      if pointer ∈ reachable then definitionForPointer (.object map) pointer else none := by
  rw [definitionForPointer, fieldsOf, tableOf_prunedTables,
    lookup_filter fun name => decide ((⟨pointer.table, name⟩ : DefinitionPointer) ∈ reachable)]
  simp only [decide_eq_true_eq]
  rfl

/-- The fields other than the tables are left alone. -/
theorem mem_prunedTables (h : Ascending map) {field : Text × Json Number}
    (hkey : field.1 ∉ definitionTableKeys) :
    field ∈ prunedTables reachable map ↔ field ∈ map := by
  obtain ⟨key, value⟩ := field
  rw [mem_iff_lookup (ascending_prunedTables h).nodup, mem_iff_lookup h.nodup,
    lookup_prunedTables_of_ne hkey]

end prune

/-! ### Pruning twice -/

variable {pointer : DefinitionPointer} {reachable : List DefinitionPointer}

lemma collectRefsOutsideDefinitions_object :
    pointer ∈ collectRefsOutsideDefinitions format (.object map) ↔
      localRef format map = some pointer ∨ ∃ field ∈ map,
        ∃ child ∈ (schemaChildVisit .skipped field.1).children field.2,
          pointer ∈ collectRefsOutsideDefinitions format child := by
  rw [collectRefsOutsideDefinitions, Json.mem_collect_object, Option.mem_toList]

/-- The traversal that skips definitions goes nowhere in a table. -/
theorem notMem_definitionTableKeys_of_child {key : Text} {value child : Json Number}
    (h : child ∈ (schemaChildVisit .skipped key).children value) : key ∉ definitionTableKeys := by
  intro hkey
  have hskip : ∀ key ∈ definitionTableKeys, schemaChildVisit .skipped key = .skip := by decide
  rw [hskip key hkey] at h
  cases h

lemma localRef_prunedTables :
    localRef format (prunedTables reachable map) = localRef format map := by
  rw [localRef, localRef, lookup_prunedTables_of_ne (by decide)]

lemma mem_collectRefsOutsideDefinitions_prunedTables (h : Ascending map) :
    pointer ∈ collectRefsOutsideDefinitions format (.object (prunedTables reachable map)) ↔
      pointer ∈ collectRefsOutsideDefinitions format (.object map) := by
  rw [collectRefsOutsideDefinitions_object, collectRefsOutsideDefinitions_object,
    localRef_prunedTables]
  refine or_congr_right ⟨?_, ?_⟩
  · rintro ⟨field, hfield, child, hchild, hpointer⟩
    exact ⟨field, (mem_prunedTables h (notMem_definitionTableKeys_of_child hchild)).mp hfield,
      child,
      hchild, hpointer⟩
  · rintro ⟨field, hfield, child, hchild, hpointer⟩
    exact ⟨field, (mem_prunedTables h (notMem_definitionTableKeys_of_child hchild)).mpr hfield,
      child,
      hchild, hpointer⟩

/-- **What was reached is still reached** when the rest is pruned. -/
theorem reachable_prunedTables (h : Ascending map)
    (hpointer : pointer ∈ collectReachableDefinitions format (.object map)) :
    pointer ∈ collectReachableDefinitions format
      (.object (prunedTables (collectReachableDefinitions format (.object map)) map)) := by
  obtain ⟨start, hstart, hreach⟩ := mem_collectReachableDefinitions.mp hpointer
  refine mem_collectReachableDefinitions.mpr
    ⟨start, (mem_collectRefsOutsideDefinitions_prunedTables h).mpr hstart, ?_⟩
  clear hpointer
  induction hreach with
  | refl => exact .refl
  | tail hbefore hnext ih =>
    have hkept := mem_collectReachableDefinitions.mpr ⟨start, hstart, hbefore⟩
    refine ih.tail ?_
    rw [IsSucc, refsOfDefinition, definitionForPointer_prunedTables, if_pos hkept]
    exact hnext

/-- A table that was pruned keeps all that is still reached. -/
theorem prunedTables_eq_self (h : Ascending map)
    (hkept : ∀ table definitions, map.lookup table.key = some (.object definitions) → definitions ≠
      [] ∧ ∀ definition ∈ definitions, (⟨table, definition.1⟩ : DefinitionPointer) ∈ reachable) :
    prunedTables reachable map = map := by
  refine (ascending_prunedTables h).ext h fun key => ?_
  by_cases hkey : key ∈ definitionTableKeys
  · obtain ⟨table, -, rfl⟩ := List.mem_map.mp hkey
    rw [lookup_prunedTables]
    cases hvalue : map.lookup table.key with
    | none => rfl
    | some value =>
      cases value with
      | object definitions =>
        obtain ⟨hne, hall⟩ := hkept table definitions hvalue
        have hfilter : (definitions.filter fun definition =>
            (⟨table, definition.1⟩ : DefinitionPointer) ∈ reachable) = definitions :=
          List.filter_eq_self.mpr fun definition hdefinition =>
            decide_eq_true (hall definition hdefinition)
        rw [prunedValue, hfilter, if_neg fun hempty => hne (List.isEmpty_iff.mp hempty)]
      | _ => rfl
  · exact lookup_prunedTables_of_ne hkey

variable (format)

lemma pruneUnreachableDefinitions_object (map : Fields Number) :
    pruneUnreachableDefinitions format (.object map) =
      .object (prunedTables (collectReachableDefinitions format (.object map)) map) := rfl

/-- **Pruning a pruned schema changes nothing.** -/
theorem pruneUnreachableDefinitions_idem (h : Ascending map) :
    pruneUnreachableDefinitions format (pruneUnreachableDefinitions format (.object map)) =
      pruneUnreachableDefinitions format (.object map) := by
  rw [pruneUnreachableDefinitions_object, pruneUnreachableDefinitions_object]
  refine congrArg Json.object (prunedTables_eq_self (ascending_prunedTables h) ?_)
  intro table definitions hlookup
  rcases of_lookup_prunedTables hlookup with ⟨-, hother⟩ | ⟨_, hsame, hne, hreachable⟩
  · exact absurd rfl (hother definitions)
  · cases hsame
    exact ⟨hne, fun definition hdefinition =>
      reachable_prunedTables h (hreachable definition hdefinition).2⟩

variable {format}

/-! ### Preparing twice -/

lemma normalizedSchemaTypes_congr {map' : Fields Number}
    (h : map'.lookup "type".toList = map.lookup "type".toList) :
    normalizedSchemaTypes map' = normalizedSchemaTypes map := by
  rw [normalizedSchemaTypes, normalizedSchemaTypes, h]

/-- The definitions of a sanitized object are sanitized. -/
theorem Sanitized.definition (h : Sanitized map) {table : DefinitionTable}
    {definition : Text × Json Number} (hdefinition : definition ∈ tableOf map table) :
    sanitizeJsonSchema definition.2 = definition.2 := by
  rw [tableOf] at hdefinition
  split at hdefinition
  next definitions hlookup =>
    refine h.children (table.key, .object definitions) (mem_of_lookup hlookup) definition.2 ?_
    have htable : sanitizeVisit table.key = .table := by cases table <;> decide
    rw [htable]
    exact List.mem_map_of_mem hdefinition
  next => exact absurd hdefinition List.not_mem_nil

lemma Sanitized.prunedTables (h : Sanitized map) (reachable : List DefinitionPointer) :
    Sanitized (Tools.prunedTables reachable map) := by
  have hcontains : ∀ key, key ∉ definitionTableKeys →
      containsKey (Tools.prunedTables reachable map) key = containsKey map key := by
    intro key hkey
    rw [containsKey, containsKey, lookup_prunedTables_of_ne hkey]
  have hcomposition : hasCompositionKeyword (Tools.prunedTables reachable map) =
      hasCompositionKeyword map := by
    have hall : ∀ key ∈ compositionSchemaKeys, key ∉ definitionTableKeys := by decide
    rw [hasCompositionKeyword, hasCompositionKeyword, Bool.eq_iff_iff, List.any_eq_true,
      List.any_eq_true]
    refine exists_congr fun key => and_congr_right fun hkey => ?_
    rw [hcontains key (hall key hkey)]
  refine ⟨⟨ascending_prunedTables h.settled.ascending, ?_, ?_, ?_⟩, ?_⟩
  · intro key hkey value hlookup
    obtain ⟨table, -, rfl⟩ := List.mem_map.mp hkey
    rcases of_lookup_prunedTables hlookup with ⟨hbefore, -⟩ | ⟨definitions, hvalue, -⟩
    · exact h.settled.tables _ hkey value hbefore
    · exact ⟨definitions, hvalue⟩
  · rw [lookup_prunedTables_of_ne (by decide)]
    exact h.settled.const
  · rcases h.settled.types with ⟨hopen, hhint⟩ | rfl | ⟨schemaTypes, hne, htype, hobject, harray⟩
    · refine .inl
        ⟨(normalizedSchemaTypes_congr (lookup_prunedTables_of_ne (by decide))).trans hopen,
        ?_⟩
      rwa [hcontains _ (by decide), hcomposition]
    · exact .inr (.inl rfl)
    · refine .inr (.inr ⟨schemaTypes, hne, ?_, ?_, ?_⟩)
      · rwa [lookup_prunedTables_of_ne (by decide)]
      · rwa [hcontains _ (by decide)]
      · rwa [hcontains _ (by decide)]
  · intro field hfield child hchild
    by_cases hkey : field.1 ∈ definitionTableKeys
    · obtain ⟨key, value⟩ := field
      obtain ⟨table, -, rfl⟩ := List.mem_map.mp hkey
      have htable : sanitizeVisit table.key = .table := by cases table <;> decide
      have hlookup := (mem_iff_lookup (ascending_prunedTables h.settled.ascending).nodup).mp hfield
      rw [htable] at hchild
      rcases of_lookup_prunedTables hlookup with ⟨-, hother⟩ | ⟨definitions, rfl, -, hkept⟩
      · cases value with
        | object definitions => exact absurd rfl (hother definitions)
        | _ => cases hchild
      · obtain ⟨definition, hdefinition, rfl⟩ := List.mem_map.mp hchild
        exact h.definition (hkept definition hdefinition).1
    · exact h.children field ((mem_prunedTables h.settled.ascending hkey).mp hfield) child hchild

/-- What sanitizing makes an object of is sanitized. -/
theorem sanitized_of_eq {value : Json Number} (h : value.WellFormed)
    (hsanitized : sanitizeJsonSchema value = .object map) : Sanitized map := by
  cases value with
  | object before =>
    rw [sanitizeJsonSchema_object] at hsanitized
    cases hsanitized
    exact sanitized_sanitizeObject h.ascending fun field hfield child hchild =>
      sanitizeJsonSchema_idem ((h.field field hfield).of_mem_children hchild)
  | array items =>
    rw [sanitizeJsonSchema_array] at hsanitized
    cases hsanitized
  | bool value =>
    cases hsanitized
    have hstring : Sanitized (sanitizeObject (sanitizePass.fields 0
        [("type".toList, (.string "string".toList : Json Number))])) := by
      refine sanitized_sanitizeObject (List.pairwise_singleton _ _)
        fun field hfield child hchild => ?_
      obtain rfl := List.mem_singleton.mp hfield
      cases hchild
    exact hstring
  | _ => cases hsanitized

/-- **Preparing a prepared schema changes nothing**, and the loop over the references ends. -/
theorem prepareToolInputSchema_idem (format : SchemaFormat Number) {inputSchema : Json Number}
    (h : inputSchema.WellFormed) :
    prepareToolInputSchema format (prepareToolInputSchema format inputSchema) =
        prepareToolInputSchema format inputSchema ∧
      ∀ value, ∃ turns, ∀ turns', turns ≤ turns' →
        reachableWithin format value turns' = some (collectReachableDefinitions format value) := by
  refine ⟨?_, fun value => ⟨_, exists_reachableWithin format value⟩⟩
  have hidem := sanitizeJsonSchema_idem h
  cases hsanitized : sanitizeJsonSchema inputSchema with
  | object map =>
    have hmap := sanitized_of_eq h hsanitized
    have hpruned := hmap.prunedTables (collectReachableDefinitions format (.object map))
    rw [prepareToolInputSchema, prepareToolInputSchema, hsanitized,
      pruneUnreachableDefinitions_object, hpruned.eq_self, ← pruneUnreachableDefinitions_object,
      pruneUnreachableDefinitions_idem format hmap.settled.ascending]
  | _ =>
    rw [hsanitized] at hidem
    rw [prepareToolInputSchema, prepareToolInputSchema, hsanitized]
    exact congrArg (pruneUnreachableDefinitions format) hidem

/-- A schema that is its own definition. -/
def cyclicSchema : Json ℕ :=
  .object [("$defs".toList,
    .object [(['A'], .object [("$ref".toList, .string "#/$defs/A".toList)])]),
    ("$ref".toList, .string "#/$defs/A".toList)]

lemma wellFormed_cyclicSchema : cyclicSchema.WellFormed := by
  have hdefinition : (Json.object [("$ref".toList, .string "#/$defs/A".toList)] :
      Json ℕ).WellFormed :=
    .object (List.pairwise_singleton _ _) fun field hfield =>
      List.mem_singleton.mp hfield ▸ .string _
  have htable : (Json.object [(['A'], .object [("$ref".toList, .string "#/$defs/A".toList)])] :
      Json ℕ).WellFormed :=
    .object (List.pairwise_singleton _ _) fun field hfield =>
      List.mem_singleton.mp hfield ▸ hdefinition
  refine .object (List.pairwise_pair.mpr (by decide)) fun field hfield => ?_
  rcases List.mem_cons.mp hfield with rfl | hfield
  · exact htable
  · exact List.mem_singleton.mp hfield ▸ .string _

theorem prepareToolInputSchema_idem_cyclicSchema :
    prepareToolInputSchema plainFormat (prepareToolInputSchema plainFormat cyclicSchema) =
        prepareToolInputSchema plainFormat cyclicSchema ∧
      collectReachableDefinitions plainFormat cyclicSchema = [⟨.defs, ['A']⟩] :=
  ⟨(prepareToolInputSchema_idem plainFormat wellFormed_cyclicSchema).1, by decide +kernel⟩

end Codex.Tools
