import Codex.Lib.MapM
import Codex.Tools.SchemaPreparation

/-!
# What is read of a schema

`deserialize_tool_input_schema` of `tools/src/json_schema.rs` reads the schemas in a JSON value. In
a `SchemaShaped` value no list of as many values as a schema has fields stands for one, which
`serde` would take for its fields; the rewriting passes keep that shape.
-/

namespace Codex.Tools

open Codex.Lib

variable {Number : Type} {format : SchemaFormat Number} {map : Fields Number}

/-! ### Shaped values -/

def itemsOf : Json Number → List (Json Number)
  | .array items => items
  | _ => []

/-- The values that are read as schemas in a field. -/
def schemasIn (key : Text) (value : Json Number) : List (Json Number) :=
  if key ∈ compositionSchemaKeys then itemsOf value
  else (schemaChildVisit .included key).children value

/-- No list of the fields of a schema stands for it, and the keys of a schema are in order. -/
inductive SchemaShaped : Json Number → Prop
  | leaf {value : Json Number} (harray : ∀ items, value ≠ .array items)
      (hobject : ∀ map, value ≠ .object map) : SchemaShaped value
  | list {items : List (Json Number)} (hlength : items.length ≠ schemaKeys.length) :
      SchemaShaped (.array items)
  | object {map : Fields Number} (ascending : Ascending map)
      (schemas : ∀ field ∈ map, ∀ schema ∈ schemasIn field.1 field.2, SchemaShaped schema) :
      SchemaShaped (.object map)

lemma SchemaShaped.empty : SchemaShaped (.object [] : Json Number) :=
  .object List.Pairwise.nil fun _ hfield => absurd hfield List.not_mem_nil

lemma SchemaShaped.ascending (h : SchemaShaped (.object map)) : Ascending map := by
  cases h with
  | leaf _ hobject => exact absurd rfl (hobject map)
  | object ascending _ => exact ascending

lemma SchemaShaped.schemas (h : SchemaShaped (.object map)) :
    ∀ field ∈ map, ∀ schema ∈ schemasIn field.1 field.2, SchemaShaped schema := by
  cases h with
  | leaf _ hobject => exact absurd rfl (hobject map)
  | object _ schemas => exact schemas

/-- The passes go to the schemas that are read, or leave a field alone. -/
def GoesToSchemas (visits : Text → Visit) : Prop :=
  (∀ key ∈ compositionSchemaKeys, visits key = .whole) ∧
    ∀ key, visits key = schemaChildVisit .included key ∨ visits key = .skip ∨
      schemaChildVisit .included key = .skip

/-- The keys of the fields with schemas. -/
def visitedKeys : List Text :=
  "properties".toList :: "additionalProperties".toList :: (schemaChildKeys ++ definitionTableKeys)

lemma schemaChildVisit_of_notMem {key : Text} (h : key ∉ visitedKeys)
    (traversal : DefinitionTraversal) : schemaChildVisit traversal key = .skip := by
  rw [visitedKeys, List.mem_cons, List.mem_cons, List.mem_append, not_or, not_or, not_or] at h
  obtain ⟨hproperties, hadditional, hchild, htable⟩ := h
  rw [schemaChildVisit, if_neg hproperties, if_neg hchild, if_neg hadditional,
    if_neg fun h => htable h.1]

lemma mem_visitedKeys {traversal : DefinitionTraversal} {key : Text} {value child : Json Number}
    (h : child ∈ (schemaChildVisit traversal key).children value) : key ∈ visitedKeys := by
  by_contra hkey
  rw [schemaChildVisit_of_notMem hkey] at h
  exact List.not_mem_nil h

lemma goesToSchemas_schemaChildVisit (traversal : DefinitionTraversal) :
    GoesToSchemas (schemaChildVisit traversal) := by
  refine ⟨by cases traversal <;> decide, fun key => ?_⟩
  by_cases hkey : key ∈ visitedKeys
  · have hall : ∀ key ∈ visitedKeys,
        schemaChildVisit traversal key = schemaChildVisit .included key ∨
          schemaChildVisit traversal key = .skip := by
      cases traversal <;> decide
    exact (hall key hkey).imp_right .inl
  · exact .inr (.inl (schemaChildVisit_of_notMem hkey traversal))

lemma sanitizeVisit_of_mem :
    ∀ key ∈ visitedKeys, sanitizeVisit key = schemaChildVisit .included key := by decide +kernel

lemma goesToSchemas_sanitizeVisit : GoesToSchemas sanitizeVisit := by
  refine ⟨by decide, fun key => ?_⟩
  by_cases hkey : key ∈ visitedKeys
  · exact .inl (sanitizeVisit_of_mem key hkey)
  · exact .inr (.inr (schemaChildVisit_of_notMem hkey .included))

/-- The schemas in a rewritten field are rewritten, or as before. -/
theorem mem_schemasIn_map {visits : Text → Visit} (hvisits : GoesToSchemas visits)
    {f : Json Number → Json Number} (hbool : ∀ value, (f value).isBool = true → value.isBool = true)
    (harray : ∀ items, f (.array items) = .array (items.map f))
    (hitems : ∀ value items, f value = .array items → ∃ items', value = .array items')
    {key : Text} {value schema : Json Number}
    (h : schema ∈ schemasIn key ((visits key).map f value)) :
    schema ∈ schemasIn key value ∨ ∃ schema' ∈ schemasIn key value, schema = f schema' := by
  by_cases hkey : key ∈ compositionSchemaKeys
  · rw [schemasIn, if_pos hkey, hvisits.1 key hkey, Visit.map] at h
    rw [schemasIn, if_pos hkey]
    cases hvalue : f value with
    | array items =>
      obtain ⟨items', rfl⟩ := hitems value items hvalue
      rw [harray] at h
      obtain ⟨item, hitem, rfl⟩ := List.mem_map.mp h
      exact .inr ⟨item, hitem, rfl⟩
    | _ =>
      rw [hvalue] at h
      cases h
  · rw [schemasIn, if_neg hkey] at h
    rw [schemasIn, if_neg hkey]
    rcases hvisits.2 key with hsame | hskip | hskip
    · rw [hsame, Visit.children_map hbool] at h
      obtain ⟨child, hchild, rfl⟩ := List.mem_map.mp h
      exact .inr ⟨child, hchild, rfl⟩
    · rw [hskip] at h
      exact .inl h
    · rw [hskip] at h
      cases h

variable {value : Json Number}

/-- **A pass keeps the shape**, if it does so where it finishes an object. -/
theorem SchemaShaped.rewrite {pass : Pass Number} (hvisits : GoesToSchemas pass.visits)
    (hleaf : ∀ value, (∀ items, value ≠ .array items) → (∀ map, value ≠ .object map) →
      SchemaShaped (pass.leaf value) ∧ (∀ items, pass.leaf value ≠ .array items))
    (hbool : ∀ value, (pass.leaf value).isBool = true → value.isBool = true)
    (hfinish : ∀ map, SchemaShaped (.object map) → SchemaShaped (.object (pass.finish map)))
    (h : SchemaShaped value) (depth : ℕ) :
    SchemaShaped (pass.rewrite depth value) := by
  induction h generalizing depth with
  | leaf harray hobject =>
    rw [Pass.rewrite_leaf harray hobject]
    exact (hleaf _ harray hobject).1
  | list hlength =>
    rw [Pass.rewrite_array]
    exact .list fun h => hlength ((List.length_map _).symm.trans h)
  | @object map ascending schemas ih =>
    rw [Pass.rewrite_object]
    split_ifs
    · exact .empty
    refine hfinish _
      (.object (Pass.ascending_fields ascending) fun field hfield schema hschema => ?_)
    obtain ⟨before, hbefore, rfl⟩ := List.mem_map.mp hfield
    have hitems : ∀ value items, pass.rewrite (depth + 1) value = .array items →
        ∃ items', value = .array items' := by
      intro value items hvalue
      cases value with
      | array items' => exact ⟨items', rfl⟩
      | object map =>
        rw [Pass.rewrite_object] at hvalue
        split_ifs at hvalue
      | _ =>
        rw [Pass.rewrite_leaf (by simp) (by simp)] at hvalue
        exact absurd hvalue ((hleaf _ (by simp) (by simp)).2 items)
    rcases mem_schemasIn_map hvisits (Pass.isBool_of_rewrite hbool) Pass.rewrite_array hitems
      hschema with hsame | ⟨schema', hschema', rfl⟩
    · exact schemas before hbefore schema hsame
    · exact ih before hbefore schema' hschema' (depth + 1)

/-! ### The shape of a compacted schema -/

/-- Fields with the schemas of a shaped object, and in order. -/
theorem SchemaShaped.of_subset (h : SchemaShaped (.object map)) {map' : Fields Number}
    (hascending : Ascending map') (hsubset : ∀ field ∈ map', field ∈ map) :
    SchemaShaped (.object map') :=
  .object hascending fun field hfield => h.schemas field (hsubset field hfield)

lemma SchemaShaped.without (h : SchemaShaped (.object map)) (key : Text) :
    SchemaShaped (.object (without key map)) :=
  h.of_subset (h.ascending.without key) fun _ hfield => (List.mem_filter.mp hfield).1

lemma schemaShaped_stringSchema : SchemaShaped (stringSchema : Json Number) := by
  refine .object (List.pairwise_singleton _ _) fun field hfield schema hschema => ?_
  obtain rfl := List.mem_singleton.mp hfield
  cases hschema

lemma SchemaShaped.sanitizeObject (h : SchemaShaped (.object map)) :
    SchemaShaped (.object (sanitizeObject map)) := by
  refine .object
    (settled_sanitizeObject h.ascending).ascending fun field hfield schema hschema => ?_
  rcases mem_sanitizeObject hfield with hmem | ⟨_, rfl, -⟩ | ⟨_, rfl⟩ | rfl | rfl
  · exact h.schemas field hmem schema hschema
  · cases hschema
  · cases hschema
  · cases hschema
  · rw [List.mem_singleton.mp hschema]
    exact schemaShaped_stringSchema

variable (h : SchemaShaped value)
include h

lemma SchemaShaped.sanitize : SchemaShaped (sanitizeJsonSchema value) := by
  refine h.rewrite goesToSchemas_sanitizeVisit ?_ ?_ (fun _ hmap => hmap.sanitizeObject) 0
  · intro value harray hobject
    cases value with
    | bool value => exact ⟨schemaShaped_stringSchema, fun _ => nofun⟩
    | _ => exact ⟨.leaf harray hobject, harray⟩
  · intro value hbool
    cases value with
    | bool value => rfl
    | _ => exact hbool

lemma SchemaShaped.prune : SchemaShaped (pruneUnreachableDefinitions format value) := by
  cases value with
  | object map =>
    refine .object (ascending_prunedTables h.ascending) fun field hfield schema hschema => ?_
    by_cases hkey : field.1 ∈ definitionTableKeys
    · obtain ⟨key, value⟩ := field
      obtain ⟨table, -, rfl⟩ := List.mem_map.mp hkey
      have hlookup := (mem_iff_lookup (ascending_prunedTables h.ascending).nodup).mp hfield
      have htable : ∀ value : Json Number, schemasIn table.key value =
          Visit.table.children value := by
        cases table <;> exact fun _ => rfl
      rw [htable] at hschema
      rcases of_lookup_prunedTables hlookup with ⟨hsame, -⟩ | ⟨definitions, rfl, -, hkept⟩
      · exact h.schemas (table.key, value) (mem_of_lookup hsame) schema (htable value ▸ hschema)
      · obtain ⟨definition, hdefinition, rfl⟩ := List.mem_map.mp hschema
        have hbefore := (hkept definition hdefinition).1
        rw [tableOf] at hbefore
        split at hbefore
        next before hlookup' =>
          refine h.schemas (table.key, .object before) (mem_of_lookup hlookup') _ ?_
          rw [htable]
          exact List.mem_map_of_mem hbefore
        next => exact absurd hbefore List.not_mem_nil
    · exact h.schemas field ((mem_prunedTables h.ascending hkey).mp hfield) schema hschema
  | _ => exact h

lemma SchemaShaped.strip : SchemaShaped (stripSchemaDescriptions value) :=
  h.rewrite (goesToSchemas_schemaChildVisit _)
    (fun _ harray hobject => ⟨.leaf harray hobject, harray⟩)
    (fun _ => id) (fun _ hmap => hmap.without _) 0

omit h

lemma SchemaShaped.cut (h : SchemaShaped value) (cut : ℕ → Fields Number → Bool) :
    SchemaShaped ((cutPass cut).rewrite 0 value) :=
  h.rewrite (goesToSchemas_schemaChildVisit _)
    (fun _ harray hobject => ⟨.leaf harray hobject, harray⟩)
    (fun _ => id) (fun _ => id) 0

lemma SchemaShaped.drop (h : SchemaShaped value) :
    SchemaShaped (dropSchemaDefinitions format value) := by
  have hcut := h.cut (hasLocalRef format)
  rw [dropSchemaDefinitions, rewriteDefinitionRefsToEmptySchemas]
  cases hvalue : (cutPass (hasLocalRef format)).rewrite 0 value with
  | object map =>
    rw [hvalue] at hcut
    exact (hcut.without _).without _
  | _ =>
    rw [hvalue] at hcut
    exact hcut

lemma applyPasses_induct {P : Json Number → Prop} (fits : Json Number → Bool)
    {passes : List (Json Number → Json Number)}
    (hpasses : ∀ pass ∈ passes, ∀ value, P value → P (pass value)) (h : P value) :
    P (applyPasses fits passes value) := by
  induction passes generalizing value with
  | nil => exact h
  | cons pass passes ih =>
    obtain ⟨hpass, hrest⟩ := List.forall_mem_cons.mp hpasses
    rw [applyPasses]
    split_ifs
    · exact h
    · exact ih hrest (hpass value h)

/-- **The compacted schema is shaped** as the one that came in. -/
theorem SchemaShaped.compact (h : SchemaShaped value) :
    SchemaShaped (compactLargeToolSchema format (prepareToolInputSchema format value)) := by
  refine applyPasses_induct _ (fun pass hpass value hvalue => ?_) h.sanitize.prune
  simp only [largeSchemaCompactionPasses, List.mem_cons, List.not_mem_nil, or_false] at hpass
  rcases hpass with rfl | rfl | rfl | rfl
  · exact hvalue.strip
  · exact hvalue.drop
  · exact hvalue.cut isDeepAndComplex
  · exact hvalue.cut isComposition

/-! ### What is read -/

variable (format)

/-- The references of the schemas in a value. -/
def schemaRefs : Json Number → List DefinitionPointer :=
  Json.collect (schemaChildVisit .included) fun map => (localRef format map).toList

lemma readingsOfFields_eq (map : Fields Number) :
    readingsOfFields map = map.map fun field => (field.1, field.2, readings field.2) := by
  induction map with
  | nil => rfl
  | cons field map ih =>
    obtain ⟨key, value⟩ := field
    rw [readingsOfFields, ih, List.map_cons]

lemma readingsOfItems_eq (items : List (Json Number)) :
    readingsOfItems items = items.map fun item => (item, readings item) := by
  induction items with
  | nil => rfl
  | cons item items ih => rw [readingsOfItems, ih, List.map_cons]

lemma lookup_readingsOfFields (map : Fields Number) (key : Text) :
    (readingsOfFields map).lookup key =
      (map.lookup key).map fun value => (value, readings value) := by
  rw [readingsOfFields_eq]
  exact lookup_map (fun value => (value, readings value)) map key

/-- A field of an object and what is read of it: nothing where it is null or missing. -/
def ReadAs (map read : Fields Number) (key : Text) : Prop :=
  ((map.lookup key = none ∨ map.lookup key = some .null) ∧ read.lookup key = none) ∨
    ∃ value value', map.lookup key = some value ∧
      fieldFromValue key value (readings value) = some value' ∧ read.lookup key = some value'

lemma schemaFromFields_spec {keys : List Text} {read : Fields Number} (hnodup : keys.Nodup)
    (h : schemaFromFields (readingsOfFields map) keys = some read) :
    (∀ key ∈ keys, ReadAs map read key) ∧ (∀ key ∉ keys, read.lookup key = none) ∧
      (keysOf read).Nodup := by
  induction keys generalizing read with
  | nil =>
    cases h
    exact ⟨fun _ hkey => absurd hkey List.not_mem_nil, fun _ _ => rfl, List.nodup_nil⟩
  | cons key keys ih =>
    obtain ⟨hkey, hkeys⟩ := List.nodup_cons.mp hnodup
    rw [schemaFromFields, lookup_readingsOfFields] at h
    -- a field that is not read
    have hskip : (map.lookup key = none ∨ map.lookup key = some .null) →
        schemaFromFields (readingsOfFields map) keys = some read →
        (∀ other ∈ key :: keys, ReadAs map read other) ∧
          (∀ other ∉ key :: keys, read.lookup other = none) ∧ (keysOf read).Nodup := by
      intro hnone hrest
      obtain ⟨hread, hnot, hdistinct⟩ := ih hkeys hrest
      refine ⟨List.forall_mem_cons.mpr ⟨.inl ⟨hnone, hnot key hkey⟩, hread⟩, ?_, hdistinct⟩
      exact fun other hother => hnot other fun hmem => hother (List.mem_cons_of_mem _ hmem)
    cases hvalue : map.lookup key with
    | none =>
      rw [hvalue] at h
      exact hskip (.inl hvalue) h
    | some value =>
      rw [hvalue] at h
      simp only [Option.map_some] at h
      split_ifs at h with hnull
      · refine hskip (.inr ?_) h
        cases value with
        | null => exact hvalue
        | _ => cases hnull
      · obtain ⟨value', hvalue', h⟩ := Option.bind_eq_some_iff.mp h
        obtain ⟨rest, hrest, h⟩ := Option.bind_eq_some_iff.mp h
        cases h
        obtain ⟨hread, hnot, hdistinct⟩ := ih hkeys hrest
        have hcons : ∀ other, ((key, value') :: rest).lookup other =
            if other = key then some value' else rest.lookup other := fun other =>
          lookup_cons_eq_ite other key value' rest
        refine ⟨List.forall_mem_cons.mpr ⟨?_, ?_⟩, ?_, ?_⟩
        · exact .inr ⟨value, value', hvalue, hvalue', (hcons key).trans (if_pos rfl)⟩
        · intro other hother
          have hne : other ≠ key := fun heq => hkey (heq ▸ hother)
          rw [ReadAs, hcons, if_neg hne]
          exact hread other hother
        · intro other hother
          rw [List.mem_cons, not_or] at hother
          rw [hcons, if_neg hother.1]
          exact hnot other hother.2
        · rw [keysOf_cons]
          exact List.nodup_cons.mpr ⟨lookup_eq_none_iff_notMem.mp (hnot key hkey), hdistinct⟩

lemma exists_of_fromValue {value schema : Json Number} (hshape : SchemaShaped value)
    (h : (readings value).schema = some schema) :
    ∃ map read, value = .object map ∧ schema = .object read ∧
      schemaFromFields (readingsOfFields map) schemaKeys = some read := by
  cases hshape with
  | leaf harray hobject =>
    cases value with
    | array items => exact absurd rfl (harray items)
    | object map => exact absurd rfl (hobject map)
    | _ => cases h
  | @list items hlength =>
    have hitems : (readingsOfItems items).length ≠ schemaKeys.length := by
      rwa [readingsOfItems_eq, List.length_map]
    rw [readings] at h
    dsimp only at h
    rw [if_neg hitems] at h
    cases h
  | @object map _ _ =>
    rw [readings] at h
    obtain ⟨read, hread, rfl⟩ := Option.map_eq_some_iff.mp h
    exact ⟨map, read, rfl, rfl, hread⟩

lemma isObject_of_schema {value schema : Json Number} (h : (readings value).schema = some schema) :
    ∃ read, schema = .object read := by
  cases value with
  | object map =>
    obtain ⟨read, -, rfl⟩ := Option.map_eq_some_iff.mp h
    exact ⟨read, rfl⟩
  | array items =>
    rw [readings] at h
    dsimp only at h
    split_ifs at h
    obtain ⟨read, -, rfl⟩ := Option.map_eq_some_iff.mp h
    exact ⟨read, rfl⟩
  | _ => cases h

/-- What is found in a field. -/
def RefAt (map : Fields Number) (key : Text) (pointer : DefinitionPointer) : Prop :=
  ∃ value, map.lookup key = some value ∧
    ∃ child ∈ (schemaChildVisit .included key).children value, pointer ∈ schemaRefs format child

variable {format}

lemma mem_schemaRefs_object (hnodup : (keysOf map).Nodup) {pointer : DefinitionPointer} :
    pointer ∈ schemaRefs format (.object map) ↔
      localRef format map = some pointer ∨ ∃ key, RefAt format map key pointer := by
  rw [schemaRefs, Json.mem_collect_object, Option.mem_toList]
  refine or_congr_right ⟨?_, ?_⟩
  · rintro ⟨⟨key, value⟩, hfield, child, hchild, hpointer⟩
    exact ⟨key, value, (mem_iff_lookup hnodup).mp hfield, child, hchild, hpointer⟩
  · rintro ⟨key, value, hlookup, child, hchild, hpointer⟩
    exact ⟨(key, value), mem_of_lookup hlookup, child, hchild, hpointer⟩

/-- The references of a schema are those of the value it was read from. -/
def SameRefs (format : SchemaFormat Number) (schema value : Json Number) : Prop :=
  ∀ pointer, pointer ∈ schemaRefs format schema ↔ pointer ∈ schemaRefs format value

lemma exists_of_forall₂ {α β : Type} {R : α → β → Prop} {p : α → Prop} {q : β → Prop}
    {as : List α} {bs : List β} (h : List.Forall₂ R as bs)
    (hpq : ∀ a b, a ∈ as → R a b → (q b ↔ p a)) :
    (∃ b ∈ bs, q b) ↔ ∃ a ∈ as, p a := by
  induction h with
  | nil => simp
  | @cons a b as bs hab _ ih =>
    simp only [List.exists_mem_cons_iff]
    exact or_congr (hpq a b List.mem_cons_self hab)
      (ih fun a b ha => hpq a b (List.mem_cons_of_mem _ ha))

section field

variable {key : Text} {value value' : Json Number}

lemma refs_of_table (hkey : key ∈ "properties".toList :: definitionTableKeys)
    (hread : fieldFromValue key value (readings value) = some value') :
    ∃ definitions definitions', value = .object definitions ∧ value' = .object definitions' ∧
      List.Forall₂ (fun definition definition' : Text × Json Number =>
        definition'.1 = definition.1 ∧ (readings definition.2).schema = some definition'.2)
        definitions definitions' := by
  have htable : fieldFromValue key value (readings value) = (readings value).table.map .object := by
    simp only [List.mem_cons, definitionTableKeys, definitionTables, List.map_cons, List.map_nil,
      List.not_mem_nil, or_false] at hkey
    rcases hkey with rfl | rfl | rfl <;> rfl
  rw [htable] at hread
  cases value with
  | object definitions =>
    obtain ⟨definitions', hmap, rfl⟩ := Option.map_eq_some_iff.mp hread
    refine ⟨definitions, definitions', rfl, rfl, ?_⟩
    rw [readings, readingsOfFields_eq] at hmap
    refine (List.forall₂_map_left_iff.mp (forall₂_of_mapM hmap)).imp
      fun definition definition' h => ?_
    obtain ⟨schema, hschema, rfl⟩ := Option.map_eq_some_iff.mp h
    exact ⟨rfl, hschema⟩
  | _ => cases hread

lemma refs_of_field (hkey : key ∈ visitedKeys)
    (ih : ∀ child ∈ schemasIn key value, ∀ schema, (readings child).schema = some schema →
      SameRefs format schema child)
    (hread : fieldFromValue key value (readings value) = some value')
    (pointer : DefinitionPointer) :
    (∃ child ∈ (schemaChildVisit .included key).children value',
        pointer ∈ schemaRefs format child) ↔
      ∃ child ∈ (schemaChildVisit .included key).children value,
        pointer ∈ schemaRefs format child := by
  have hcases : ∀ key ∈ visitedKeys, key ∈ "properties".toList :: definitionTableKeys ∨
      key ∈ compositionSchemaKeys ∨ key = "items".toList ∨ key = "additionalProperties".toList := by
    decide +kernel
  rcases hcases key hkey with htable | hcomposition | rfl | rfl
  · obtain ⟨definitions, definitions', rfl, rfl, hall⟩ := refs_of_table htable hread
    have hvisit : ∀ key ∈ "properties".toList :: definitionTableKeys,
        key ∉ compositionSchemaKeys ∧ schemaChildVisit .included key = .table := by decide +kernel
    obtain ⟨hplain, hvisit⟩ := hvisit key htable
    rw [schemasIn, if_neg hplain, hvisit] at ih
    rw [hvisit]
    have hvalues : List.Forall₂ (fun value value' : Json Number =>
        (readings value).schema = some value') (definitions.map Prod.snd)
          (definitions'.map Prod.snd) :=
      List.forall₂_map_left_iff.mpr (List.forall₂_map_right_iff.mpr (hall.imp fun _ _ => And.right))
    exact exists_of_forall₂ hvalues fun value value' hmem hread =>
      ih value hmem value' hread pointer
  · have hschemas : fieldFromValue key value (readings value) =
        (readings value).schemas.map .array := by
      simp only [List.mem_cons, compositionSchemaKeys, List.not_mem_nil, or_false] at hcomposition
      rcases hcomposition with rfl | rfl | rfl <;> rfl
    have hvisit : ∀ key ∈ compositionSchemaKeys,
        schemaChildVisit .included key = .whole := by decide +kernel
    rw [hschemas] at hread
    rw [schemasIn, if_pos hcomposition] at ih
    rw [hvisit key hcomposition]
    cases value with
    | array items =>
      obtain ⟨items', hmap, rfl⟩ := Option.map_eq_some_iff.mp hread
      rw [readings, readingsOfItems_eq] at hmap
      have hall := List.forall₂_map_left_iff.mp (forall₂_of_mapM hmap)
      simp only [Visit.children, List.mem_singleton, exists_eq_left, schemaRefs,
        Json.mem_collect_array]
      exact exists_of_forall₂ hall fun item item' hmem hread => ih item hmem item' hread pointer
    | _ => cases hread
  · -- `items` is a schema
    have hsame := ih value List.mem_cons_self value' hread
    have hvisit : schemaChildVisit .included "items".toList = .whole := by decide +kernel
    rw [hvisit]
    simp only [Visit.children, List.mem_singleton, exists_eq_left]
    exact hsame pointer
  · have hvisit :
        schemaChildVisit .included "additionalProperties".toList = .unlessBool := by decide +kernel
    have hfield : fieldFromValue "additionalProperties".toList value (readings value) =
        if value.isBool then some value else (readings value).schema := rfl
    rw [hfield] at hread
    rw [hvisit]
    split_ifs at hread with hbool
    · rw [Option.some.inj hread]
    · have hmem : value ∈ schemasIn "additionalProperties".toList value := by
        have hplain : "additionalProperties".toList ∉ compositionSchemaKeys := by decide +kernel
        rw [schemasIn, if_neg hplain, hvisit, Visit.children, if_neg hbool]
        exact List.mem_cons_self
      obtain ⟨read, rfl⟩ := isObject_of_schema hread
      have hsame := ih value hmem (.object read) hread
      have hobject : ¬(Json.object read).isBool = true := Bool.false_ne_true
      rw [Visit.children, if_neg hobject, Visit.children, if_neg hbool]
      simp only [List.mem_singleton, exists_eq_left]
      exact hsame pointer

end field

lemma nodup_schemaKeys : schemaKeys.Nodup := by decide +kernel

lemma localRef_of_readAs {read : Fields Number} (h : ReadAs map read "$ref".toList) :
    localRef format read = localRef format map := by
  rw [localRef, localRef]
  rcases h with ⟨hnone | hnull, hread⟩ | ⟨value, value', hvalue, hfield, hread⟩
  · rw [hread, hnone]
  · rw [hread, hnull]
  · have hstring : fieldFromValue "$ref".toList value (readings value) =
        if isString value then some value else none := rfl
    rw [hstring] at hfield
    split_ifs at hfield
    rw [hread, hvalue, Option.some.inj hfield]

lemma eq_null_of_mem_children {visit : Visit} {child : Json Number}
    (h : child ∈ visit.children .null) : child = .null := by
  cases visit with
  | whole => exact List.mem_singleton.mp h
  | unlessBool => exact List.mem_singleton.mp h
  | _ => cases h

/-- **The schema that is read has the references of the value.** -/
theorem schemaRefs_of_fromValue {value schema : Json Number} (hshape : SchemaShaped value)
    (h : (readings value).schema = some schema) : SameRefs format schema value := by
  induction hshape generalizing schema with
  | leaf harray hobject =>
    obtain ⟨map, -, rfl, -⟩ := exists_of_fromValue (.leaf harray hobject) h
    exact absurd rfl (hobject map)
  | list hlength =>
    obtain ⟨_, -, hobject, -⟩ := exists_of_fromValue (.list hlength) h
    cases hobject
  | @object map ascending schemas ih =>
    obtain ⟨_, read, hmap, rfl, hread⟩ := exists_of_fromValue (.object ascending schemas) h
    cases hmap
    obtain ⟨hfields, -, hnodup⟩ := schemaFromFields_spec nodup_schemaKeys hread
    intro pointer
    rw [mem_schemaRefs_object hnodup, mem_schemaRefs_object ascending.nodup,
      localRef_of_readAs (hfields _ (by decide +kernel))]
    refine or_congr_right (exists_congr fun key => ?_)
    by_cases hkey : key ∈ visitedKeys
    · have hsubset : ∀ key ∈ visitedKeys, key ∈ schemaKeys := by decide +kernel
      rcases hfields key (hsubset key hkey) with
        ⟨hnone | hnull, habsent⟩ | ⟨value, value', hvalue, hfield, hpresent⟩
      · rw [RefAt, RefAt, habsent, hnone]
      · rw [RefAt, RefAt, habsent, hnull]
        refine iff_of_false (fun ⟨_, hvalue, _⟩ => absurd hvalue nofun) ?_
        rintro ⟨_, hvalue, child, hchild, hpointer⟩
        cases hvalue
        rw [eq_null_of_mem_children hchild] at hpointer
        cases hpointer
      · rw [RefAt, RefAt, hvalue, hpresent]
        simp only [Option.some.injEq, exists_eq_left']
        exact refs_of_field hkey (fun child hchild schema hschema =>
          ih (key, value) (mem_of_lookup hvalue) child hchild hschema) hfield pointer
    · rw [RefAt, RefAt, schemaChildVisit_of_notMem hkey]
      simp [Visit.children]

/-- **The schema that is read has the definitions of the value.** -/
theorem definition_of_fromValue {value schema : Json Number} (hshape : SchemaShaped value)
    (h : (readings value).schema = some schema) (pointer : DefinitionPointer) :
    (definitionForPointer schema pointer).isSome = (definitionForPointer value pointer).isSome := by
  obtain ⟨map, read, rfl, rfl, hread⟩ := exists_of_fromValue hshape h
  obtain ⟨hfields, -, -⟩ := schemaFromFields_spec nodup_schemaKeys hread
  have hkeys : keysOf (tableOf read pointer.table) = keysOf (tableOf map pointer.table) := by
    have hkey : ∀ table : DefinitionTable, table.key ∈ schemaKeys ∧
        table.key ∈ "properties".toList :: definitionTableKeys := by
      intro table
      cases table <;> decide
    rw [tableOf, tableOf]
    rcases hfields _ (hkey pointer.table).1 with
      ⟨hnone | hnull, habsent⟩ | ⟨value, value', hvalue, hfield, hpresent⟩
    · rw [habsent, hnone]
    · rw [habsent, hnull]
    · obtain ⟨definitions, definitions', rfl, rfl, hall⟩ :=
        refs_of_table (hkey pointer.table).2 hfield
      rw [hpresent, hvalue]
      dsimp only
      clear hpresent hvalue hfield
      induction hall with
      | nil => rfl
      | cons hsame _ ih => rw [keysOf_cons, keysOf_cons, hsame.1, ih]
  rw [definitionForPointer, definitionForPointer, Bool.eq_iff_iff, Option.isSome_iff_ne_none,
    Option.isSome_iff_ne_none, ne_eq, ne_eq, lookup_eq_none_iff_notMem, lookup_eq_none_iff_notMem,
    fieldsOf, fieldsOf, hkeys]

end Codex.Tools
