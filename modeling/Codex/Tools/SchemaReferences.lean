import Codex.Tools.SchemaShape

/-!
# References in the tables of inner schemas

The traversals of `tools/src/json_schema.rs` that collect references and empty schemas skip the
definition tables of every schema, not only those of the root, so that the references in the table
of an inner schema are `Hidden` from them.

* `mem_schemaRefs_iff`, `mem_schemaRefs_root`: a reference is collected or hidden; at the root there
  are its own definitions besides;
* `hidden_rewrite`: what a pass leaves is hidden where it was, or where the pass cuts.

`Hidden` follows the recursion of the traversals, so that each result is an induction over the
schema: what a pass reads of a schema (`SameHead`) it leaves as it was.
-/

namespace Codex.Tools

open Codex.Lib

variable {Number : Type} {format : SchemaFormat Number} {map map' : Fields Number}
  {cut cut' : ℕ → Fields Number → Prop} {pointer : DefinitionPointer}

/-! ### Hidden references -/

/-- A reference in the table of an inner schema, which is not cut with a schema around it. -/
inductive Hidden (format : SchemaFormat Number) (cut : ℕ → Fields Number → Prop) :
    ℕ → Json Number → DefinitionPointer → Prop
  | table {depth : ℕ} {map : Fields Number} {field : Text × Json Number} {definition : Json Number}
      {pointer : DefinitionPointer} (hdepth : 0 < depth) (hcut : ¬cut depth map)
      (hfield : field ∈ map) (hkey : field.1 ∈ definitionTableKeys)
      (hdefinition : definition ∈ Visit.table.children field.2)
      (hpointer : pointer ∈ schemaRefs format definition) :
      Hidden format cut depth (.object map) pointer
  | item {depth : ℕ} {items : List (Json Number)} {item : Json Number}
      {pointer : DefinitionPointer} (hitem : item ∈ items)
      (h : Hidden format cut depth item pointer) : Hidden format cut depth (.array items) pointer
  | child {depth : ℕ} {map : Fields Number} {field : Text × Json Number} {child : Json Number}
      {pointer : DefinitionPointer} (hcut : ¬cut depth map) (hfield : field ∈ map)
      (hchild : child ∈ (schemaChildVisit .skipped field.1).children field.2)
      (h : Hidden format cut (depth + 1) child pointer) :
      Hidden format cut depth (.object map) pointer

/-- No schema is cut. -/
def CutsNothing (_depth : ℕ) (_map : Fields Number) : Prop := False

variable {value : Json Number} {depth : ℕ}

lemma hidden_congr (h : ∀ depth map, cut depth map ↔ cut' depth map)
    :
    Hidden format cut depth value pointer ↔ Hidden format cut' depth value pointer := by
  rw [funext fun depth => funext fun map => propext (h depth map)]

lemma hidden_array {items : List (Json Number)} :
    Hidden format cut depth (.array items) pointer ↔
      ∃ item ∈ items, Hidden format cut depth item pointer := by
  constructor
  · intro h
    cases h with
    | item hitem h => exact ⟨_, hitem, h⟩
  · rintro ⟨item, hitem, h⟩
    exact .item hitem h

lemma not_hidden_leaf (harray : ∀ items, value ≠ .array items)
    (hobject : ∀ map, value ≠ .object map) :
    ¬Hidden format cut depth value pointer := by
  intro h
  cases h with
  | table => exact hobject _ rfl
  | item => exact harray _ rfl
  | child => exact hobject _ rfl

/-- The references in the tables of an object. -/
def InTables (format : SchemaFormat Number) (map : Fields Number) (pointer : DefinitionPointer) :
    Prop :=
  ∃ field ∈ map, field.1 ∈ definitionTableKeys ∧ ∃ definition ∈ Visit.table.children field.2,
    pointer ∈ schemaRefs format definition

lemma hidden_object :
    Hidden format cut depth (.object map) pointer ↔ ¬cut depth map ∧
      ((0 < depth ∧ InTables format map pointer) ∨
        ∃ field ∈ map, ∃ child ∈ (schemaChildVisit .skipped field.1).children field.2,
          Hidden format cut (depth + 1) child pointer) := by
  constructor
  · intro h
    cases h with
    | table hdepth hcut hfield hkey hdefinition hpointer =>
      exact ⟨hcut, .inl ⟨hdepth, _, hfield, hkey, _, hdefinition, hpointer⟩⟩
    | child hcut hfield hchild h => exact ⟨hcut, .inr ⟨_, hfield, _, hchild, h⟩⟩
  · rintro ⟨hcut, ⟨hdepth, _, hfield, hkey, _, hdefinition, hpointer⟩ | ⟨_, hfield, _, hchild, h⟩⟩
    · exact .table hdepth hcut hfield hkey hdefinition hpointer
    · exact .child hcut hfield hchild h

section visit

variable {key : Text}

lemma schemaChildVisit_table (h : key ∈ definitionTableKeys) :
    schemaChildVisit .included key = .table ∧ schemaChildVisit .skipped key = .skip := by
  have hall : ∀ key ∈ definitionTableKeys,
      schemaChildVisit .included key = .table ∧ schemaChildVisit .skipped key = .skip := by decide
  exact hall key h

lemma schemaChildVisit_of_notMem_tables (h : key ∉ definitionTableKeys) :
    schemaChildVisit .included key = schemaChildVisit .skipped key := by
  simp only [schemaChildVisit, h, false_and]

end visit

lemma mem_schemaRefs_array {items : List (Json Number)} :
    pointer ∈ schemaRefs format (.array items) ↔ ∃ item ∈ items, pointer ∈ schemaRefs format item :=
  Json.mem_collect_array

lemma schemaRefs_leaf (harray : ∀ items, value ≠ .array items)
    (hobject : ∀ map, value ≠ .object map) : schemaRefs format value = [] := by
  cases value with
  | array items => exact absurd rfl (harray items)
  | object map => exact absurd rfl (hobject map)
  | _ => rfl

/-- The references of an object are its own, those in its tables and those in its other children. -/
theorem mem_schemaRefs_map :
    pointer ∈ schemaRefs format (.object map) ↔ localRef format map = some pointer ∨
      InTables format map pointer ∨
      ∃ field ∈ map, ∃ child ∈ (schemaChildVisit .skipped field.1).children field.2,
        pointer ∈ schemaRefs format child := by
  rw [schemaRefs, Json.mem_collect_object, Option.mem_toList, InTables, ← exists_or]
  refine or_congr_right (exists_congr fun field => ?_)
  rw [← and_or_left]
  refine and_congr_right fun _ => ?_
  by_cases hkey : field.1 ∈ definitionTableKeys
  · obtain ⟨hincluded, hskipped⟩ := schemaChildVisit_table hkey
    rw [hincluded, hskipped]
    constructor
    · exact fun h => .inl ⟨hkey, h⟩
    · rintro (⟨-, h⟩ | ⟨_, h, -⟩)
      · exact h
      · cases h
  · rw [schemaChildVisit_of_notMem_tables hkey]
    simp [hkey]

/-- **A reference is found outside the tables or hidden.** -/
theorem mem_schemaRefs_iff (hdepth : 0 < depth) :
    pointer ∈ schemaRefs format value ↔ pointer ∈ collectRefsOutsideDefinitions format value ∨
        Hidden format CutsNothing depth value pointer := by
  induction value using Json.visitInduct (schemaChildVisit .skipped) generalizing depth with
  | array items ih =>
    rw [mem_schemaRefs_array, collectRefsOutsideDefinitions, Json.mem_collect_array, hidden_array,
      ← exists_or]
    refine exists_congr fun item => ?_
    rw [← and_or_left]
    exact and_congr_right fun hitem => ih item hitem hdepth
  | object map ih =>
    have hchild : ∀ field ∈ map, ∀ child ∈ (schemaChildVisit .skipped field.1).children field.2,
        (pointer ∈ schemaRefs format child ↔ pointer ∈ collectRefsOutsideDefinitions format child ∨
            Hidden format CutsNothing (depth + 1) child pointer) :=
      fun field hfield child hchild => ih field hfield child hchild (Nat.succ_pos depth)
    rw [mem_schemaRefs_map, collectRefsOutsideDefinitions_object, hidden_object]
    constructor
    · rintro (hown | htable | ⟨field, hfield, child, hmem, hpointer⟩)
      · exact .inl (.inl hown)
      · exact .inr ⟨not_false, .inl ⟨hdepth, htable⟩⟩
      · rcases (hchild field hfield child hmem).mp hpointer with houtside | hhidden
        · exact .inl (.inr ⟨field, hfield, child, hmem, houtside⟩)
        · exact .inr ⟨not_false, .inr ⟨field, hfield, child, hmem, hhidden⟩⟩
    · rintro ((hown | ⟨field, hfield, child, hmem, houtside⟩) |
        ⟨-, ⟨-, htable⟩ | ⟨field, hfield, child, hmem, hhidden⟩⟩)
      · exact .inl hown
      · exact .inr (.inr ⟨field, hfield, child, hmem,
          (hchild field hfield child hmem).mpr (.inl houtside)⟩)
      · exact .inr (.inl htable)
      · exact .inr (.inr ⟨field, hfield, child, hmem,
          (hchild field hfield child hmem).mpr (.inr hhidden)⟩)
  | leaf value harray hobject =>
    rw [schemaRefs_leaf harray hobject]
    refine iff_of_false List.not_mem_nil (not_or.mpr ⟨?_, not_hidden_leaf harray hobject⟩)
    cases value with
    | array items => exact absurd rfl (harray items)
    | object map => exact absurd rfl (hobject map)
    | _ => exact List.not_mem_nil

/-- **At the root there are its own definitions besides.** -/
theorem mem_schemaRefs_root :
    pointer ∈ schemaRefs format (.object map) ↔
      pointer ∈ collectRefsOutsideDefinitions format (.object map) ∨ InTables format map pointer ∨
        Hidden format CutsNothing 0 (.object map) pointer := by
  rw [mem_schemaRefs_map, collectRefsOutsideDefinitions_object, hidden_object]
  constructor
  · rintro (hown | htable | ⟨field, hfield, child, hmem, hpointer⟩)
    · exact .inl (.inl hown)
    · exact .inr (.inl htable)
    · rcases (mem_schemaRefs_iff Nat.one_pos).mp hpointer with houtside | hhidden
      · exact .inl (.inr ⟨field, hfield, child, hmem, houtside⟩)
      · exact .inr (.inr ⟨not_false, .inr ⟨field, hfield, child, hmem, hhidden⟩⟩)
  · rintro ((hown | ⟨field, hfield, child, hmem, houtside⟩) | htable |
      ⟨-, ⟨-, htable⟩ | ⟨field, hfield, child, hmem, hhidden⟩⟩)
    · exact .inl hown
    · exact .inr
        (.inr ⟨field, hfield, child, hmem, (mem_schemaRefs_iff Nat.one_pos).mpr (.inl houtside)⟩)
    · exact .inr (.inl htable)
    · exact .inr (.inl htable)
    · exact .inr
        (.inr ⟨field, hfield, child, hmem, (mem_schemaRefs_iff Nat.one_pos).mpr (.inr hhidden)⟩)

lemma DefinitionTable.key_mem (table : DefinitionTable) : table.key ∈ definitionTableKeys := by
  cases table <;> decide

lemma inTables_iff (h : Ascending map) :
    InTables format map pointer ↔ ∃ table : DefinitionTable, ∃ definition ∈ tableOf map table,
      pointer ∈ schemaRefs format definition.2 := by
  constructor
  · rintro ⟨⟨key, value⟩, hfield, hkey, definition, hdefinition, hpointer⟩
    obtain ⟨table, -, rfl⟩ := List.mem_map.mp hkey
    have hlookup := (mem_iff_lookup h.nodup).mp hfield
    cases value with
    | object definitions =>
      obtain ⟨definition, hmem, rfl⟩ := List.mem_map.mp hdefinition
      refine ⟨table, definition, ?_, hpointer⟩
      rw [tableOf, hlookup]
      exact hmem
    | _ => cases hdefinition
  · rintro ⟨table, definition, hdefinition, hpointer⟩
    rw [tableOf] at hdefinition
    split at hdefinition
    next definitions hlookup =>
      exact ⟨_, mem_of_lookup hlookup, table.key_mem, definition.2,
        List.mem_map_of_mem hdefinition, hpointer⟩
    next => exact absurd hdefinition List.not_mem_nil

/-! ### Objects that are cut alike -/

/-- The keys that decide whether a schema is cut. -/
def cutKeys : List Text := "properties".toList :: "additionalProperties".toList :: schemaChildKeys

/-- Objects with the same reference and the same keys of schemas. -/
structure SameHead (map map' : Fields Number) : Prop where
  ref : map'.lookup "$ref".toList = map.lookup "$ref".toList
  keys : ∀ key ∈ cutKeys, containsKey map' key = containsKey map key

/-- Objects with the same head are cut alike. -/
def ReadsHead (cut : ℕ → Fields Number → Prop) : Prop :=
  ∀ depth map map', SameHead map map' → (cut depth map' ↔ cut depth map)

lemma SameHead.trans {map'' : Fields Number} (h : SameHead map map') (h' : SameHead map' map'') :
    SameHead map map'' :=
  ⟨h'.ref.trans h.ref, fun key hkey => (h'.keys key hkey).trans (h.keys key hkey)⟩

lemma SameHead.of_lookup (h : ∀ key ∈ "$ref".toList :: cutKeys, map'.lookup key = map.lookup key) :
    SameHead map map' := by
  refine ⟨h _ List.mem_cons_self, fun key hkey => ?_⟩
  rw [containsKey, containsKey, h key (List.mem_cons_of_mem _ hkey)]

/-- A pass leaves the reference of an object alone. -/
theorem SameHead.fields {pass : Pass Number} (href : pass.visits "$ref".toList = .skip)
    (depth : ℕ) :
    SameHead map (pass.fields depth map) := by
  constructor
  · rw [Pass.lookup_fields, href]
    cases map.lookup "$ref".toList <;> rfl
  · intro key _
    rw [containsKey, containsKey, Pass.lookup_fields, Option.isSome_map]

lemma readsHead_cutsNothing : ReadsHead (CutsNothing : ℕ → Fields Number → Prop) :=
  fun _ _ _ _ => .rfl

lemma ReadsHead.or (h : ReadsHead cut) (h' : ReadsHead cut') :
    ReadsHead fun depth map => cut depth map ∨ cut' depth map :=
  fun depth map map' hsame => or_congr (h depth map map' hsame) (h' depth map map' hsame)

lemma ReadsHead.and (P : Prop) (h : ReadsHead cut) : ReadsHead fun depth map => P ∧ cut depth map :=
  fun depth map map' hsame => and_congr_right fun _ => h depth map map' hsame

variable (format)

lemma readsHead_hasLocalRef : ReadsHead fun depth map => hasLocalRef format depth map = true := by
  intro depth map map' h
  simp only [hasLocalRef, localRef, h.ref]

lemma readsHead_isDeepAndComplex :
    ReadsHead fun depth (map : Fields Number) => isDeepAndComplex depth map = true := by
  intro depth map map' h
  have hany : schemaChildKeys.any (containsKey map') = schemaChildKeys.any (containsKey map) := by
    rw [Bool.eq_iff_iff, List.any_eq_true, List.any_eq_true]
    refine exists_congr fun key => and_congr_right fun hkey => ?_
    rw [h.keys key (List.mem_cons_of_mem _ (List.mem_cons_of_mem _ hkey))]
  have href : containsKey map' "$ref".toList = containsKey map "$ref".toList := by
    rw [containsKey, containsKey, h.ref]
  simp only [isDeepAndComplex, isComplexSchemaObject, hany, href,
    h.keys "properties".toList (by decide), h.keys "additionalProperties".toList (by decide)]

lemma readsHead_isComposition :
    ReadsHead fun depth (map : Fields Number) => isComposition depth map = true := by
  intro depth map map' h
  simp only [isComposition, hasCompositionKeyword, List.any_eq_true]
  refine exists_congr fun key => and_congr_right fun hkey => ?_
  have hsubset : ∀ key ∈ compositionSchemaKeys, key ∈ cutKeys := by decide
  rw [h.keys key (hsubset key hkey)]

/-! ### What a pass leaves -/

/-- A pass that leaves the schemas in their places. -/
structure InPlace (pass : Pass Number) : Prop where
  visits : ∀ key ∉ definitionTableKeys, pass.visits key = schemaChildVisit .skipped key
  leaf : pass.leaf = id
  head : ∀ map, SameHead map (pass.finish map)
  kept : ∀ map, ∀ field : Text × Json Number, field.1 ∈ visitedKeys →
    (field ∈ pass.finish map ↔ field ∈ map)

/-- A pass that keeps the references in the definition tables. -/
def KeepsTables (pass : Pass Number) : Prop :=
  ∀ key ∈ definitionTableKeys, ∀ depth value pointer,
    (∃ definition ∈ Visit.table.children ((pass.visits key).map (pass.rewrite depth) value),
        pointer ∈ schemaRefs format definition) ↔
      ∃ definition ∈ Visit.table.children value, pointer ∈ schemaRefs format definition

variable {format}

namespace InPlace

variable {pass : Pass Number} (h : InPlace pass)
include h

lemma sameHead (depth : ℕ) (map : Fields Number) :
    SameHead map (pass.finish (pass.fields depth map)) :=
  (SameHead.fields (by rw [h.visits _ (by decide +kernel)]; decide) depth).trans (h.head _)

variable {depth : ℕ}

lemma isBool (value : Json Number)
    (hbool : (pass.rewrite depth value).isBool = true) : value.isBool = true :=
  Pass.isBool_of_rewrite (fun value hvalue => by rwa [h.leaf] at hvalue) value hbool

/-- The fields that a traversal goes to are those of before, rewritten. -/
theorem exists_field {P : Text → Json Number → Prop}
    (hP : ∀ key value, P key value → key ∈ visitedKeys) :
    (∃ field ∈ pass.finish (pass.fields depth map), P field.1 field.2) ↔
      ∃ field ∈ map, P field.1 ((pass.visits field.1).map (pass.rewrite depth) field.2) := by
  constructor
  · rintro ⟨field, hfield, hp⟩
    obtain ⟨before, hbefore, rfl⟩ := List.mem_map.mp ((h.kept _ field (hP _ _ hp)).mp hfield)
    exact ⟨before, hbefore, hp⟩
  · rintro ⟨field, hfield, hp⟩
    have hmem : (field.1, (pass.visits field.1).map (pass.rewrite depth) field.2) ∈
        pass.fields depth map := List.mem_map_of_mem hfield
    have hkept := h.kept (pass.fields depth map)
      (field.1, (pass.visits field.1).map (pass.rewrite depth) field.2) (hP _ _ hp)
    exact ⟨_, hkept.mpr hmem, hp⟩

lemma inTables (htables : KeepsTables format pass) (depth : ℕ) :
    InTables format (pass.finish (pass.fields depth map)) pointer ↔
      InTables format map pointer := by
  have hvisited : ∀ key ∈ definitionTableKeys, key ∈ visitedKeys := by decide +kernel
  rw [InTables, InTables, h.exists_field (P := fun key value => key ∈ definitionTableKeys ∧
    ∃ definition ∈ Visit.table.children value, pointer ∈ schemaRefs format definition)
    fun key _ hp => hvisited key hp.1]
  exact exists_congr fun field => and_congr_right fun _ => and_congr_right fun hkey =>
    htables field.1 hkey depth field.2 pointer

/-- The children of a rewritten object are those of before, rewritten. -/
theorem exists_child {P : Json Number → Prop} :
    (∃ field ∈ pass.finish (pass.fields depth map),
        ∃ child ∈ (schemaChildVisit .skipped field.1).children field.2, P child) ↔
      ∃ field ∈ map, ∃ child ∈ (schemaChildVisit .skipped field.1).children field.2,
        P (pass.rewrite depth child) := by
  rw [h.exists_field
    (P := fun key value => ∃ child ∈ (schemaChildVisit .skipped key).children value,
    P child)]
  · refine exists_congr fun field => and_congr_right fun _ => ?_
    by_cases hkey : field.1 ∈ definitionTableKeys
    · rw [(schemaChildVisit_table hkey).2]
      exact iff_of_false (fun ⟨_, h, _⟩ => List.not_mem_nil h) fun ⟨_, h, _⟩ => List.not_mem_nil h
    · rw [h.visits _ hkey, Visit.children_map h.isBool]
      simp only [List.mem_map, exists_exists_and_eq_and]
  · rintro key value ⟨child, hchild, -⟩
    exact mem_visitedKeys hchild

/-- **What a pass leaves is hidden**, unless the pass cuts it. -/
theorem hidden_rewrite (htables : KeepsTables format pass)
    (hcut : ReadsHead cut) {value : Json Number} :
    Hidden format cut depth (pass.rewrite depth value) pointer ↔
      Hidden format (fun depth map => pass.cut depth map = true ∨ cut depth map) depth value
        pointer := by
  induction value using Json.visitInduct (schemaChildVisit .skipped) generalizing depth with
  | array items ih =>
    rw [Pass.rewrite_array, hidden_array, hidden_array]
    simp only [List.mem_map, exists_exists_and_eq_and]
    exact exists_congr fun item => and_congr_right fun hitem => ih item hitem
  | object map ih =>
    rw [Pass.rewrite_object]
    by_cases hpass : pass.cut depth map = true
    · rw [if_pos hpass, hidden_object, hidden_object]
      refine iff_of_false ?_ fun hnot => hnot.1 (.inl hpass)
      rintro ⟨-, ⟨-, _, hfield, -⟩ | ⟨_, hfield, -⟩⟩ <;> exact absurd hfield List.not_mem_nil
    · rw [if_neg hpass, hidden_object, hidden_object, hcut depth _ _ (h.sameHead (depth + 1) map),
        h.inTables htables, h.exists_child]
      refine and_congr (by rw [or_iff_right hpass]) (or_congr_right ?_)
      exact exists_congr fun field => and_congr_right fun hfield =>
        exists_congr fun child => and_congr_right fun hchild => ih field hfield child hchild
  | leaf value harray hobject =>
    rw [Pass.rewrite_leaf harray hobject, h.leaf]
    exact iff_of_false (not_hidden_leaf harray hobject) (not_hidden_leaf harray hobject)

end InPlace

end Codex.Tools
