import Codex.Tools.JsonSchema

/-!
# What compaction leaves at the root

`compact_large_tool_schema` of `tools/src/json_schema.rs`: two of its passes empty a schema with a
local reference or a composition, and the root is no exception.

* `SameRoot.fields`: a pass that goes to the children keeps the names of the properties;
* `compactLargeToolSchema_keeps_arguments`: exactly when the arguments of the tool are kept.
-/

namespace Codex.Tools

open Codex.Lib

variable {Number : Type} {format : SchemaFormat Number} {map map' map'' : Fields Number}

/-- The names of the properties of a schema, absent where it has none. -/
def propertyNames (value : Json Number) : Option (List Text) :=
  match (fieldsOf value).lookup "properties".toList with
  | some (.object properties) => some (keysOf properties)
  | _ => none

/-- The list of required properties. -/
def requiredOf (value : Json Number) : Option (Json Number) :=
  (fieldsOf value).lookup "required".toList

/-- The passes are all applied, and the value is still too large. -/
def StaysLarge (fits : Json Number → Bool) : List (Json Number → Json Number) → Json Number → Prop
  | [], value => fits value = false
  | pass :: passes, value => fits value = false ∧ StaysLarge fits passes (pass value)

/-- No pass empties the root: it has no local reference when the definitions are dropped, and no
composition when the compositions are pruned. -/
def KeepsRoot (format : SchemaFormat Number) (map : Fields Number) : Prop :=
  (StaysLarge (compactSchemaFitsBudget format) [stripSchemaDescriptions] (.object map) →
      localRef format map = none) ∧
    (StaysLarge (compactSchemaFitsBudget format)
        [stripSchemaDescriptions, dropSchemaDefinitions format, collapseDeepSchemaObjectsFromRoot]
        (.object map) →
      hasCompositionKeyword map = false)

/-! ### Objects that are alike at the root -/

/-- What the passes keep of an object that they do not empty. -/
structure SameRoot (map map' : Fields Number) : Prop where
  properties : propertyNames (.object map') = propertyNames (.object map)
  kept : ∀ key ∈ ["required".toList, "$ref".toList], map'.lookup key = map.lookup key
  composition : hasCompositionKeyword map' = hasCompositionKeyword map

namespace SameRoot

lemma trans (h : SameRoot map map') (h' : SameRoot map' map'') : SameRoot map map'' :=
  ⟨h'.properties.trans h.properties, fun key hkey => (h'.kept key hkey).trans (h.kept key hkey),
    h'.composition.trans h.composition⟩

lemma localRef (h : SameRoot map map') : localRef format map' = localRef format map := by
  rw [Tools.localRef, Tools.localRef, h.kept _ (by simp)]

/-- The traversals of the passes go to a table of properties, and not to what is required. -/
theorem fields {pass : Pass Number} {traversal : DefinitionTraversal}
    (hvisits : pass.visits = schemaChildVisit traversal) (depth : ℕ) :
    SameRoot map (pass.fields depth map) := by
  constructor
  · have htable : pass.visits "properties".toList = .table := by
      rw [hvisits, schemaChildVisit, if_pos rfl]
    rw [propertyNames, propertyNames, fieldsOf, fieldsOf, Pass.lookup_fields, htable]
    cases map.lookup "properties".toList with
    | none => rfl
    | some value =>
      cases value with
      | object properties =>
        simp only [Option.map_some, Visit.map, keysOf, List.map_map]
        rfl
      | _ => rfl
  · have hskip : ∀ key ∈ ["required".toList, "$ref".toList],
        schemaChildVisit traversal key = .skip := by
      cases traversal <;> decide
    intro key hkey
    rw [Pass.lookup_fields, hvisits, hskip key hkey]
    cases map.lookup key <;> rfl
  · refine congrArg (List.any compositionSchemaKeys) (funext fun key => ?_)
    rw [containsKey, containsKey, Pass.lookup_fields, Option.isSome_map]

lemma without {key : Text}
    (hkey : key ∉ "properties".toList :: "required".toList :: "$ref".toList ::
      compositionSchemaKeys) :
    SameRoot map (without key map) := by
  have hlookup : ∀ other, other ∈ "properties".toList :: "required".toList :: "$ref".toList ::
      compositionSchemaKeys → (Lib.without key map).lookup other = map.lookup other := by
    intro other hother
    rw [lookup_without, if_neg fun h : other = key => hkey (h ▸ hother)]
  constructor
  · rw [propertyNames, propertyNames, fieldsOf, fieldsOf, hlookup _ List.mem_cons_self]
  · intro other hother
    refine hlookup other (List.mem_cons_of_mem _ ?_)
    simp only [List.mem_cons, List.not_mem_nil, or_false] at hother ⊢
    tauto
  · rw [hasCompositionKeyword, hasCompositionKeyword, Bool.eq_iff_iff, List.any_eq_true,
      List.any_eq_true]
    refine exists_congr fun other => and_congr_right fun hother => ?_
    rw [containsKey, containsKey, hlookup other (by simp [hother])]

end SameRoot

/-! ### The passes at the root -/

variable (map)

lemma strip_object :
    ∃ map', stripSchemaDescriptions (.object map) = .object map' ∧ SameRoot map map' := by
  have hrewrite : stripSchemaDescriptions (.object map) =
      .object (without "description".toList (stripPass.fields 1 map)) := by
    rw [stripSchemaDescriptions, Pass.rewrite_object]
    rfl
  exact ⟨_, hrewrite, (SameRoot.fields rfl 1).trans (SameRoot.without (by decide))⟩

lemma cut_object (cut : ℕ → Fields Number → Bool) (map : Fields Number) :
    (cut 0 map = true ∧ (cutPass cut).rewrite 0 (.object map) = .object []) ∨
      cut 0 map = false ∧
        ∃ map', (cutPass cut).rewrite 0 (.object map) = .object map' ∧ SameRoot map map' := by
  rw [Pass.rewrite_object]
  cases hcut : cut 0 map with
  | true => exact .inl ⟨rfl, if_pos hcut⟩
  | false =>
    refine .inr ⟨rfl, _, if_neg (Bool.eq_false_iff.mp hcut), SameRoot.fields rfl 1⟩

lemma withoutTables_object :
    ∃ map', withoutTables (.object map) = .object map' ∧ SameRoot map map' :=
  ⟨_, rfl, (SameRoot.without (by decide)).trans (SameRoot.without (by decide))⟩

lemma drop_object (format : SchemaFormat Number) (map : Fields Number) :
    ((localRef format map).isSome = true ∧
        dropSchemaDefinitions format (.object map) = .object []) ∨
      localRef format map = none ∧
        ∃ map', dropSchemaDefinitions format (.object map) = .object map' ∧ SameRoot map map' := by
  rw [dropSchemaDefinitions, rewriteDefinitionRefsToEmptySchemas]
  rcases cut_object (hasLocalRef format) map with ⟨hcut, hempty⟩ | ⟨hcut, map', hsame, hroot⟩
  · rw [hempty]
    exact .inl ⟨hcut, rfl⟩
  · rw [hsame]
    obtain ⟨map'', hwithout, hroot'⟩ := withoutTables_object map'
    have hnone : localRef format map = none := by rwa [hasLocalRef, Option.isSome_eq_false_iff,
      Option.isNone_iff_eq_none] at hcut
    exact .inr ⟨hnone, map'', hwithout, hroot.trans hroot'⟩

lemma collapse_object :
    ∃ map', collapseDeepSchemaObjectsFromRoot (.object map) = .object map' ∧ SameRoot map map' := by
  rcases cut_object isDeepAndComplex map with ⟨hcut, -⟩ | ⟨-, hsame⟩
  · cases hcut
  · exact hsame

variable {map}

variable {passes : List (Json Number → Json Number)}

lemma applyPasses_empty (fits : Json Number → Bool)
    (h : ∀ pass ∈ passes, pass (.object []) = .object []) :
    applyPasses fits passes (.object []) = .object [] := by
  induction passes with
  | nil => rfl
  | cons pass passes ih =>
    obtain ⟨hpass, hpasses⟩ := List.forall_mem_cons.mp h
    rw [applyPasses, hpass, ih hpasses, ite_self]

/-! ### The whole compaction -/

/-- The compacted schema has the arguments of the root. -/
def KeepsArguments (format : SchemaFormat Number) (value : Json Number) : Prop :=
  propertyNames (compactLargeToolSchema format value) = propertyNames value ∧
    requiredOf (compactLargeToolSchema format value) = requiredOf value

variable {fits : Json Number → Bool}

lemma applyPasses_of_fits {value : Json Number}
    (h : fits value = true) : applyPasses fits passes value = value := by
  cases passes with
  | nil => rfl
  | cons pass passes => exact if_pos h

lemma applyPasses_of_large {pass : Json Number → Json Number}
    {value : Json Number} (h : fits value = false) :
    applyPasses fits (pass :: passes) value = applyPasses fits passes (pass value) :=
  if_neg (Bool.eq_false_iff.mp h)

/-- What the passes after the stripping make of an object. -/
theorem applyPasses_drop (fits : Json Number → Bool) (format : SchemaFormat Number)
    (map : Fields Number) :
    let passes := [dropSchemaDefinitions format, collapseDeepSchemaObjectsFromRoot,
      pruneSchemaCompositions]
    let emptied := (fits (.object map) = false ∧ (localRef format map).isSome = true) ∨
      StaysLarge fits [dropSchemaDefinitions format, collapseDeepSchemaObjectsFromRoot]
        (.object map) ∧ hasCompositionKeyword map = true
    (emptied ∧ applyPasses fits passes (.object map) = .object []) ∨
      ¬emptied ∧ ∃ map', applyPasses fits passes (.object map) = .object map' ∧
        SameRoot map map' := by
  intro passes emptied
  have hrefl : SameRoot map map := ⟨rfl, fun _ _ => rfl, rfl⟩
  cases hfits : fits (.object map) with
  | true =>
    refine .inr ⟨?_, map, applyPasses_of_fits hfits, hrefl⟩
    rintro (⟨hlarge, -⟩ | ⟨⟨hlarge, -⟩, -⟩) <;>
      cases hlarge.symm.trans hfits
  | false =>
    rcases drop_object format map with ⟨href, hdrop⟩ | ⟨hnone, map₂, hdrop, hroot₂⟩
    · refine .inl ⟨.inl ⟨hfits, href⟩, ?_⟩
      rw [applyPasses_of_large hfits, hdrop]
      exact applyPasses_empty fits (by simp [collapseDeepSchemaObjectsFromRoot,
        pruneSchemaCompositions, Pass.rewrite_object, Pass.fields, cutPass])
    have href : ¬(localRef format map).isSome = true := by simp [hnone]
    rw [applyPasses_of_large hfits, hdrop]
    cases hfits₂ : fits (.object map₂) with
    | true =>
      refine .inr ⟨?_, map₂, applyPasses_of_fits hfits₂, hroot₂⟩
      rintro (⟨-, h⟩ | ⟨⟨-, hlarge, -⟩, -⟩)
      · exact href h
      · rw [hdrop] at hlarge
        cases hlarge.symm.trans hfits₂
    | false =>
      obtain ⟨map₃, hcollapse, hroot₃⟩ := collapse_object map₂
      have hroot := hroot₂.trans hroot₃
      rw [applyPasses_of_large hfits₂, hcollapse]
      cases hfits₃ : fits (.object map₃) with
      | true =>
        refine .inr ⟨?_, map₃, applyPasses_of_fits hfits₃, hroot⟩
        rintro (⟨-, h⟩ | ⟨⟨-, -, hlarge⟩, -⟩)
        · exact href h
        · rw [StaysLarge, hdrop, hcollapse] at hlarge
          cases hlarge.symm.trans hfits₃
      | false =>
        have hlarge : StaysLarge fits
            [dropSchemaDefinitions format, collapseDeepSchemaObjectsFromRoot] (.object map) :=
          ⟨hfits, hdrop ▸ hfits₂, by rw [StaysLarge, hdrop, hcollapse]; exact hfits₃⟩
        rw [applyPasses_of_large hfits₃, applyPasses, pruneSchemaCompositions]
        rcases cut_object isComposition map₃ with ⟨hcut, hempty⟩ | ⟨hcut, map₄, hsame, hroot₄⟩
        · rw [isComposition, hroot.composition] at hcut
          exact .inl ⟨.inr ⟨hlarge, hcut⟩, hempty⟩
        · rw [isComposition, hroot.composition] at hcut
          refine .inr ⟨?_, map₄, hsame, hroot.trans hroot₄⟩
          rintro (⟨-, h⟩ | ⟨-, h⟩)
          · exact href h
          · cases hcut.symm.trans h

lemma keepsArguments_of_sameRoot
    (hcompact : compactLargeToolSchema format (.object map) = .object map')
    (h : SameRoot map map') :
    KeepsArguments format (.object map) := by
  rw [KeepsArguments, hcompact]
  exact ⟨h.properties, h.kept _ List.mem_cons_self⟩

lemma not_keepsArguments_of_empty
    (hcompact : compactLargeToolSchema format (.object map) = .object [])
    {properties : Fields Number}
    (hmap : map.lookup "properties".toList = some (.object properties)) :
    ¬KeepsArguments format (.object map) := by
  rintro ⟨hproperties, -⟩
  rw [hcompact, propertyNames, propertyNames, fieldsOf, fieldsOf, hmap] at hproperties
  cases hproperties

/-- **The arguments of a tool are kept exactly when no pass empties the root.** -/
theorem compactLargeToolSchema_keeps_arguments (format : SchemaFormat Number) {map : Fields Number}
    {properties : Fields Number}
    (hmap : map.lookup "properties".toList = some (.object properties)) :
    KeepsArguments format (.object map) ↔ KeepsRoot format map := by
  obtain ⟨map₁, hstrip, hroot⟩ := strip_object map
  cases hfits : compactSchemaFitsBudget format (.object map) with
  | true =>
    have hcompact : compactLargeToolSchema format (.object map) = .object map :=
      applyPasses_of_fits hfits
    refine iff_of_true (keepsArguments_of_sameRoot hcompact ⟨rfl, fun _ _ => rfl, rfl⟩) ⟨?_, ?_⟩
    · exact fun hlarge => absurd (hlarge.1.symm.trans hfits) Bool.false_ne_true
    · exact fun hlarge => absurd (hlarge.1.symm.trans hfits) Bool.false_ne_true
  | false =>
    have hcompact : compactLargeToolSchema format (.object map) =
        applyPasses (compactSchemaFitsBudget format) (largeSchemaCompactionPasses format).tail
          (.object map₁) := by
      rw [← hstrip]
      exact applyPasses_of_large hfits
    have hempties : KeepsRoot format map ↔
        ¬((compactSchemaFitsBudget format (.object map₁) = false ∧
            (localRef format map₁).isSome = true) ∨
          StaysLarge (compactSchemaFitsBudget format)
            [dropSchemaDefinitions format, collapseDeepSchemaObjectsFromRoot] (.object map₁) ∧
            hasCompositionKeyword map₁ = true) := by
      have hlater : ∀ passes, StaysLarge (compactSchemaFitsBudget format)
          (stripSchemaDescriptions :: passes) (.object map) ↔
            StaysLarge (compactSchemaFitsBudget format) passes (.object map₁) := by
        intro passes
        rw [StaysLarge, hstrip]
        exact and_iff_right hfits
      rw [KeepsRoot, hlater, hlater, StaysLarge, hroot.localRef, hroot.composition, not_or,
        not_and, not_and, Bool.not_eq_true, Bool.not_eq_true, Option.isSome_eq_false_iff,
        Option.isNone_iff_eq_none]
    rcases applyPasses_drop (compactSchemaFitsBudget format) format map₁ with
      ⟨hemptied, hempty⟩ | ⟨hkept, map', hsame, hroot'⟩
    · exact iff_of_false (not_keepsArguments_of_empty (hcompact.trans hempty) hmap)
        fun h => hempties.mp h hemptied
    · exact iff_of_true (keepsArguments_of_sameRoot (hcompact.trans hsame) (hroot.trans hroot'))
        (hempties.mpr hkept)

/-- The arguments of a tool, one of which has a long value, with a composition that says what is
required. -/
def largeArguments : Fields ℕ :=
  [("anyOf".toList, .array [.object [("required".toList, .array [.string ['a']])]]),
    ("properties".toList, .object [(['a'], .object [
      ("enum".toList, .array [.string (List.replicate 1030 '😀')]),
      ("type".toList, .string "string".toList)])]),
    ("type".toList, .string "object".toList)]

theorem largeArguments_keeps_arguments_iff :
    KeepsArguments plainFormat (.object largeArguments) ↔ KeepsRoot plainFormat largeArguments :=
  compactLargeToolSchema_keeps_arguments plainFormat
    (rfl : largeArguments.lookup "properties".toList = some (.object _))

/-- The last pass empties the root, which has a composition. -/
theorem largeArguments_loses_properties :
    let prepared := prepareToolInputSchema plainFormat (.object largeArguments)
    propertyNames prepared = some [['a']] ∧
      propertyNames (compactLargeToolSchema plainFormat prepared) = none := by
  decide +kernel

end Codex.Tools
