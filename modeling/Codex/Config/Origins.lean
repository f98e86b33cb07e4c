import Codex.Config.MergeLeaves
import Codex.Lib.AssocMap

/-!
# Where the effective configuration comes from

`config/src/{state,fingerprint}.rs`: the layers of a stack are merged from the lowest precedence to
the highest, and for each leaf of a layer the layer is recorded under the leaf's path.
-/

namespace Codex.Config

open Codex.Lib

/-! ### Layers -/

inductive ConfigLayerSource where
  | mdm (domain key : Text)
  | system (file : Text)
  | enterpriseManaged (id name : Text)
  | user (file : Text) (profile : Option Text)
  | project (dotCodexFolder : Text)
  | sessionFlags
  | legacyManagedConfigTomlFromFile (file : Text)
  | legacyManagedConfigTomlFromMdm

structure ConfigLayerMetadata where
  name : ConfigLayerSource
  version : Text

/-- `ConfigLayerEntry`; `version` is the fingerprint of `config` -/
structure ConfigLayerEntry where
  name : ConfigLayerSource
  config : TomlValue
  version : Text
  disabledReason : Option Text := none
  config_wf : config.WellFormed

/-- `ConfigLayerStack`; from the lowest precedence to the highest -/
structure ConfigLayerStack where
  layers : List ConfigLayerEntry

inductive ConfigLayerStackOrdering where
  | lowestPrecedenceFirst
  | highestPrecedenceFirst

namespace ConfigLayerEntry

variable (layer : ConfigLayerEntry)

def isDisabled : Bool := layer.disabledReason.isSome

def metadata : ConfigLayerMetadata := ⟨layer.name, layer.version⟩

/-- The layer's configuration as `origins` reads it -/
def normalized : TomlValue := normalizedWithKeyAliases layer.config []

end ConfigLayerEntry

/-- `path.join(".")` -/
def joinPath (path : TomlPath) : Text := List.intercalate ['.'] path

/-- The map of `origins` -/
abbrev Origins := AList fun _ : Text => ConfigLayerMetadata

mutual
def recordOrigins : TomlValue → ConfigLayerMetadata → TomlPath → Origins → Origins
  | .table table, metadata, path, origins => recordTable table metadata path origins
  | .array items, metadata, path, origins => recordItems 0 items metadata path origins
  | .scalar _, metadata, path, origins =>
    if path = [] then origins else origins.insert (joinPath path) metadata

def recordTable : TomlTable → ConfigLayerMetadata → TomlPath → Origins → Origins
  | [], _, _, origins => origins
  | (key, value) :: table, metadata, path, origins =>
    recordTable table metadata path (recordOrigins value metadata (path ++ [key]) origins)

def recordItems (idx : ℕ) : List TomlValue → ConfigLayerMetadata → TomlPath → Origins → Origins
  | [], _, _, origins => origins
  | item :: items, metadata, path, origins =>
    recordItems (idx + 1) items metadata path
      (recordOrigins item metadata (path ++ [indexText idx]) origins)
end

namespace ConfigLayerStack

variable (stack : ConfigLayerStack)

def getLayers (ordering : ConfigLayerStackOrdering)
    (includeDisabled : Bool) : List ConfigLayerEntry :=
  let layers := stack.layers.filter fun layer => includeDisabled || !layer.isDisabled
  match ordering with
  | .lowestPrecedenceFirst => layers
  | .highestPrecedenceFirst => layers.reverse

/-- The layers that `effective_config` and `origins` go through -/
def enabled : List ConfigLayerEntry :=
  stack.getLayers .lowestPrecedenceFirst false

def effectiveConfig : TomlValue :=
  stack.enabled.foldl (fun merged layer => mergeTomlValues merged layer.config) (.table [])

def origins (stack : ConfigLayerStack) : Origins :=
  stack.enabled.foldl
    (fun origins layer => recordOrigins layer.normalized layer.metadata [] origins) ∅

end ConfigLayerStack

/-! ### What the origins are meant to say -/

/-- The leaves below the root. -/
def configLeaves (config : TomlValue) : List Leaf := config.leaves.filter fun leaf => leaf.1 ≠ []

namespace ConfigLayerEntry

variable (layer : ConfigLayerEntry)

def leaves : List Leaf := configLeaves layer.normalized

/-- The keys under which the layer is recorded. -/
def keys : List Text := layer.leaves.map fun leaf => joinPath leaf.1

end ConfigLayerEntry

namespace ConfigLayerStack

/-- The enabled layer of highest precedence that supplies the value at the path. -/
def supplier (stack : ConfigLayerStack) (leaf : Leaf) : Option ConfigLayerEntry :=
  (stack.getLayers .highestPrecedenceFirst false).find? fun layer => leaf ∈ layer.leaves

/-- The keys are the leaf paths of the effective configuration, each with its supplier. -/
structure OriginsAgree (stack : ConfigLayerStack) : Prop where
  keys : ∀ key, (stack.origins.lookup key).isSome ↔
    ∃ leaf ∈ configLeaves stack.effectiveConfig, joinPath leaf.1 = key
  attributed : ∀ leaf ∈ configLeaves stack.effectiveConfig, ∃ layer,
    stack.supplier leaf = some layer ∧ stack.origins.lookup (joinPath leaf.1) = some layer.metadata

end ConfigLayerStack

/-! ### What is recorded -/

mutual
lemma recordOrigins_eq_foldl (value : TomlValue) (metadata : ConfigLayerMetadata)
    (path : TomlPath) (origins : Origins) :
    recordOrigins value metadata path origins = value.leaves.foldl (fun origins leaf =>
        if path ++ leaf.1 = [] then origins
        else origins.insert (joinPath (path ++ leaf.1)) metadata) origins := by
  cases value with
  | scalar value =>
    rw [recordOrigins, TomlValue.leaves, List.foldl_cons, List.foldl_nil, List.append_nil]
  | array items => rw [recordOrigins, TomlValue.leaves, recordItems_eq_foldl]
  | table entries => rw [recordOrigins, TomlValue.leaves, recordTable_eq_foldl]

lemma recordTable_eq_foldl (table : TomlTable) (metadata : ConfigLayerMetadata)
    (path : TomlPath) (origins : Origins) :
    recordTable table metadata path origins =
      (TomlValue.entryLeaves table).foldl (fun origins leaf =>
        if path ++ leaf.1 = [] then origins
        else origins.insert (joinPath (path ++ leaf.1)) metadata) origins := by
  cases table with
  | nil => rfl
  | cons entry table =>
    obtain ⟨key, value⟩ := entry
    rw [recordTable, TomlValue.entryLeaves, List.foldl_append, List.foldl_map,
      recordOrigins_eq_foldl value, recordTable_eq_foldl table]
    simp only [List.append_assoc, List.singleton_append]

lemma recordItems_eq_foldl (idx : ℕ) (items : List TomlValue) (metadata : ConfigLayerMetadata)
    (path : TomlPath) (origins : Origins) :
    recordItems idx items metadata path origins =
      (TomlValue.itemLeaves idx items).foldl (fun origins leaf =>
        if path ++ leaf.1 = [] then origins
        else origins.insert (joinPath (path ++ leaf.1)) metadata) origins := by
  cases items with
  | nil => rfl
  | cons item items =>
    rw [recordItems, TomlValue.itemLeaves, List.foldl_append, List.foldl_map,
      recordOrigins_eq_foldl item, recordItems_eq_foldl (idx + 1) items]
    simp only [List.append_assoc, List.singleton_append]
end

lemma lookup_foldl_insert (metadata : ConfigLayerMetadata) (leaves : List Leaf)
    (origins : Origins) (key : Text) :
    (leaves.foldl (fun origins leaf =>
        if leaf.1 = [] then origins else origins.insert (joinPath leaf.1) metadata)
        origins).lookup key =
      if key ∈ (leaves.filter fun leaf => leaf.1 ≠ []).map (fun leaf => joinPath leaf.1) then
        some metadata
      else origins.lookup key := by
  induction leaves generalizing origins with
  | nil => rfl
  | cons leaf leaves ih =>
    rw [List.foldl_cons, ih]
    by_cases hnil : leaf.1 = []
    · rw [if_pos hnil, List.filter_cons_of_neg (by simpa using hnil)]
    · rw [if_neg hnil, List.filter_cons_of_pos (by simpa using hnil), List.map_cons,
        lookup_insert_eq_ite]
      by_cases hkey : key = joinPath leaf.1
      · rw [if_pos hkey, if_pos (List.mem_cons.mpr (Or.inl hkey)), ite_self]
      · simp only [List.mem_cons, hkey, false_or, if_false]

/-- A layer is recorded under the keys of its leaves. -/
theorem lookup_recordOrigins (layer : ConfigLayerEntry) (origins : Origins) (key : Text) :
    (recordOrigins layer.normalized layer.metadata [] origins).lookup key =
      if key ∈ layer.keys then some layer.metadata else origins.lookup key := by
  rw [recordOrigins_eq_foldl]
  exact lookup_foldl_insert layer.metadata layer.normalized.leaves origins key

/-- The origin of a key is the highest layer with a leaf of that key. -/
theorem lookup_origins (stack : ConfigLayerStack) (key : Text) :
    stack.origins.lookup key =
      (stack.enabled.reverse.find? fun layer =>
        key ∈ layer.keys).map ConfigLayerEntry.metadata := by
  rw [ConfigLayerStack.origins]
  induction stack.enabled using List.reverseRecOn with
  | nil => rfl
  | append_singleton layers layer ih =>
    rw [List.foldl_append, List.foldl_cons, List.foldl_nil, lookup_recordOrigins, ih,
      List.reverse_append, List.reverse_singleton, List.singleton_append, List.find?_cons]
    by_cases hkey : key ∈ layer.keys
    · rw [if_pos hkey, decide_eq_true hkey]
      rfl
    · rw [if_neg hkey, decide_eq_false hkey]

end Codex.Config
