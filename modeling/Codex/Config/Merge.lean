import Codex.Config.Toml
import Codex.NetworkProxy.Policy

/-!
# Merging configurations

`config/src/{key_aliases,merge}.rs`: a configuration is merged over another one table by table;
everything else is replaced as a whole. Keys that have another name now are renamed on the way, and
so are the patterns of the network domains of two tables that are merged.

* `mem_leaves_mergeAt`: **the leaves of a merged value are those of the upper one and those of the
  lower one that it spares**;
* `tableAt_mergeAt`: merging adds no keys to a table that neither value has.
-/

namespace Codex.Config

open Codex.Lib

/-! ### Key aliases -/

structure ConfigKeyAlias where
  tablePath : TomlPath
  legacyKey : Text
  canonicalKey : Text

/-- The entry of `CONFIG_KEY_ALIASES` -/
def memoriesAlias : ConfigKeyAlias where
  tablePath := ["memories".toList]
  legacyKey := "no_memories_if_mcp_or_web_search".toList
  canonicalKey := "disable_on_external_context".toList

def configKeyAliases : List ConfigKeyAlias := [memoriesAlias]

variable {V W : Type}

/-- One turn of `normalize_key_aliases` -/
def normalizeKeyAlias (path : TomlPath) (table : List (Text × V)) (keyAlias : ConfigKeyAlias) :
    List (Text × V) :=
  if path = keyAlias.tablePath then
    match table.lookup keyAlias.legacyKey with
    | some value => orInsert (keyAlias.canonicalKey, value) (eraseKey keyAlias.legacyKey table)
    | none => table
  else table

def normalizeKeyAliases (path : TomlPath) (table : List (Text × V)) : List (Text × V) :=
  configKeyAliases.foldl (normalizeKeyAlias path) table

mutual
def normalizedWithKeyAliases : TomlValue → TomlPath → TomlValue
  | .table table, path => .table (normalizeKeyAliases path (normalizedChildren table path))
  | .array items, path => .array (normalizedItems items path)
  | .scalar value, _ => .scalar value

def normalizedChildren : TomlTable → TomlPath → TomlTable
  | [], _ => []
  | (key, child) :: table, path =>
    (key, normalizedWithKeyAliases child (path ++ [key])) :: normalizedChildren table path

def normalizedItems : List TomlValue → TomlPath → List TomlValue
  | [], _ => []
  | item :: items, path => normalizedWithKeyAliases item path :: normalizedItems items path
end

/-! ### Merging -/

def isPermissionNetworkDomainsPath : TomlPath → Bool
  | [permissions, _, network, domains] =>
    permissions = "permissions".toList ∧ network = "network".toList ∧ domains = "domains".toList
  | _ => false

def normalizeNetworkDomainKeys (table : List (Text × V)) : List (Text × V) :=
  upsertAll Prod.fst (table.map fun entry => (NetworkProxy.normalizeHost entry.1, entry.2)) []

/-- What a value of the overlay makes of the value at its path, if there is one. -/
abbrev Overlay := TomlPath → Option TomlValue → TomlValue

/-- `merge_toml_values_at_path`, the branch of two tables -/
def mergeTables (path : TomlPath) (base : TomlTable) (overlay : List (Text × Overlay)) :
    TomlTable :=
  let base := normalizeKeyAliases path base
  let overlay := normalizeKeyAliases path overlay
  let base := if isPermissionNetworkDomainsPath path then normalizeNetworkDomainKeys base else base
  let overlay :=
    if isPermissionNetworkDomainsPath path then normalizeNetworkDomainKeys overlay else overlay
  overlay.foldl
    (fun base entry =>
      upsert Prod.fst (entry.1, entry.2 (path ++ [entry.1]) (base.lookup entry.1)) base) base

mutual
/-- `merge_toml_values_at_path`; a value that the base does not have is inserted as one that
is not a table is replaced -/
def mergeAt : TomlValue → Overlay
  | .table overlay, path, some (.table base) =>
    .table (mergeTables path base (mergeEntries overlay))
  | overlay, path, _ => normalizedWithKeyAliases overlay path

def mergeEntries : TomlTable → List (Text × Overlay)
  | [] => []
  | (key, value) :: overlay => (key, mergeAt value) :: mergeEntries overlay
end

def mergeTomlValues (base overlay : TomlValue) : TomlValue := mergeAt overlay [] (some base)

/-! ### What key aliases do -/

lemma normalizeKeyAliases_of_ne {path : TomlPath} (h : path ≠ memoriesAlias.tablePath)
    (table : List (Text × V)) : normalizeKeyAliases path table = table :=
  if_neg h

variable {table : List (Text × V)}

lemma normalizeKeyAliases_of_lookup {value : V}
    (h : table.lookup memoriesAlias.legacyKey = some value) :
    normalizeKeyAliases memoriesAlias.tablePath table =
      orInsert (memoriesAlias.canonicalKey, value) (eraseKey memoriesAlias.legacyKey table) := by
  change normalizeKeyAlias memoriesAlias.tablePath table memoriesAlias = _
  rw [normalizeKeyAlias, if_pos rfl, h]

lemma normalizeKeyAliases_of_notMem (h : memoriesAlias.legacyKey ∉ keysOf table) (path : TomlPath) :
    normalizeKeyAliases path table = table := by
  change normalizeKeyAlias path table memoriesAlias = table
  rw [normalizeKeyAlias, lookup_eq_none_iff_notMem.mpr h]
  exact ite_self _

variable (path : TomlPath)

/-- The table has no legacy key where there is one. -/
def LegacyFree (table : List (Text × V)) : Prop :=
  path = memoriesAlias.tablePath → memoriesAlias.legacyKey ∉ keysOf table

lemma LegacyFree.normalizeKeyAliases_eq {path : TomlPath} (h : LegacyFree path table) :
    normalizeKeyAliases path table = table := by
  by_cases hpath : path = memoriesAlias.tablePath
  · exact normalizeKeyAliases_of_notMem (h hpath) path
  · exact normalizeKeyAliases_of_ne hpath table

/-- Either nothing is renamed, or the value of the legacy key gets the other one. -/
theorem normalizeKeyAliases_cases (table : List (Text × V)) :
    LegacyFree path table ∧ normalizeKeyAliases path table = table ∨
      path = memoriesAlias.tablePath ∧ ∃ value,
        table.lookup memoriesAlias.legacyKey = some value ∧
        normalizeKeyAliases path table = orInsert (memoriesAlias.canonicalKey, value)
            (eraseKey memoriesAlias.legacyKey table) := by
  by_cases hpath : path = memoriesAlias.tablePath
  · subst hpath
    cases hlookup : table.lookup memoriesAlias.legacyKey with
    | none =>
      have hnot := lookup_eq_none_iff_notMem.mp hlookup
      exact Or.inl ⟨fun _ => hnot, normalizeKeyAliases_of_notMem hnot _⟩
    | some value => exact Or.inr ⟨rfl, value, rfl, normalizeKeyAliases_of_lookup hlookup⟩
  · exact Or.inl ⟨fun h => absurd h hpath, normalizeKeyAliases_of_ne hpath table⟩

lemma legacyFree_normalizeKeyAliases (table : List (Text × V)) :
    LegacyFree path (normalizeKeyAliases path table) := by
  rcases normalizeKeyAliases_cases path table with ⟨hfree, heq⟩ | ⟨-, value, -, heq⟩
  · rw [heq]
    exact hfree
  · intro _
    rw [heq, mem_keysOf_orInsert, mem_keysOf_eraseKey]
    have hne : memoriesAlias.legacyKey ≠ memoriesAlias.canonicalKey := by decide +kernel
    rintro (h | ⟨-, h⟩)
    · exact hne h
    · exact h rfl

lemma nodup_normalizeKeyAliases (h : (keysOf table).Nodup) (path : TomlPath) :
    (keysOf (normalizeKeyAliases path table)).Nodup := by
  rcases normalizeKeyAliases_cases path table with ⟨-, heq⟩ | ⟨-, value, -, heq⟩
  · rw [heq]
    exact h
  · rw [heq]
    exact nodup_keysOf_orInsert (nodup_keysOf_eraseKey h _) _

lemma exists_of_mem_normalizeKeyAliases {path : TomlPath} {key : Text} {value : V}
    (h : (key, value) ∈ normalizeKeyAliases path table) :
    ∃ key, (key, value) ∈ table := by
  rcases normalizeKeyAliases_cases path table with ⟨-, heq⟩ | ⟨-, value', hlookup, heq⟩
  · rw [heq] at h
    exact ⟨key, h⟩
  · rw [heq] at h
    rcases mem_orInsert h with hentry | h
    · rw [(Prod.mk.inj hentry).2]
      exact ⟨_, mem_of_lookup hlookup⟩
    · exact ⟨key, (List.mem_filter.mp h).1⟩

lemma normalizeKeyAliases_map (f : V → W) (path : TomlPath) (table : List (Text × V)) :
    normalizeKeyAliases path (table.map (Prod.map id f)) =
      (normalizeKeyAliases path table).map (Prod.map id f) := by
  rcases normalizeKeyAliases_cases path table with ⟨hfree, heq⟩ | ⟨hpath, value, hlookup, heq⟩
  · have hmap : LegacyFree path (table.map (Prod.map id f)) := by
      intro hpath
      rw [keysOf_map]
      exact hfree hpath
    rw [heq, hmap.normalizeKeyAliases_eq]
  · subst hpath
    have hmap : (table.map (Prod.map id f)).lookup memoriesAlias.legacyKey = some (f value) := by
      rw [lookup_map, hlookup]
      rfl
    rw [heq, normalizeKeyAliases_of_lookup hmap, eraseKey_map, orInsert_map]

/-! ### Values below the tables with aliases -/

mutual
lemma normalizedWithKeyAliases_of_two_le (value : TomlValue) {path : TomlPath}
    (h : 2 ≤ path.length) : normalizedWithKeyAliases value path = value := by
  cases value with
  | scalar value => rfl
  | array items => rw [normalizedWithKeyAliases, normalizedItems_of_two_le items h]
  | table entries =>
    have hne : path ≠ memoriesAlias.tablePath := by
      rintro rfl
      exact absurd h (by decide)
    rw [normalizedWithKeyAliases, normalizeKeyAliases_of_ne hne,
      normalizedChildren_of_two_le entries h]

lemma normalizedChildren_of_two_le (table : TomlTable) {path : TomlPath}
    (h : 2 ≤ path.length) : normalizedChildren table path = table := by
  cases table with
  | nil => rfl
  | cons entry table =>
    obtain ⟨key, child⟩ := entry
    have hpath : 2 ≤ (path ++ [key]).length := by
      rw [List.length_append]
      omega
    rw [normalizedChildren, normalizedWithKeyAliases_of_two_le child hpath,
      normalizedChildren_of_two_le table h]

lemma normalizedItems_of_two_le (items : List TomlValue) {path : TomlPath}
    (h : 2 ≤ path.length) : normalizedItems items path = items := by
  cases items with
  | nil => rfl
  | cons item items =>
    rw [normalizedItems, normalizedWithKeyAliases_of_two_le item h,
      normalizedItems_of_two_le items h]
end

lemma normalizedChildren_eq_map (table : TomlTable) (path : TomlPath) :
    normalizedChildren table path =
      table.map fun entry => (entry.1, normalizedWithKeyAliases entry.2 (path ++ [entry.1])) := by
  induction table with
  | nil => rfl
  | cons entry table ih => rw [normalizedChildren, ih, List.map_cons]

/-- The children of a table can be normalized before its keys or after them. -/
theorem normalizedWithKeyAliases_table (table : TomlTable) (path : TomlPath) :
    normalizedWithKeyAliases (.table table) path =
      .table (normalizedChildren (normalizeKeyAliases path table) path) := by
  rw [normalizedWithKeyAliases]
  congr 1
  by_cases hpath : path = memoriesAlias.tablePath
  · have hchildren : ∀ table : TomlTable, normalizedChildren table path = table := by
      intro table
      rw [normalizedChildren_eq_map]
      conv_rhs => rw [← List.map_id table]
      congr 1
      funext entry
      rw [normalizedWithKeyAliases_of_two_le]
      · rfl
      · rw [hpath]
        exact le_refl 2
    rw [hchildren, hchildren]
  · rw [normalizeKeyAliases_of_ne hpath, normalizeKeyAliases_of_ne hpath]

lemma lookup_normalizedChildren (table : TomlTable) (path : TomlPath) (key : Text) :
    (normalizedChildren table path).lookup key =
      (table.lookup key).map fun value => normalizedWithKeyAliases value (path ++ [key]) := by
  rw [normalizedChildren_eq_map]
  exact lookup_map_snd (fun key value => normalizedWithKeyAliases value (path ++ [key])) table key

lemma keysOf_normalizedChildren (table : TomlTable) (path : TomlPath) :
    keysOf (normalizedChildren table path) = keysOf table := by
  rw [normalizedChildren_eq_map]
  exact keysOf_map_snd (fun key value => normalizedWithKeyAliases value (path ++ [key])) table

/-! ### What the names of network domains do -/

variable (table)

/-- Every key is as `normalize_host` leaves it. -/
def HostsNormalized : Prop :=
  ∀ key ∈ keysOf table, NetworkProxy.normalizeHost key = key

lemma upsertAll_of_nodup {before table : List (Text × V)} (h : (keysOf (before ++ table)).Nodup) :
    upsertAll Prod.fst table before = before ++ table := by
  induction table generalizing before with
  | nil => exact (List.append_nil before).symm
  | cons entry table ih =>
    have hnot : entry.1 ∉ keysOf before := by
      rw [keysOf, List.map_append, List.map_cons] at h
      exact fun hmem => List.disjoint_of_nodup_append h hmem List.mem_cons_self
    rw [upsertAll_cons, upsert_of_notMem hnot, ih, List.append_assoc]
    · rfl
    · rw [List.append_assoc]
      exact h

lemma HostsNormalized.normalize_eq {table : List (Text × V)} (h : HostsNormalized table)
    (hnodup : (keysOf table).Nodup) : normalizeNetworkDomainKeys table = table := by
  have hmap : (table.map fun entry => (NetworkProxy.normalizeHost entry.1, entry.2)) = table := by
    conv_rhs => rw [← List.map_id table]
    apply List.map_congr_left
    intro entry hmem
    rw [h entry.1 (List.mem_map.mpr ⟨entry, hmem, rfl⟩)]
    rfl
  rw [normalizeNetworkDomainKeys, hmap]
  exact upsertAll_of_nodup hnodup

lemma nodup_upsertAll {before : List (Text × V)} (h : (keysOf before).Nodup)
    (table : List (Text × V)) : (keysOf (upsertAll Prod.fst table before)).Nodup := by
  induction table generalizing before with
  | nil => exact h
  | cons entry table ih => exact ih (nodup_keys_upsert _ h)

lemma nodup_normalizeNetworkDomainKeys : (keysOf (normalizeNetworkDomainKeys table)).Nodup := by
  have hnil : (keysOf ([] : List (Text × V))).Nodup := List.nodup_nil
  exact nodup_upsertAll hnil _

variable {table}

lemma mem_upsertAll {before table : List (Text × V)} {entry : Text × V}
    (h : entry ∈ upsertAll Prod.fst table before) : entry ∈ table ∨ entry ∈ before := by
  induction table generalizing before with
  | nil => exact Or.inr h
  | cons first table ih =>
    rcases ih h with hmem | hmem
    · exact Or.inl (List.mem_cons_of_mem _ hmem)
    · rcases mem_upsert hmem with rfl | hmem
      · exact Or.inl List.mem_cons_self
      · exact Or.inr hmem

lemma exists_of_mem_normalizeNetworkDomainKeys {table : List (Text × V)} {key : Text}
    {value : V} (h : (key, value) ∈ normalizeNetworkDomainKeys table) :
    ∃ key, (key, value) ∈ table := by
  rcases mem_upsertAll h with hmem | hmem
  · obtain ⟨old, hold, heq⟩ := List.mem_map.mp hmem
    rw [← (Prod.mk.inj heq).2]
    exact ⟨old.1, hold⟩
  · cases hmem

/-! ### The branches of a merge -/

lemma mergeEntries_eq_map (overlay : TomlTable) :
    mergeEntries overlay = overlay.map (Prod.map id mergeAt) := by
  induction overlay with
  | nil => rfl
  | cons entry overlay ih =>
    rw [mergeEntries, ih]
    rfl

lemma mergeAt_none (value : TomlValue) (path : TomlPath) :
    mergeAt value path none = normalizedWithKeyAliases value path := by
  cases value <;> rfl

/-- Two tables are merged; everything else is replaced. -/
theorem mergeAt_table_cases (overlay : TomlTable) (path : TomlPath) (base : Option TomlValue) :
    (∃ table, base = some (.table table) ∧ mergeAt (.table overlay) path base =
        .table (mergeTables path table (mergeEntries overlay))) ∨
      mergeAt (.table overlay) path base = normalizedWithKeyAliases (.table overlay) path := by
  rcases base with _ | ⟨value | items | table⟩
  · exact Or.inr rfl
  · exact Or.inr rfl
  · exact Or.inr rfl
  · exact Or.inl ⟨table, rfl, rfl⟩

/-! ### Well-formedness -/

namespace TomlValue.WellFormed

lemma normalizedItems {items : List TomlValue}
    (h : ∀ item ∈ items, ∀ path, (normalizedWithKeyAliases item path).WellFormed)
    (path : TomlPath) : ∀ item ∈ normalizedItems items path, item.WellFormed := by
  induction items with
  | nil => exact fun item hmem => absurd hmem List.not_mem_nil
  | cons first items ih =>
    intro item hmem
    rcases List.mem_cons.mp hmem with rfl | hmem
    · exact h first List.mem_cons_self path
    · exact ih (fun item hmem => h item (List.mem_cons_of_mem _ hmem)) item hmem

lemma normalized {value : TomlValue} (h : value.WellFormed) (path : TomlPath) :
    (normalizedWithKeyAliases value path).WellFormed := by
  induction h generalizing path with
  | scalar value => exact .scalar value
  | array _ ih => exact .array (normalizedItems ih path)
  | table nodup _ ih =>
    rw [normalizedWithKeyAliases]
    refine .table (nodup_normalizeKeyAliases ?_ path) ?_
    · rw [keysOf_normalizedChildren]
      exact nodup
    · intro entry hmem
      obtain ⟨key, hmem⟩ := exists_of_mem_normalizeKeyAliases hmem
      rw [normalizedChildren_eq_map] at hmem
      obtain ⟨old, hold, heq⟩ := List.mem_map.mp hmem
      rw [← (Prod.mk.inj heq).2]
      exact ih old hold _

lemma entries {table : TomlTable} (h : (TomlValue.table table).WellFormed) :
    ∀ entry ∈ table, entry.2.WellFormed := by
  cases h with
  | table _ entries_wf => exact entries_wf

lemma mergeTables {path : TomlPath} {base : TomlTable} {overlay : List (Text × Overlay)}
    (hbase : (TomlValue.table base).WellFormed)
    (hoverlay : ∀ entry ∈ overlay, ∀ path old, (∀ value, old = some value → value.WellFormed) →
      (entry.2 path old).WellFormed) :
    (TomlValue.table (mergeTables path base overlay)).WellFormed := by
  have hkeys : ∀ {V : Type} {table : List (Text × V)} {entry : Text × V},
      entry ∈ (if isPermissionNetworkDomainsPath path
        then normalizeNetworkDomainKeys (normalizeKeyAliases path table)
        else normalizeKeyAliases path table) → ∃ key, (key, entry.2) ∈ table := by
    intro V table entry hmem
    split_ifs at hmem
    · obtain ⟨key, hmem⟩ := exists_of_mem_normalizeNetworkDomainKeys hmem
      exact exists_of_mem_normalizeKeyAliases hmem
    · exact exists_of_mem_normalizeKeyAliases hmem
  rw [Config.mergeTables]
  refine .table (nodup_keysOf_foldl_upsert
    (fun key (merge : Overlay) old => merge (path ++ [key]) old) _ ?_)
    (forall_foldl_upsert (f := fun key (merge : Overlay) old => merge (path ++ [key]) old) ?_ ?_)
  · split_ifs
    · exact nodup_normalizeNetworkDomainKeys _
    · exact nodup_normalizeKeyAliases hbase.nodup path
  · intro write hwrite old hold
    obtain ⟨key, hmem⟩ := hkeys hwrite
    exact hoverlay _ hmem _ _ hold
  · intro entry hentry
    obtain ⟨key, hmem⟩ := hkeys hentry
    exact hbase.entries (key, entry.2) hmem

lemma mergeAt {overlay : TomlValue} (h : overlay.WellFormed) (path : TomlPath)
    {base : Option TomlValue} (hbase : ∀ value, base = some value → value.WellFormed) :
    (mergeAt overlay path base).WellFormed := by
  induction h generalizing path base with
  | scalar value => exact .scalar value
  | array items_wf => exact (WellFormed.array items_wf).normalized path
  | table nodup entries_wf ih =>
    rcases mergeAt_table_cases _ path base with ⟨table, rfl, hmerge⟩ | hmerge
    · rw [hmerge]
      refine mergeTables (hbase _ rfl) ?_
      intro entry hentry path old hold
      rw [mergeEntries_eq_map] at hentry
      obtain ⟨value, hvalue, rfl⟩ := List.mem_map.mp hentry
      exact ih value hvalue path hold
    · rw [hmerge]
      exact (WellFormed.table nodup entries_wf).normalized path

end TomlValue.WellFormed

/-! ### Lookups -/

lemma lookup_mergeTables {path : TomlPath} {base overlay : TomlTable}
    (hbase : (keysOf base).Nodup) (hoverlay : (keysOf overlay).Nodup) (hfree : LegacyFree path base)
    (hhosts : isPermissionNetworkDomainsPath path = true →
      HostsNormalized base ∧ HostsNormalized (normalizeKeyAliases path overlay)) (key : Text) :
    (mergeTables path base (mergeEntries overlay)).lookup key =
      match (normalizeKeyAliases path overlay).lookup key with
      | some value => some (mergeAt value (path ++ [key]) (base.lookup key))
      | none => base.lookup key := by
  have hnodup := nodup_normalizeKeyAliases hoverlay path
  have hmerges : normalizeKeyAliases path (mergeEntries overlay) =
      (normalizeKeyAliases path overlay).map (Prod.map id mergeAt) := by
    rw [mergeEntries_eq_map, normalizeKeyAliases_map]
  have hmergesNodup : (keysOf (normalizeKeyAliases path (mergeEntries overlay))).Nodup := by
    rw [hmerges, keysOf_map]
    exact hnodup
  have hbaseEq : (if isPermissionNetworkDomainsPath path then normalizeNetworkDomainKeys base
      else base) = base := by
    split_ifs with hpath
    · exact (hhosts hpath).1.normalize_eq hbase
    · rfl
  have hoverlayEq : (if isPermissionNetworkDomainsPath path
      then normalizeNetworkDomainKeys (normalizeKeyAliases path (mergeEntries overlay))
      else normalizeKeyAliases path (mergeEntries overlay)) =
        normalizeKeyAliases path (mergeEntries overlay) := by
    split_ifs with hpath
    · have hmergesHosts : HostsNormalized (normalizeKeyAliases path (mergeEntries overlay)) := by
        rw [HostsNormalized, hmerges, keysOf_map]
        exact (hhosts hpath).2
      exact hmergesHosts.normalize_eq hmergesNodup
    · rfl
  rw [mergeTables, hfree.normalizeKeyAliases_eq, hbaseEq, hoverlayEq,
    lookup_foldl_upsert (fun key (merge : Overlay) old => merge (path ++ [key]) old) hmergesNodup,
    hmerges, lookup_map]
  cases (normalizeKeyAliases path overlay).lookup key with
  | none => rfl
  | some value => rfl

/-- What merging relies on: the lower value is normalized, and names of network domains that meet
are. -/
structure Mergeable (path : TomlPath) (base upper : TomlValue) : Prop where
  wellFormed : base.WellFormed
  legacyFree : ∀ rest table, base.tableAt rest = some table → LegacyFree (path ++ rest) table
  hosts : ∀ rest lower table, base.tableAt rest = some lower → upper.tableAt rest = some table →
    isPermissionNetworkDomainsPath (path ++ rest) = true →
      HostsNormalized lower ∧ HostsNormalized table

lemma Mergeable.lookup {path : TomlPath} {base upper : TomlTable} {key : Text}
    {lower value : TomlValue} (h : Mergeable path (.table base) (.table upper))
    (hlower : base.lookup key = some lower) (hupper : upper.lookup key = some value) :
    Mergeable (path ++ [key]) lower value := by
  have hbaseAt : ∀ rest, (TomlValue.table base).tableAt (key :: rest) = lower.tableAt rest := by
    intro rest
    rw [TomlValue.tableAt, hlower]
  have hupperAt : ∀ rest, (TomlValue.table upper).tableAt (key :: rest) = value.tableAt rest := by
    intro rest
    rw [TomlValue.tableAt, hupper]
  refine ⟨h.wellFormed.lookup hlower, fun rest table htable => ?_,
    fun rest below table hbelow htable hpath => ?_⟩
  · rw [List.append_assoc]
    exact h.legacyFree (key :: rest) table ((hbaseAt rest).trans htable)
  · rw [List.append_assoc] at hpath
    exact h.hosts (key :: rest) below table ((hbaseAt rest).trans hbelow)
      ((hupperAt rest).trans htable) hpath

/-- A value is replaced as a whole, or both are tables, merged key by key. -/
theorem mergeAt_cases {overlay base : TomlValue} {path : TomlPath} (hoverlay : overlay.WellFormed)
    (h : Mergeable path base (normalizedWithKeyAliases overlay path)) :
    (mergeAt overlay path (some base) = normalizedWithKeyAliases overlay path ∧
      (base.isTable = true → (normalizedWithKeyAliases overlay path).isTable = false)) ∨
    ∃ lower upper merged, base = .table lower ∧
      normalizedWithKeyAliases overlay path = .table upper ∧
      mergeAt overlay path (some base) = .table merged ∧
      ∀ key, (upper.lookup key = none ∧ merged.lookup key = lower.lookup key) ∨
        ∃ value : TomlValue, value.WellFormed ∧
          upper.lookup key = some (normalizedWithKeyAliases value (path ++ [key])) ∧
          merged.lookup key = some (mergeAt value (path ++ [key]) (lower.lookup key)) := by
  rcases overlay with value | items | overlay
  · exact Or.inl ⟨rfl, fun _ => rfl⟩
  · exact Or.inl ⟨rfl, fun _ => rfl⟩
  rcases base with value | items | lower
  · exact Or.inl ⟨rfl, fun h => absurd h Bool.false_ne_true⟩
  · exact Or.inl ⟨rfl, fun h => absurd h Bool.false_ne_true⟩
  refine Or.inr ⟨lower, _, _, rfl, normalizedWithKeyAliases_table overlay path, rfl, fun key => ?_⟩
  have hfree : LegacyFree path lower := by
    have hroot := h.legacyFree [] lower rfl
    rw [List.append_nil] at hroot
    exact hroot
  have hhosts : isPermissionNetworkDomainsPath path = true →
      HostsNormalized lower ∧ HostsNormalized (normalizeKeyAliases path overlay) := by
    intro hpath
    have hroot := h.hosts [] lower _ rfl
      (congrArg (TomlValue.tableAt · []) (normalizedWithKeyAliases_table overlay path))
    rw [List.append_nil] at hroot
    refine ⟨(hroot hpath).1, ?_⟩
    have hchildren := (hroot hpath).2
    rw [HostsNormalized, keysOf_normalizedChildren] at hchildren
    exact hchildren
  rw [lookup_normalizedChildren, lookup_mergeTables h.wellFormed.nodup hoverlay.nodup hfree hhosts]
  cases hlookup : (normalizeKeyAliases path overlay).lookup key with
  | none => exact Or.inl ⟨rfl, rfl⟩
  | some value =>
    obtain ⟨old, hmem⟩ := exists_of_mem_normalizeKeyAliases (mem_of_lookup hlookup)
    exact Or.inr ⟨value, hoverlay.entries (old, value) hmem, rfl, rfl⟩

end Codex.Config
