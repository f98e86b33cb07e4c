import Codex.Config.Origins

/-!
# Layers of configuration

What a list of layers is, merged from the lowest to the highest.

* `merged_foldl`: a leaf of the result is a leaf of a layer that every higher one spares;
* `valueAt_merged`: the value at a path is that of the highest layer that defines the path, unless a
  higher one has a value that is no table above it, and a path that no higher layer touches keeps
  the value that the lower ones give it.

The proofs add one layer at a time at the top (`Merged.concat`, `valueAt_concat`): what is merged
so far is normalized, so that the laws of one merge apply (`Merged.mergeable`).

Patterns of network domains are renamed where two tables of them are merged, also those that the
upper table does not have. The results are about layers whose patterns are left as they are
(`DomainNamesNormalized`); `renamed_pattern_is_lost` is a stack where one is not.
-/

namespace Codex.Config

open Codex.Lib

variable {layers before after : List ConfigLayerEntry} {layer : ConfigLayerEntry}
  {merged : TomlValue} {path : TomlPath} {scalar : TomlScalar}

variable (layers)

/-- The configuration of some layers, from the lowest to the highest. -/
abbrev mergedLayers : TomlValue :=
  layers.foldl (fun merged layer => mergeTomlValues merged layer.config) (.table [])

/-! ### Layers that spare a leaf -/

/-- The higher layers spare what the layer has at the path. -/
def Lasts (layer : ConfigLayerEntry) (after : List ConfigLayerEntry) (path : TomlPath) : Prop :=
  ∀ next ∈ after, layer.normalized.spares next.normalized path = true

/-- Where the tables of network domains of two layers meet, that is, where no layer between them
replaces the lower one, the patterns in both are as `normalize_host` leaves them. -/
def DomainNamesNormalized : Prop :=
  ∀ before lower between upper after path below above,
    layers = before ++ lower :: (between ++ upper :: after) →
      isPermissionNetworkDomainsPath path = true → lower.normalized.tableAt path = some below →
      (∀ next ∈ between, next.normalized.keepsTable path = true) →
      upper.normalized.tableAt path = some above → HostsNormalized below ∧ HostsNormalized above

variable {layers}

lemma DomainNamesNormalized.of_concat (h : DomainNamesNormalized (layers ++ [layer])) :
    DomainNamesNormalized layers := by
  intro before lower between upper after path below above hsplit
  apply h before lower between upper (after ++ [layer]) path below above
  rw [hsplit, List.append_assoc, List.cons_append, List.append_assoc, List.cons_append]

/-- A layer has the property, and none above it replaces its table at the path. -/
def Survives (layers : List ConfigLayerEntry) (path : TomlPath) (p : TomlValue → Prop) : Prop :=
  ∃ before layer after, layers = before ++ layer :: after ∧ p layer.normalized ∧
    ∀ next ∈ after, next.normalized.keepsTable path = true

lemma Survives.last {p : TomlValue → Prop} (h : p layer.normalized) :
    Survives (layers ++ [layer]) path p :=
  ⟨layers, layer, [], rfl, h, fun _ hmem => absurd hmem List.not_mem_nil⟩

lemma Survives.concat {p : TomlValue → Prop} (h : Survives layers path p)
    (hkeeps : layer.normalized.keepsTable path = true) : Survives (layers ++ [layer]) path p := by
  obtain ⟨before, lower, after, rfl, hp, hafter⟩ := h
  refine ⟨before, lower, after ++ [layer], by simp, hp, fun next hmem => ?_⟩
  rcases List.mem_append.mp hmem with hmem | hmem
  · exact hafter next hmem
  · rw [List.mem_singleton.mp hmem]
    exact hkeeps

/-- What the layers that were merged are seen to be in the result. -/
structure Merged (layers : List ConfigLayerEntry) (merged : TomlValue) : Prop where
  wellFormed : merged.WellFormed
  tables : ∀ path table, path ≠ [] → merged.tableAt path = some table →
    Survives layers path (fun value => ∃ table, value.tableAt path = some table) ∧
      ∀ key ∈ keysOf table, Survives layers path (·.HasKeyAt path key)
  leaves : ∀ path scalar, (path, scalar) ∈ merged.leaves ↔
    ∃ before layer after, layers = before ++ layer :: after ∧
      (path, scalar) ∈ layer.normalized.leaves ∧ Lasts layer after path
  spares : ∀ before layer after path scalar, layers = before ++ layer :: after →
    (path, scalar) ∈ layer.normalized.leaves → Lasts layer after path →
      ∀ next, merged.spares next path = layer.normalized.spares next path

lemma merged_nil : Merged [] (.table []) where
  wellFormed := .table List.nodup_nil fun entry hmem => absurd hmem List.not_mem_nil
  tables path table hpath htable := by
    cases path with
    | nil => exact absurd rfl hpath
    | cons key path => exact nomatch htable
  leaves path scalar := by
    constructor
    · exact fun hmem => absurd hmem List.not_mem_nil
    · rintro ⟨before, layer, after, hsplit, -⟩
      exact absurd hsplit.symm (List.append_ne_nil_of_right_ne_nil _ (List.cons_ne_nil _ _))
  spares before layer after path scalar hsplit :=
    absurd hsplit.symm (List.append_ne_nil_of_right_ne_nil _ (List.cons_ne_nil _ _))

variable {value : TomlValue}

lemma legacyFree_tableAt {place rest : TomlPath} {table : TomlTable}
    (h : (normalizedWithKeyAliases value place).tableAt rest = some table) :
    LegacyFree (place ++ rest) table := by
  induction rest generalizing value place with
  | nil =>
    rcases value with value | items | entries
    · cases h
    · cases h
    · cases h
      rw [List.append_nil]
      exact legacyFree_normalizeKeyAliases place _
  | cons key rest ih =>
    rcases value with value | items | entries
    · cases h
    · cases h
    · rw [normalizedWithKeyAliases_table, TomlValue.tableAt, lookup_normalizedChildren] at h
      cases hlookup : (normalizeKeyAliases place entries).lookup key with
      | none =>
        simp [hlookup] at h
      | some value =>
        rw [hlookup] at h
        have hrest := ih h
        rw [List.append_assoc] at hrest
        exact hrest

/-- Another layer can be merged over those that are. -/
theorem Merged.mergeable (h : Merged layers merged)
    (hnames : DomainNamesNormalized (layers ++ [layer])) :
    Mergeable [] merged layer.normalized := by
  refine ⟨h.wellFormed, fun rest table htable hpath hlegacy => ?_,
    fun rest lower table hlower htable hpath => ?_⟩
  · rw [List.nil_append] at hpath
    have hne : rest ≠ [] := by
      rw [hpath]
      decide
    obtain ⟨-, other, -, -, ⟨table', htable', hkey⟩, -⟩ :=
      (h.tables rest table hne htable).2 _ hlegacy
    exact legacyFree_tableAt htable' hpath hkey
  · rw [List.nil_append] at hpath
    have hne : rest ≠ [] := by
      rintro rfl
      exact nomatch hpath
    obtain ⟨⟨before, other, after, hsplit, ⟨below, hbelow⟩, hafter⟩, hkeys⟩ :=
      h.tables rest lower hne hlower
    refine ⟨fun key hkey => ?_, ?_⟩
    · obtain ⟨before, owner, after, hsplit, ⟨table', htable', hmem⟩, hafter⟩ := hkeys key hkey
      exact (hnames before owner after layer [] rest table' table (by rw [hsplit]; simp) hpath
        htable' hafter htable).1 key hmem
    · exact (hnames before other after layer [] rest below table (by rw [hsplit]; simp) hpath
        hbelow hafter htable).2

/-- A layer of a longer stack is the new one, or one of those below it. -/
theorem split_concat_cases {next : ConfigLayerEntry}
    (h : layers ++ [next] = before ++ layer :: after) :
    (before = layers ∧ layer = next ∧ after = []) ∨
      ∃ between, after = between ++ [next] ∧ layers = before ++ layer :: between := by
  rcases List.eq_nil_or_concat' after with rfl | ⟨between, last, rfl⟩
  · obtain ⟨rfl, hlayer⟩ := List.append_inj' h rfl
    exact Or.inl ⟨rfl, (List.cons.inj hlayer).1.symm, rfl⟩
  · rw [← List.cons_append, ← List.append_assoc] at h
    obtain ⟨rfl, hlast⟩ := List.append_inj' h rfl
    exact Or.inr ⟨between, by rw [(List.cons.inj hlast).1], rfl⟩

lemma Lasts.concat {next : ConfigLayerEntry} (h : Lasts layer after path)
    (hnext : layer.normalized.spares next.normalized path = true) :
    Lasts layer (after ++ [next]) path := by
  exact List.forall_mem_append.mpr ⟨h, List.forall_mem_singleton.mpr hnext⟩

lemma Merged.concat (h : Merged layers merged)
    (hnames : DomainNamesNormalized (layers ++ [layer])) :
    Merged (layers ++ [layer]) (mergeTomlValues merged layer.config) := by
  have hmergeable := h.mergeable hnames
  refine ⟨?_, fun path table hpath htable => ?_, fun path scalar => ?_,
    fun before old after path scalar hsplit hleaf hlasts next => ?_⟩
  · exact TomlValue.WellFormed.mergeAt layer.config_wf [] fun value hvalue =>
      Option.some.inj hvalue ▸ h.wellFormed
  · obtain ⟨⟨table', hor⟩, hkeys⟩ := exists_tableAt_of_mergeAt layer.config_wf hmergeable htable
    refine ⟨?_, fun key hkey => ?_⟩
    · rcases hor with hnew | ⟨hold, hkeeps⟩
      · exact .last ⟨table', hnew⟩
      · exact (h.tables path table' hpath hold).1.concat hkeeps
    · rcases hkeys key hkey with hnew | ⟨⟨table', hold, hmem⟩, hkeeps⟩
      · exact .last hnew
      · exact ((h.tables path table' hpath hold).2 key hmem).concat hkeeps
  · refine (mem_leaves_mergeAt layer.config_wf hmergeable).trans ?_
    constructor
    · rintro (hnew | ⟨hold, hspares⟩)
      · exact ⟨layers, layer, [], rfl, hnew, fun next hmem => absurd hmem List.not_mem_nil⟩
      · obtain ⟨before, old, after, rfl, hleaf, hlasts⟩ := (h.leaves path scalar).mp hold
        rw [h.spares before old after path scalar rfl hleaf hlasts] at hspares
        exact ⟨before, old, after ++ [layer], by simp, hleaf, hlasts.concat hspares⟩
    · rintro ⟨before, old, after, hsplit, hleaf, hlasts⟩
      rcases split_concat_cases hsplit with ⟨rfl, rfl, rfl⟩ | ⟨between, rfl, rfl⟩
      · exact Or.inl hleaf
      · have hbetween : Lasts old between path :=
          fun next hmem => hlasts next (List.mem_append_left _ hmem)
        refine Or.inr ⟨(h.leaves path scalar).mpr ⟨before, old, between, rfl, hleaf, hbetween⟩, ?_⟩
        rw [h.spares before old between path scalar rfl hleaf hbetween]
        exact hlasts layer (List.mem_append_right _ (List.mem_singleton_self layer))
  · rcases split_concat_cases hsplit with ⟨rfl, rfl, rfl⟩ | ⟨between, rfl, rfl⟩
    · exact spares_mergeAt_of_mem old.config_wf hmergeable hleaf next
    · have hbetween : Lasts old between path :=
        fun next hmem => hlasts next (List.mem_append_left _ hmem)
      have hold := h.spares before old between path scalar rfl hleaf hbetween
      have hspares : merged.spares layer.normalized path = true := by
        rw [hold]
        exact hlasts layer (List.mem_append_right _ (List.mem_singleton_self layer))
      exact (spares_mergeAt_of_spares layer.config_wf hmergeable hspares next).trans (hold next)

/-- **A leaf of the effective configuration is a leaf of a layer that every higher one spares.** -/
theorem merged_foldl (hnames : DomainNamesNormalized layers) :
    Merged layers (layers.foldl (fun merged layer => mergeTomlValues merged layer.config)
      (.table [])) := by
  induction layers using List.reverseRecOn with
  | nil => exact merged_nil
  | append_singleton layers layer ih =>
    rw [List.foldl_append]
    exact (ih hnames.of_concat).concat hnames

/-! ### The precedence of layers -/

/-- The value at a path of one more layer and of the layers below it. -/
theorem valueAt_concat (hnames : DomainNamesNormalized (layers ++ [layer]))
    (hvalue : value.isTable = false) :
    (mergedLayers (layers ++ [layer])).valueAt path = some value ↔
      layer.normalized.valueAt path = some value ∨
        layer.normalized.touches path = false ∧
          (mergedLayers layers).valueAt path = some value := by
  have hmergeable := (merged_foldl hnames.of_concat).mergeable hnames
  rw [mergedLayers, List.foldl_append, List.foldl_cons, List.foldl_nil]
  change (mergeAt layer.config [] (some (mergedLayers layers))).valueAt path = some value ↔ _
  cases htouches : layer.normalized.touches path with
  | true =>
    rw [valueAt_mergeAt_of_touches layer.config_wf hmergeable htouches hvalue]
    exact ⟨Or.inl, fun h => h.resolve_right fun h => Bool.false_ne_true h.1.symm⟩
  | false =>
    have hnone := (TomlValue.touches_eq_false_iff.mp htouches).1
    rw [valueAt_mergeAt_of_not_touches layer.config_wf hmergeable htouches, hnone]
    exact ⟨fun h => Or.inr ⟨rfl, h⟩, fun h => h.elim (fun h => absurd h.symm
      (Option.some_ne_none _)) And.right⟩

/-- **A path that no layer above touches keeps its value.** -/
theorem valueAt_append (hnames : DomainNamesNormalized (before ++ after))
    (hafter : ∀ next ∈ after, next.normalized.touches path = false) :
    (mergedLayers (before ++ after)).valueAt path = (mergedLayers before).valueAt path := by
  induction after using List.reverseRecOn with
  | nil => rw [List.append_nil]
  | append_singleton after layer ih =>
    rw [← List.append_assoc] at hnames ⊢
    have hmergeable := (merged_foldl hnames.of_concat).mergeable hnames
    rw [mergedLayers, List.foldl_append, List.foldl_cons, List.foldl_nil]
    refine (valueAt_mergeAt_of_not_touches layer.config_wf hmergeable
      (hafter layer (List.mem_append_right _ (List.mem_singleton_self layer)))).trans ?_
    exact ih hnames.of_concat fun next hmem => hafter next (List.mem_append_left _ hmem)

/-- The value at a path is that of the highest layer that touches the path. -/
theorem valueAt_iff (hnames : DomainNamesNormalized layers) (hvalue : value.isTable = false) :
    (mergedLayers layers).valueAt path = some value ↔
      ∃ before layer after, layers = before ++ layer :: after ∧
        layer.normalized.valueAt path = some value ∧
        ∀ next ∈ after, next.normalized.touches path = false := by
  induction layers using List.reverseRecOn with
  | nil =>
    have hnone : ¬ (mergedLayers []).valueAt path = some value := by
      rcases path with _ | ⟨key, path⟩
      · intro h
        rw [← Option.some.inj h] at hvalue
        exact Bool.false_ne_true hvalue.symm
      · exact fun h => Option.some_ne_none _ h.symm
    refine iff_of_false hnone ?_
    rintro ⟨before, layer, after, hsplit, -⟩
    exact absurd hsplit.symm (List.append_ne_nil_of_right_ne_nil _ (List.cons_ne_nil _ _))
  | append_singleton layers layer ih =>
    rw [valueAt_concat hnames hvalue, ih hnames.of_concat]
    constructor
    · rintro (hnew | ⟨hfree, before, lower, after, rfl, hlower, hafter⟩)
      · exact ⟨layers, layer, [], rfl, hnew, fun next hmem => absurd hmem List.not_mem_nil⟩
      · refine ⟨before, lower, after ++ [layer], by simp, hlower, fun next hmem => ?_⟩
        rcases List.mem_append.mp hmem with hmem | hmem
        · exact hafter next hmem
        · rw [List.mem_singleton.mp hmem]
          exact hfree
    · rintro ⟨before, lower, after, hsplit, hlower, hafter⟩
      rcases split_concat_cases hsplit with ⟨rfl, rfl, rfl⟩ | ⟨between, rfl, rfl⟩
      · exact Or.inl hlower
      · refine Or.inr ⟨hafter layer (List.mem_append_right _ (List.mem_singleton_self layer)),
          before, lower, between, rfl, hlower, fun next hmem => ?_⟩
        exact hafter next (List.mem_append_left _ hmem)

/-- A layer above leaves the path alone: it does not define it, and what it has at the ancestors of
the path are tables. -/
structure LeavesAlone (layer : ConfigLayerEntry) (path : TomlPath) : Prop where
  undefined : layer.normalized.valueAt path = none
  tables : ∀ place key rest upper, path = place ++ key :: rest →
    layer.normalized.valueAt place = some upper → upper.isTable = true

lemma leavesAlone_iff : LeavesAlone layer path ↔ layer.normalized.touches path = false := by
  rw [TomlValue.touches_eq_false_iff]
  exact ⟨fun h => ⟨h.undefined, h.tables⟩, fun h => ⟨h.1, h.2⟩⟩

/-- **The precedence of layers.** A value at a path of the merged configuration that is no table is
that of the highest layer that defines the path, and no higher one has a value that is no table at
one of the ancestors. A path that no layer above touches keeps what the layers below give it. -/
theorem valueAt_merged (hnames : DomainNamesNormalized layers) :
    (∀ path value, value.isTable = false →
      ((mergedLayers layers).valueAt path = some value ↔
        ∃ before layer after, layers = before ++ layer :: after ∧
          layer.normalized.valueAt path = some value ∧
          ∀ next ∈ after, LeavesAlone next path)) ∧
    ∀ before after path, layers = before ++ after → (∀ next ∈ after, LeavesAlone next path) →
      (mergedLayers layers).valueAt path = (mergedLayers before).valueAt path := by
  simp only [leavesAlone_iff]
  refine ⟨fun path value hvalue => valueAt_iff hnames hvalue, ?_⟩
  rintro before after path rfl hafter
  exact valueAt_append hnames hafter

/-! ### Layers with a pattern of network domains -/

def domainsPath : TomlPath :=
  ["permissions", "dev", "network", "domains"].map String.toList

/-- A layer that has one pattern of network domains. -/
def domainsLayer (name : ConfigLayerSource) (pattern action : String) : ConfigLayerEntry where
  name
  config := domainsPath.foldr (fun key value => .table [(key, value)])
    (.table [(pattern.toList, .scalar (.string action.toList))])
  version := []
  config_wf := by
    have hsingle : ∀ {key : Text} {value : TomlValue}, value.WellFormed →
        (TomlValue.table [(key, value)]).WellFormed := by
      intro key value hvalue
      refine .table (List.nodup_singleton _) fun entry hmem => ?_
      rw [List.mem_singleton.mp hmem]
      exact hvalue
    exact hsingle (hsingle (hsingle (hsingle (hsingle (.scalar _)))))

lemma eq_of_isPermissionNetworkDomainsPath (h : isPermissionNetworkDomainsPath path = true) :
    ∃ name, path = ["permissions".toList, name, "network".toList, "domains".toList] := by
  rcases path with _ | ⟨permissions, _ | ⟨name, _ | ⟨network, _ | ⟨domains, _ | ⟨key, rest⟩⟩⟩⟩⟩
  · cases h
  · cases h
  · cases h
  · cases h
  · rw [isPermissionNetworkDomainsPath, decide_eq_true_iff] at h
    exact ⟨name, by rw [h.1, h.2.1, h.2.2]⟩
  · cases h

lemma hostsNormalized_domainsLayer {name : ConfigLayerSource} {pattern action : String}
    (hpattern : NetworkProxy.normalizeHost pattern.toList = pattern.toList) {table : TomlTable}
    (hpath : isPermissionNetworkDomainsPath path = true)
    (htable : (domainsLayer name pattern action).normalized.tableAt path = some table) :
    HostsNormalized table := by
  obtain ⟨dev, rfl⟩ := eq_of_isPermissionNetworkDomainsPath hpath
  have hlookup : ∀ value : TomlValue, (TomlValue.table [("dev".toList, value)]).tableAt
      [dev, "network".toList, "domains".toList] =
        if dev = "dev".toList then value.tableAt ["network".toList, "domains".toList]
        else none := by
    intro value
    rw [TomlValue.tableAt, lookup_cons_eq_ite]
    split_ifs <;> rfl
  have hdev := (hlookup _).symm.trans htable
  split_ifs at hdev
  · cases hdev
    intro key hkey
    rw [List.mem_singleton.mp hkey]
    exact hpattern

/-- Layers of one pattern each, as `normalize_host` leaves it. -/
lemma domainNamesNormalized_of_forall
    (h : ∀ layer ∈ layers, ∃ name pattern action, layer = domainsLayer name pattern action ∧
      NetworkProxy.normalizeHost pattern.toList = pattern.toList) :
    DomainNamesNormalized layers := by
  rintro before lower between upper after path below above rfl hpath hbelow - habove
  obtain ⟨name, pattern, action, rfl, hpattern⟩ := h lower (by simp)
  obtain ⟨name', pattern', action', rfl, hpattern'⟩ := h upper (by simp)
  exact ⟨hostsNormalized_domainsLayer hpattern hpath hbelow,
    hostsNormalized_domainsLayer hpattern' hpath habove⟩

def systemDomains : ConfigLayerEntry :=
  domainsLayer (.system "/etc/codex/config.toml".toList) "a.com" "deny"

def userDomains : ConfigLayerEntry :=
  domainsLayer (.user "/home/u/.codex/config.toml".toList none) "b.com" "allow"

lemma domainNamesNormalized_domains : DomainNamesNormalized [systemDomains, userDomains] := by
  apply domainNamesNormalized_of_forall
  intro layer hlayer
  rcases List.mem_pair.mp hlayer with rfl | rfl
  · exact ⟨_, "a.com", "deny", rfl, by decide +kernel⟩
  · exact ⟨_, "b.com", "allow", rfl, by decide +kernel⟩

/-- The lower pattern is left alone: it keeps the action that the lower layer gives it. -/
theorem valueAt_merged_domains :
    let path := domainsPath ++ ["a.com".toList]
    (mergedLayers [systemDomains, userDomains]).valueAt path =
        some (.scalar (.string "deny".toList)) ∧
      (mergedLayers [systemDomains, userDomains]).valueAt path =
        (mergedLayers [systemDomains]).valueAt path := by
  obtain ⟨hhighest, hkeeps⟩ := valueAt_merged domainNamesNormalized_domains
  have hafter : ∀ next ∈ [userDomains], LeavesAlone next (domainsPath ++ ["a.com".toList]) := by
    intro next hnext
    rw [List.mem_singleton.mp hnext]
    exact leavesAlone_iff.mpr (by decide +kernel)
  exact ⟨(hhighest _ _ rfl).mpr ⟨[], _, _, rfl, rfl, hafter⟩, hkeeps [_] [_] _ rfl hafter⟩

/-- **A pattern that no layer above touches is lost under its name**: merging renames it. -/
theorem renamed_pattern_is_lost :
    let base := domainsLayer (.system "/etc/codex/config.toml".toList) "EXAMPLE.com" "deny"
    let path := domainsPath ++ ["EXAMPLE.com".toList]
    base.normalized.valueAt path = some (.scalar (.string "deny".toList)) ∧
      LeavesAlone userDomains path ∧ (mergedLayers [base, userDomains]).valueAt path = none := by
  refine ⟨rfl, leavesAlone_iff.mpr (by decide +kernel), ?_⟩
  rw [← Option.isNone_iff_eq_none]
  decide +kernel

end Codex.Config
