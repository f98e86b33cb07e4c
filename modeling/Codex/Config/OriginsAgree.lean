import Codex.Config.Layers

/-!
# When the origins agree with the effective configuration

What is recorded is never retracted: a path stays recorded when a higher layer replaces a table or
an array that it goes through, and a pattern of a network domain stays recorded as it was written
when merging renames it. Paths are joined by dots, so that two of them can share a key.

* `mem_effectiveConfig_leaves`: a leaf of the effective configuration is a leaf of some layer that
  every higher layer spares;
* `originsAgree_iff`: **the origins agree with the effective configuration exactly if of each key
  that a layer gives some leaf lasts, and no lasting leaf shares its key with a higher layer's**;
* `replaced_array_stays_recorded`: an array replaced by a shorter one.
-/

namespace Codex.Config

open Codex.Lib

variable {layers before after : List ConfigLayerEntry} {layer : ConfigLayerEntry}
  {merged : TomlValue} {path : TomlPath} {scalar : TomlScalar}

/-! ### The condition -/

namespace ConfigLayerStack

/-- Of each key that an enabled layer gives some leaf lasts, and a leaf that lasts does not share
its key with a leaf of a higher layer (but for one of the same identity). -/
structure LeavesLast (stack : ConfigLayerStack) : Prop where
  kept : ∀ layer ∈ stack.enabled, ∀ key ∈ layer.keys, ∃ before lasting after,
    stack.enabled = before ++ lasting :: after ∧
      ∃ leaf ∈ lasting.leaves, joinPath leaf.1 = key ∧ Lasts lasting after leaf.1
  own : ∀ before layer after, stack.enabled = before ++ layer :: after →
    ∀ leaf ∈ layer.leaves, Lasts layer after leaf.1 →
      ∀ higher, after.reverse.find? (fun other => joinPath leaf.1 ∈ other.keys) = some higher →
        higher.metadata = layer.metadata

variable {stack : ConfigLayerStack} {leaf : Leaf}

lemma mem_configLeaves_iff {config : TomlValue} :
    leaf ∈ configLeaves config ↔ leaf ∈ config.leaves ∧ leaf.1 ≠ [] := by
  rw [configLeaves, List.mem_filter, decide_eq_true_iff]

/-- The leaves of the effective configuration, by the layers that have them. -/
theorem mem_effectiveConfig_leaves (hnames : DomainNamesNormalized stack.enabled) :
    leaf ∈ configLeaves stack.effectiveConfig ↔
      ∃ before layer after, stack.enabled = before ++ layer :: after ∧ leaf ∈ layer.leaves ∧
        Lasts layer after leaf.1 := by
  obtain ⟨path, scalar⟩ := leaf
  have hleaves := (merged_foldl hnames).leaves path scalar
  rw [mem_configLeaves_iff, effectiveConfig, hleaves]
  constructor
  · rintro ⟨⟨before, layer, after, hsplit, hleaf, hlasts⟩, hne⟩
    exact ⟨before, layer, after, hsplit, mem_configLeaves_iff.mpr ⟨hleaf, hne⟩, hlasts⟩
  · rintro ⟨before, layer, after, hsplit, hleaf, hlasts⟩
    obtain ⟨hleaf, hne⟩ := mem_configLeaves_iff.mp hleaf
    exact ⟨⟨before, layer, after, hsplit, hleaf, hlasts⟩, hne⟩

lemma supplier_of_lasts (hsplit : stack.enabled = before ++ layer :: after)
    (hleaf : leaf ∈ layer.leaves) (hlasts : Lasts layer after leaf.1) :
    stack.supplier leaf = some layer := by
  have hnone : after.reverse.find? (fun other => leaf ∈ other.leaves) = none := by
    rw [List.find?_eq_none]
    intro other hmem hother
    obtain ⟨hother, -⟩ := mem_configLeaves_iff.mp (of_decide_eq_true hother)
    exact TomlValue.notMem_leaves_of_spares (other.config_wf.normalized [])
      (hlasts other (List.mem_reverse.mp hmem)) hother
  change stack.enabled.reverse.find? (fun other => leaf ∈ other.leaves) = some layer
  rw [hsplit, List.reverse_append, List.reverse_cons, List.append_assoc, List.find?_append, hnone,
    List.singleton_append, List.find?_cons, decide_eq_true hleaf]
  rfl

/-- The origin of a leaf is the highest layer above that gives its key, or the leaf's own. -/
theorem lookup_origins_of_mem (hsplit : stack.enabled = before ++ layer :: after)
    (hleaf : leaf ∈ layer.leaves) :
    stack.origins.lookup (joinPath leaf.1) =
      match after.reverse.find? fun other => joinPath leaf.1 ∈ other.keys with
      | some higher => some higher.metadata
      | none => some layer.metadata := by
  have hkey : joinPath leaf.1 ∈ layer.keys := List.mem_map.mpr ⟨leaf, hleaf, rfl⟩
  rw [lookup_origins, hsplit, List.reverse_append, List.reverse_cons, List.append_assoc,
    List.find?_append, List.singleton_append, List.find?_cons, decide_eq_true hkey]
  cases after.reverse.find? fun other => joinPath leaf.1 ∈ other.keys with
  | none => rfl
  | some higher => rfl

/-- A key is recorded if an enabled layer gives it. -/
theorem isSome_lookup_origins (stack : ConfigLayerStack) (key : Text) :
    (stack.origins.lookup key).isSome ↔ ∃ layer ∈ stack.enabled, key ∈ layer.keys := by
  rw [lookup_origins, Option.isSome_map, List.find?_isSome]
  constructor
  · rintro ⟨layer, hmem, hkey⟩
    exact ⟨layer, List.mem_reverse.mp hmem, of_decide_eq_true hkey⟩
  · rintro ⟨layer, hmem, hkey⟩
    exact ⟨layer, List.mem_reverse.mpr hmem, decide_eq_true hkey⟩

/-- **The origins agree with the effective configuration exactly if of each key some leaf lasts,
and no lasting leaf shares its key with a higher layer's.** -/
theorem originsAgree_iff (stack : ConfigLayerStack)
    (hnames : DomainNamesNormalized stack.enabled) : stack.OriginsAgree ↔ stack.LeavesLast := by
  constructor
  · intro h
    constructor
    · intro layer hlayer key hkey
      obtain ⟨leaf, hleaf, hjoin⟩ := (h.keys key).mp
        ((isSome_lookup_origins stack key).mpr ⟨layer, hlayer, hkey⟩)
      obtain ⟨before, lasting, after, hsplit, hmem, hlasts⟩ :=
        (mem_effectiveConfig_leaves hnames).mp hleaf
      exact ⟨before, lasting, after, hsplit, leaf, hmem, hjoin, hlasts⟩
    · intro before layer after hsplit leaf hleaf hlasts higher hhigher
      obtain ⟨other, hsupplier, hlookup⟩ := h.attributed leaf
        ((mem_effectiveConfig_leaves hnames).mpr ⟨before, layer, after, hsplit, hleaf, hlasts⟩)
      rw [supplier_of_lasts hsplit hleaf hlasts] at hsupplier
      cases hsupplier
      rw [lookup_origins_of_mem hsplit hleaf, hhigher] at hlookup
      exact Option.some.inj hlookup
  · intro h
    constructor
    · intro key
      rw [isSome_lookup_origins]
      constructor
      · rintro ⟨layer, hlayer, hkey⟩
        obtain ⟨before, lasting, after, hsplit, leaf, hleaf, hjoin, hlasts⟩ :=
          h.kept layer hlayer key hkey
        exact ⟨leaf, (mem_effectiveConfig_leaves hnames).mpr
          ⟨before, lasting, after, hsplit, hleaf, hlasts⟩, hjoin⟩
      · rintro ⟨leaf, hleaf, rfl⟩
        obtain ⟨before, layer, after, hsplit, hmem, -⟩ :=
          (mem_effectiveConfig_leaves hnames).mp hleaf
        refine ⟨layer, ?_, List.mem_map.mpr ⟨leaf, hmem, rfl⟩⟩
        rw [hsplit]
        exact List.mem_append_right _ List.mem_cons_self
    · intro leaf hleaf
      obtain ⟨before, layer, after, hsplit, hmem, hlasts⟩ :=
        (mem_effectiveConfig_leaves hnames).mp hleaf
      refine ⟨layer, supplier_of_lasts hsplit hmem hlasts, ?_⟩
      rw [lookup_origins_of_mem hsplit hmem]
      cases hhigher : after.reverse.find? fun other => joinPath leaf.1 ∈ other.keys with
      | none => rfl
      | some higher =>
        exact congrArg some (h.own before layer after hsplit leaf hmem hlasts higher hhigher)

end ConfigLayerStack

/-! ### An array replaced by a shorter one -/

/-- A layer whose only key `list` is an array of integers. -/
def listLayer (name : ConfigLayerSource) (version : Text) (items : List ℤ) : ConfigLayerEntry where
  name
  config := .table [("list".toList, .array (items.map fun item => .scalar (.integer item)))]
  version
  config_wf := by
    refine .table (List.nodup_singleton _) fun entry hmem => ?_
    rw [List.mem_singleton.mp hmem]
    refine .array fun item hmem => ?_
    obtain ⟨value, -, rfl⟩ := List.mem_map.mp hmem
    exact .scalar _

/-- The user's array replaces the longer one of the system. -/
def replacedArray : ConfigLayerStack where
  layers :=
    [listLayer (.system "/etc/codex/config.toml".toList) "v1".toList [1, 2],
      listLayer (.user "/home/u/.codex/config.toml".toList none) "v2".toList [3]]

/-- The origins of two layers with one pattern each are those of the effective configuration. -/
theorem originsAgree_domains : ConfigLayerStack.OriginsAgree ⟨[systemDomains, userDomains]⟩ := by
  have hlasts : Lasts systemDomains [userDomains] (domainsPath ++ ["a.com".toList]) := by
    intro next hnext
    rw [List.mem_singleton.mp hnext]
    decide +kernel
  have hnone : List.find? (fun other => joinPath (domainsPath ++ ["a.com".toList]) ∈ other.keys)
      [userDomains] = none := by
    rw [← Option.isNone_iff_eq_none]
    decide +kernel
  refine (ConfigLayerStack.originsAgree_iff ⟨[systemDomains, userDomains]⟩
    domainNamesNormalized_domains).mpr ⟨?_, ?_⟩
  · intro layer hlayer key hkey
    obtain ⟨leaf, hleaf, rfl⟩ := List.mem_map.mp hkey
    rcases List.mem_pair.mp hlayer with rfl | rfl
    · obtain rfl := List.mem_singleton.mp hleaf
      exact ⟨[], _, _, rfl, _, hleaf, rfl, hlasts⟩
    · exact ⟨[_], _, [], rfl, _, hleaf, rfl, fun _ hnext => absurd hnext List.not_mem_nil⟩
  · intro before layer after hsplit leaf hleaf _ higher hhigher
    have hstack : [systemDomains] ++ [userDomains] = before ++ layer :: after := hsplit
    rcases split_concat_cases hstack with
      ⟨rfl, rfl, rfl⟩ | ⟨between, rfl, hlower⟩
    · cases hhigher
    · obtain ⟨rfl, hlower⟩ | ⟨rest, -, habsurd⟩ := List.cons_eq_append_iff.mp hlower
      · cases hlower
        obtain rfl := List.mem_singleton.mp hleaf
        cases hnone.symm.trans hhigher
      · exact absurd habsurd.symm (List.append_ne_nil_of_right_ne_nil _ (List.cons_ne_nil _ _))

/-- The second item of the system's array stays recorded. -/
theorem replaced_array_stays_recorded : ¬ replacedArray.OriginsAgree := by
  intro h
  have hrecorded : (replacedArray.origins.lookup "list.1".toList).isSome := by decide +kernel
  have hleaves : configLeaves replacedArray.effectiveConfig =
      [(["list".toList, ['0']], .integer 3)] := by decide +kernel
  obtain ⟨leaf, hleaf, hkey⟩ := (h.keys _).mp hrecorded
  rw [hleaves] at hleaf
  rw [List.mem_singleton.mp hleaf] at hkey
  cases hkey

end Codex.Config
