import Codex.Lib.KeyedList
import Codex.Lib.Text

/-!
# TOML values

`toml::Value` as `codex-rs/config` uses it: tables keep the order of their keys, scalars are only
copied. A leaf is a scalar with the keys and indexes that lead to it.
-/

namespace Codex.Config

open Codex.Lib

/-- The `toml::Value`s that hold no others -/
inductive TomlScalar where
  | string (value : Text)
  | integer (value : ℤ)
  | float (bits : BitVec 64)
  | boolean (value : Bool)
  | datetime (text : Text)
  deriving DecidableEq

/-- `toml::Value` -/
inductive TomlValue where
  | scalar (value : TomlScalar)
  | array (items : List TomlValue)
  | table (entries : List (Text × TomlValue))

/-- `toml::map::Map`, with its order of insertion -/
abbrev TomlTable := List (Text × TomlValue)

/-- The keys, and indexes as texts, that lead to a value. -/
abbrev TomlPath := List Text

/-- A scalar with its path. -/
abbrev Leaf := TomlPath × TomlScalar

/-- The keys of every table are distinct. -/
inductive TomlValue.WellFormed : TomlValue → Prop
  | scalar (value : TomlScalar) : WellFormed (.scalar value)
  | array {items : List TomlValue} (items_wf : ∀ item ∈ items, WellFormed item) :
      WellFormed (.array items)
  | table {entries : TomlTable} (nodup : (keysOf entries).Nodup)
      (entries_wf : ∀ entry ∈ entries, WellFormed entry.2) : WellFormed (.table entries)

/-- `idx.to_string()` -/
def indexText (idx : ℕ) : Text := (Nat.repr idx).toList

namespace TomlValue

mutual
/-- The leaves of a value. -/
def leaves : TomlValue → List Leaf
  | .scalar value => [([], value)]
  | .array items => itemLeaves 0 items
  | .table entries => entryLeaves entries

def itemLeaves (idx : ℕ) : List TomlValue → List Leaf
  | [] => []
  | item :: items =>
    item.leaves.map (fun leaf => (indexText idx :: leaf.1, leaf.2)) ++ itemLeaves (idx + 1) items

def entryLeaves : TomlTable → List Leaf
  | [] => []
  | (key, value) :: entries =>
    value.leaves.map (fun leaf => (key :: leaf.1, leaf.2)) ++ entryLeaves entries
end

/-- The table that is reached through tables only. -/
def tableAt : TomlValue → TomlPath → Option TomlTable
  | .table entries, [] => some entries
  | .table entries, key :: path =>
    match entries.lookup key with
    | some value => value.tableAt path
    | none => none
  | _, _ => none

def isTable : TomlValue → Bool
  | .table _ => true
  | _ => false

/-- The value that is reached through tables only. -/
def valueAt : TomlValue → TomlPath → Option TomlValue
  | value, [] => some value
  | .table entries, key :: path =>
    match entries.lookup key with
    | some value => value.valueAt path
    | none => none
  | _, _ :: _ => none

/-- The value defines the path, or has a value that is no table at one of its ancestors. -/
def touches : TomlValue → TomlPath → Bool
  | .table entries, key :: path =>
    match entries.lookup key with
    | some value => value.touches path
    | none => false
  | _, _ => true

/-- The value has no value at the path or at one of its ancestors that is no table. -/
def keepsTable : TomlValue → TomlPath → Bool
  | .table _, [] => true
  | .table entries, key :: path =>
    match entries.lookup key with
    | some value => value.keepsTable path
    | none => true
  | _, _ => false

/-- Merging `upper` over `lower` leaves what `lower` has at the path alone: both are tables down to
one in which `upper` lacks the next key. -/
def spares : TomlValue → TomlValue → TomlPath → Bool
  | .table lower, .table upper, key :: path =>
    match upper.lookup key, lower.lookup key with
    | none, _ => true
    | some upper, some lower => lower.spares upper path
    | some _, none => false
  | _, _, _ => false

/-! ### Leaves -/

variable {path : TomlPath} {scalar : TomlScalar}

lemma mem_entryLeaves {entries : TomlTable} :
    (path, scalar) ∈ entryLeaves entries ↔
      ∃ key rest value, path = key :: rest ∧ (key, value) ∈ entries ∧
        (rest, scalar) ∈ value.leaves := by
  induction entries with
  | nil =>
    constructor
    · exact fun h => absurd h List.not_mem_nil
    · rintro ⟨key, rest, value, -, hmem, -⟩
      cases hmem
  | cons entry entries ih =>
    obtain ⟨key, value⟩ := entry
    rw [entryLeaves, List.mem_append, ih]
    constructor
    · rintro (hvalue | ⟨key', rest, value', hpath, hmem, hleaf⟩)
      · obtain ⟨⟨rest, scalar'⟩, hleaf, heq⟩ := List.mem_map.mp hvalue
        cases heq
        exact ⟨key, rest, value, rfl, List.mem_cons_self, hleaf⟩
      · exact ⟨key', rest, value', hpath, List.mem_cons_of_mem _ hmem, hleaf⟩
    · rintro ⟨key', rest, value', rfl, hmem, hleaf⟩
      rcases List.mem_cons.mp hmem with heq | hmem
      · cases heq
        exact Or.inl (List.mem_map.mpr ⟨_, hleaf, rfl⟩)
      · exact Or.inr ⟨key', rest, value', rfl, hmem, hleaf⟩

lemma nil_notMem_leaves_table (entries : TomlTable) (scalar : TomlScalar) :
    ([], scalar) ∉ (TomlValue.table entries).leaves := by
  rw [leaves, mem_entryLeaves]
  rintro ⟨key, rest, value, hpath, -⟩
  exact nomatch hpath

namespace WellFormed

lemma nodup {entries : TomlTable} (h : (TomlValue.table entries).WellFormed) :
    (keysOf entries).Nodup := by
  cases h with
  | table nodup => exact nodup

lemma lookup {entries : TomlTable} (h : (TomlValue.table entries).WellFormed) {key : Text}
    {value : TomlValue} (hlookup : entries.lookup key = some value) : value.WellFormed := by
  cases h with
  | table _ entries_wf => exact entries_wf _ (mem_of_lookup hlookup)

end WellFormed

lemma mem_leaves_table {entries : TomlTable} (h : (TomlValue.table entries).WellFormed)
    {key : Text} :
    (key :: path, scalar) ∈ (TomlValue.table entries).leaves ↔
      ∃ value, entries.lookup key = some value ∧ (path, scalar) ∈ value.leaves := by
  rw [leaves, mem_entryLeaves]
  constructor
  · rintro ⟨key', rest, value, hpath, hmem, hleaf⟩
    cases hpath
    exact ⟨value, (mem_iff_lookup h.nodup).mp hmem, hleaf⟩
  · rintro ⟨value, hlookup, hleaf⟩
    exact ⟨key, path, value, rfl, mem_of_lookup hlookup, hleaf⟩

lemma valueAt_nil (value : TomlValue) : value.valueAt [] = some value := by
  cases value <;> rfl

lemma touches_nil (value : TomlValue) : value.touches [] = true := by
  cases value <;> rfl

/-- What it is to leave a path alone, of the values at the path and above it. -/
theorem touches_eq_false_iff {value : TomlValue} :
    value.touches path = false ↔ value.valueAt path = none ∧
      ∀ place key rest upper, path = place ++ key :: rest → value.valueAt place = some upper →
        upper.isTable = true := by
  induction path generalizing value with
  | nil =>
    rw [touches_nil, valueAt_nil]
    exact iff_of_false (by decide) fun h => Option.some_ne_none _ h.1
  | cons key path ih =>
    rcases value with value | items | entries
    · exact iff_of_false Bool.false_ne_true.symm fun h =>
        Bool.false_ne_true (h.2 [] key path _ rfl rfl)
    · exact iff_of_false Bool.false_ne_true.symm fun h =>
        Bool.false_ne_true (h.2 [] key path _ rfl rfl)
    rw [touches, valueAt]
    cases hlookup : entries.lookup key with
    | none =>
      refine iff_of_true rfl ⟨rfl, fun place key' rest upper hpath hupper => ?_⟩
      rcases place with _ | ⟨first, place⟩
      · rw [← Option.some.inj hupper]
        rfl
      · simp [← (List.cons.inj hpath).1, valueAt, hlookup] at hupper
    | some value =>
      refine ih.trans (and_congr_right fun _ => ⟨fun h place key' rest upper hpath hupper => ?_,
        fun h place key' rest upper hpath hupper => ?_⟩)
      · rcases place with _ | ⟨first, place⟩
        · rw [← Option.some.inj hupper]
          rfl
        · obtain ⟨hkey, hpath⟩ := List.cons.inj hpath
          rw [← hkey, valueAt, hlookup] at hupper
          exact h place key' rest upper hpath hupper
      · refine h (key :: place) key' rest upper (congrArg (key :: ·) hpath) ?_
        rw [valueAt, hlookup]
        exact hupper

lemma spares_nil (lower upper : TomlValue) : lower.spares upper [] = false := by
  rw [spares]
  exact nofun

variable {lower upper : TomlValue}

lemma exists_tables_of_spares (h : lower.spares upper path = true) :
    ∃ below above key rest, lower = .table below ∧ upper = .table above ∧ path = key :: rest := by
  cases path with
  | nil => exact nomatch (spares_nil lower upper).symm.trans h
  | cons key rest =>
    cases lower with
    | scalar value => exact nomatch h
    | array items => exact nomatch h
    | table below =>
      cases upper with
      | scalar value => exact nomatch h
      | array items => exact nomatch h
      | table above => exact ⟨below, above, key, rest, rfl, rfl, rfl⟩

lemma spares_eq_false (h : lower.isTable = true → upper.isTable = false)
    (path : TomlPath) : lower.spares upper path = false := by
  apply Bool.eq_false_iff.mpr
  intro hspares
  obtain ⟨below, above, key, rest, rfl, rfl, -⟩ := exists_tables_of_spares hspares
  exact Bool.false_ne_true (h rfl).symm

/-- A leaf of the upper value is not one of those that are left alone. -/
theorem notMem_leaves_of_spares (hupper : upper.WellFormed) (h : lower.spares upper path = true) :
    (path, scalar) ∉ upper.leaves := by
  induction path generalizing lower upper with
  | nil =>
    obtain ⟨below, above, key, rest, -, -, hpath⟩ := exists_tables_of_spares h
    exact nomatch hpath
  | cons key path ih =>
    obtain ⟨below, above, key', rest, rfl, rfl, -⟩ := exists_tables_of_spares h
    rw [spares] at h
    rw [mem_leaves_table hupper]
    rintro ⟨value, hlookup, hleaf⟩
    rw [hlookup] at h
    cases hlower : below.lookup key with
    | none =>
      rw [hlower] at h
      exact nomatch h
    | some lower =>
      rw [hlower] at h
      exact ih (hupper.lookup hlookup) h hleaf

end TomlValue

end Codex.Config
