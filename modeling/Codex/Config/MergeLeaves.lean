import Codex.Config.Merge

/-!
# The leaves of a merged configuration

What merging does at a path, by induction on the path: the overlay's leaves are there, and the
base's leaves are where the overlay spares them (`mem_leaves_mergeAt`); the value at a path is the
base's where the overlay does not touch the path (`valueAt_mergeAt_of_not_touches`) and the
overlay's where it does (`valueAt_mergeAt_of_touches`). Every proof follows the two cases of
`mergeAt_cases`: a value is replaced as a whole, or two tables are merged key by key.
-/

namespace Codex.Config

open Codex.Lib

variable {overlay base : TomlValue} {place path : TomlPath} {scalar : TomlScalar}
  (hoverlay : overlay.WellFormed)
include hoverlay

variable (h : Mergeable place base (normalizedWithKeyAliases overlay place))
include h

/-- **The leaves of a merged value are those of the overlay and those of the base that the overlay
spares.** -/
theorem mem_leaves_mergeAt
    :
    (path, scalar) ∈ (mergeAt overlay place (some base)).leaves ↔
      (path, scalar) ∈ (normalizedWithKeyAliases overlay place).leaves ∨
        (path, scalar) ∈ base.leaves ∧
          base.spares (normalizedWithKeyAliases overlay place) path = true := by
  induction path generalizing place overlay base with
  | nil =>
    rcases mergeAt_cases hoverlay h with
      ⟨hmerge, hnot⟩ | ⟨lower, upper, merged, rfl, hupper, hmerge, -⟩
    · rw [hmerge, TomlValue.spares_eq_false hnot]
      exact ⟨Or.inl, fun h => h.elim id fun h => absurd h.2 Bool.false_ne_true⟩
    · rw [hmerge, hupper]
      constructor
      · exact fun h => absurd h (TomlValue.nil_notMem_leaves_table merged scalar)
      · rintro (h | ⟨h, -⟩)
        · exact absurd h (TomlValue.nil_notMem_leaves_table upper scalar)
        · exact absurd h (TomlValue.nil_notMem_leaves_table lower scalar)
  | cons key path ih =>
    have hmergedWf := TomlValue.WellFormed.mergeAt hoverlay place
      (fun value hvalue => Option.some.inj hvalue ▸ h.wellFormed)
    have hupperWf := hoverlay.normalized place
    rcases mergeAt_cases hoverlay h with
      ⟨hmerge, hnot⟩ | ⟨lower, upper, merged, rfl, hupper, hmerge, hkeys⟩
    · rw [hmerge, TomlValue.spares_eq_false hnot]
      exact ⟨Or.inl, fun h => h.elim id fun h => absurd h.2 Bool.false_ne_true⟩
    · rw [hmerge] at hmergedWf
      rw [hupper] at hupperWf h
      rw [hmerge, hupper, TomlValue.mem_leaves_table hmergedWf,
        TomlValue.mem_leaves_table hupperWf, TomlValue.mem_leaves_table h.wellFormed,
        TomlValue.spares]
      rcases hkeys key with ⟨hnone, hsame⟩ | ⟨value, hvalue, hsome, hmerged⟩
      · rw [hnone, hsame]
        constructor
        · exact fun hleaf => Or.inr ⟨hleaf, rfl⟩
        · rintro (⟨value, hnone, -⟩ | ⟨hleaf, -⟩)
          · cases hnone
          · exact hleaf
      · rw [hsome, hmerged]
        cases hlower : lower.lookup key with
        | none =>
          rw [mergeAt_none]
          constructor
          · exact Or.inl
          · rintro (hleaf | ⟨⟨value, hnone, -⟩, -⟩)
            · exact hleaf
            · cases hnone
        | some below =>
          have hchild := ih hvalue (h.lookup hlower hsome)
          constructor
          · rintro ⟨merged, hmerged, hleaf⟩
            cases hmerged
            rcases hchild.mp hleaf with hleaf | ⟨hleaf, hspares⟩
            · exact Or.inl ⟨_, rfl, hleaf⟩
            · exact Or.inr ⟨⟨below, rfl, hleaf⟩, hspares⟩
          · rintro (⟨upper, hsome, hleaf⟩ | ⟨⟨below', hsome, hleaf⟩, hspares⟩)
            · cases hsome
              exact ⟨_, rfl, hchild.mpr (Or.inl hleaf)⟩
            · cases hsome
              exact ⟨_, rfl, hchild.mpr (Or.inr ⟨hleaf, hspares⟩)⟩

/-- Along the path of a leaf of the overlay the merged value looks like the overlay. -/
theorem spares_mergeAt_of_mem

    (hleaf : (path, scalar) ∈ (normalizedWithKeyAliases overlay place).leaves) (next : TomlValue) :
    (mergeAt overlay place (some base)).spares next path =
      (normalizedWithKeyAliases overlay place).spares next path := by
  induction path generalizing place overlay base next with
  | nil => rw [TomlValue.spares_nil, TomlValue.spares_nil]
  | cons key path ih =>
    have hupperWf := hoverlay.normalized place
    rcases mergeAt_cases hoverlay h with
      ⟨hmerge, -⟩ | ⟨lower, upper, merged, rfl, hupper, hmerge, hkeys⟩
    · rw [hmerge]
    · rw [hupper] at hleaf hupperWf h
      rw [hmerge, hupper]
      rcases next with value | items | next
      · rfl
      · rfl
      obtain ⟨value, hlookup, hleaf⟩ := (TomlValue.mem_leaves_table hupperWf).mp hleaf
      rcases hkeys key with ⟨hnone, -⟩ | ⟨value, hvalue, hsome, hmerged⟩
      · rw [hnone] at hlookup
        exact nomatch hlookup
      · rw [hsome] at hlookup
        cases hlookup
        rw [TomlValue.spares, TomlValue.spares, hsome, hmerged]
        cases next.lookup key with
        | none => rfl
        | some next =>
          cases hlower : lower.lookup key with
          | none => rw [mergeAt_none]
          | some below => exact ih hvalue (h.lookup hlower hsome) hleaf next

/-- Along a path that the overlay spares the merged value looks like the base. -/
theorem spares_mergeAt_of_spares

    (hspares : base.spares (normalizedWithKeyAliases overlay place) path = true)
      (next : TomlValue) :
    (mergeAt overlay place (some base)).spares next path = base.spares next path := by
  induction path generalizing place overlay base next with
  | nil => rw [TomlValue.spares_nil, TomlValue.spares_nil]
  | cons key path ih =>
    rcases mergeAt_cases hoverlay h with
      ⟨-, hnot⟩ | ⟨lower, upper, merged, rfl, hupper, hmerge, hkeys⟩
    · simp [TomlValue.spares_eq_false hnot] at hspares
    · rw [hupper] at hspares h
      rw [hmerge]
      rcases next with value | items | next
      · rfl
      · rfl
      rw [TomlValue.spares] at hspares
      rw [TomlValue.spares, TomlValue.spares]
      rcases hkeys key with ⟨-, hsame⟩ | ⟨value, hvalue, hsome, hmerged⟩
      · rw [hsame]
      · rw [hsome] at hspares
        cases hlower : lower.lookup key with
        | none =>
          simp [hlower] at hspares
        | some below =>
          rw [hlower] at hspares hmerged
          rw [hmerged]
          cases next.lookup key with
          | none => rfl
          | some next => exact ih hvalue (h.lookup hlower hsome) hspares next

/-! ### Values -/

/-- **A path that the overlay does not touch keeps its value.** -/
theorem valueAt_mergeAt_of_not_touches

    (hfree : (normalizedWithKeyAliases overlay place).touches path = false) :
    (mergeAt overlay place (some base)).valueAt path = base.valueAt path := by
  induction path generalizing place overlay base with
  | nil => exact absurd ((TomlValue.touches_nil _).symm.trans hfree) Bool.false_ne_true.symm
  | cons key path ih =>
    rcases mergeAt_cases hoverlay h with
      ⟨hmerge, hnot⟩ | ⟨lower, upper, merged, rfl, hupper, hmerge, hkeys⟩
    · have hnone := (TomlValue.touches_eq_false_iff.mp hfree).1
      rw [hmerge, hnone]
      rcases base with value | items | lower
      · rfl
      · rfl
      · have htable := (TomlValue.touches_eq_false_iff.mp hfree).2 [] key path _ rfl
          (TomlValue.valueAt_nil _)
        exact absurd (htable.symm.trans (hnot rfl)) Bool.false_ne_true.symm
    · rw [hupper] at h hfree
      rw [TomlValue.touches] at hfree
      rw [hmerge, TomlValue.valueAt, TomlValue.valueAt]
      rcases hkeys key with ⟨-, hsame⟩ | ⟨value, hvalue, hsome, hmerged⟩
      · rw [hsame]
      · rw [hsome] at hfree
        rw [hmerged]
        cases hlower : lower.lookup key with
        | none =>
          rw [mergeAt_none]
          exact (TomlValue.touches_eq_false_iff.mp hfree).1
        | some below => exact ih hvalue (h.lookup hlower hsome) hfree

/-- **At a path that the overlay touches** the values that are no tables are those of the
overlay. -/
theorem valueAt_mergeAt_of_touches

    (htouches : (normalizedWithKeyAliases overlay place).touches path = true) {value : TomlValue}
    (hvalue : value.isTable = false) :
    (mergeAt overlay place (some base)).valueAt path = some value ↔
      (normalizedWithKeyAliases overlay place).valueAt path = some value := by
  induction path generalizing place overlay base with
  | nil =>
    rcases mergeAt_cases hoverlay h with
      ⟨hmerge, -⟩ | ⟨lower, upper, merged, rfl, hupper, hmerge, -⟩
    · rw [hmerge]
    · have htable : ∀ table : TomlTable, ¬ some (TomlValue.table table) = some value := by
        rintro table heq
        rw [← Option.some.inj heq] at hvalue
        exact Bool.false_ne_true hvalue.symm
      rw [hmerge, hupper, TomlValue.valueAt_nil, TomlValue.valueAt_nil]
      exact iff_of_false (htable merged) (htable upper)
  | cons key path ih =>
    rcases mergeAt_cases hoverlay h with
      ⟨hmerge, -⟩ | ⟨lower, upper, merged, rfl, hupper, hmerge, hkeys⟩
    · rw [hmerge]
    · rw [hupper] at h htouches
      rw [TomlValue.touches] at htouches
      rw [hmerge, hupper, TomlValue.valueAt, TomlValue.valueAt]
      rcases hkeys key with ⟨hnone, -⟩ | ⟨value', hvalue', hsome, hmerged⟩
      · simp [hnone] at htouches
      · rw [hsome] at htouches
        rw [hmerged, hsome]
        cases hlower : lower.lookup key with
        | none => rw [mergeAt_none]
        | some below => exact ih hvalue' (h.lookup hlower hsome) htouches

omit h

omit hoverlay

/-! ### Keys -/

/-- The value has the key in the table at the path. -/
def TomlValue.HasKeyAt (value : TomlValue) (path : TomlPath) (key : Text) : Prop :=
  ∃ table, value.tableAt path = some table ∧ key ∈ keysOf table

theorem exists_tableAt_of_mergeAt (hoverlay : overlay.WellFormed)
    (h : Mergeable place base (normalizedWithKeyAliases overlay place)) {table : TomlTable}
    (htable : (mergeAt overlay place (some base)).tableAt path = some table) :
    (∃ table, (normalizedWithKeyAliases overlay place).tableAt path = some table ∨
        base.tableAt path = some table ∧
          (normalizedWithKeyAliases overlay place).keepsTable path = true) ∧
      ∀ key ∈ keysOf table, (normalizedWithKeyAliases overlay place).HasKeyAt path key ∨
        base.HasKeyAt path key ∧
          (normalizedWithKeyAliases overlay place).keepsTable path = true := by
  induction path generalizing place overlay base with
  | nil =>
    rcases mergeAt_cases hoverlay h with
      ⟨hmerge, -⟩ | ⟨lower, upper, merged, rfl, hupper, hmerge, hkeys⟩
    · rw [hmerge] at htable
      exact ⟨⟨table, Or.inl htable⟩, fun key hkey => Or.inl ⟨table, htable, hkey⟩⟩
    · rw [hmerge] at htable
      cases htable
      rw [hupper]
      refine ⟨⟨lower, Or.inr ⟨rfl, rfl⟩⟩, fun key hkey => ?_⟩
      rcases hkeys key with ⟨-, hsame⟩ | ⟨value, -, hsome, -⟩
      · by_contra hnot
        have hlower : lower.lookup key = none :=
          lookup_eq_none_iff_notMem.mpr fun hmem =>
            hnot (Or.inr ⟨⟨lower, rfl, hmem⟩, rfl⟩)
        exact lookup_eq_none_iff_notMem.mp (hsame.trans hlower) hkey
      · exact Or.inl ⟨upper, rfl, mem_keysOf_of_lookup hsome⟩
  | cons key path ih =>
    rcases mergeAt_cases hoverlay h with
      ⟨hmerge, -⟩ | ⟨lower, upper, merged, rfl, hupper, hmerge, hkeys⟩
    · rw [hmerge] at htable
      exact ⟨⟨table, Or.inl htable⟩, fun key hkey => Or.inl ⟨table, htable, hkey⟩⟩
    · rw [hupper] at h
      rw [hmerge, TomlValue.tableAt] at htable
      simp only [hupper, TomlValue.HasKeyAt, TomlValue.tableAt, TomlValue.keepsTable]
      rcases hkeys key with ⟨hnone, hsame⟩ | ⟨value, hvalue, hsome, hmerged⟩
      · rw [hsame] at htable
        rw [hnone]
        exact ⟨⟨table, Or.inr ⟨htable, rfl⟩⟩,
          fun key hkey => Or.inr ⟨⟨table, htable, hkey⟩, rfl⟩⟩
      · rw [hmerged] at htable
        rw [hsome]
        cases hlower : lower.lookup key with
        | none =>
          rw [hlower, mergeAt_none] at htable
          exact ⟨⟨table, Or.inl htable⟩, fun key hkey => Or.inl ⟨table, htable, hkey⟩⟩
        | some below =>
          rw [hlower] at htable
          exact ih hvalue (h.lookup hlower hsome) htable

end Codex.Config
