import Codex.Permissions.SemanticSignature

/-!
# The full-disk shortcuts

`has_full_disk_read_access` and `has_full_disk_write_access`: sandboxes are skipped where a policy
gives full access, so the two must not hold where some path resolves to less. The first never does.
The second takes a read entry at `/tmp` as overridden by a write entry for the special `:slash_tmp`,
which resolves to nothing where `/tmp` is no directory.

* `fullDiskAccess_sound_iff`: the first is sound, and exactly when the second is.
-/

namespace Codex.Permissions

open Codex.Lib

variable {env : Environment} {P : FileSystemSandboxPolicy} {cwd : PathBuf} {p : AbsolutePathBuf}

/-- Where a read entry resolves to `/tmp`, a write entry does. -/
def TmpOverridden (env : Environment) (P : FileSystemSandboxPolicy) (cwd : PathBuf) : Prop :=
  P.kind = .restricted → ∀ e ∈ P.resolvedEntriesWithCwd env cwd,
    e.path = slashTmpPath → e.access = .read →
      ∃ c ∈ P.resolvedEntriesWithCwd env cwd, c.path = slashTmpPath ∧ c.access = .write

/-- An absolute path resolves as its normal form does. -/
theorem resolveAccess_normalizePath (env : Environment) (P : FileSystemSandboxPolicy)
    (cwd : PathBuf) {path : PathBuf} (h : isAbsolute path = true) :
    P.resolveAccessWithCwd env path cwd =
      P.resolveAccessWithCwd env (asPath (normalizePath path)) cwd := by
  have hres : resolveCandidatePath env path cwd =
      resolveCandidatePath env (asPath (normalizePath path)) cwd := by
    rw [resolveCandidatePath_asPath, resolveCandidatePath, if_pos h,
      fromAbsolutePath_of_isAbsolute env h]
  simp only [FileSystemSandboxPolicy.resolveAccessWithCwd, hres]

/-- Under full-disk write access no metadata directory is looked at. -/
theorem canWrite_iff_resolves_of_fullDiskWrite (hfull : P.hasFullDiskWriteAccess = true)
    (path : PathBuf) :
    P.canWritePathWithCwd env path cwd = true ↔ P.resolveAccessWithCwd env path cwd = .write := by
  unfold FileSystemSandboxPolicy.canWritePathWithCwd
  rw [hfull]
  cases P.resolveAccessWithCwd env path cwd <;> simp [FileSystemAccessMode.canWrite]

/-- A write entry that resolves to `/tmp` wins over the read entries there. -/
theorem not_tmpReadOnly_iff (hcwd : isAbsolute cwd = true)
    (hfull : P.hasFullDiskWriteAccess = true) :
    (∀ p, ¬ TmpReadOnly env P cwd p) ↔ TmpOverridden env P cwd := by
  constructor
  · intro hnone hkind e he hpath hread
    by_contra hover
    obtain ⟨g, hg, -⟩ | ⟨hno, -⟩ := accessAt_spec (P.resolvedEntriesWithCwd env cwd) slashTmpPath
    · -- the entry that governs `/tmp` stands there too, so it is a read entry
      have hgpath : g.path = slashTmpPath := by
        have hbelow := hg.path_prefix he (hpath ▸ List.prefix_rfl)
        rw [hpath] at hbelow
        exact hg.2.1.eq_of_length (le_antisymm hg.2.1.length_le hbelow.length_le)
      have hgread : g.access = .read := by
        have hne : g.access ≠ .write := fun hwrite => hover ⟨g, hg.1, hgpath, hwrite⟩
        exact (override_of_fullDiskWrite hcwd hkind hfull hg.1 hne).1
      exact hnone slashTmpPath ⟨hkind, hfull, g, hg, hgpath, hgread⟩
    · exact hno e he (hpath ▸ List.prefix_rfl)
  · rintro hover p ⟨hkind, -, g, hg, hpath, hread⟩
    obtain ⟨c, hc, hcpath, hcwrite⟩ := hover hkind g hg.1 hpath hread
    have hle := hg.access_le hc (hcpath.trans hpath.symm)
    rw [hcwrite, hread] at hle
    cases hle

/-- **The full-disk shortcuts.** A policy with full-disk read access resolves every absolute path to
a readable access; one with full-disk write access resolves every absolute path to write exactly
when a write entry resolves to `/tmp` wherever a read entry does. -/
theorem fullDiskAccess_sound_iff (hcwd : isAbsolute cwd = true) :
    (P.hasFullDiskReadAccess = true → ∀ path, isAbsolute path = true →
      (P.resolveAccessWithCwd env path cwd).canRead = true) ∧
    (P.hasFullDiskWriteAccess = true →
      ((∀ path, isAbsolute path = true → P.resolveAccessWithCwd env path cwd = .write) ↔
        TmpOverridden env P cwd)) := by
  constructor
  · intro hfull path habs
    rw [resolveAccess_normalizePath env P cwd habs]
    exact canRead_of_fullDiskRead hcwd hfull _
  · intro hfull
    rw [← not_tmpReadOnly_iff hcwd hfull]
    constructor
    · intro hall p
      rw [← canWrite_iff_of_fullDiskWrite hcwd hfull, canWrite_iff_resolves_of_fullDiskWrite hfull]
      exact hall (asPath p) rfl
    · intro hnone path habs
      rw [resolveAccess_normalizePath env P cwd habs,
        ← canWrite_iff_resolves_of_fullDiskWrite hfull, canWrite_iff_of_fullDiskWrite hcwd hfull]
      exact hnone _

/-- The whole disk writable, `/tmp` readable, and the special `/tmp` writable. -/
def tmpWritablePolicy : FileSystemSandboxPolicy :=
  .ofEntries [⟨.special .root, .write⟩, ⟨.path slashTmpPath, .read⟩, ⟨.special .slashTmp, .write⟩]

/-- Where `/tmp` is no directory, its write entry resolves to nothing: the policy has full-disk
write access, and `/tmp` resolves to read. -/
theorem fullDiskWrite_unsound_without_tmp :
    tmpWritablePolicy.hasFullDiskWriteAccess = true ∧
      tmpWritablePolicy.resolveAccessWithCwd emptyEnvironment (asPath slashTmpPath) (asPath []) =
        .read ∧
      ¬ ∀ path, isAbsolute path = true →
        tmpWritablePolicy.resolveAccessWithCwd emptyEnvironment path (asPath []) = .write := by
  refine ⟨by decide, by decide, fun h => ?_⟩
  cases h (asPath slashTmpPath) rfl

/-- The shortcuts for that policy at the root, on a disk without `/tmp`. -/
theorem fullDiskAccess_sound_iff_tmpWritable :
    (tmpWritablePolicy.hasFullDiskReadAccess = true → ∀ path, isAbsolute path = true →
      (tmpWritablePolicy.resolveAccessWithCwd emptyEnvironment path (asPath [])).canRead = true) ∧
    (tmpWritablePolicy.hasFullDiskWriteAccess = true → ((∀ path, isAbsolute path = true →
        tmpWritablePolicy.resolveAccessWithCwd emptyEnvironment path (asPath []) = .write) ↔
        TmpOverridden emptyEnvironment tmpWritablePolicy (asPath []))) :=
  fullDiskAccess_sound_iff rfl

end Codex.Permissions
