import Codex.Permissions.WritableRoots
import Mathlib.Data.Char
import Mathlib.Data.List.Destutter
import Mathlib.Data.List.Lex
import Mathlib.Data.List.Sort

/-!
# Readable and unreadable roots

`get_readable_roots_with_cwd`, `get_unreadable_roots_with_cwd` and `get_unreadable_globs_with_cwd`:
what a policy lets be read, as the roots below which it does, the roots below which it does not,
and the patterns it denies.
-/

namespace Codex.Permissions

open Codex.Lib

namespace FileSystemSandboxPolicy

variable (policy : FileSystemSandboxPolicy)

def hasDeniedReadRestrictions : Bool :=
  policy.kind = .restricted && policy.entries.any fun entry => entry.access = .deny

def hasFullDiskReadAccess : Bool :=
  match policy.kind with
  | .unrestricted => true
  | .externalSandbox => true
  | .restricted =>
    policy.hasRootAccess FileSystemAccessMode.canRead && !policy.hasDeniedReadRestrictions

def includePlatformDefaults : Bool :=
  !policy.hasFullDiskReadAccess && decide (policy.kind = .restricted) &&
    policy.entries.any fun entry => entry.path = .special .minimal && entry.access.canRead

variable (env : Environment)

def getReadableRootsWithCwd (policy : FileSystemSandboxPolicy)
    (cwd : PathBuf) : List AbsolutePathBuf :=
  if policy.hasFullDiskReadAccess then []
  else
    dedupAbsolutePaths env
      (((policy.resolvedEntriesWithCwd env cwd).filter fun entry =>
        entry.access.canRead && policy.canReadPathWithCwd env (asPath entry.path) cwd).map (·.path))
      true

def getUnreadableRootsWithCwd (policy : FileSystemSandboxPolicy)
    (cwd : PathBuf) : List AbsolutePathBuf :=
  if policy.kind = .restricted then
    let root := (fromAbsolutePath env cwd).map absoluteRootPathForCwd
    dedupAbsolutePaths env
      (((policy.resolvedEntriesWithCwd env cwd).filter fun entry =>
        decide (entry.access = .deny) &&
          !policy.canReadPathWithCwd env (asPath entry.path) cwd &&
            decide (root ≠ some entry.path)).map (·.path))
      true
  else []

def getUnreadableGlobsWithCwd (policy : FileSystemSandboxPolicy) (cwd : PathBuf) : List Text :=
  if policy.kind = .restricted then
    let patterns := policy.entries.filterMap fun entry =>
      match entry.access, entry.path with
      | .deny, .globPattern pattern =>
        some (toStringLossy (resolvePathAgainstBase env (components pattern) cwd))
      | _, _ => none
    (patterns.insertionSort (· ≤ ·)).destutter (· ≠ ·)
  else []

end FileSystemSandboxPolicy

/-! ### The roots of canonical entries -/

variable {env : Environment} {P : FileSystemSandboxPolicy} {cwd : PathBuf}
  {p path : AbsolutePathBuf} {entries : List ResolvedFileSystemEntry}
  {e : ResolvedFileSystemEntry}

lemma canRead_asPath (hkind : P.kind = .restricted) (p : AbsolutePathBuf) :
    P.canReadPathWithCwd env (asPath p) cwd = true ↔
      accessAt (P.resolvedEntriesWithCwd env cwd) p ≠ .deny := by
  unfold FileSystemSandboxPolicy.canReadPathWithCwd
  rw [resolveAccessWithCwd_eq hkind (resolveCandidatePath_asPath env p cwd)]
  cases accessAt (P.resolvedEntriesWithCwd env cwd) p <;> simp [FileSystemAccessMode.canRead]

lemma accessAt_of_deny (he : e ∈ entries) (hdeny : e.access = .deny) :
    accessAt entries e.path = .deny := by
  obtain ⟨g, hg, haccess⟩ | ⟨-, h⟩ := accessAt_spec entries e.path
  · have hle := hg.access_le he (governs_path_eq he hg).symm
    rw [haccess]
    rw [hdeny] at hle
    cases hga : g.access with
    | deny => rfl
    | read => cases hga ▸ hle
    | write => exact absurd (hga ▸ hle) (by decide)
  · exact h

lemma mem_readableRoots_iff (hcanon : CanonicalEntries env P cwd) (hkind : P.kind = .restricted)
    (hfull : P.hasFullDiskReadAccess = false) :
    path ∈ P.getReadableRootsWithCwd env cwd ↔
      ∃ e ∈ P.resolvedEntriesWithCwd env cwd, e.access ≠ .deny ∧
        accessAt (P.resolvedEntriesWithCwd env cwd) e.path ≠ .deny ∧ e.path = path := by
  have hread : ∀ a : FileSystemAccessMode, a.canRead = true ↔ a ≠ .deny := by
    intro a
    cases a <;> simp [FileSystemAccessMode.canRead]
  unfold FileSystemSandboxPolicy.getReadableRootsWithCwd
  rw [hfull, if_neg Bool.false_ne_true, mem_dedupAbsolutePaths]
  · simp [canRead_asPath hkind, hread, and_assoc]
  · intro _ path hpath
    obtain ⟨e, he, rfl⟩ := List.mem_map.mp hpath
    exact hcanon e (List.mem_filter.mp he).1

/-- The unreadable roots are where the deny entries stand, but for the root, with links resolved. -/
theorem mem_unreadableRoots_normalized_iff (hkind : P.kind = .restricted) :
    path ∈ P.getUnreadableRootsWithCwd env cwd ↔
      ∃ e ∈ P.resolvedEntriesWithCwd env cwd, e.access = .deny ∧
        (fromAbsolutePath env cwd).map absoluteRootPathForCwd ≠ some e.path ∧
          normalizeEffectiveAbsolutePath env e.path = path := by
  unfold FileSystemSandboxPolicy.getUnreadableRootsWithCwd
  rw [if_pos hkind, mem_dedupAbsolutePaths_iff]
  simp only [if_true]
  constructor
  · rintro ⟨q, hq, hpath⟩
    obtain ⟨e, he, rfl⟩ := List.mem_map.mp hq
    simp only [List.mem_filter, Bool.and_eq_true, decide_eq_true_iff] at he
    exact ⟨e, he.1, he.2.1.1, he.2.2, hpath⟩
  · rintro ⟨e, he, hdeny, hroot, hpath⟩
    refine ⟨e.path, List.mem_map.mpr ⟨e, List.mem_filter.mpr ⟨he, ?_⟩, rfl⟩, hpath⟩
    have hdenied : P.canReadPathWithCwd env (asPath e.path) cwd = false := by
      rw [← Bool.not_eq_true, canRead_asPath hkind, not_not]
      exact accessAt_of_deny he hdeny
    rw [hdenied, decide_eq_true hdeny, decide_eq_true hroot]
    rfl

lemma mem_unreadableRoots_iff (hcanon : CanonicalEntries env P cwd) (hkind : P.kind = .restricted) :
    path ∈ P.getUnreadableRootsWithCwd env cwd ↔
      ∃ e ∈ P.resolvedEntriesWithCwd env cwd, e.access = .deny ∧
        (fromAbsolutePath env cwd).map absoluteRootPathForCwd ≠ some e.path ∧ e.path = path := by
  rw [mem_unreadableRoots_normalized_iff hkind]
  refine exists_congr fun e => and_congr_right fun he => ?_
  rw [hcanon e he]

variable (hcwd : isAbsolute cwd = true)
include hcwd

lemma mem_resolvedEntries_of_root {entry : FileSystemSandboxEntry}
    (hentry : entry ∈ P.entries) (hroot : entry.path = .special .root) :
    ⟨[], entry.access⟩ ∈ P.resolvedEntriesWithCwd env cwd := by
  refine List.mem_filterMap.mpr ⟨entry, hentry, ?_⟩
  rw [resolveEntry, hroot, fromAbsolutePath_of_isAbsolute env hcwd]
  rfl

lemma accessAt_ne_deny_of_fullDiskRead
    (hkind : P.kind = .restricted) (hfull : P.hasFullDiskReadAccess = true) (p : AbsolutePathBuf) :
    accessAt (P.resolvedEntriesWithCwd env cwd) p ≠ .deny := by
  simp only [FileSystemSandboxPolicy.hasFullDiskReadAccess, hkind, Bool.and_eq_true,
    Bool.not_eq_true', FileSystemSandboxPolicy.hasRootAccess, decide_true, Bool.true_and,
    List.any_eq_true, decide_eq_true_iff] at hfull
  obtain ⟨⟨entry, hentry, hroot, -⟩, hdenied⟩ := hfull
  have hnodeny : ∀ e ∈ P.resolvedEntriesWithCwd env cwd, e.access ≠ .deny := by
    intro e he hdeny
    obtain ⟨source, hsource, hres⟩ := List.mem_filterMap.mp he
    obtain ⟨q, -, rfl⟩ := Option.map_eq_some_iff.mp hres
    have hany : P.hasDeniedReadRestrictions = true := by
      rw [FileSystemSandboxPolicy.hasDeniedReadRestrictions, Bool.and_eq_true]
      exact ⟨decide_eq_true hkind, List.any_eq_true.mpr ⟨source, hsource, decide_eq_true hdeny⟩⟩
    simp [hdenied] at hany
  have hmem : ⟨[], entry.access⟩ ∈ P.resolvedEntriesWithCwd env cwd :=
    mem_resolvedEntries_of_root hcwd hentry hroot
  obtain ⟨g, hg, haccess⟩ | ⟨hnone, -⟩ := accessAt_spec (P.resolvedEntriesWithCwd env cwd) p
  · rw [haccess]
    exact hnodeny g hg.1
  · exact absurd List.nil_prefix (hnone _ hmem)

/-- Under full-disk read access every path can be read. -/
theorem canRead_of_fullDiskRead (hfull : P.hasFullDiskReadAccess = true) (p : AbsolutePathBuf) :
    P.canReadPathWithCwd env (asPath p) cwd = true := by
  cases hkind : P.kind with
  | restricted =>
    rw [canRead_asPath hkind]
    exact accessAt_ne_deny_of_fullDiskRead hcwd hkind hfull p
  | unrestricted =>
    simp [FileSystemSandboxPolicy.canReadPathWithCwd,
      FileSystemSandboxPolicy.resolveAccessWithCwd, hkind, FileSystemAccessMode.canRead]
  | externalSandbox =>
    simp [FileSystemSandboxPolicy.canReadPathWithCwd,
      FileSystemSandboxPolicy.resolveAccessWithCwd, hkind, FileSystemAccessMode.canRead]

end Codex.Permissions
