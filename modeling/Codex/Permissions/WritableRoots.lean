import Codex.Permissions.Policy

/-!
# Writable roots

`get_writable_roots_with_cwd` and `WritableRoot::is_path_writable`: what the operating system's
sandbox is told. A root is a writable entry, with the subpaths that stay read-only and the metadata
names that must not be created under it; a path is writable when one of the roots allows it.

On a disk without symbolic links and without gitdir pointer files, a root `r` allows `p` when every
entry from `r` down to `p` gives write access and no metadata directory of `r` holds `p` closed
(`rootAllows_iff`). `writableRoots_agree_iff` says exactly when that agrees with
`can_write_path_with_cwd`.
-/

namespace Codex.Permissions

open Codex.Lib

/-! ### The roots -/

structure WritableRoot where
  root : AbsolutePathBuf
  readOnlySubpaths : List AbsolutePathBuf
  protectedMetadataNames : List Text
  deriving DecidableEq

namespace WritableRoot

variable (writableRoot : WritableRoot)

def pathContainsProtectedMetadataName (path : PathBuf) : Bool :=
  if asPath writableRoot.root <+: path then
    match (path.drop (asPath writableRoot.root).length).head? with
    | none => false
    | some firstComponent =>
      writableRoot.protectedMetadataNames.any fun name => firstComponent = .normal name
  else false

def isPathWritable (path : PathBuf) : Bool :=
  if !decide (asPath writableRoot.root <+: path) then false
  else if writableRoot.readOnlySubpaths.any fun subpath => asPath subpath <+: path then false
  else if writableRoot.pathContainsProtectedMetadataName path then false
  else true

end WritableRoot

variable (env : Environment)

def normalizeEffectiveAbsolutePath (path : AbsolutePathBuf) : AbsolutePathBuf :=
  (path.inits.reverse.findSome? fun ancestor =>
    if env.exists? ancestor then
      some (env.canonicalizePreservingSymlinks ancestor ++ path.drop ancestor.length)
    else none).getD path

/-- `dedup_absolute_paths`, the set `seen` being the paths kept so far -/
def dedupAbsolutePaths (paths : List AbsolutePathBuf)
    (normalizeEffectivePaths : Bool) : List AbsolutePathBuf :=
  paths.foldl (fun deduped path =>
    let dedupPath :=
      if normalizeEffectivePaths then normalizeEffectiveAbsolutePath env path else path
    if dedupPath ∈ deduped then deduped else deduped ++ [dedupPath]) []

def defaultReadOnlySubpathsForWritableRoot (writableRoot : AbsolutePathBuf)
    (protectMissingDotCodex : Bool) : List AbsolutePathBuf :=
  let topLevelGit := join writableRoot ".git".toList
  let git :=
    if env.isDir topLevelGit || env.isFile topLevelGit then
      (if env.isFile topLevelGit then (env.resolveGitdirFromFile topLevelGit).toList else []) ++
        [topLevelGit]
    else []
  let topLevelAgents := join writableRoot ".agents".toList
  let agents := if env.isDir topLevelAgents then [topLevelAgents] else []
  let topLevelCodex := join writableRoot ".codex".toList
  let codex := if protectMissingDotCodex || env.isDir topLevelCodex then [topLevelCodex] else []
  dedupAbsolutePaths env (git ++ agents ++ codex) false

def hasExplicitResolvedPathEntry (entries : List ResolvedFileSystemEntry)
    (path : AbsolutePathBuf) : Bool :=
  entries.any fun entry => entry.path = path

/-- `protect_missing_dot_codex` in `get_writable_roots_with_cwd` -/
def protectMissingDotCodex (root : AbsolutePathBuf) (cwd : PathBuf) : Bool :=
  match fromAbsolutePath env cwd with
  | some cwd => normalizeEffectiveAbsolutePath env cwd = root
  | none => false

/-- The closure that gives the carveout of an entry under a root -/
def carveoutPath (root : AbsolutePathBuf)
    (rawWritableRoots : List AbsolutePathBuf) (entry : ResolvedFileSystemEntry) :
    Option AbsolutePathBuf :=
  let effectivePath := normalizeEffectiveAbsolutePath env entry.path
  let rawCarveoutPath :=
    -- the filesystem root has no parent
    if root ≠ [] then
      if entry.path = root then none
      else if root <+: entry.path then some entry.path
      else rawWritableRoots.findSome? fun rawRoot =>
        if rawRoot <+: entry.path ∧ entry.path.drop rawRoot.length ≠ [] then
          some (root ++ entry.path.drop rawRoot.length)
        else none
    else none
  match rawCarveoutPath with
  | some rawCarveoutPath => some rawCarveoutPath
  | none =>
    if effectivePath = root ∨ ¬ root <+: effectivePath then none else some effectivePath

namespace FileSystemSandboxPolicy

variable (env : Environment) (policy : FileSystemSandboxPolicy)

def protectedMetadataNamesForWritableRoot
    (root : AbsolutePathBuf) (rawWritableRoots : List AbsolutePathBuf) (cwd : PathBuf) :
    List Text :=
  protectedMetadataPathNames.filter fun metadataName =>
    (join root metadataName :: rawWritableRoots.map (join · metadataName)).all fun metadataPath =>
      !policy.canWritePathWithCwd env (asPath metadataPath) cwd

variable (cwd : PathBuf)

/-- `writable_entries` in `get_writable_roots_with_cwd` -/
def writableEntries : List AbsolutePathBuf :=
  ((policy.resolvedEntriesWithCwd env cwd).filter fun entry =>
    entry.access.canWrite && policy.canWritePathWithCwd env (asPath entry.path) cwd).map (·.path)

/-- The closure that builds a `WritableRoot` in `get_writable_roots_with_cwd` -/
def writableRootAt (root : AbsolutePathBuf) : WritableRoot :=
  let resolvedEntries := policy.resolvedEntriesWithCwd env cwd
  let rawWritableRoots := (policy.writableEntries env cwd).filter fun path =>
    normalizeEffectiveAbsolutePath env path = root
  let defaultSubpaths :=
    (defaultReadOnlySubpathsForWritableRoot env root (protectMissingDotCodex env root cwd)).filter
      fun path => !hasExplicitResolvedPathEntry resolvedEntries path
  let carveouts := (resolvedEntries.filter fun entry =>
    !entry.access.canWrite &&
      !policy.canWritePathWithCwd env (asPath entry.path) cwd).filterMap
        (carveoutPath env root rawWritableRoots)
  { root := root
    readOnlySubpaths := dedupAbsolutePaths env (defaultSubpaths ++ carveouts) false
    protectedMetadataNames :=
      policy.protectedMetadataNamesForWritableRoot env root rawWritableRoots cwd }

def getWritableRootsWithCwd : List WritableRoot :=
  if policy.hasFullDiskWriteAccess then []
  else
    (dedupAbsolutePaths env (policy.writableEntries env cwd) true).map
      (policy.writableRootAt env cwd)

end FileSystemSandboxPolicy

/-! ### A disk without links -/

/-- No symbolic links, so that canonicalising a normalised path gives it back, and no gitdir pointer
files. -/
structure PlainDisk (env : Environment) : Prop where
  canonicalize : ∀ path, env.canonicalizePreservingSymlinks path = path
  gitdir : ∀ path, env.resolveGitdirFromFile path = none

variable {env : Environment}

lemma normalizeEffectiveAbsolutePath_eq
    (hlinks : ∀ path, env.canonicalizePreservingSymlinks path = path) (path : AbsolutePathBuf) :
    normalizeEffectiveAbsolutePath env path = path := by
  unfold normalizeEffectiveAbsolutePath
  cases hfind : path.inits.reverse.findSome? (fun ancestor =>
    if env.exists? ancestor then
      some (env.canonicalizePreservingSymlinks ancestor ++ path.drop ancestor.length)
    else none) with
  | none => rfl
  | some found =>
    obtain ⟨ancestor, hmem, hfound⟩ := List.exists_of_findSome?_eq_some hfind
    have hprefix : ancestor <+: path := by simpa using hmem
    obtain ⟨rest, rfl⟩ := hprefix
    split at hfound
    · rw [hlinks, List.drop_left] at hfound
      simpa using (Option.some_inj.mp hfound).symm
    · simp at hfound

variable {paths : List AbsolutePathBuf}

/-- The deduplicated paths are the paths under the spelling they are compared in. -/
theorem mem_dedupAbsolutePaths_iff {normalize : Bool} {path : AbsolutePathBuf} :
    path ∈ dedupAbsolutePaths env paths normalize ↔
      ∃ q ∈ paths, (if normalize then normalizeEffectiveAbsolutePath env q else q) = path := by
  unfold dedupAbsolutePaths
  have hfold : ∀ kept : List AbsolutePathBuf, path ∈ paths.foldl (fun deduped path =>
      let dedupPath := if normalize then normalizeEffectiveAbsolutePath env path else path
      if dedupPath ∈ deduped then deduped else deduped ++ [dedupPath]) kept ↔ path ∈ kept ∨
          ∃ q ∈ paths, (if normalize then normalizeEffectiveAbsolutePath env q else q) = path := by
    intro kept
    induction paths generalizing kept with
    | nil => simp
    | cons x paths ih =>
      rw [List.foldl_cons, ih, List.exists_mem_cons_iff]
      generalize (if normalize then normalizeEffectiveAbsolutePath env x else x) = dedupPath
      by_cases hmem : dedupPath ∈ kept
      · rw [if_pos hmem]
        constructor
        · exact Or.imp_right Or.inr
        · rintro (h | rfl | h)
          · exact .inl h
          · exact .inl hmem
          · exact .inr h
      · rw [if_neg hmem, List.mem_append, List.mem_singleton, or_assoc, eq_comm]
  simpa using hfold []

lemma mem_dedupAbsolutePaths {normalize : Bool}
    (hnorm : normalize = true → ∀ path ∈ paths, normalizeEffectiveAbsolutePath env path = path)
    {path : AbsolutePathBuf} :
    path ∈ dedupAbsolutePaths env paths normalize ↔ path ∈ paths := by
  have hsame : ∀ q ∈ paths,
      (if normalize then normalizeEffectiveAbsolutePath env q else q) = q := by
    intro q hq
    split
    · exact hnorm ‹_› q hq
    · rfl
  rw [mem_dedupAbsolutePaths_iff]
  constructor
  · rintro ⟨q, hq, rfl⟩
    rwa [hsame q hq]
  · exact fun h => ⟨path, h, hsame path h⟩

variable {root path : AbsolutePathBuf}

/-- The default read-only subpaths are metadata directories of the root, and what its `.git` points
to. -/
theorem mem_defaultReadOnlySubpaths {protectMissing : Bool}
    (h : path ∈ defaultReadOnlySubpathsForWritableRoot env root protectMissing) :
    (∃ name ∈ protectedMetadataPathNames, path = join root name) ∨
      env.isFile (join root ".git".toList) = true ∧
        env.resolveGitdirFromFile (join root ".git".toList) = some path := by
  unfold defaultReadOnlySubpathsForWritableRoot at h
  rw [mem_dedupAbsolutePaths fun h => absurd h Bool.false_ne_true] at h
  simp only [List.mem_append] at h
  have hmem : ∀ (b : Bool) (q : AbsolutePathBuf), path ∈ (if b then [q] else []) → path = q := by
    intro b q hq
    cases b with
    | false => simp at hq
    | true => simpa using hq
  rcases h with (h | h) | h
  · split at h
    · rcases List.mem_append.mp h with h | h
      · split at h
        · exact .inr ⟨‹_›, by simpa using h⟩
        · simp at h
      · exact .inl ⟨_, by simp [protectedMetadataPathNames], List.mem_singleton.mp h⟩
    · simp at h
  · exact .inl ⟨_, by simp [protectedMetadataPathNames], hmem _ _ h⟩
  · exact .inl ⟨_, by simp [protectedMetadataPathNames], hmem _ _ h⟩

lemma asPath_prefix_iff {path path' : AbsolutePathBuf} :
    asPath path <+: asPath path' ↔ path <+: path' := by
  have hinj : Function.Injective Component.normal := fun a b h => Component.normal.inj h
  unfold asPath
  rw [List.cons_prefix_cons]
  constructor
  · rintro ⟨-, rest, hrest⟩
    obtain ⟨l₁, l₂, rfl, h₁, h₂⟩ := List.map_eq_append_iff.mp hrest.symm
    rw [hinj.list_map h₁]
    exact List.prefix_append _ _
  · intro h
    exact ⟨rfl, h.map _⟩

/-- The carveouts of a root are the paths strictly below it. -/
theorem carveoutPath_eq_some_iff {raws : List AbsolutePathBuf} (hraws : ∀ raw ∈ raws, raw = root)
    {entry : ResolvedFileSystemEntry}
    (hnorm : normalizeEffectiveAbsolutePath env entry.path = entry.path) :
    carveoutPath env root raws entry = some path ↔
      root <+: entry.path ∧ entry.path ≠ root ∧ path = entry.path := by
  have hnoraw : ¬ root <+: entry.path → raws.findSome? (fun rawRoot =>
      if rawRoot <+: entry.path ∧ entry.path.drop rawRoot.length ≠ [] then
        some (root ++ entry.path.drop rawRoot.length)
      else none) = none := by
    intro hnot
    rw [List.findSome?_eq_none_iff]
    intro raw hraw
    rw [hraws raw hraw, if_neg fun h => hnot h.1]
  unfold carveoutPath
  rw [hnorm]
  by_cases hbelow : root <+: entry.path
  · by_cases heq : entry.path = root
    · simp [heq]
    · by_cases hroot : root = []
      · simp [hroot, hroot ▸ heq, eq_comm]
      · simp [hroot, heq, hbelow, eq_comm]
  · have hne : entry.path ≠ root := fun h => hbelow (h ▸ List.prefix_refl _)
    simp only [if_neg hne, if_neg hbelow, hnoraw hbelow, ite_self]
    simp [hbelow]

/-! ### What a root allows -/

/-- Every entry of the policy is spelled by the path it amounts to: none goes through an alias. -/
def CanonicalEntries (env : Environment) (policy : FileSystemSandboxPolicy)
    (cwd : PathBuf) : Prop :=
  ∀ e ∈ policy.resolvedEntriesWithCwd env cwd, normalizeEffectiveAbsolutePath env e.path = e.path

section roots

variable {policy : FileSystemSandboxPolicy} {cwd : PathBuf} {p : AbsolutePathBuf}
  {entries : List ResolvedFileSystemEntry} {g e r : ResolvedFileSystemEntry}

lemma PlainDisk.canonicalEntries (henv : PlainDisk env) : CanonicalEntries env policy cwd :=
  fun _ _ => normalizeEffectiveAbsolutePath_eq henv.canonicalize _

lemma canWrite_asPath (hkind : policy.kind = .restricted)
    (hfull : policy.hasFullDiskWriteAccess = false) (p : AbsolutePathBuf) :
    policy.canWritePathWithCwd env (asPath p) cwd = true ↔
      accessAt (policy.resolvedEntriesWithCwd env cwd) p = .write ∧
        metadataOpen (policy.resolvedEntriesWithCwd env cwd) p = true := by
  rw [canWritePathWithCwd_eq hkind (resolveCandidatePath_asPath env p cwd), hfull]
  simp

/-- A metadata directory that the policy looks at is open when a write entry stands in it on the way
to the target. -/
theorem metadataOpen_of_head
    (h : ∀ m, (metadataChildren entries p).head? = some m →
      hasExplicitWriteEntry entries m.1 p = true) : metadataOpen entries p = true := by
  unfold metadataOpen
  cases hhead : (metadataChildren entries p).head? with
  | none => rfl
  | some m => exact h m hhead

/-- Unless the target lies in a metadata directory of the governing write entry itself, that entry
opens whatever metadata directory is looked at. -/
theorem metadataOpen_of_governs (hg : EntryGoverns entries p g) (hwrite : g.access = .write)
    (hout : ∀ name ∈ protectedMetadataPathNames, ¬ join g.path name <+: p) :
    metadataOpen entries p = true := by
  apply metadataOpen_of_head
  intro m hm
  obtain ⟨e, he, -, name, hname, hpath, rfl⟩ :=
    mem_metadataChildren_iff.mp (List.mem_of_mem_head? hm)
  have hep : e.path <+: p := (List.prefix_append _ _).trans hpath
  have hne : e.path.length ≠ g.path.length := by
    intro hlen
    have heq : e.path = g.path := (hg.path_prefix he hep).eq_of_length hlen
    exact hout name hname (heq ▸ hpath)
  have hlen : (join e.path name).length ≤ g.path.length := by
    have hle := hg.length_le he hep
    have hjoin : (join e.path name).length = e.path.length + 1 := by simp [join]
    omega
  exact hasExplicitWriteEntry_eq_true_iff.mpr
    ⟨g, hg.1, hwrite, hg.2.1, List.prefix_of_prefix_length_le hpath hg.2.1 hlen⟩

/-- The governing entry of an entry's own path stands at that path. -/
theorem governs_path_eq (he : e ∈ entries) (hg : EntryGoverns entries e.path g) : g.path = e.path :=
  hg.2.1.eq_of_length (le_antisymm hg.2.1.length_le (hg.length_le he (List.prefix_refl _)))

/-- At the path of an entry only the access decides. -/
theorem canWrite_entry_iff (hkind : policy.kind = .restricted)
    (hfull : policy.hasFullDiskWriteAccess = false)
    (he : e ∈ policy.resolvedEntriesWithCwd env cwd) :
    policy.canWritePathWithCwd env (asPath e.path) cwd = true ↔
      accessAt (policy.resolvedEntriesWithCwd env cwd) e.path = .write := by
  rw [canWrite_asPath hkind hfull]
  refine ⟨fun h => h.1, fun h => ⟨h, ?_⟩⟩
  obtain ⟨g, hg, hwrite⟩ := accessAt_eq_write_iff.mp h
  refine metadataOpen_of_governs hg hwrite fun name _ hpath => ?_
  have hlen := hpath.length_le
  rw [governs_path_eq he hg, join, List.length_append, List.length_singleton] at hlen
  omega

/-- `r` allows `p`: every entry from `r` down to `p` gives write access, and a metadata directory of
`r` that holds `p` is open and, where it is read-only by default, has an entry of its own. -/
def RootAllows (env : Environment) (entries : List ResolvedFileSystemEntry) (cwd : PathBuf)
    (r p : AbsolutePathBuf) : Prop :=
  r <+: p ∧
  (∀ e ∈ entries, r <+: e.path → e.path <+: p → accessAt entries e.path = .write) ∧
  ∀ name ∈ protectedMetadataPathNames, join r name <+: p →
    metadataOpen entries (join r name) = true ∧ (join r name ∈
          defaultReadOnlySubpathsForWritableRoot env r (protectMissingDotCodex env r cwd) →
        ∃ e ∈ entries, e.path = join r name)

lemma mem_writableEntries_iff (hkind : policy.kind = .restricted)
    (hfull : policy.hasFullDiskWriteAccess = false) {root : AbsolutePathBuf} :
    root ∈ policy.writableEntries env cwd ↔
      ∃ r ∈ policy.resolvedEntriesWithCwd env cwd, r.access = .write ∧
        accessAt (policy.resolvedEntriesWithCwd env cwd) r.path = .write ∧ r.path = root := by
  unfold FileSystemSandboxPolicy.writableEntries
  rw [List.mem_map]
  constructor
  · rintro ⟨r, hr, rfl⟩
    obtain ⟨hmem, hcan⟩ := List.mem_filter.mp hr
    rw [Bool.and_eq_true, FileSystemAccessMode.canWrite_eq_true_iff,
      canWrite_entry_iff hkind hfull hmem] at hcan
    exact ⟨r, hmem, hcan.1, hcan.2, rfl⟩
  · rintro ⟨r, hmem, hwrite, haccess, rfl⟩
    refine ⟨r, List.mem_filter.mpr ⟨hmem, ?_⟩, rfl⟩
    rw [Bool.and_eq_true, FileSystemAccessMode.canWrite_eq_true_iff,
      canWrite_entry_iff hkind hfull hmem]
    exact ⟨hwrite, haccess⟩

variable (hcanon : CanonicalEntries env policy cwd)
include hcanon

variable (hkind : policy.kind = .restricted)
include hkind

variable (hfull : policy.hasFullDiskWriteAccess = false)
include hfull

lemma raw_eq_root {root raw : AbsolutePathBuf}
    (hraw : raw ∈ (policy.writableEntries env cwd).filter fun path =>
      normalizeEffectiveAbsolutePath env path = root) : raw = root := by
  obtain ⟨hmem, heq⟩ := List.mem_filter.mp hraw
  obtain ⟨r, hr, -, -, rfl⟩ := (mem_writableEntries_iff hkind hfull).mp hmem
  rw [← hcanon r hr]
  exact of_decide_eq_true heq

lemma mem_readOnlySubpaths_iff

    {root s : AbsolutePathBuf} :
    s ∈ (policy.writableRootAt env cwd root).readOnlySubpaths ↔
      (s ∈ defaultReadOnlySubpathsForWritableRoot env root (protectMissingDotCodex env root cwd) ∧
        ∀ e ∈ policy.resolvedEntriesWithCwd env cwd, e.path ≠ s) ∨
      ∃ e ∈ policy.resolvedEntriesWithCwd env cwd, e.access ≠ .write ∧
        accessAt (policy.resolvedEntriesWithCwd env cwd) e.path ≠ .write ∧
        root <+: e.path ∧ e.path ≠ root ∧ s = e.path := by
  have hraws : ∀ raw ∈ (policy.writableEntries env cwd).filter fun path =>
      normalizeEffectiveAbsolutePath env path = root, raw = root :=
    fun raw hraw => raw_eq_root hcanon hkind hfull hraw
  unfold FileSystemSandboxPolicy.writableRootAt
  simp only
  rw [mem_dedupAbsolutePaths fun h => absurd h Bool.false_ne_true, List.mem_append]
  refine or_congr ?_ ?_
  · rw [List.mem_filter]
    simp [hasExplicitResolvedPathEntry]
  · simp only [List.mem_filterMap, List.mem_filter]
    constructor
    · rintro ⟨e, ⟨he, hnot⟩, hrest⟩
      rw [carveoutPath_eq_some_iff hraws (hcanon e he)] at hrest
      rw [Bool.and_eq_true, Bool.not_eq_true', Bool.not_eq_true', ← Bool.not_eq_true,
        ← Bool.not_eq_true, FileSystemAccessMode.canWrite_eq_true_iff,
        canWrite_entry_iff hkind hfull he] at hnot
      exact ⟨e, he, hnot.1, hnot.2, hrest⟩
    · rintro ⟨e, he, hnw, hacc, hrest⟩
      refine ⟨e, ⟨he, ?_⟩, (carveoutPath_eq_some_iff hraws (hcanon e he)).mpr hrest⟩
      rw [Bool.and_eq_true, Bool.not_eq_true', Bool.not_eq_true', ← Bool.not_eq_true,
        ← Bool.not_eq_true, FileSystemAccessMode.canWrite_eq_true_iff,
        canWrite_entry_iff hkind hfull he]
      exact ⟨hnw, hacc⟩

lemma mem_protectedMetadataNames_iff

    {root : AbsolutePathBuf} {name : Text} :
    name ∈ (policy.writableRootAt env cwd root).protectedMetadataNames ↔
      name ∈ protectedMetadataPathNames ∧
        policy.canWritePathWithCwd env (asPath (join root name)) cwd = false := by
  unfold FileSystemSandboxPolicy.writableRootAt
    FileSystemSandboxPolicy.protectedMetadataNamesForWritableRoot
  simp only [List.mem_filter, List.all_cons, List.all_map, Bool.and_eq_true, Bool.not_eq_true']
  refine and_congr_right fun _ => and_iff_left_of_imp fun hroot => ?_
  rw [List.all_eq_true]
  intro raw hraw
  simp [raw_eq_root hcanon hkind hfull hraw, hroot]

omit hfull

omit hkind

omit hcanon

lemma isPathWritable_asPath_iff {w : WritableRoot} :
    w.isPathWritable (asPath p) = true ↔ w.root <+: p ∧ (∀ s ∈ w.readOnlySubpaths, ¬ s <+: p) ∧
        ∀ name ∈ w.protectedMetadataNames, ¬ join w.root name <+: p := by
  have hname : w.root <+: p → (w.pathContainsProtectedMetadataName (asPath p) = true ↔
      ∃ name ∈ w.protectedMetadataNames, join w.root name <+: p) := by
    rintro ⟨rest, rfl⟩
    have hbelow : asPath w.root <+: asPath (w.root ++ rest) :=
      asPath_prefix_iff.mpr (List.prefix_append _ _)
    have hdrop : (asPath (w.root ++ rest)).drop (asPath w.root).length = rest.map .normal := by
      simp [asPath]
    unfold WritableRoot.pathContainsProtectedMetadataName
    rw [if_pos hbelow, hdrop]
    cases rest with
    | nil =>
      have hlong : ∀ name, ¬ join w.root name <+: w.root := by
        intro name hpath
        have hlen := hpath.length_le
        rw [join, List.length_append, List.length_singleton] at hlen
        omega
      simp [hlong]
    | cons first rest =>
      have hiff : ∀ name, join w.root name <+: w.root ++ first :: rest ↔ first = name := by
        intro name
        rw [join, List.prefix_append_right_inj, List.cons_prefix_cons]
        simp [eq_comm]
      simp [hiff]
  unfold WritableRoot.isPathWritable
  by_cases hroot : w.root <+: p
  · have hiff := hname hroot
    by_cases hsub : ∃ s ∈ w.readOnlySubpaths, s <+: p
    · simp [asPath_prefix_iff, hroot, hsub]
    · by_cases hmeta : ∃ name ∈ w.protectedMetadataNames, join w.root name <+: p
      · simp [asPath_prefix_iff, hroot, hsub, hiff.mpr hmeta, hmeta]
      · have hfalse : w.pathContainsProtectedMetadataName (asPath p) = false := by
          rw [← Bool.not_eq_true, hiff]
          exact hmeta
        push Not at hsub hmeta
        simp only [asPath_prefix_iff, hroot, hfalse]
        simpa using fun _ => hmeta
  · simp [asPath_prefix_iff, hroot]

/-- Where every entry from `r` down to a path gives write access, so does the path. -/
theorem accessAt_of_between {q : AbsolutePathBuf} (hr : r ∈ entries) (hrq : r.path <+: q)
    (hall : ∀ e ∈ entries, r.path <+: e.path → e.path <+: q → accessAt entries e.path = .write) :
    accessAt entries q = .write := by
  obtain ⟨e, he, haccess⟩ | ⟨hnone, -⟩ := accessAt_spec entries q
  · have hre : r.path <+: e.path := he.path_prefix hr hrq
    have hown := accessAt_of_governs (he.of_prefix (List.prefix_refl _) he.2.1)
    rw [haccess, ← hown]
    exact hall e he.1 hre he.2.1
  · exact absurd hrq (hnone r hr)

/-- **What a root allows.** -/
theorem rootAllows_iff (henv : PlainDisk env) (hkind : policy.kind = .restricted)
    (hfull : policy.hasFullDiskWriteAccess = false) (hr : r ∈ policy.resolvedEntriesWithCwd env cwd)
    (haccess : accessAt (policy.resolvedEntriesWithCwd env cwd) r.path = .write) :
    (policy.writableRootAt env cwd r.path).isPathWritable (asPath p) = true ↔
      RootAllows env (policy.resolvedEntriesWithCwd env cwd) cwd r.path p := by
  rw [isPathWritable_asPath_iff]
  constructor
  · rintro ⟨hroot, hsub, hmeta⟩
    refine ⟨hroot, ?_, ?_⟩
    · intro e he hre hep
      by_contra hne
      -- the entry that takes the access away at `e.path` is a carveout
      obtain ⟨g, hg, hga⟩ | ⟨hnone, -⟩ :=
        accessAt_spec (policy.resolvedEntriesWithCwd env cwd) e.path
      · have hpath := governs_path_eq he hg
        refine hsub g.path ((mem_readOnlySubpaths_iff henv.canonicalEntries hkind hfull).mpr (.inr
          ⟨g, hg.1, hga ▸ hne, hpath ▸ hne, hpath ▸ hre, ?_, rfl⟩)) (hpath ▸ hep)
        intro heq
        rw [hpath] at heq
        exact hne (heq ▸ haccess)
      · exact hnone e he (List.prefix_refl _)
    · intro name hname hpath
      constructor
      · have hnot : name ∉ (policy.writableRootAt env cwd r.path).protectedMetadataNames :=
          fun hmem => hmeta name hmem hpath
        rw [mem_protectedMetadataNames_iff henv.canonicalEntries hkind hfull] at hnot
        have hcan : policy.canWritePathWithCwd env (asPath (join r.path name)) cwd = true := by
          by_contra hfalse
          exact hnot ⟨hname, by simpa using hfalse⟩
        exact ((canWrite_asPath hkind hfull _).mp hcan).2
      · intro hdefault
        by_contra hnone
        push Not at hnone
        refine hsub _ ?_ hpath
        exact (mem_readOnlySubpaths_iff henv.canonicalEntries hkind hfull).mpr
          (.inl ⟨hdefault, hnone⟩)
  · rintro ⟨hroot, hall, hmeta⟩
    refine ⟨hroot, ?_, ?_⟩
    · intro s hs hsp
      rcases (mem_readOnlySubpaths_iff henv.canonicalEntries hkind hfull).mp hs with
        ⟨hdefault, hnone⟩ | ⟨e, he, -, hne, hre, -, rfl⟩
      · rcases mem_defaultReadOnlySubpaths hdefault with ⟨name, hname, rfl⟩ | ⟨-, hgitdir⟩
        · obtain ⟨e, he, heq⟩ := (hmeta name hname hsp).2 hdefault
          exact hnone e he heq
        · simp [henv.gitdir] at hgitdir
      · exact hne (hall e he hre hsp)
    · intro name hmem hpath
      obtain ⟨hname, hcan⟩ :=
        (mem_protectedMetadataNames_iff henv.canonicalEntries hkind hfull).mp hmem
      have hopen := (hmeta name hname hpath).1
      have hwrite := accessAt_of_between hr (List.prefix_append _ [name])
        fun e he hre heq => hall e he hre (heq.trans hpath)
      have htrue := (canWrite_asPath hkind hfull (join r.path name)).mpr ⟨hwrite, hopen⟩
      simp [hcan] at htrue

/-! ### When the roots agree with the policy -/

/-- Inside a metadata directory of the governing entry the policy looks at what it looks at for the
directory itself. -/
theorem metadataOpen_join (hg : EntryGoverns entries p g) {name : Text}
    (hpath : join g.path name <+: p) :
    metadataOpen entries (join g.path name) = metadataOpen entries p := by
  have hdepth : ∀ e ∈ entries, e.path <+: p → e.path <+: join g.path name := fun e he hep =>
    (hg.path_prefix he hep).trans (List.prefix_append _ _)
  have hchildren : metadataChildren entries (join g.path name) = metadataChildren entries p := by
    unfold metadataChildren
    apply List.filterMap_congr
    intro e he
    have hmem := (List.mem_filter.mp he).1
    refine Option.ext fun m => ?_
    rw [metadataChild_eq_some_iff, metadataChild_eq_some_iff]
    refine exists_congr fun n => and_congr_right fun _ => and_congr_left fun _ => ?_
    refine ⟨fun h => h.trans hpath, fun h => ?_⟩
    have hle := hg.length_le hmem ((List.prefix_append _ _).trans h)
    refine List.prefix_of_prefix_length_le h hpath ?_
    simpa [join] using hle
  have hexplicit : ∀ m, hasExplicitWriteEntry entries m (join g.path name) =
      hasExplicitWriteEntry entries m p := by
    intro m
    rw [Bool.eq_iff_iff, hasExplicitWriteEntry_eq_true_iff, hasExplicitWriteEntry_eq_true_iff]
    refine exists_congr fun e => and_congr_right fun he => and_congr_right fun _ =>
      and_congr_left fun _ => ?_
    exact ⟨fun h => h.trans hpath, hdepth e he⟩
  unfold metadataOpen
  simp only [hchildren, hexplicit]

/-- The governing write entry, as a root, allows what lies in none of its metadata directories, and
what lies in an open one that is not read-only by default. -/
theorem rootAllows_governing_iff (hg : EntryGoverns entries p g) (hwrite : g.access = .write) :
    RootAllows env entries cwd g.path p ↔
      ∀ name ∈ protectedMetadataPathNames, join g.path name <+: p →
        metadataOpen entries p = true ∧ join g.path name ∉
          defaultReadOnlySubpathsForWritableRoot env g.path
            (protectMissingDotCodex env g.path cwd) := by
  have hown : ∀ e ∈ entries, g.path <+: e.path → e.path <+: p →
      accessAt entries e.path = .write := by
    intro e he hge hep
    have heq : e.path = g.path := (hg.path_prefix he hep).eq_of_length
      (le_antisymm (hg.length_le he hep) hge.length_le)
    rw [heq, accessAt_of_governs (hg.of_prefix (List.prefix_refl _) hg.2.1), hwrite]
  -- an entry at the metadata directory would be deeper than the governing one
  have hnone : ∀ name, join g.path name <+: p → ¬ ∃ e ∈ entries, e.path = join g.path name := by
    rintro name hpath ⟨e, he, heq⟩
    have hlen := hg.length_le he (heq ▸ hpath)
    rw [heq, join, List.length_append, List.length_singleton] at hlen
    omega
  constructor
  · rintro ⟨-, -, hmeta⟩ name hname hpath
    obtain ⟨hopen, hdefault⟩ := hmeta name hname hpath
    exact ⟨metadataOpen_join hg hpath ▸ hopen, fun h => hnone name hpath (hdefault h)⟩
  · intro hmeta
    refine ⟨hg.2.1, hown, fun name hname hpath => ?_⟩
    obtain ⟨hopen, hdefault⟩ := hmeta name hname hpath
    exact ⟨metadataOpen_join hg hpath ▸ hopen, fun h => absurd h hdefault⟩

variable (env)

/-- Some root allows the path exactly when the policy lets it be written. -/
def WritableRootsAgree (policy : FileSystemSandboxPolicy) (cwd : PathBuf)
    (p : AbsolutePathBuf) : Prop :=
  (∃ w ∈ policy.getWritableRootsWithCwd env cwd, w.isPathWritable (asPath p) = true) ↔
    policy.canWritePathWithCwd env (asPath p) cwd = true

/-- A writable entry other than the one at `root` allows the path: every entry from it down to the
path gives write access, and its own metadata directory, if the path is in one, is open. -/
def EnclosingRootAllows (policy : FileSystemSandboxPolicy) (cwd : PathBuf)
    (root p : AbsolutePathBuf) : Prop :=
  ∃ r ∈ policy.resolvedEntriesWithCwd env cwd, r.access = .write ∧ r.path ≠ root ∧
    RootAllows env (policy.resolvedEntriesWithCwd env cwd) cwd r.path p

/-- Whenever the path lies in a metadata directory of the write entry that governs it: if the policy
denies the metadata write, no enclosing root allows the path; if it does not, the directory is not
read-only by default or an enclosing root allows the path. -/
def MetadataConsistent (policy : FileSystemSandboxPolicy) (cwd : PathBuf)
    (p : AbsolutePathBuf) : Prop :=
  ∀ g name, EntryGoverns (policy.resolvedEntriesWithCwd env cwd) p g → g.access = .write →
    name ∈ protectedMetadataPathNames → join g.path name <+: p →
      if policy.isMetadataWriteDenied env (asPath p) cwd then
        ¬ EnclosingRootAllows env policy cwd g.path p
      else
        join g.path name ∉ defaultReadOnlySubpathsForWritableRoot env g.path
            (protectMissingDotCodex env g.path cwd) ∨
          EnclosingRootAllows env policy cwd g.path p

variable {env}

lemma exists_root_iff (henv : PlainDisk env) (hkind : policy.kind = .restricted)
    (hfull : policy.hasFullDiskWriteAccess = false) :
    (∃ w ∈ policy.getWritableRootsWithCwd env cwd, w.isPathWritable (asPath p) = true) ↔
      ∃ r ∈ policy.resolvedEntriesWithCwd env cwd, r.access = .write ∧
        RootAllows env (policy.resolvedEntriesWithCwd env cwd) cwd r.path p := by
  unfold FileSystemSandboxPolicy.getWritableRootsWithCwd
  simp only [hfull, Bool.false_eq_true, if_false, List.mem_map,
    mem_dedupAbsolutePaths fun _ _ _ => normalizeEffectiveAbsolutePath_eq henv.canonicalize _]
  constructor
  · rintro ⟨w, ⟨root, hroot, rfl⟩, hallow⟩
    obtain ⟨r, hr, hwrite, haccess, rfl⟩ := (mem_writableEntries_iff hkind hfull).mp hroot
    exact ⟨r, hr, hwrite, (rootAllows_iff henv hkind hfull hr haccess).mp hallow⟩
  · rintro ⟨r, hr, hwrite, hallow⟩
    have haccess := hallow.2.1 r hr (List.prefix_refl _) hallow.1
    exact ⟨_, ⟨r.path, (mem_writableEntries_iff hkind hfull).mpr ⟨r, hr, hwrite, haccess, rfl⟩,
      rfl⟩,
      (rootAllows_iff henv hkind hfull hr haccess).mpr hallow⟩

/-- The roots that can allow a path are the governing entry and those above it. -/
theorem exists_root_iff_governing (henv : PlainDisk env) (hkind : policy.kind = .restricted)
    (hfull : policy.hasFullDiskWriteAccess = false)
    (hg : EntryGoverns (policy.resolvedEntriesWithCwd env cwd) p g) (hwrite : g.access = .write) :
    (∃ w ∈ policy.getWritableRootsWithCwd env cwd, w.isPathWritable (asPath p) = true) ↔
      RootAllows env (policy.resolvedEntriesWithCwd env cwd) cwd g.path p ∨
        EnclosingRootAllows env policy cwd g.path p := by
  rw [exists_root_iff henv hkind hfull]
  constructor
  · rintro ⟨r, hr, hrw, hallow⟩
    by_cases heq : r.path = g.path
    · exact .inl (heq ▸ hallow)
    · exact .inr ⟨r, hr, hrw, heq, hallow⟩
  · rintro (hallow | ⟨r, hr, hrw, -, hallow⟩)
    · exact ⟨g, hg.1, hwrite, hallow⟩
    · exact ⟨r, hr, hrw, hallow⟩

/-- **When the enforced roots agree with the policy.** On a disk without links, and for a restricted
policy without full-disk write access, the roots allow exactly what the policy lets be written if
and only if the metadata directory of the governing entry is treated alike by both. -/
theorem writableRoots_agree_iff (henv : PlainDisk env) (hkind : policy.kind = .restricted)
    (hfull : policy.hasFullDiskWriteAccess = false) :
    WritableRootsAgree env policy cwd p ↔ MetadataConsistent env policy cwd p := by
  have hdenied := isMetadataWriteDenied_eq hkind (resolveCandidatePath_asPath env p cwd)
  unfold WritableRootsAgree MetadataConsistent
  rw [canWrite_asPath hkind hfull, hdenied]
  by_cases haccess : accessAt (policy.resolvedEntriesWithCwd env cwd) p = .write
  · obtain ⟨g, hg, hwrite⟩ := accessAt_eq_write_iff.mp haccess
    rw [exists_root_iff_governing henv hkind hfull hg hwrite, rootAllows_governing_iff hg hwrite]
    simp only [haccess, true_and]
    by_cases hin : ∃ name ∈ protectedMetadataPathNames, join g.path name <+: p
    · obtain ⟨name, hname, hpath⟩ := hin
      -- the governing path and the name are determined by `p`
      have hleft : (∀ name ∈ protectedMetadataPathNames, join g.path name <+: p →
          metadataOpen (policy.resolvedEntriesWithCwd env cwd) p = true ∧
            join g.path name ∉ defaultReadOnlySubpathsForWritableRoot env g.path
              (protectMissingDotCodex env g.path cwd)) ↔
          metadataOpen (policy.resolvedEntriesWithCwd env cwd) p = true ∧
            join g.path name ∉ defaultReadOnlySubpathsForWritableRoot env g.path
              (protectMissingDotCodex env g.path cwd) := by
        refine ⟨fun h => h name hname hpath, fun h name' _ hpath' => ?_⟩
        rw [join_prefix_unique hpath' hpath]
        exact h
      have hright : ∀ P : AbsolutePathBuf → Text → Prop,
          (∀ g' name', EntryGoverns (policy.resolvedEntriesWithCwd env cwd) p g' →
            g'.access = .write → name' ∈ protectedMetadataPathNames → join g'.path name' <+: p →
              P g'.path name') ↔ P g.path name := by
        intro P
        refine ⟨fun h => h g name hg hwrite hname hpath, fun h g' name' hg' _ _ hpath' => ?_⟩
        have hpaths := hg'.path_unique hg
        rw [hpaths] at hpath' ⊢
        rw [join_prefix_unique hpath' hpath]
        exact h
      rw [hleft, hright fun root name =>
        if (!metadataOpen (policy.resolvedEntriesWithCwd env cwd) p) = true then
          ¬ EnclosingRootAllows env policy cwd root p
        else
          join root name ∉ defaultReadOnlySubpathsForWritableRoot env root
              (protectMissingDotCodex env root cwd) ∨
            EnclosingRootAllows env policy cwd root p]
      cases metadataOpen (policy.resolvedEntriesWithCwd env cwd) p with
      | true => simp
      | false => simp
    · push Not at hin
      have hopen := metadataOpen_of_governs hg hwrite hin
      refine iff_of_true (iff_of_true (.inl fun name hname hpath => ?_) hopen) ?_
      · exact absurd hpath (hin name hname)
      · intro g' name hg' _ hname hpath
        exact absurd (hg'.path_unique hg ▸ hpath) (hin name hname)
  · refine iff_of_true (iff_of_false ?_ fun h => haccess h.1) ?_
    · rw [exists_root_iff henv hkind hfull]
      rintro ⟨r, hr, -, hallow⟩
      exact haccess (accessAt_of_between hr hallow.1 hallow.2.1)
    · intro g name hg hwrite
      exact absurd (accessAt_eq_write_iff.mpr ⟨g, hg, hwrite⟩) haccess

end roots

lemma plainDisk_emptyEnvironment : PlainDisk emptyEnvironment := ⟨fun _ => rfl, fun _ => rfl⟩

/-- A writable workspace with a writable directory in it. -/
def nestedRootsPolicy : FileSystemSandboxPolicy :=
  .ofEntries [⟨.path ["w".toList], .write⟩, ⟨.path ["w".toList, "sub".toList], .write⟩]

/-- The policy keeps the `.git` of the inner directory read-only, the outer root lets it be
written. -/
theorem writableRoots_disagree :
    ¬ WritableRootsAgree emptyEnvironment nestedRootsPolicy (asPath ["w".toList])
      ["w".toList, "sub".toList, ".git".toList, "f".toList] := by
  intro h
  have hroot : ((nestedRootsPolicy.getWritableRootsWithCwd emptyEnvironment
      (asPath ["w".toList])).any fun w => w.isPathWritable
        (asPath ["w".toList, "sub".toList, ".git".toList, "f".toList])) = true := by decide +kernel
  have hcan := h.mp (List.any_eq_true.mp hroot)
  cases hcan

/-- A workspace with one writable entry. -/
theorem writableRoots_agree_iff_workspace :
    WritableRootsAgree emptyEnvironment (.ofEntries [⟨.path ["w".toList], .write⟩])
        (asPath ["w".toList]) ["w".toList, ".git".toList] ↔
      MetadataConsistent emptyEnvironment (.ofEntries [⟨.path ["w".toList], .write⟩])
        (asPath ["w".toList]) ["w".toList, ".git".toList] :=
  writableRoots_agree_iff plainDisk_emptyEnvironment rfl (by decide)

end Codex.Permissions
