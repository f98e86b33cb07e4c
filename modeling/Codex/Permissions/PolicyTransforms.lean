import Codex.Permissions.ReadableRoots

/-!
# Intersecting permission profiles

`intersect_permission_profiles` of `sandboxing/src/policy_transforms.rs`: of the additional
permissions that were granted, keep the entries that the request covers, and the deny entries of
both sides that constrain them. Globs only ever deny; compiling and matching them is a parameter of
the environment.

* `intersect_reads_within`: what the result lets be read, both sides let be read;
* `intersect_within_iff`: exactly when the same holds of writing too.
-/

namespace Codex.Permissions

open Codex.Lib

/-! ### Profiles -/

structure FileSystemPermissions where
  entries : List FileSystemSandboxEntry := []
  globScanMaxDepth : Option ℕ := none

def FileSystemPermissions.isEmpty (permissions : FileSystemPermissions) : Bool :=
  permissions.entries.isEmpty

structure NetworkPermissions where
  enabled : Option Bool

structure AdditionalPermissionProfile where
  network : Option NetworkPermissions := none
  fileSystem : Option FileSystemPermissions := none

/-! ### Denied reads -/

structure ReadDenyMatcher where
  deniedCandidates : List (List AbsolutePathBuf)
  denyReadMatchers : List (AbsolutePathBuf → Bool)
  invalidPattern : Bool

variable (env : Environment)

def normalizedAndCanonicalCandidates (path : AbsolutePathBuf) : List AbsolutePathBuf :=
  match env.canonicalize path with
  | some canonical => if canonical = path then [path] else [path, canonical]
  | none => [path]

def ReadDenyMatcher.new (policy : FileSystemSandboxPolicy) (cwd : PathBuf) :
    Option ReadDenyMatcher :=
  if policy.hasDeniedReadRestrictions then
    let matchers := (policy.getUnreadableGlobsWithCwd env cwd).map env.buildGlobMatcher
    some
      { deniedCandidates :=
          (policy.getUnreadableRootsWithCwd env cwd).map (normalizedAndCanonicalCandidates env)
        denyReadMatchers := matchers.filterMap id
        invalidPattern := matchers.any Option.isNone }
  else none

def ReadDenyMatcher.isReadDenied (matcher : ReadDenyMatcher) (path : AbsolutePathBuf) : Bool :=
  if matcher.invalidPattern then true
  else
    let pathCandidates := normalizedAndCanonicalCandidates env path
    (matcher.deniedCandidates.any fun deniedCandidates =>
      pathCandidates.any fun candidate =>
        deniedCandidates.any fun deniedCandidate => deniedCandidate <+: candidate) ||
    matcher.denyReadMatchers.any fun isMatch => pathCandidates.any isMatch

/-! ### The intersection -/

def resolvePermissionPath (cwd : PathBuf) :
    FileSystemPath → Option AbsolutePathBuf
  | .path path => some path
  | .globPattern _ => none
  | .special .root =>
    -- the last ancestor of `cwd`
    fromAbsolutePath env (if isAbsolute cwd then [.rootDir] else [])
  | .special (.projectRoots subpath) =>
    (fromAbsolutePath env cwd).map fun cwd =>
      match subpath with
      | some subpath => resolvePathAgainstBase env subpath (asPath cwd)
      | none => cwd
  | .special .tmpdir =>
    match env.tmpdir with
    | some tmpdir => if tmpdir = [] then none else fromAbsolutePath env tmpdir
    | none => none
  | .special .slashTmp => if env.isDir slashTmpPath then some slashTmpPath else none
  | .special .minimal => none
  | .special (.unknown _ _) => none

def accessCovers (requested granted : FileSystemAccessMode) : Bool :=
  match granted with
  | .read => requested.canRead
  | .write => requested.canWrite
  | .deny => false

def grantedFileSystemEntryWithinRequest (requested : FileSystemPermissions)
    (requestedPolicy : FileSystemSandboxPolicy)
    (requestedReadDenyMatcher : Option ReadDenyMatcher) (cwd : PathBuf)
    (grantedEntry : FileSystemSandboxEntry) : Bool :=
  if !grantedEntry.access.canRead then false
  else
    match resolvePermissionPath env cwd grantedEntry.path with
    | some path =>
      if requestedReadDenyMatcher.any fun matcher => matcher.isReadDenied env path then false
      else accessCovers (requestedPolicy.resolveAccessWithCwd env (asPath path) cwd)
        grantedEntry.access
    | none =>
      requested.entries.any fun requestedEntry =>
        accessCovers requestedEntry.access grantedEntry.access &&
          requestedEntry.path = grantedEntry.path

def materializeCwdDependentEntry (cwd : PathBuf)
    (entry : FileSystemSandboxEntry) : FileSystemSandboxEntry :=
  match entry.path with
  | .special (.projectRoots _) =>
    match resolvePermissionPath env cwd entry.path with
    | some path => { entry with path := .path path }
    | none => entry
  | .globPattern pattern =>
    let resolved := resolvePathAgainstBase env (components pattern) cwd
    { entry with path := .globPattern (toStringLossy resolved) }
  | _ => entry

def pathsOverlap (left right : AbsolutePathBuf) : Bool := right <+: left || left <+: right

def globStaticPrefixPath (pattern : Text) (cwd : PathBuf) : Option AbsolutePathBuf :=
  let resolvedPattern := toStringLossy (resolvePathAgainstBase env (components pattern) cwd)
  match resolvedPattern.findIdx? (· ∈ ['*', '?', '[', ']']) with
  | some 0 => none
  | some index =>
    let staticPart := resolvedPattern.take index
    if staticPart.getLast? = some '/' ∨ staticPart.getLast? = some '\\' then
      fromAbsolutePath env (components staticPart)
    else if components staticPart = [.rootDir] ∨ components staticPart = [] then none
    else fromAbsolutePath env (components staticPart).dropLast
  | none => fromAbsolutePath env (components resolvedPattern)

def denyEntryConstrainsAcceptedGrant (acceptedEntries : List FileSystemSandboxEntry) (cwd : PathBuf)
    (denyEntry : FileSystemSandboxEntry) : Bool :=
  (acceptedEntries.filter fun entry => entry.access.canRead).any fun entry =>
    match resolvePermissionPath env cwd entry.path with
    | none => false
    | some grantPath =>
      match denyEntry.path with
      | .globPattern pattern =>
        (globStaticPrefixPath env pattern cwd).any fun start => pathsOverlap start grantPath
      | path =>
        (resolvePermissionPath env cwd path).any fun denyPath => pathsOverlap denyPath grantPath

variable (entries : List FileSystemSandboxEntry)

/-- `if !entries.contains(&entry) { entries.push(entry) }` -/
def pushUnique (entry : FileSystemSandboxEntry) : List FileSystemSandboxEntry :=
  if entry ∈ entries then entries else entries ++ [entry]

/-- The entries `retain_constraining_deny_entries` goes through, materialized -/
def constrainingDenyEntries
    (sourceEntries acceptedEntries : List FileSystemSandboxEntry) (cwd : PathBuf) :
    List FileSystemSandboxEntry :=
  ((sourceEntries.filter fun entry => entry.access = .deny).filter
    (denyEntryConstrainsAcceptedGrant env acceptedEntries cwd)).map
      (materializeCwdDependentEntry env cwd)

/-- `retain_constraining_deny_entries`; the entries retained and the new output entries -/
def retainConstrainingDenyEntries
    (sourceEntries acceptedEntries : List FileSystemSandboxEntry) (cwd : PathBuf)
    (outputEntries : List FileSystemSandboxEntry) :
    List FileSystemSandboxEntry × List FileSystemSandboxEntry :=
  let retained := constrainingDenyEntries env sourceEntries acceptedEntries cwd
  (retained, retained.foldl pushUnique outputEntries)

inductive GlobScanDepth where
  | bounded (depth : ℕ)
  | unbounded

def effectiveGlobScanDepth (depth : Option ℕ) : Option GlobScanDepth :=
  if entries.any fun entry => entry.access = .deny && match entry.path with
      | .globPattern _ => true
      | _ => false then
    some (match depth with
      | some depth => .bounded depth
      | none => .unbounded)
  else none

def mergeGlobScanMaxDepth (leftEntries : List FileSystemSandboxEntry) (leftDepth : Option ℕ)
    (rightEntries : List FileSystemSandboxEntry) (rightDepth : Option ℕ) : Option ℕ :=
  match effectiveGlobScanDepth leftEntries leftDepth,
    effectiveGlobScanDepth rightEntries rightDepth with
  | some .unbounded, _ => none
  | _, some .unbounded => none
  | some (.bounded left), some (.bounded right) => some (max left right)
  | some (.bounded depth), none => some depth
  | none, some (.bounded depth) => some depth
  | none, none => none

/-- The granted entries that the request covers. -/
def grantsWithinRequest (requested granted : FileSystemPermissions)
    (cwd : PathBuf) : List FileSystemSandboxEntry :=
  let requestedPolicy := FileSystemSandboxPolicy.ofEntries requested.entries
  granted.entries.filter (grantedFileSystemEntryWithinRequest env requested requestedPolicy
    (ReadDenyMatcher.new env requestedPolicy cwd) cwd)

/-- The closure of `intersect_permission_profiles` on file system permissions -/
def intersectFileSystemPermissions (requested granted : FileSystemPermissions)
    (cwd : PathBuf) : FileSystemPermissions :=
  let acceptedEntries :=
    ((grantsWithinRequest env requested granted cwd).map
      (materializeCwdDependentEntry env cwd)).foldl pushUnique []
  let (requestedRetained, entries) :=
    retainConstrainingDenyEntries env requested.entries acceptedEntries cwd acceptedEntries
  let (grantedRetained, entries) :=
    retainConstrainingDenyEntries env granted.entries acceptedEntries cwd entries
  { entries := entries
    -- `NonZeroUsize::new`
    globScanMaxDepth := (mergeGlobScanMaxDepth requestedRetained requested.globScanMaxDepth
      grantedRetained granted.globScanMaxDepth).filter (· ≠ 0) }

def intersectPermissionProfiles (requested granted : AdditionalPermissionProfile) (cwd : PathBuf) :
    AdditionalPermissionProfile where
  network :=
    match requested.network, granted.network with
    | some ⟨some true⟩, some ⟨some true⟩ => some ⟨some true⟩
    | _, _ => none
  fileSystem := (requested.fileSystem.map fun requestedFileSystem =>
    intersectFileSystemPermissions env requestedFileSystem (granted.fileSystem.getD {}) cwd).filter
      fun fileSystem => !fileSystem.isEmpty

/-! ### The entries of the intersection -/

/-- What the entries resolve to at an absolute `cwd`. -/
def resolvedAt (cwd : AbsolutePathBuf) (entries : List FileSystemSandboxEntry) :
    List ResolvedFileSystemEntry :=
  entries.filterMap (resolveEntry env (some cwd))

variable {env : Environment} {cwd : AbsolutePathBuf} {requested granted : FileSystemPermissions}
  {p : AbsolutePathBuf} {e : FileSystemSandboxEntry} {a d r : ResolvedFileSystemEntry}
  (entries : List FileSystemSandboxEntry)

lemma resolvedEntriesWithCwd_ofEntries :
    (FileSystemSandboxPolicy.ofEntries entries).resolvedEntriesWithCwd env (asPath cwd) =
      resolvedAt env cwd entries := by
  unfold FileSystemSandboxPolicy.resolvedEntriesWithCwd resolvedAt
  rw [fromAbsolutePath_asPath]
  rfl

/-- At an absolute `cwd` permissions and policy entries resolve alike. -/
theorem resolvePermissionPath_eq (path : FileSystemPath) :
    resolvePermissionPath env (asPath cwd) path = resolveEntryPath env (some cwd) path := by
  have hroot : fromAbsolutePath env [.rootDir] = some [] := fromAbsolutePath_asPath env []
  have habs : isAbsolute (asPath cwd) = true := rfl
  cases path with
  | path path => rfl
  | globPattern pattern => rfl
  | special value =>
    cases value with
    | root => simp [resolvePermissionPath, resolveEntryPath, hroot, habs, absoluteRootPathForCwd]
    | projectRoots subpath =>
      cases subpath <;>
        simp only [resolvePermissionPath, resolveEntryPath, resolveFileSystemPath,
          resolveFileSystemSpecialPath, fromAbsolutePath_asPath, Option.map_some]
    | _ => rfl

lemma resolveEntry_eq_some_iff :
    resolveEntry env (some cwd) e = some r ↔
      resolvePermissionPath env (asPath cwd) e.path = some r.path ∧ e.access = r.access := by
  obtain ⟨path, access⟩ := r
  unfold resolveEntry
  rw [resolvePermissionPath_eq, Option.map_eq_some_iff]
  constructor
  · rintro ⟨q, hq, heq⟩
    obtain ⟨rfl, rfl⟩ := ResolvedFileSystemEntry.mk.inj heq
    exact ⟨hq, rfl⟩
  · rintro ⟨hq, rfl⟩
    exact ⟨path, hq, rfl⟩

variable (e)

/-- Materializing an entry keeps what it resolves to. -/
theorem resolveEntry_materialize :
    resolveEntry env (some cwd) (materializeCwdDependentEntry env (asPath cwd) e) =
      resolveEntry env (some cwd) e := by
  obtain ⟨path, access⟩ := e
  cases path with
  | path path => rfl
  | globPattern pattern => rfl
  | special value =>
    cases value with
    | projectRoots subpath =>
      unfold materializeCwdDependentEntry
      simp only [resolvePermissionPath_eq]
      cases hpath : resolveEntryPath env (some cwd) (.special (.projectRoots subpath)) with
      | none => rfl
      | some path =>
        simp only [resolveEntry, hpath]
        rfl
    | _ => rfl

lemma access_materialize : (materializeCwdDependentEntry env (asPath cwd) e).access = e.access := by
  unfold materializeCwdDependentEntry
  split
  · split <;> rfl
  · rfl
  · rfl

variable {e}

lemma mem_foldl_pushUnique {x : FileSystemSandboxEntry} (l acc : List FileSystemSandboxEntry) :
    x ∈ l.foldl pushUnique acc ↔ x ∈ acc ∨ x ∈ l := by
  induction l generalizing acc with
  | nil => simp
  | cons y l ih =>
    rw [List.foldl_cons, ih, pushUnique, List.mem_cons]
    split
    · constructor
      · rintro (h | h)
        · exact .inl h
        · exact .inr (.inr h)
      · rintro (h | rfl | h)
        · exact .inl h
        · exact .inl ‹_›
        · exact .inr h
    · simp [or_assoc]

/-- Leaving out entries that are there already keeps the first that `f` is defined at. -/
theorem findSome?_foldl_pushUnique {β : Type} (f : FileSystemSandboxEntry → Option β)
    (l acc : List FileSystemSandboxEntry) :
    (l.foldl pushUnique acc).findSome? f = (acc ++ l).findSome? f := by
  induction l generalizing acc with
  | nil => simp
  | cons x l ih =>
    rw [List.foldl_cons, ih, pushUnique]
    split
    · rename_i hmem
      rw [List.findSome?_append, List.findSome?_append, List.findSome?_cons]
      cases hacc : acc.findSome? f with
      | some y => rfl
      | none =>
        have hx := List.findSome?_eq_none_iff.mp hacc x hmem
        simp [hx]
    · simp

/-- The accepted grants, as the intersection lists them. -/
def acceptedEntries (env : Environment) (requested granted : FileSystemPermissions)
    (cwd : PathBuf) : List FileSystemSandboxEntry :=
  ((grantsWithinRequest env requested granted cwd).map
    (materializeCwdDependentEntry env cwd)).foldl pushUnique []

lemma intersect_entries_eq (cwd : PathBuf) :
    (intersectFileSystemPermissions env requested granted cwd).entries =
      (constrainingDenyEntries env granted.entries
          (acceptedEntries env requested granted cwd) cwd).foldl pushUnique
        ((constrainingDenyEntries env requested.entries
            (acceptedEntries env requested granted cwd) cwd).foldl pushUnique
          (acceptedEntries env requested granted cwd)) :=
  rfl

/-- The grants that the request covers, resolved. -/
def acceptedAt (env : Environment) (requested granted : FileSystemPermissions)
    (cwd : AbsolutePathBuf) : List ResolvedFileSystemEntry :=
  resolvedAt env cwd (grantsWithinRequest env requested granted (asPath cwd))

lemma mem_resolvedAt_iff {entries : List FileSystemSandboxEntry} :
    r ∈ resolvedAt env cwd entries ↔ ∃ e ∈ entries, resolveEntry env (some cwd) e = some r :=
  List.mem_filterMap

lemma mem_acceptedAt_iff :
    r ∈ acceptedAt env requested granted cwd ↔
      ∃ e ∈ acceptedEntries env requested granted (asPath cwd),
        resolveEntry env (some cwd) e = some r := by
  unfold acceptedAt acceptedEntries
  simp only [mem_resolvedAt_iff, mem_foldl_pushUnique, List.not_mem_nil, false_or, List.mem_map]
  constructor
  · rintro ⟨e, he, hr⟩
    exact ⟨_, ⟨e, he, rfl⟩, (resolveEntry_materialize e).trans hr⟩
  · rintro ⟨-, ⟨e, he, rfl⟩, hr⟩
    exact ⟨e, he, (resolveEntry_materialize e).symm.trans hr⟩

/-- An accepted grant is a granted entry, gives access, and the request covers it. -/
theorem accepted_spec (ha : a ∈ acceptedAt env requested granted cwd) :
    a ∈ resolvedAt env cwd granted.entries ∧ a.access ≠ .deny ∧
      accessCovers (accessAt (resolvedAt env cwd requested.entries) a.path) a.access = true := by
  obtain ⟨e, he, hres⟩ := mem_resolvedAt_iff.mp ha
  obtain ⟨hgranted, hwithin⟩ := List.mem_filter.mp he
  obtain ⟨hpath, haccess⟩ := resolveEntry_eq_some_iff.mp hres
  have hkind : (FileSystemSandboxPolicy.ofEntries requested.entries).kind = .restricted := rfl
  have hreq := resolveAccessWithCwd_eq hkind (resolveCandidatePath_asPath env a.path (asPath cwd))
  rw [resolvedEntriesWithCwd_ofEntries] at hreq
  unfold grantedFileSystemEntryWithinRequest at hwithin
  rw [hpath, haccess] at hwithin
  split at hwithin
  · simp at hwithin
  · rename_i hread
    simp only at hwithin
    split at hwithin
    · simp at hwithin
    · rw [hreq] at hwithin
      refine ⟨mem_resolvedAt_iff.mpr ⟨e, hgranted, hres⟩, ?_, hwithin⟩
      rintro hdeny
      simp [hdeny, FileSystemAccessMode.canRead] at hread

/-- A deny entry constrains an accepted grant when one lies in the other. -/
theorem denyEntryConstrains_iff (hpath : resolvePermissionPath env (asPath cwd) e.path = some p) :
    denyEntryConstrainsAcceptedGrant env (acceptedEntries env requested granted (asPath cwd))
        (asPath cwd) e = true ↔
      ∃ a ∈ acceptedAt env requested granted cwd, a.path <+: p ∨ p <+: a.path := by
  have hbody : ∀ grantPath, (match e.path with
      | .globPattern pattern =>
        (globStaticPrefixPath env pattern (asPath cwd)).any fun start =>
          pathsOverlap start grantPath
      | path => (resolvePermissionPath env (asPath cwd) path).any fun denyPath =>
        pathsOverlap denyPath grantPath) = pathsOverlap p grantPath := by
    intro grantPath
    split
    · rename_i pattern hglob
      rw [hglob] at hpath
      exact absurd hpath (by simp [resolvePermissionPath])
    · rw [hpath]
      rfl
  unfold denyEntryConstrainsAcceptedGrant
  rw [List.any_eq_true]
  constructor
  · rintro ⟨g, hg, hconstrains⟩
    split at hconstrains
    · cases hconstrains
    · rename_i grantPath hgrant
      rw [hbody] at hconstrains
      refine ⟨⟨grantPath, g.access⟩, mem_acceptedAt_iff.mpr
        ⟨g, (List.mem_filter.mp hg).1, resolveEntry_eq_some_iff.mpr ⟨hgrant, rfl⟩⟩, ?_⟩
      simpa [pathsOverlap] using hconstrains
  · rintro ⟨a, ha, hoverlap⟩
    obtain ⟨g, hg, hres⟩ := mem_acceptedAt_iff.mp ha
    obtain ⟨hgrant, haccess⟩ := resolveEntry_eq_some_iff.mp hres
    have hread : g.access.canRead = true := by
      have hne := (accepted_spec ha).2.1
      rw [← haccess] at hne
      cases hg : g.access <;> simp_all [FileSystemAccessMode.canRead]
    refine ⟨g, List.mem_filter.mpr ⟨hg, hread⟩, ?_⟩
    rw [hgrant]
    simp only [hbody]
    simpa [pathsOverlap] using hoverlap

/-- A deny entry above or below an accepted grant is kept. -/
theorem mem_constrainingDenyEntries_iff {source : List FileSystemSandboxEntry} :
    r ∈ resolvedAt env cwd (constrainingDenyEntries env source
        (acceptedEntries env requested granted (asPath cwd)) (asPath cwd)) ↔
      r ∈ resolvedAt env cwd source ∧ r.access = .deny ∧
        ∃ a ∈ acceptedAt env requested granted cwd, a.path <+: r.path ∨ r.path <+: a.path := by
  unfold constrainingDenyEntries
  simp only [mem_resolvedAt_iff, List.mem_map, List.mem_filter, decide_eq_true_eq]
  constructor
  · rintro ⟨-, ⟨d, ⟨⟨hd, hdeny⟩, hconstrains⟩, rfl⟩, hres⟩
    rw [resolveEntry_materialize] at hres
    obtain ⟨hpath, haccess⟩ := resolveEntry_eq_some_iff.mp hres
    exact ⟨⟨d, hd, hres⟩, haccess ▸ hdeny, (denyEntryConstrains_iff hpath).mp hconstrains⟩
  · rintro ⟨⟨d, hd, hres⟩, hdeny, hoverlap⟩
    obtain ⟨hpath, haccess⟩ := resolveEntry_eq_some_iff.mp hres
    exact ⟨_, ⟨d, ⟨⟨hd, haccess.trans hdeny⟩, (denyEntryConstrains_iff hpath).mpr hoverlap⟩, rfl⟩,
      (resolveEntry_materialize d).trans hres⟩

/-- The intersection, resolved. -/
def intersectAt (env : Environment) (requested granted : FileSystemPermissions)
    (cwd : AbsolutePathBuf) : List ResolvedFileSystemEntry :=
  resolvedAt env cwd (intersectFileSystemPermissions env requested granted (asPath cwd)).entries

/-- **What the intersection holds**: the accepted grants, and the deny entries of both sides that
lie above or below one of them. -/
theorem mem_intersectAt_iff :
    r ∈ intersectAt env requested granted cwd ↔ r ∈ acceptedAt env requested granted cwd ∨
        (r ∈ resolvedAt env cwd requested.entries ∨ r ∈ resolvedAt env cwd granted.entries) ∧
          r.access = .deny ∧
          ∃ a ∈ acceptedAt env requested granted cwd, a.path <+: r.path ∨ r.path <+: a.path := by
  unfold intersectAt
  rw [mem_resolvedAt_iff, intersect_entries_eq]
  simp only [mem_foldl_pushUnique, or_and_right, exists_or]
  rw [← mem_acceptedAt_iff, ← mem_resolvedAt_iff, ← mem_resolvedAt_iff,
    mem_constrainingDenyEntries_iff, mem_constrainingDenyEntries_iff, or_assoc]

/-- The metadata directory an entry has around a path, if it is a write entry. -/
def entryMetadataChild (env : Environment) (cwd p : AbsolutePathBuf)
    (e : FileSystemSandboxEntry) : Option (AbsolutePathBuf × Text) :=
  (resolveEntry env (some cwd) e).bind fun r =>
    if r.access.canWrite then metadataChild p r else none

lemma head?_metadataChildren :
    (metadataChildren (resolvedAt env cwd entries) p).head? =
      entries.findSome? (entryMetadataChild env cwd p) := by
  unfold metadataChildren resolvedAt
  rw [List.filterMap_filter, List.filterMap_filterMap, List.head?_filterMap]
  rfl

lemma entryMetadataChild_of_deny (h : e.access = .deny) :
    entryMetadataChild env cwd p e = none := by
  unfold entryMetadataChild resolveEntry
  cases resolveEntryPath env (some cwd) e.path with
  | none => rfl
  | some path => simp [h, FileSystemAccessMode.canWrite]

/-- The metadata directory looked at is that of the accepted grants: the deny entries have none. -/
theorem metadataOpen_intersectAt :
    metadataOpen (intersectAt env requested granted cwd) p =
      metadataOpen (acceptedAt env requested granted cwd) p := by
  have hdeny : ∀ source, (constrainingDenyEntries env source
      (acceptedEntries env requested granted (asPath cwd)) (asPath cwd)).findSome?
        (entryMetadataChild env cwd p) = none := by
    intro source
    rw [List.findSome?_eq_none_iff]
    intro d hd
    obtain ⟨d', hd', rfl⟩ := List.mem_map.mp hd
    apply entryMetadataChild_of_deny
    rw [access_materialize]
    exact of_decide_eq_true (List.mem_filter.mp (List.mem_filter.mp hd').1).2
  have hmaterialize : ∀ e, entryMetadataChild env cwd p (materializeCwdDependentEntry env
      (asPath cwd) e) = entryMetadataChild env cwd p e := by
    intro e
    unfold entryMetadataChild
    rw [resolveEntry_materialize]
  have hhead : (metadataChildren (intersectAt env requested granted cwd) p).head? =
      (metadataChildren (acceptedAt env requested granted cwd) p).head? := by
    unfold intersectAt acceptedAt
    rw [head?_metadataChildren, head?_metadataChildren, intersect_entries_eq,
      findSome?_foldl_pushUnique, List.findSome?_append, findSome?_foldl_pushUnique,
      List.findSome?_append, hdeny, hdeny, Option.or_none, Option.or_none, acceptedEntries,
      findSome?_foldl_pushUnique, List.nil_append, List.findSome?_map]
    congr 1
    exact funext hmaterialize
  have hexplicit : ∀ m, hasExplicitWriteEntry (intersectAt env requested granted cwd) m p =
      hasExplicitWriteEntry (acceptedAt env requested granted cwd) m p := by
    intro m
    rw [Bool.eq_iff_iff, hasExplicitWriteEntry_eq_true_iff, hasExplicitWriteEntry_eq_true_iff]
    constructor
    · rintro ⟨x, hx, hwrite, hrest⟩
      rcases mem_intersectAt_iff.mp hx with hx | ⟨-, hdeny, -⟩
      · exact ⟨x, hx, hwrite, hrest⟩
      · simp [hwrite] at hdeny
    · rintro ⟨x, hx, hrest⟩
      exact ⟨x, mem_intersectAt_iff.mpr (.inl hx), hrest⟩
  unfold metadataOpen
  simp only [hhead, hexplicit]

/-! ### Reading -/

/-- Where an accepted grant governs, no deny entry of either side stands at or below it. -/
theorem deny_above_of_governs (ha : EntryGoverns (intersectAt env requested granted cwd) p a)
    (hne : a.access ≠ .deny)
    (hd : d ∈ resolvedAt env cwd requested.entries ∨ d ∈ resolvedAt env cwd granted.entries)
    (hdeny : d.access = .deny) (hdp : d.path <+: p) : d.path.length < a.path.length := by
  have hacc : a ∈ acceptedAt env requested granted cwd := by
    rcases mem_intersectAt_iff.mp ha.1 with h | ⟨-, h, -⟩
    · exact h
    · exact absurd h hne
  have hoverlap : a.path <+: d.path ∨
      d.path <+: a.path := List.prefix_or_prefix_of_prefix ha.2.1 hdp
  have hmem : d ∈ intersectAt env requested granted cwd :=
    mem_intersectAt_iff.mpr (.inr ⟨hd, hdeny, a, hacc, hoverlap⟩)
  rcases precedence_le_iff.mp (ha.2.2 d hmem hdp) with hlt | ⟨-, hle⟩
  · exact hlt
  · rw [hdeny] at hle
    cases h : a.access <;> simp_all <;> exact absurd hle (by decide)

lemma accessCovers_ne_deny {x y : FileSystemAccessMode} (h : accessCovers x y = true) :
    x ≠ .deny := by
  rintro rfl
  cases y <;> simp [accessCovers, FileSystemAccessMode.canRead, FileSystemAccessMode.canWrite] at h

/-- What the intersection lets be read, both sides let be read. -/
theorem intersect_reads_within (h : accessAt (intersectAt env requested granted cwd) p ≠ .deny) :
    accessAt (resolvedAt env cwd requested.entries) p ≠ .deny ∧
      accessAt (resolvedAt env cwd granted.entries) p ≠ .deny := by
  obtain ⟨a, ha, haccess⟩ | ⟨-, hdeny⟩ := accessAt_spec (intersectAt env requested granted cwd) p
  · rw [haccess] at h
    have hacc : a ∈ acceptedAt env requested granted cwd := by
      rcases mem_intersectAt_iff.mp ha.1 with hacc | ⟨-, hdeny, -⟩
      · exact hacc
      · exact absurd hdeny h
    obtain ⟨hgranted, -, hcovers⟩ := accepted_spec hacc
    constructor
    · refine accessAt_ne_deny ha.2.1 (accessCovers_ne_deny hcovers) fun d hd hdeny hdp => ?_
      exact deny_above_of_governs ha h (.inl hd) hdeny hdp
    · intro hdenied
      obtain ⟨g, hg, hga⟩ | ⟨hnone, -⟩ := accessAt_spec (resolvedAt env cwd granted.entries) p
      · have hlt := deny_above_of_governs ha h (.inr hg.1) (hga ▸ hdenied) hg.2.1
        have hle := hg.length_le hgranted ha.2.1
        omega
      · exact hnone a hgranted ha.2.1
  · exact absurd hdeny h

/-! ### Profiles -/

namespace AdditionalPermissionProfile

/-- The file system entries of a profile. -/
def fileSystemEntries (profile : AdditionalPermissionProfile) : List FileSystemSandboxEntry :=
  (profile.fileSystem.getD {}).entries

/-- The profile on its own lets the path be read. -/
def letsRead (env : Environment) (profile : AdditionalPermissionProfile) (path cwd : PathBuf) :
    Bool :=
  (FileSystemSandboxPolicy.ofEntries profile.fileSystemEntries).canReadPathWithCwd env path cwd

/-- The profile on its own lets the path be written. -/
def letsWrite (env : Environment) (profile : AdditionalPermissionProfile) (path cwd : PathBuf) :
    Bool :=
  (FileSystemSandboxPolicy.ofEntries profile.fileSystemEntries).canWritePathWithCwd env path cwd

end AdditionalPermissionProfile

lemma grantsWithinRequest_nil (granted : FileSystemPermissions) (cwd : PathBuf) :
    grantsWithinRequest env {} granted cwd = [] := by
  have hdeny : ∀ path, (FileSystemSandboxPolicy.ofEntries []).resolveAccessWithCwd env
      (asPath path) cwd = .deny := by
    intro path
    have hkind : (FileSystemSandboxPolicy.ofEntries []).kind = .restricted := rfl
    exact resolveAccessWithCwd_eq hkind (resolveCandidatePath_asPath env path cwd)
  have hcovers : ∀ access, accessCovers .deny access = false := by
    intro access
    cases access <;> rfl
  have hmatcher : ReadDenyMatcher.new env (.ofEntries []) cwd = none := rfl
  unfold grantsWithinRequest
  rw [List.filter_eq_nil_iff]
  intro e _
  unfold grantedFileSystemEntryWithinRequest
  simp only [hmatcher, hdeny, hcovers]
  split
  · simp
  · split <;> simp

/-- A profile without a file system part asks for nothing, and one without entries gives nothing. -/
theorem intersect_fileSystemEntries (requested granted : AdditionalPermissionProfile)
    (cwd : PathBuf) :
    (intersectPermissionProfiles env requested granted cwd).fileSystemEntries =
      (intersectFileSystemPermissions env (requested.fileSystem.getD {})
        (granted.fileSystem.getD {}) cwd).entries := by
  unfold AdditionalPermissionProfile.fileSystemEntries intersectPermissionProfiles
  cases requested.fileSystem with
  | none =>
    have haccepted : acceptedEntries env {} (granted.fileSystem.getD {}) cwd = [] := by
      rw [acceptedEntries, grantsWithinRequest_nil]
      rfl
    rw [Option.getD_none, intersect_entries_eq, haccepted]
    simp [constrainingDenyEntries, denyEntryConstrainsAcceptedGrant]
  | some requested =>
    rw [Option.map_some, Option.getD_some]
    by_cases hempty : (intersectFileSystemPermissions env requested
        (granted.fileSystem.getD {}) cwd).isEmpty = true
    · have hnil := List.isEmpty_iff.mp hempty
      simp [Option.filter, hempty, hnil]
    · simp [Option.filter, hempty]

/-! ### Writing -/

/-- What the result lets be read or written, the request and the grant let be read or written. -/
def IntersectionWithin (env : Environment) (requested granted : AdditionalPermissionProfile)
    (path cwd : PathBuf) : Prop :=
  let result := intersectPermissionProfiles env requested granted cwd
  (result.letsRead env path cwd = true →
    requested.letsRead env path cwd = true ∧ granted.letsRead env path cwd = true) ∧
  (result.letsWrite env path cwd = true →
    requested.letsWrite env path cwd = true ∧ granted.letsWrite env path cwd = true)

/-- The accepted grants and the deny entries that constrain them give write access to the whole
disk. -/
def grantsWholeDisk (env : Environment) (requested granted : FileSystemPermissions)
    (cwd : PathBuf) : Bool :=
  (FileSystemSandboxPolicy.ofEntries
    ((grantsWithinRequest env requested granted cwd).map (materializeCwdDependentEntry env cwd) ++
      constrainingDenyEntries env requested.entries
        (acceptedEntries env requested granted cwd) cwd ++
      constrainingDenyEntries env granted.entries
        (acceptedEntries env requested granted cwd) cwd)).hasFullDiskWriteAccess

/-- `a` is the most specific of the granted entries over `p` that the request covers, and a write
entry; no deny entry of either side over `p` stands at or below it; and `p` is in no metadata
directory that the covered grants leave closed, unless they give the whole disk. -/
structure GrantedWrite (env : Environment) (requested granted : FileSystemPermissions)
    (cwd p : AbsolutePathBuf) (a : ResolvedFileSystemEntry) : Prop where
  governs : EntryGoverns (acceptedAt env requested granted cwd) p a
  write : a.access = .write
  noDeny : ∀ d, d ∈ resolvedAt env cwd requested.entries ∨ d ∈ resolvedAt env cwd granted.entries →
    d.access = .deny → d.path <+: p → d.path.length < a.path.length
  metadata : grantsWholeDisk env requested granted (asPath cwd) = true ∨
    metadataOpen (acceptedAt env requested granted cwd) p = true

/-- The most specific of the entries over `p` is not a read entry, and `p` is in no metadata
directory that they leave closed, unless they give the whole disk. -/
def NoReadCarveout (env : Environment) (entries : List FileSystemSandboxEntry)
    (cwd p : AbsolutePathBuf) : Prop :=
  (∀ c, EntryGoverns (resolvedAt env cwd entries) p c → c.access ≠ .read) ∧
  ((FileSystemSandboxPolicy.ofEntries entries).hasFullDiskWriteAccess = true ∨
    metadataOpen (resolvedAt env cwd entries) p = true)

/-- Wherever a covered grant gives write access, neither the request nor the grant as a whole has a
narrower read entry or a closed metadata directory. -/
def NoCarveoutLost (env : Environment) (requested granted : AdditionalPermissionProfile)
    (path : PathBuf) (cwd : AbsolutePathBuf) : Prop :=
  ∀ p a, resolveCandidatePath env path (asPath cwd) = some p →
    GrantedWrite env (requested.fileSystem.getD {}) (granted.fileSystem.getD {}) cwd p a →
      NoReadCarveout env requested.fileSystemEntries cwd p ∧
        NoReadCarveout env granted.fileSystemEntries cwd p

section writing

variable {path : PathBuf} {profile : AdditionalPermissionProfile}

lemma exists_resolveCandidatePath (env : Environment) (path : PathBuf) (cwd : AbsolutePathBuf) :
    ∃ p, resolveCandidatePath env path (asPath cwd) = some p := by
  unfold resolveCandidatePath
  split
  · rename_i habs
    exact ⟨_, fromAbsolutePath_of_isAbsolute env habs⟩
  · rw [fromAbsolutePath_asPath]
    exact ⟨_, rfl⟩

variable (h : resolveCandidatePath env path (asPath cwd) = some p)
include h

lemma letsRead_iff :
    profile.letsRead env path (asPath cwd) = true ↔
      accessAt (resolvedAt env cwd profile.fileSystemEntries) p ≠ .deny := by
  have hkind : (FileSystemSandboxPolicy.ofEntries profile.fileSystemEntries).kind = .restricted :=
    rfl
  unfold AdditionalPermissionProfile.letsRead FileSystemSandboxPolicy.canReadPathWithCwd
  rw [resolveAccessWithCwd_eq hkind h, resolvedEntriesWithCwd_ofEntries]
  cases accessAt (resolvedAt env cwd profile.fileSystemEntries) p <;>
    simp [FileSystemAccessMode.canRead]

lemma letsWrite_iff :
    profile.letsWrite env path (asPath cwd) = true ↔
      accessAt (resolvedAt env cwd profile.fileSystemEntries) p = .write ∧
        ((FileSystemSandboxPolicy.ofEntries profile.fileSystemEntries).hasFullDiskWriteAccess =
            true ∨
          metadataOpen (resolvedAt env cwd profile.fileSystemEntries) p = true) := by
  have hkind : (FileSystemSandboxPolicy.ofEntries profile.fileSystemEntries).kind = .restricted :=
    rfl
  unfold AdditionalPermissionProfile.letsWrite
  rw [canWritePathWithCwd_eq hkind h, resolvedEntriesWithCwd_ofEntries]
  simp

omit h

/-- Where reading is allowed, so is writing unless the governing entry is a read entry. -/
theorem accessAt_eq_write_iff_not_read {entries : List ResolvedFileSystemEntry}
    (h : accessAt entries p ≠ .deny) :
    accessAt entries p = .write ↔ ∀ c, EntryGoverns entries p c → c.access ≠ .read := by
  constructor
  · intro hwrite c hc hread
    simp [accessAt_of_governs hc, hread] at hwrite
  · intro hnot
    obtain ⟨c, hc, hca⟩ | ⟨-, hdeny⟩ := accessAt_spec entries p
    · have hne := hnot c hc
      rw [hca] at h ⊢
      cases hacc : c.access <;> simp_all
    · exact absurd hdeny h

lemma grantsWholeDisk_eq :
    (FileSystemSandboxPolicy.ofEntries (intersectFileSystemPermissions env requested granted
      (asPath cwd)).entries).hasFullDiskWriteAccess =
        grantsWholeDisk env requested granted (asPath cwd) := by
  unfold grantsWholeDisk
  refine hasFullDiskWriteAccess_congr rfl fun x => ?_
  show x ∈ (intersectFileSystemPermissions env requested granted (asPath cwd)).entries ↔ x ∈ _ ++ _
  rw [intersect_entries_eq]
  simp only [mem_foldl_pushUnique, List.mem_append, acceptedEntries, List.not_mem_nil, false_or]

/-- **Writing through the intersection**: a covered grant gives write access. -/
theorem intersect_writes_iff :
    (accessAt (intersectAt env requested granted cwd) p = .write ∧
      (grantsWholeDisk env requested granted (asPath cwd) = true ∨
        metadataOpen (intersectAt env requested granted cwd) p = true)) ↔
      ∃ a, GrantedWrite env requested granted cwd p a := by
  rw [metadataOpen_intersectAt, accessAt_eq_write_iff]
  constructor
  · rintro ⟨⟨a, ha, hwrite⟩, hmeta⟩
    have hne : a.access ≠ .deny := by
      rw [hwrite]
      decide
    have hacc : a ∈ acceptedAt env requested granted cwd := by
      rcases mem_intersectAt_iff.mp ha.1 with hacc | ⟨-, hdeny, -⟩
      · exact hacc
      · exact absurd hdeny hne
    refine ⟨a, ⟨hacc, ha.2.1, fun x hx hxp => ?_⟩, hwrite, ?_, hmeta⟩
    · exact ha.2.2 x (mem_intersectAt_iff.mpr (.inl hx)) hxp
    · intro d hd hdeny hdp
      exact deny_above_of_governs ha hne hd hdeny hdp
  · rintro ⟨a, ha, hwrite, hdeny, hmeta⟩
    refine ⟨⟨a, ⟨mem_intersectAt_iff.mpr (.inl ha.1), ha.2.1, fun x hx hxp => ?_⟩, hwrite⟩, hmeta⟩
    rcases mem_intersectAt_iff.mp hx with hx | ⟨hsource, hxdeny, -⟩
    · exact ha.2.2 x hx hxp
    · exact precedence_le_iff.mpr (.inl (hdeny x hsource hxdeny hxp))

/-- **When a granted profile exceeds nothing.** The result of the intersection lets a path be read
or written only where the request and the grant do, if and only if no narrower read entry and no
closed metadata directory of either is lost; reading alone never exceeds. -/
theorem intersect_within_iff (requested granted : AdditionalPermissionProfile) (path : PathBuf)
    (cwd : AbsolutePathBuf) :
    IntersectionWithin env requested granted path (asPath cwd) ↔
      NoCarveoutLost env requested granted path cwd := by
  obtain ⟨p, hpath⟩ := exists_resolveCandidatePath env path cwd
  have hresult : resolvedAt env cwd
      (intersectPermissionProfiles env requested granted (asPath cwd)).fileSystemEntries =
        intersectAt env (requested.fileSystem.getD {}) (granted.fileSystem.getD {}) cwd := by
    rw [intersect_fileSystemEntries]
    rfl
  have hread : (intersectPermissionProfiles env requested granted (asPath cwd)).letsRead env path
      (asPath cwd) = true → requested.letsRead env path (asPath cwd) = true ∧
        granted.letsRead env path (asPath cwd) = true := by
    rw [letsRead_iff hpath, letsRead_iff hpath, letsRead_iff hpath, hresult]
    exact intersect_reads_within
  have hwrites : (intersectPermissionProfiles env requested granted (asPath cwd)).letsWrite env path
      (asPath cwd) = true ↔ ∃ a, GrantedWrite env (requested.fileSystem.getD {})
        (granted.fileSystem.getD {}) cwd p a := by
    rw [letsWrite_iff hpath, hresult, intersect_fileSystemEntries, grantsWholeDisk_eq,
      intersect_writes_iff]
  -- where a covered grant gives write access both sides can be read
  have hside : ∀ a, GrantedWrite env (requested.fileSystem.getD {}) (granted.fileSystem.getD {})
      cwd p a → (requested.letsWrite env path (asPath cwd) = true ↔
          NoReadCarveout env requested.fileSystemEntries cwd p) ∧
        (granted.letsWrite env path (asPath cwd) = true ↔
          NoReadCarveout env granted.fileSystemEntries cwd p) := by
    intro a ha
    have hwrite := (intersect_writes_iff.mpr ⟨a, ha⟩).1
    have hne : accessAt (intersectAt env (requested.fileSystem.getD {})
        (granted.fileSystem.getD {}) cwd) p ≠ .deny := by
      rw [hwrite]
      decide
    obtain ⟨hreq, hgr⟩ := intersect_reads_within hne
    rw [letsWrite_iff hpath, letsWrite_iff hpath]
    exact ⟨and_congr_left' (accessAt_eq_write_iff_not_read hreq),
      and_congr_left' (accessAt_eq_write_iff_not_read hgr)⟩
  constructor
  · rintro ⟨-, hwithin⟩ p' a hpath' ha
    obtain rfl : p' = p := Option.some_inj.mp (hpath'.symm.trans hpath)
    obtain ⟨hreq, hgr⟩ := hwithin (hwrites.mpr ⟨a, ha⟩)
    exact ⟨(hside a ha).1.mp hreq, (hside a ha).2.mp hgr⟩
  · intro hsafe
    refine ⟨hread, fun hresultWrite => ?_⟩
    obtain ⟨a, ha⟩ := hwrites.mp hresultWrite
    obtain ⟨hreq, hgr⟩ := hsafe p a hpath ha
    exact ⟨(hside a ha).1.mpr hreq, (hside a ha).2.mpr hgr⟩

/-- A request to write a workspace but for one directory, granted without the exception. -/
theorem intersection_exceeds_request :
    ¬ IntersectionWithin emptyEnvironment
      { fileSystem := some { entries :=
          [⟨.path ["w".toList], .write⟩, ⟨.path ["w".toList, "ro".toList], .read⟩] } }
      { fileSystem := some { entries := [⟨.path ["w".toList], .write⟩] } }
      (asPath ["w".toList, "ro".toList, "f".toList]) (asPath ["w".toList]) := by
  intro h
  exact absurd (h.2 (by decide)).1 (by decide)

end writing

end Codex.Permissions
