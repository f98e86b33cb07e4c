import Codex.Lib.Precedence
import Codex.Permissions.AbsolutePath

/-!
# The file system sandbox policy

`protocol/src/permissions.rs`: a policy is a list of entries that give access to a path and all
below it. Access at a path is that of the most specific entry; writes below a writable entry are
also refused in its metadata directories (`.git`, `.agents`, `.codex`) unless an entry opens them.
-/

namespace Codex.Permissions

open Codex.Lib

/-! ### Entries -/

/-- `FileSystemAccessMode`; the order is `read`, `write`, `deny` -/
inductive FileSystemAccessMode where
  | read
  | write
  | deny
  deriving DecidableEq

namespace FileSystemAccessMode

/-- The place in the derived order. -/
def rank : FileSystemAccessMode → ℕ
  | .read => 0
  | .write => 1
  | .deny => 2

lemma rank_injective : Function.Injective rank := by
  intro a b h
  cases a <;> cases b <;> first | rfl | simp [rank] at h

instance : LinearOrder FileSystemAccessMode := LinearOrder.lift' rank rank_injective

def canRead : FileSystemAccessMode → Bool
  | .deny => false
  | _ => true

def canWrite : FileSystemAccessMode → Bool
  | .write => true
  | _ => false

@[simp] lemma canWrite_eq_true_iff {a : FileSystemAccessMode} : a.canWrite = true ↔ a = .write := by
  cases a <;> simp [canWrite]

end FileSystemAccessMode

inductive FileSystemSpecialPath where
  | root
  | minimal
  | projectRoots (subpath : Option PathBuf)
  | tmpdir
  | slashTmp
  | unknown (path : Text) (subpath : Option PathBuf)
  deriving DecidableEq

inductive FileSystemPath where
  | path (path : AbsolutePathBuf)
  | globPattern (pattern : Text)
  | special (value : FileSystemSpecialPath)
  deriving DecidableEq

structure FileSystemSandboxEntry where
  path : FileSystemPath
  access : FileSystemAccessMode
  deriving DecidableEq

inductive FileSystemSandboxKind where
  | restricted
  | unrestricted
  | externalSandbox
  deriving DecidableEq

structure FileSystemSandboxPolicy where
  kind : FileSystemSandboxKind
  globScanMaxDepth : Option ℕ
  entries : List FileSystemSandboxEntry

structure ResolvedFileSystemEntry where
  path : AbsolutePathBuf
  access : FileSystemAccessMode

def protectedMetadataPathNames : List Text := [".git".toList, ".agents".toList, ".codex".toList]

/-! ### Resolving entries -/

/-- `/tmp` -/
def slashTmpPath : AbsolutePathBuf := ["tmp".toList]

variable (env : Environment) (cwd : Option AbsolutePathBuf)

def resolveFileSystemSpecialPath :
    FileSystemSpecialPath → Option AbsolutePathBuf
  | .root => none
  | .minimal => none
  | .unknown _ _ => none
  | .projectRoots subpath =>
    cwd.map fun cwd =>
      match subpath with
      | some subpath => resolvePathAgainstBase env subpath (asPath cwd)
      | none => cwd
  | .tmpdir =>
    match env.tmpdir with
    | some tmpdir => if tmpdir = [] then none else fromAbsolutePath env tmpdir
    | none => none
  | .slashTmp => if env.isDir slashTmpPath then some slashTmpPath else none

def absoluteRootPathForCwd (_cwd : AbsolutePathBuf) : AbsolutePathBuf := []

def resolveFileSystemPath :
    FileSystemPath → Option AbsolutePathBuf
  | .path path => some path
  | .globPattern _ => none
  | .special value => resolveFileSystemSpecialPath env cwd value

def resolveEntryPath :
    FileSystemPath → Option AbsolutePathBuf
  | .special .root => cwd.map absoluteRootPathForCwd
  | path => resolveFileSystemPath env cwd path

/-- The closure of `resolved_entries_with_cwd` -/
def resolveEntry (entry : FileSystemSandboxEntry) : Option ResolvedFileSystemEntry :=
  (resolveEntryPath env cwd entry.path).map fun path => ⟨path, entry.access⟩

def resolveCandidatePath (path cwd : PathBuf) : Option AbsolutePathBuf :=
  if isAbsolute path then fromAbsolutePath env path
  else (fromAbsolutePath env cwd).map fun cwd => resolvePathAgainstBase env path (asPath cwd)

def resolvedEntryPrecedence (entry : ResolvedFileSystemEntry) : ℕ ×ₗ FileSystemAccessMode :=
  toLex ((asPath entry.path).length, entry.access)

variable (entries : List ResolvedFileSystemEntry)

/-- The iterator chain of `resolve_access_with_cwd` -/
def accessAt (path : AbsolutePathBuf) : FileSystemAccessMode :=
  match maxByKey resolvedEntryPrecedence (entries.filter fun entry => entry.path <+: path) with
  | some entry => entry.access
  | none => .deny

/-! ### Metadata directories -/

def metadataPathName (name : Text) : Option Text := protectedMetadataPathNames.find? (name = ·)

variable (target : AbsolutePathBuf)

/-- The closure of `metadata_child_of_writable_root` -/
def metadataChild (entry : ResolvedFileSystemEntry) : Option (AbsolutePathBuf × Text) :=
  if entry.path <+: target then do
    let firstComponent ← (target.drop entry.path.length).head?
    let metadataName ← metadataPathName firstComponent
    return (join entry.path metadataName, metadataName)
  else none

/-- The metadata directories of writable entries that hold the target. -/
def metadataChildren : List (AbsolutePathBuf × Text) :=
  (entries.filter fun entry => entry.access.canWrite).filterMap (metadataChild target)

/-- The closure of `has_explicit_write_entry_for_metadata_path` -/
def hasExplicitWriteEntry (protectedMetadataPath target : AbsolutePathBuf) : Bool :=
  entries.any fun entry =>
    entry.access.canWrite && decide (entry.path <+: target) &&
      decide (protectedMetadataPath <+: entry.path)

/-! ### Full disk access -/

def specialPathsShareTarget : FileSystemSpecialPath → FileSystemSpecialPath → Bool
  | .root, .root => true
  | .minimal, .minimal => true
  | .tmpdir, .tmpdir => true
  | .slashTmp, .slashTmp => true
  | .projectRoots left, .projectRoots right => left = right
  | .unknown left leftSubpath, .unknown right rightSubpath =>
    left = right && leftSubpath = rightSubpath
  | _, _ => false

def specialPathMatchesAbsolutePath (value : FileSystemSpecialPath)
    (path : AbsolutePathBuf) : Bool :=
  match value with
  | .root => path = []
  | .slashTmp => path = slashTmpPath
  | _ => false

def fileSystemPathsShareTarget : FileSystemPath → FileSystemPath → Bool
  | .path left, .path right => left = right
  | .special left, .special right => specialPathsShareTarget left right
  | .path path, .special value => specialPathMatchesAbsolutePath value path
  | .special value, .path path => specialPathMatchesAbsolutePath value path
  | .globPattern left, .globPattern right => left = right
  | .globPattern _, _ => false
  | _, .globPattern _ => false

namespace FileSystemSandboxPolicy

/-- `FileSystemSandboxPolicy::restricted` -/
def ofEntries (entries : List FileSystemSandboxEntry) : FileSystemSandboxPolicy where
  kind := .restricted
  globScanMaxDepth := none
  entries := entries

variable (policy : FileSystemSandboxPolicy)

def hasRootAccess (predicate : FileSystemAccessMode → Bool) : Bool :=
  policy.kind = .restricted &&
    policy.entries.any fun entry => entry.path = .special .root && predicate entry.access

def hasSameTargetWriteOverride (entry : FileSystemSandboxEntry) : Bool :=
  policy.entries.any fun candidate =>
    candidate.access.canWrite && decide (entry.access < candidate.access) &&
      fileSystemPathsShareTarget candidate.path entry.path

def hasWriteNarrowingEntries : Bool :=
  policy.kind = .restricted &&
    policy.entries.any fun entry =>
      !entry.access.canWrite &&
        match entry.path with
        | .path _ => !policy.hasSameTargetWriteOverride entry
        | .globPattern _ => true
        | .special .root => entry.access = .deny
        | .special .minimal => false
        | .special (.unknown _ _) => false
        | .special _ => !policy.hasSameTargetWriteOverride entry

def hasFullDiskWriteAccess : Bool :=
  match policy.kind with
  | .unrestricted => true
  | .externalSandbox => true
  | .restricted =>
    policy.hasRootAccess FileSystemAccessMode.canWrite && !policy.hasWriteNarrowingEntries

/-! ### Access at a path -/

variable (env : Environment)

def resolvedEntriesWithCwd (policy : FileSystemSandboxPolicy)
    (cwd : PathBuf) : List ResolvedFileSystemEntry :=
  policy.entries.filterMap (resolveEntry env (fromAbsolutePath env cwd))

def resolveAccessWithCwd (policy : FileSystemSandboxPolicy)
    (path cwd : PathBuf) : FileSystemAccessMode :=
  match policy.kind with
  | .unrestricted => .write
  | .externalSandbox => .write
  | .restricted =>
    match resolveCandidatePath env path cwd with
    | none => .deny
    | some path => accessAt (policy.resolvedEntriesWithCwd env cwd) path

def canReadPathWithCwd (policy : FileSystemSandboxPolicy) (path cwd : PathBuf) : Bool :=
  (policy.resolveAccessWithCwd env path cwd).canRead

def metadataChildOfWritableRoot (policy : FileSystemSandboxPolicy)
    (target : AbsolutePathBuf) (cwd : PathBuf) : Option (AbsolutePathBuf × Text) :=
  (metadataChildren (policy.resolvedEntriesWithCwd env cwd) target).head?

def hasExplicitWriteEntryForMetadataPath (policy : FileSystemSandboxPolicy)
    (protectedMetadataPath target : AbsolutePathBuf) (cwd : PathBuf) : Bool :=
  hasExplicitWriteEntry (policy.resolvedEntriesWithCwd env cwd) protectedMetadataPath target

def isMetadataWriteDenied (policy : FileSystemSandboxPolicy) (path cwd : PathBuf) : Bool :=
  if policy.kind = .restricted then
    match resolveCandidatePath env path cwd with
    | none => true
    | some target =>
      match policy.metadataChildOfWritableRoot env target cwd with
      | none => false
      | some (protectedMetadataPath, _) =>
        !policy.hasExplicitWriteEntryForMetadataPath env protectedMetadataPath target cwd
  else false

def canWritePathWithCwd (policy : FileSystemSandboxPolicy) (path cwd : PathBuf) : Bool :=
  if !(policy.resolveAccessWithCwd env path cwd).canWrite then false
  else if policy.hasFullDiskWriteAccess then true
  else !policy.isMetadataWriteDenied env path cwd

end FileSystemSandboxPolicy

def forbiddenAgentMetadataWrite (env : Environment) (path cwd : PathBuf)
    (policy : FileSystemSandboxPolicy) : Option Text :=
  if policy.kind = .restricted then do
    let target ← resolveCandidatePath env path cwd
    let (protectedMetadataPath, metadataName) ← policy.metadataChildOfWritableRoot env target cwd
    if policy.hasExplicitWriteEntryForMetadataPath env protectedMetadataPath target cwd then none
    else if !policy.canWritePathWithCwd env (asPath target) cwd then some metadataName
    else none
  else none

/-! ### What governs a path -/

/-- The most specific entry at a path. -/
abbrev EntryGoverns (entries : List ResolvedFileSystemEntry) (path : AbsolutePathBuf)
    (entry : ResolvedFileSystemEntry) : Prop :=
  Governs ResolvedFileSystemEntry.path ResolvedFileSystemEntry.access entries path entry

variable {entries entries' : List ResolvedFileSystemEntry} {path target : AbsolutePathBuf}
  {entry : ResolvedFileSystemEntry}

lemma resolvedEntryPrecedence_le_iff (x y : ResolvedFileSystemEntry) :
    resolvedEntryPrecedence x ≤ resolvedEntryPrecedence y ↔
      precedence ResolvedFileSystemEntry.path ResolvedFileSystemEntry.access x ≤
        precedence ResolvedFileSystemEntry.path ResolvedFileSystemEntry.access y := by
  unfold resolvedEntryPrecedence precedence
  rw [Prod.Lex.toLex_le_toLex, Prod.Lex.toLex_le_toLex]
  simp [asPath]

/-- Access at a path is that of the entry that governs it, and denied where no entry holds. -/
theorem accessAt_spec (entries : List ResolvedFileSystemEntry) (path : AbsolutePathBuf) :
    (∃ entry, EntryGoverns entries path entry ∧ accessAt entries path = entry.access) ∨
      (∀ entry ∈ entries, ¬ entry.path <+: path) ∧ accessAt entries path = .deny := by
  unfold accessAt
  cases hmax : maxByKey resolvedEntryPrecedence
      (entries.filter fun entry => entry.path <+: path) with
  | some entry => exact .inl ⟨entry, governs_of_maxByKey resolvedEntryPrecedence_le_iff hmax, rfl⟩
  | none =>
    refine .inr ⟨?_, rfl⟩
    intro entry hentry hpath
    have hnil := maxByKey_eq_none_iff.mp hmax
    have hmem : entry ∈ entries.filter fun entry => entry.path <+: path :=
      List.mem_filter.mpr ⟨hentry, decide_eq_true hpath⟩
    simp [hnil] at hmem

lemma accessAt_of_governs (h : EntryGoverns entries path entry) :
    accessAt entries path = entry.access := by
  obtain ⟨entry', h', haccess⟩ | ⟨hnone, -⟩ := accessAt_spec entries path
  · rw [haccess, h.access_unique h']
  · exact absurd h.2.1 (hnone entry h.1)

lemma accessAt_eq_write_iff :
    accessAt entries path = .write ↔
      ∃ entry, EntryGoverns entries path entry ∧ entry.access = .write := by
  constructor
  · intro hwrite
    obtain ⟨entry, h, haccess⟩ | ⟨-, hdeny⟩ := accessAt_spec entries path
    · exact ⟨entry, h, haccess.symm.trans hwrite⟩
    · simp [hdeny] at hwrite
  · rintro ⟨entry, h, haccess⟩
    rw [accessAt_of_governs h, haccess]

/-- The order of the entries is irrelevant to the access at a path. -/
theorem accessAt_congr (hmem : ∀ x, x ∈ entries ↔ x ∈ entries') :
    accessAt entries path = accessAt entries' path := by
  obtain ⟨entry, h, haccess⟩ | ⟨hnone, hdeny⟩ := accessAt_spec entries path
  · rw [haccess, accessAt_of_governs ((Governs.congr hmem).mp h)]
  · obtain ⟨entry, h, -⟩ | ⟨-, hdeny'⟩ := accessAt_spec entries' path
    · exact absurd h.2.1 (hnone entry ((hmem entry).mpr h.1))
    · rw [hdeny, hdeny']

/-- If the entry at a path `q` above `path` gives access and no deny entry stands below `q`, then
`path` can be read. -/
theorem accessAt_ne_deny {q : AbsolutePathBuf}
    (hq : q <+: path) (haccess : accessAt entries q ≠ .deny)
    (hdeny : ∀ d ∈ entries, d.access = .deny → d.path <+: path → d.path.length < q.length) :
    accessAt entries path ≠ .deny := by
  obtain ⟨c, hc, hcq⟩ | ⟨-, hdenied⟩ := accessAt_spec entries q
  · obtain ⟨g, hg, hgp⟩ | ⟨hnone, -⟩ := accessAt_spec entries path
    · rw [hgp]
      intro hgdeny
      -- the governing entry is shorter than `q`, so it governs `q` as well
      have hlt := hdeny g hg.1 hgdeny hg.2.1
      have hgq : g.path <+: q := List.prefix_of_prefix_length_le hg.2.1 hq hlt.le
      rw [accessAt_of_governs (hg.of_prefix hgq hq)] at haccess
      exact haccess hgdeny
    · exact absurd (hc.2.1.trans hq) (hnone c hc.1)
  · exact absurd hdenied haccess

/-! ### Metadata directories of writable entries -/

lemma metadataPathName_eq_some_iff {name found : Text} :
    metadataPathName name = some found ↔ name ∈ protectedMetadataPathNames ∧ found = name := by
  unfold metadataPathName
  constructor
  · intro h
    have heq : name = found := by simpa using List.find?_some h
    exact ⟨heq ▸ List.mem_of_find?_eq_some h, heq.symm⟩
  · rintro ⟨hmem, rfl⟩
    cases hfind : protectedMetadataPathNames.find? (found = ·) with
    | none =>
      have hne := List.find?_eq_none.mp hfind found hmem
      exact absurd (decide_eq_true rfl) hne
    | some found' =>
      have heq : found = found' := by simpa using List.find?_some hfind
      rw [heq]

variable {m : AbsolutePathBuf × Text}

/-- An entry has a metadata directory that holds the target when the target goes on below the
entry's path with a protected name. -/
theorem metadataChild_eq_some_iff :
    metadataChild target entry = some m ↔ ∃ name ∈ protectedMetadataPathNames,
        join entry.path name <+: target ∧ m = (join entry.path name, name) := by
  unfold metadataChild
  constructor
  · intro h
    split at h
    case isFalse => exact absurd h (by simp)
    case isTrue hpath =>
      obtain ⟨rest, rfl⟩ := hpath
      rw [List.drop_left] at h
      cases rest with
      | nil => simp at h
      | cons name rest =>
        rw [List.head?_cons, Option.bind_eq_bind, Option.bind_some] at h
        obtain ⟨found, hfound, hm⟩ := Option.bind_eq_some_iff.mp h
        obtain ⟨hmem, rfl⟩ := metadataPathName_eq_some_iff.mp hfound
        refine ⟨found, hmem, ?_, (Option.some_inj.mp hm).symm⟩
        exact ⟨rest, by simp [join]⟩
  · rintro ⟨name, hmem, ⟨rest, rfl⟩, rfl⟩
    have hpath : entry.path <+: join entry.path name ++ rest := by
      rw [join, List.append_assoc]
      exact List.prefix_append _ _
    have hdrop : (join entry.path name ++ rest).drop entry.path.length = name :: rest := by
      rw [join, List.append_assoc, List.drop_left]
      rfl
    rw [if_pos hpath, hdrop]
    simp [metadataPathName_eq_some_iff.mpr ⟨hmem, rfl⟩]

lemma mem_metadataChildren_iff :
    m ∈ metadataChildren entries target ↔
      ∃ entry ∈ entries, entry.access = .write ∧ ∃ name ∈ protectedMetadataPathNames,
        join entry.path name <+: target ∧ m = (join entry.path name, name) := by
  unfold metadataChildren
  rw [List.mem_filterMap]
  constructor
  · rintro ⟨entry, hentry, hm⟩
    obtain ⟨hmem, hwrite⟩ := List.mem_filter.mp hentry
    refine ⟨entry, hmem, ?_, metadataChild_eq_some_iff.mp hm⟩
    simpa using hwrite
  · rintro ⟨entry, hmem, hwrite, hname⟩
    refine ⟨entry, List.mem_filter.mpr ⟨hmem, ?_⟩, metadataChild_eq_some_iff.mpr hname⟩
    simpa using hwrite

lemma hasExplicitWriteEntry_eq_true_iff {m : AbsolutePathBuf} :
    hasExplicitWriteEntry entries m target = true ↔
      ∃ entry ∈ entries, entry.access = .write ∧ entry.path <+: target ∧ m <+: entry.path := by
  unfold hasExplicitWriteEntry
  rw [List.any_eq_true]
  simp [and_assoc]

variable {m m' : AbsolutePathBuf × Text}

/-- A metadata directory that holds the target is open when another, deeper one holds it too: the
entry of the deeper one lies in it. -/
theorem hasExplicitWriteEntry_of_shorter
    (hm : m ∈ metadataChildren entries target) (hm' : m' ∈ metadataChildren entries target)
    (hlt : m.1.length < m'.1.length) :
    hasExplicitWriteEntry entries m.1 target = true := by
  obtain ⟨e, -, -, name, -, hpath, rfl⟩ := mem_metadataChildren_iff.mp hm
  obtain ⟨e', he', hwrite', name', -, hpath', rfl⟩ := mem_metadataChildren_iff.mp hm'
  have hbelow : e'.path <+: target := (List.prefix_append _ _).trans hpath'
  have hlen : (join e.path name).length ≤ e'.path.length := by
    have hlt' : (join e.path name).length < (join e'.path name').length := hlt
    have hlen' : (join e'.path name').length = e'.path.length + 1 := by simp [join]
    omega
  exact hasExplicitWriteEntry_eq_true_iff.mpr
    ⟨e', he', hwrite', hbelow, List.prefix_of_prefix_length_le hpath hbelow hlen⟩

/-- Two metadata directories that hold the target are the same or of different depth. -/
theorem metadataChildren_eq_of_length
    (hm : m ∈ metadataChildren entries target) (hm' : m' ∈ metadataChildren entries target)
    (hlen : m.1.length = m'.1.length) : m = m' := by
  obtain ⟨e, -, -, name, -, hpath, rfl⟩ := mem_metadataChildren_iff.mp hm
  obtain ⟨e', -, -, name', -, hpath', rfl⟩ := mem_metadataChildren_iff.mp hm'
  have heq : join e.path name = join e'.path name' :=
    (List.prefix_of_prefix_length_le hpath hpath' hlen.le).eq_of_length hlen
  obtain ⟨hpaths, hnames⟩ := List.append_inj' heq rfl
  rw [hpaths, List.singleton_inj.mp hnames]

/-! ### Writing at a path -/

private theorem any_congr_mem {α : Type} {l l' : List α} (h : ∀ x, x ∈ l ↔ x ∈ l')
    (f : α → Bool) : l.any f = l'.any f := by
  rw [Bool.eq_iff_iff, List.any_eq_true, List.any_eq_true]
  simp only [h]

/-- Full-disk access depends only on which entries there are. -/
theorem hasFullDiskWriteAccess_congr {policy policy' : FileSystemSandboxPolicy}
    (hkind : policy.kind = policy'.kind) (h : ∀ x, x ∈ policy.entries ↔ x ∈ policy'.entries) :
    policy.hasFullDiskWriteAccess = policy'.hasFullDiskWriteAccess := by
  have hoverride : ∀ entry,
      policy.hasSameTargetWriteOverride entry = policy'.hasSameTargetWriteOverride entry :=
    fun entry => any_congr_mem h _
  unfold FileSystemSandboxPolicy.hasFullDiskWriteAccess FileSystemSandboxPolicy.hasRootAccess
    FileSystemSandboxPolicy.hasWriteNarrowingEntries
  simp only [hkind, hoverride, any_congr_mem h]

/-- The metadata directory the policy looks at, if any, is open. -/
def metadataOpen (entries : List ResolvedFileSystemEntry) (target : AbsolutePathBuf) : Bool :=
  match (metadataChildren entries target).head? with
  | none => true
  | some m => hasExplicitWriteEntry entries m.1 target

variable {env : Environment} {policy : FileSystemSandboxPolicy} {cwd candidate : PathBuf}
  (hkind : policy.kind = .restricted)
include hkind

variable (htarget : resolveCandidatePath env candidate cwd = some target)
include htarget

lemma resolveAccessWithCwd_eq
    :
    policy.resolveAccessWithCwd env candidate cwd =
      accessAt (policy.resolvedEntriesWithCwd env cwd) target := by
  simp only [FileSystemSandboxPolicy.resolveAccessWithCwd, hkind, htarget]

lemma isMetadataWriteDenied_eq
    :
    policy.isMetadataWriteDenied env candidate cwd =
      !metadataOpen (policy.resolvedEntriesWithCwd env cwd) target := by
  unfold FileSystemSandboxPolicy.isMetadataWriteDenied metadataOpen
  simp only [hkind, htarget, if_true, FileSystemSandboxPolicy.metadataChildOfWritableRoot,
    FileSystemSandboxPolicy.hasExplicitWriteEntryForMetadataPath]
  cases (metadataChildren (policy.resolvedEntriesWithCwd env cwd) target).head? <;> rfl

/-- Writing at a path: the governing entry is a write entry, and the metadata directory the policy
looks at is open or the whole disk is writable. -/
theorem canWritePathWithCwd_eq
    :
    policy.canWritePathWithCwd env candidate cwd =
      (decide (accessAt (policy.resolvedEntriesWithCwd env cwd) target = .write) &&
        (policy.hasFullDiskWriteAccess ||
          metadataOpen (policy.resolvedEntriesWithCwd env cwd) target)) := by
  unfold FileSystemSandboxPolicy.canWritePathWithCwd
  rw [resolveAccessWithCwd_eq hkind htarget, isMetadataWriteDenied_eq hkind htarget]
  by_cases hwrite : accessAt (policy.resolvedEntriesWithCwd env cwd) target = .write
  · cases policy.hasFullDiskWriteAccess <;> simp [hwrite]
  · simp [hwrite]

omit htarget

omit hkind

@[simp] lemma resolveCandidatePath_asPath (env : Environment) (path : AbsolutePathBuf)
    (cwd : PathBuf) : resolveCandidatePath env (asPath path) cwd = some path := by
  have habs : isAbsolute (asPath path) = true := rfl
  rw [resolveCandidatePath, if_pos habs, fromAbsolutePath_asPath]

lemma forbiddenAgentMetadataWrite_eq (hkind : policy.kind = .restricted)
    (htarget : resolveCandidatePath env candidate cwd = some target) :
    forbiddenAgentMetadataWrite env candidate cwd policy =
      match (metadataChildren (policy.resolvedEntriesWithCwd env cwd) target).head? with
      | none => none
      | some m =>
        if hasExplicitWriteEntry (policy.resolvedEntriesWithCwd env cwd) m.1 target then none
        else if policy.canWritePathWithCwd env candidate cwd then none
        else some m.2 := by
  have hcan : policy.canWritePathWithCwd env (asPath target) cwd =
      policy.canWritePathWithCwd env candidate cwd := by
    rw [canWritePathWithCwd_eq hkind htarget,
      canWritePathWithCwd_eq hkind (resolveCandidatePath_asPath env target cwd)]
  unfold forbiddenAgentMetadataWrite
  rw [if_pos hkind, htarget, ← hcan]
  simp only [FileSystemSandboxPolicy.metadataChildOfWritableRoot, Option.bind_eq_bind,
    Option.bind_some, FileSystemSandboxPolicy.hasExplicitWriteEntryForMetadataPath]
  cases (metadataChildren (policy.resolvedEntriesWithCwd env cwd) target).head? with
  | none => rfl
  | some m => cases policy.canWritePathWithCwd env (asPath target) cwd <;> rfl

end Codex.Permissions
