import Codex.Permissions.ReadableRoots

/-!
# Semantic equivalence of policies

`is_semantically_equivalent_to` compares what two policies amount to at a working directory: the
full-disk flags and the sorted roots that may be read, written and not read. Equal signatures are
meant to be equal access.

* `access_of_sameRoots`, `canWrite_of_sameRoots`: so does writing, except in a directory that the
  `.git` file of a workspace points to;
* `accessAgrees_iff`: exactly when equivalent policies agree.
-/

namespace Codex.Permissions

open Codex.Lib

/-! ### The signature -/

def sortedAbsolutePaths (paths : List AbsolutePathBuf) : List AbsolutePathBuf :=
  paths.insertionSort (· ≤ ·)

/-- The loop body of `sorted_writable_roots` -/
def sortedWritableRoot (root : WritableRoot) : WritableRoot :=
  { root with
    readOnlySubpaths := sortedAbsolutePaths root.readOnlySubpaths
    protectedMetadataNames :=
      (root.protectedMetadataNames.insertionSort (· ≤ ·)).destutter (· ≠ ·) }

def sortedWritableRoots (roots : List WritableRoot) : List WritableRoot :=
  (roots.map sortedWritableRoot).insertionSort fun left right => left.root ≤ right.root

structure FileSystemSemanticSignature where
  hasFullDiskReadAccess : Bool
  hasFullDiskWriteAccess : Bool
  includePlatformDefaults : Bool
  readableRoots : List AbsolutePathBuf
  writableRoots : List WritableRoot
  unreadableRoots : List AbsolutePathBuf
  unreadableGlobs : List Text
  deriving DecidableEq

namespace FileSystemSandboxPolicy

def semanticSignature (env : Environment) (policy : FileSystemSandboxPolicy) (cwd : PathBuf) :
    FileSystemSemanticSignature where
  hasFullDiskReadAccess := policy.hasFullDiskReadAccess
  hasFullDiskWriteAccess := policy.hasFullDiskWriteAccess
  includePlatformDefaults := policy.includePlatformDefaults
  readableRoots := sortedAbsolutePaths (policy.getReadableRootsWithCwd env cwd)
  writableRoots := sortedWritableRoots (policy.getWritableRootsWithCwd env cwd)
  unreadableRoots := sortedAbsolutePaths (policy.getUnreadableRootsWithCwd env cwd)
  unreadableGlobs := policy.getUnreadableGlobsWithCwd env cwd

def isSemanticallyEquivalentTo (env : Environment) (policy other : FileSystemSandboxPolicy)
    (cwd : PathBuf) : Bool :=
  policy.semanticSignature env cwd = other.semanticSignature env cwd

end FileSystemSandboxPolicy

/-! ### What equal signatures say -/

variable {env : Environment} {P Q : FileSystemSandboxPolicy} {cwd : PathBuf}
  {p path : AbsolutePathBuf} {entries : List ResolvedFileSystemEntry}
  {g e : ResolvedFileSystemEntry}

lemma mem_sortedAbsolutePaths {paths : List AbsolutePathBuf} :
    path ∈ sortedAbsolutePaths paths ↔ path ∈ paths :=
  (List.perm_insertionSort _ _).mem_iff

lemma mem_destutter_ne {α : Type} [DecidableEq α] {x : α} {l : List α} :
    x ∈ l.destutter (· ≠ ·) ↔ x ∈ l := by
  have hcons : ∀ (l : List α) (y : α), x ∈ l.destutter' (· ≠ ·) y ↔ x = y ∨ x ∈ l := by
    intro l
    induction l with
    | nil => simp
    | cons z l ih =>
      intro y
      by_cases hyz : y = z
      · subst hyz
        rw [List.destutter'_cons_neg _ (by simp), ih]
        simp
      · rw [List.destutter'_cons_pos _ hyz, List.mem_cons, ih, List.mem_cons]
  cases l with
  | nil => simp
  | cons y l => rw [List.destutter_cons', hcons, List.mem_cons]

/-- Equal sorted lists of roots have the same roots with the same read-only subpaths and protected
names. -/
theorem exists_root_of_sorted_eq {roots roots' : List WritableRoot}
    (h : sortedWritableRoots roots = sortedWritableRoots roots') {w : WritableRoot}
    (hw : w ∈ roots) :
    ∃ w' ∈ roots', w'.root = w.root ∧ (∀ s, s ∈ w'.readOnlySubpaths ↔ s ∈ w.readOnlySubpaths) ∧
      ∀ name, name ∈ w'.protectedMetadataNames ↔ name ∈ w.protectedMetadataNames := by
  have hmem : sortedWritableRoot w ∈ sortedWritableRoots roots :=
    (List.perm_insertionSort _ _).mem_iff.mpr (List.mem_map_of_mem hw)
  rw [h] at hmem
  obtain ⟨w', hw', heq⟩ := List.mem_map.mp ((List.perm_insertionSort _ _).mem_iff.mp hmem)
  have hroot : (sortedWritableRoot w').root = (sortedWritableRoot w).root :=
    congrArg WritableRoot.root heq
  refine ⟨w', hw', hroot, fun s => ?_, fun name => ?_⟩
  · have hsub := congrArg (fun w => s ∈ w.readOnlySubpaths) heq
    simp only [sortedWritableRoot, mem_sortedAbsolutePaths] at hsub
    exact iff_of_eq hsub
  · have hnames := congrArg (fun w => name ∈ w.protectedMetadataNames) heq
    simp only [sortedWritableRoot, mem_destutter_ne, List.mem_insertionSort] at hnames
    exact iff_of_eq hnames

/-- What equal signatures say about membership in the roots. -/
structure SameRoots (env : Environment) (P Q : FileSystemSandboxPolicy) (cwd : PathBuf) :
    Prop where
  fullRead : P.hasFullDiskReadAccess = Q.hasFullDiskReadAccess
  fullWrite : P.hasFullDiskWriteAccess = Q.hasFullDiskWriteAccess
  readable : ∀ s, s ∈ P.getReadableRootsWithCwd env cwd ↔ s ∈ Q.getReadableRootsWithCwd env cwd
  writable : ∀ w ∈ P.getWritableRootsWithCwd env cwd,
    ∃ w' ∈ Q.getWritableRootsWithCwd env cwd, w'.root = w.root ∧
      (∀ s, s ∈ w'.readOnlySubpaths ↔ s ∈ w.readOnlySubpaths) ∧
      ∀ name, name ∈ w'.protectedMetadataNames ↔ name ∈ w.protectedMetadataNames
  unreadable : ∀ s,
    s ∈ P.getUnreadableRootsWithCwd env cwd ↔ s ∈ Q.getUnreadableRootsWithCwd env cwd

variable (h : P.isSemanticallyEquivalentTo env Q cwd = true)
include h

lemma sameRoots_of_equivalent : SameRoots env P Q cwd := by
  have hsig : P.semanticSignature env cwd = Q.semanticSignature env cwd := of_decide_eq_true h
  have hreadable := congrArg FileSystemSemanticSignature.readableRoots hsig
  have hunreadable := congrArg FileSystemSemanticSignature.unreadableRoots hsig
  refine ⟨congrArg FileSystemSemanticSignature.hasFullDiskReadAccess hsig,
    congrArg FileSystemSemanticSignature.hasFullDiskWriteAccess hsig, fun s => ?_,
    fun w hw => exists_root_of_sorted_eq
      (congrArg FileSystemSemanticSignature.writableRoots hsig) hw, fun s => ?_⟩
  · exact mem_sortedAbsolutePaths.symm.trans
      ((iff_of_eq (congrArg (s ∈ ·) hreadable)).trans mem_sortedAbsolutePaths)
  · exact mem_sortedAbsolutePaths.symm.trans
      ((iff_of_eq (congrArg (s ∈ ·) hunreadable)).trans mem_sortedAbsolutePaths)

lemma isSemanticallyEquivalentTo_symm : Q.isSemanticallyEquivalentTo env P cwd = true :=
  decide_eq_true (of_decide_eq_true h).symm

omit h

/-! ### Reading agrees -/

/-- Full-disk read access is lost only by a restricted policy. -/
theorem restricted_of_not_fullDiskRead (h : P.hasFullDiskReadAccess = false) :
    P.kind = .restricted := by
  cases hkind : P.kind with
  | restricted => rfl
  | unrestricted => simp [FileSystemSandboxPolicy.hasFullDiskReadAccess, hkind] at h
  | externalSandbox => simp [FileSystemSandboxPolicy.hasFullDiskReadAccess, hkind] at h

lemma accessAt_ne_deny_of_sameRoots (hP : CanonicalEntries env P cwd)
    (hQ : CanonicalEntries env Q cwd)
    (hsame : SameRoots env P Q cwd) (hfull : P.hasFullDiskReadAccess = false)
    (h : accessAt (P.resolvedEntriesWithCwd env cwd) p ≠ .deny) :
    accessAt (Q.resolvedEntriesWithCwd env cwd) p ≠ .deny := by
  have hfullQ : Q.hasFullDiskReadAccess = false := hsame.fullRead ▸ hfull
  have hkind := restricted_of_not_fullDiskRead hfull
  have hkindQ := restricted_of_not_fullDiskRead hfullQ
  obtain ⟨g, hg, haccess⟩ | ⟨-, hdeny⟩ := accessAt_spec (P.resolvedEntriesWithCwd env cwd) p
  · rw [haccess] at h
    have hown := accessAt_of_governs (hg.of_prefix (List.prefix_refl _) hg.2.1)
    have hroot := (mem_readableRoots_iff hP hkind hfull).mpr ⟨g, hg.1, h, hown ▸ h, rfl⟩
    obtain ⟨e, -, -, heaccess, heq⟩ :=
      (mem_readableRoots_iff hQ hkindQ hfullQ).mp ((hsame.readable _).mp hroot)
    refine accessAt_ne_deny (heq ▸ hg.2.1) heaccess fun d hd hdeny hdp => ?_
    by_contra hle
    -- a deny entry of `Q` below the readable root is one of `P`, below its governing entry
    have hlen : g.path.length ≤ d.path.length := by
      rw [← heq]
      exact not_lt.mp hle
    have hne : d.path.length ≠ g.path.length := by
      intro hlen'
      have hpath : e.path = d.path := heq.trans
        ((List.prefix_of_prefix_length_le hg.2.1 hdp hlen).eq_of_length hlen'.symm)
      exact heaccess (hpath ▸ accessAt_of_deny hd hdeny)
    have hnotroot : (fromAbsolutePath env cwd).map absoluteRootPathForCwd ≠ some d.path := by
      intro hroot'
      obtain ⟨c, -, hc⟩ := Option.map_eq_some_iff.mp hroot'
      have hnil : d.path.length = 0 := by rw [← hc]; rfl
      omega
    have hunreadable := (mem_unreadableRoots_iff hQ hkindQ).mpr ⟨d, hd, hdeny, hnotroot, rfl⟩
    obtain ⟨d', hd', hdeny', -, hpath⟩ :=
      (mem_unreadableRoots_iff hP hkind).mp ((hsame.unreadable _).mpr hunreadable)
    have hle' := hg.length_le hd' (hpath ▸ hdp)
    rw [hpath] at hle'
    omega
  · exact absurd hdeny h

lemma canRead_of_equivalent (hcwd : isAbsolute cwd = true) (hP : CanonicalEntries env P cwd)
    (hQ : CanonicalEntries env Q cwd) (h : P.isSemanticallyEquivalentTo env Q cwd = true)
    (p : AbsolutePathBuf) :
    P.canReadPathWithCwd env (asPath p) cwd = Q.canReadPathWithCwd env (asPath p) cwd := by
  have hsame := sameRoots_of_equivalent h
  have hsame' := sameRoots_of_equivalent (isSemanticallyEquivalentTo_symm h)
  cases hfull : P.hasFullDiskReadAccess with
  | true =>
    rw [canRead_of_fullDiskRead hcwd hfull, canRead_of_fullDiskRead hcwd (hsame.fullRead ▸ hfull)]
  | false =>
    have hfullQ : Q.hasFullDiskReadAccess = false := hsame.fullRead ▸ hfull
    rw [Bool.eq_iff_iff, canRead_asPath (restricted_of_not_fullDiskRead hfull),
      canRead_asPath (restricted_of_not_fullDiskRead hfullQ)]
    exact ⟨accessAt_ne_deny_of_sameRoots hP hQ hsame hfull,
      accessAt_ne_deny_of_sameRoots hQ hP hsame' hfullQ⟩

/-! ### Where writing can differ -/

/-- The path lies in the directory that the `.git` file of its governing write entry points to, and
the policy looks at no closed metadata directory. -/
def PointedDirOpen (env : Environment) (policy : FileSystemSandboxPolicy) (cwd : PathBuf)
    (p : AbsolutePathBuf) : Prop :=
  policy.kind = .restricted ∧ policy.hasFullDiskWriteAccess = false ∧
    ∃ g dir, EntryGoverns (policy.resolvedEntriesWithCwd env cwd) p g ∧ g.access = .write ∧
      env.isFile (join g.path ".git".toList) = true ∧
      env.resolveGitdirFromFile (join g.path ".git".toList) = some dir ∧ dir <+: p ∧
      policy.isMetadataWriteDenied env (asPath p) cwd = false

/-- The whole disk counts as writable, but a read entry at `/tmp` governs the path. -/
def TmpReadOnly (env : Environment) (policy : FileSystemSandboxPolicy) (cwd : PathBuf)
    (p : AbsolutePathBuf) : Prop :=
  policy.kind = .restricted ∧ policy.hasFullDiskWriteAccess = true ∧
    ∃ g, EntryGoverns (policy.resolvedEntriesWithCwd env cwd) p g ∧ g.path = slashTmpPath ∧
      g.access = .read

/-! ### Writing with equal roots -/

/-- Full-disk write access is lost only by a restricted policy. -/
theorem restricted_of_not_fullDiskWrite (h : P.hasFullDiskWriteAccess = false) :
    P.kind = .restricted := by
  cases hkind : P.kind with
  | restricted => rfl
  | unrestricted => simp [FileSystemSandboxPolicy.hasFullDiskWriteAccess, hkind] at h
  | externalSandbox => simp [FileSystemSandboxPolicy.hasFullDiskWriteAccess, hkind] at h

lemma mem_writableRoots_iff (hcanon : CanonicalEntries env P cwd)
    (hfull : P.hasFullDiskWriteAccess = false) {w : WritableRoot} :
    w ∈ P.getWritableRootsWithCwd env cwd ↔
      ∃ r ∈ P.resolvedEntriesWithCwd env cwd, r.access = .write ∧
        accessAt (P.resolvedEntriesWithCwd env cwd) r.path = .write ∧
          P.writableRootAt env cwd r.path = w := by
  have hkind := restricted_of_not_fullDiskWrite hfull
  unfold FileSystemSandboxPolicy.getWritableRootsWithCwd
  rw [hfull, if_neg Bool.false_ne_true, List.mem_map]
  constructor
  · rintro ⟨root, hroot, rfl⟩
    rw [mem_dedupAbsolutePaths, mem_writableEntries_iff hkind hfull] at hroot
    · obtain ⟨r, hr, hwrite, haccess, rfl⟩ := hroot
      exact ⟨r, hr, hwrite, haccess, rfl⟩
    · intro _ path hpath
      obtain ⟨r, hr, -, -, rfl⟩ := (mem_writableEntries_iff hkind hfull).mp hpath
      exact hcanon r hr
  · rintro ⟨r, hr, hwrite, haccess, rfl⟩
    refine ⟨r.path, ?_, rfl⟩
    rw [mem_dedupAbsolutePaths, mem_writableEntries_iff hkind hfull]
    · exact ⟨r, hr, hwrite, haccess, rfl⟩
    · intro _ path hpath
      obtain ⟨r, hr, -, -, rfl⟩ := (mem_writableEntries_iff hkind hfull).mp hpath
      exact hcanon r hr

lemma isMetadataWriteDenied_eq_false_iff (hkind : P.kind = .restricted) (p : AbsolutePathBuf) :
    P.isMetadataWriteDenied env (asPath p) cwd = false ↔
      metadataOpen (P.resolvedEntriesWithCwd env cwd) p = true := by
  rw [isMetadataWriteDenied_eq hkind (resolveCandidatePath_asPath env p cwd)]
  simp

section sameRoots

variable (hP : CanonicalEntries env P cwd) (hQ : CanonicalEntries env Q cwd)
  (hsame : SameRoots env P Q cwd) (hfull : P.hasFullDiskWriteAccess = false)

include hP hQ hsame hfull

variable (hg : EntryGoverns (P.resolvedEntriesWithCwd env cwd) p g)
include hg

/-- A governing write entry of one policy is a writable root of the other, with the same read-only
subpaths and protected names. -/
theorem exists_entry_of_sameRoots (hwrite : g.access = .write) :
    (∃ r ∈ Q.resolvedEntriesWithCwd env cwd, r.path = g.path ∧
        accessAt (Q.resolvedEntriesWithCwd env cwd) r.path = .write) ∧
      (∀ s, s ∈ (Q.writableRootAt env cwd g.path).readOnlySubpaths ↔
        s ∈ (P.writableRootAt env cwd g.path).readOnlySubpaths) ∧
      ∀ name, name ∈ (Q.writableRootAt env cwd g.path).protectedMetadataNames ↔
        name ∈ (P.writableRootAt env cwd g.path).protectedMetadataNames := by
  have hown := accessAt_of_governs (hg.of_prefix (List.prefix_refl _) hg.2.1)
  have hroot := (mem_writableRoots_iff hP hfull).mpr ⟨g, hg.1, hwrite, hown.trans hwrite, rfl⟩
  obtain ⟨w, hw, hpath, hsub, hnames⟩ := hsame.writable _ hroot
  obtain ⟨r, hr, -, haccess, rfl⟩ := (mem_writableRoots_iff hQ (hsame.fullWrite ▸ hfull)).mp hw
  have hpath' : r.path = g.path := hpath
  rw [hpath'] at hsub hnames
  exact ⟨⟨r, hr, hpath', haccess⟩, hsub, hnames⟩

/-- Where the governing write entry of one policy leaves its metadata directory open, so does the
other policy. -/
theorem canWrite_join_of_sameRoots
    (hwrite : g.access = .write) (hopen : metadataOpen (P.resolvedEntriesWithCwd env cwd) p = true)
    {name : Text} (hname : name ∈ protectedMetadataPathNames) (hpath : join g.path name <+: p) :
    Q.canWritePathWithCwd env (asPath (join g.path name)) cwd = true := by
  have hfullQ : Q.hasFullDiskWriteAccess = false := hsame.fullWrite ▸ hfull
  have hkind := restricted_of_not_fullDiskWrite hfull
  have hkindQ := restricted_of_not_fullDiskWrite hfullQ
  obtain ⟨-, -, hnames⟩ := exists_entry_of_sameRoots hP hQ hsame hfull hg hwrite
  have haccess := accessAt_of_governs (hg.of_prefix (List.prefix_append _ [name]) hpath)
  have hcan : P.canWritePathWithCwd env (asPath (join g.path name)) cwd = true := by
    rw [canWrite_asPath hkind hfull, metadataOpen_join hg hpath]
    exact ⟨haccess.trans hwrite, hopen⟩
  by_contra hnot
  have hmem := (hnames name).mp ((mem_protectedMetadataNames_iff hQ hkindQ hfullQ).mpr
    ⟨hname, Bool.eq_false_iff.mpr hnot⟩)
  have hfalse := ((mem_protectedMetadataNames_iff hP hkind hfull).mp hmem).2
  rw [hcan] at hfalse
  cases hfalse

omit hg

/-- Where one policy lets a path be written, the other gives write access to it, unless the path
lies in a directory that a `.git` file points to and only the first leaves that open. -/
theorem access_of_sameRoots (hpointed : PointedDirOpen env P cwd p → PointedDirOpen env Q cwd p)
    (hg : EntryGoverns (P.resolvedEntriesWithCwd env cwd) p g) (hwrite : g.access = .write)
    (hopen : metadataOpen (P.resolvedEntriesWithCwd env cwd) p = true) :
    accessAt (Q.resolvedEntriesWithCwd env cwd) p = .write := by
  have hfullQ : Q.hasFullDiskWriteAccess = false := hsame.fullWrite ▸ hfull
  have hkind := restricted_of_not_fullDiskWrite hfull
  have hkindQ := restricted_of_not_fullDiskWrite hfullQ
  obtain ⟨⟨r, hr, hpath, haccess⟩, hsub, -⟩ := exists_entry_of_sameRoots hP hQ hsame hfull hg hwrite
  obtain ⟨h, hh, hha⟩ | ⟨hnone, -⟩ := accessAt_spec (Q.resolvedEntriesWithCwd env cwd) p
  · rw [hha]
    by_contra hne
    -- the entry that takes the access away is a carveout, so it is one for `P` as well
    have hgh : g.path <+: h.path := hpath ▸ hh.path_prefix hr (hpath ▸ hg.2.1)
    have hown := accessAt_of_governs (hh.of_prefix (List.prefix_refl _) hh.2.1)
    have hdiff : h.path ≠ g.path := by
      intro heq
      rw [hpath, ← heq, hown] at haccess
      exact hne haccess
    have hmem := (hsub h.path).mp ((mem_readOnlySubpaths_iff hQ hkindQ hfullQ).mpr
      (.inr ⟨h, hh.1, hne, hown ▸ hne, hgh, hdiff, rfl⟩))
    rcases (mem_readOnlySubpaths_iff hP hkind hfull).mp hmem with
      ⟨hdefault, -⟩ | ⟨e, he, -, -, -, -, heq⟩
    · rcases mem_defaultReadOnlySubpaths hdefault with ⟨name, hname, hjoin⟩ | ⟨hfile, hdir⟩
      · have hcan := canWrite_join_of_sameRoots hP hQ hsame hfull hg hwrite hopen hname
          (hjoin ▸ hh.2.1)
        rw [← hjoin, canWrite_asPath hkindQ hfullQ, hown] at hcan
        exact hne hcan.1
      · have hP' : PointedDirOpen env P cwd p := ⟨hkind, hfull, g, h.path, hg, hwrite, hfile, hdir,
          hh.2.1, (isMetadataWriteDenied_eq_false_iff hkind p).mpr hopen⟩
        obtain ⟨-, -, g', -, hg', hwrite', -⟩ := hpointed hP'
        rw [hh.access_unique hg', hwrite'] at hne
        exact hne rfl
    · have hle := hg.length_le he (heq ▸ hh.2.1)
      rw [← heq] at hle
      exact hdiff (hgh.eq_of_length (le_antisymm hgh.length_le hle)).symm
  · exact absurd hg.2.1 (hpath ▸ hnone r hr)

variable (hsame' : SameRoots env Q P cwd)
include hsame'

/-- Write entries that govern one path in both policies stand at the same path. -/
theorem path_eq_of_sameRoots {h : ResolvedFileSystemEntry}
    (hg : EntryGoverns (P.resolvedEntriesWithCwd env cwd) p g) (hwrite : g.access = .write)
    (hh : EntryGoverns (Q.resolvedEntriesWithCwd env cwd) p h) (hwrite' : h.access = .write) :
    g.path = h.path := by
  obtain ⟨⟨r, hr, hpath, -⟩, -⟩ := exists_entry_of_sameRoots hP hQ hsame hfull hg hwrite
  obtain ⟨⟨r', hr', hpath', -⟩, -⟩ :=
    exists_entry_of_sameRoots hQ hP hsame' (hsame.fullWrite ▸ hfull) hh hwrite'
  have hgh : g.path <+: h.path := hpath ▸ hh.path_prefix hr (hpath ▸ hg.2.1)
  have hhg : h.path <+: g.path := hpath' ▸ hg.path_prefix hr' (hpath' ▸ hh.2.1)
  exact hgh.eq_of_length (le_antisymm hgh.length_le hhg.length_le)

lemma canWrite_of_sameRoots (hpointed : PointedDirOpen env P cwd p → PointedDirOpen env Q cwd p)
    (hcan : P.canWritePathWithCwd env (asPath p) cwd = true) :
    Q.canWritePathWithCwd env (asPath p) cwd = true := by
  have hfullQ : Q.hasFullDiskWriteAccess = false := hsame.fullWrite ▸ hfull
  have hkindQ := restricted_of_not_fullDiskWrite hfullQ
  obtain ⟨haccess, hopen⟩ :=
    (canWrite_asPath (restricted_of_not_fullDiskWrite hfull) hfull p).mp hcan
  obtain ⟨g, hg, hwrite⟩ := accessAt_eq_write_iff.mp haccess
  have haccessQ := access_of_sameRoots hP hQ hsame hfull hpointed hg hwrite hopen
  obtain ⟨h, hh, hwrite'⟩ := accessAt_eq_write_iff.mp haccessQ
  have hpath := path_eq_of_sameRoots hP hQ hsame hfull hsame' hg hwrite hh hwrite'
  refine (canWrite_asPath hkindQ hfullQ p).mpr ⟨haccessQ, ?_⟩
  by_cases hin : ∃ name ∈ protectedMetadataPathNames, join h.path name <+: p
  · obtain ⟨name, hname, hjoin⟩ := hin
    have hcanQ := canWrite_join_of_sameRoots hP hQ hsame hfull hg hwrite hopen hname (hpath ▸ hjoin)
    rw [hpath, canWrite_asPath hkindQ hfullQ, metadataOpen_join hh hjoin] at hcanQ
    exact hcanQ.2
  · push Not at hin
    exact metadataOpen_of_governs hh hwrite' hin

/-- A pointed directory open in one policy is open in the other if that one lets the path be written
too. -/
theorem pointedDirOpen_of_canWrite (hpointed : PointedDirOpen env P cwd p)
    (hcan : P.canWritePathWithCwd env (asPath p) cwd = true →
      Q.canWritePathWithCwd env (asPath p) cwd = true) : PointedDirOpen env Q cwd p := by
  have hfullQ : Q.hasFullDiskWriteAccess = false := hsame.fullWrite ▸ hfull
  have hkindQ := restricted_of_not_fullDiskWrite hfullQ
  obtain ⟨hkind, -, g, dir, hg, hwrite, hfile, hdir, hpath, hdenied⟩ := hpointed
  have haccess := accessAt_eq_write_iff.mpr ⟨g, hg, hwrite⟩
  have hopen := (isMetadataWriteDenied_eq_false_iff hkind p).mp hdenied
  have hcanQ := hcan ((canWrite_asPath hkind hfull p).mpr ⟨haccess, hopen⟩)
  obtain ⟨haccessQ, hopenQ⟩ := (canWrite_asPath hkindQ hfullQ p).mp hcanQ
  obtain ⟨h, hh, hwrite'⟩ := accessAt_eq_write_iff.mp haccessQ
  rw [path_eq_of_sameRoots hP hQ hsame hfull hsame' hg hwrite hh hwrite'] at hfile hdir
  exact ⟨hkindQ, hfullQ, h, dir, hh, hwrite', hfile, hdir, hpath,
    (isMetadataWriteDenied_eq_false_iff hkindQ p).mpr hopenQ⟩

end sameRoots

/-! ### Writing the whole disk -/

lemma eq_of_specialPathsShareTarget {left right : FileSystemSpecialPath}
    (h : specialPathsShareTarget left right = true) : left = right := by
  cases left <;> cases right <;> simp_all [specialPathsShareTarget]

/-- Paths with one target resolve alike, but for `:slash_tmp`, which needs the directory. -/
theorem resolveEntryPath_of_share {left right : FileSystemPath} {q c : AbsolutePathBuf}
    (hshare : fileSystemPathsShareTarget left right = true)
    (hright : resolveEntryPath env (some c) right = some q) :
    resolveEntryPath env (some c) left = some q ∨ q = slashTmpPath := by
  cases left with
  | globPattern pattern => cases right <;> simp_all [fileSystemPathsShareTarget]
  | path l =>
    cases right with
    | globPattern pattern => simp [fileSystemPathsShareTarget] at hshare
    | path r =>
      have heq : l = r := by simpa [fileSystemPathsShareTarget] using hshare
      exact .inl (heq ▸ hright)
    | special value =>
      have hmatch : specialPathMatchesAbsolutePath value l = true := hshare
      cases value with
      | root =>
        have hl : l = [] := by simpa [specialPathMatchesAbsolutePath] using hmatch
        exact .inl (hl ▸ hright)
      | slashTmp =>
        have hq : q = slashTmpPath := by
          simp only [resolveEntryPath, resolveFileSystemPath,
            resolveFileSystemSpecialPath] at hright
          split at hright
          · exact (Option.some_inj.mp hright).symm
          · cases hright
        exact .inr hq
      | _ => simp [specialPathMatchesAbsolutePath] at hmatch
  | special value =>
    cases right with
    | globPattern pattern => simp [fileSystemPathsShareTarget] at hshare
    | path r =>
      have hmatch : specialPathMatchesAbsolutePath value r = true := hshare
      have hq : r = q := Option.some_inj.mp hright
      cases value with
      | root =>
        have hr : r = [] := by simpa [specialPathMatchesAbsolutePath] using hmatch
        refine .inl ?_
        rw [← hq, hr]
        rfl
      | slashTmp =>
        have hr : r = slashTmpPath := by simpa [specialPathMatchesAbsolutePath] using hmatch
        exact .inr (hq.symm.trans hr)
      | _ => simp [specialPathMatchesAbsolutePath] at hmatch
    | special value' =>
      exact .inl (eq_of_specialPathsShareTarget hshare ▸ hright)

/-- An entry that resolves and does not narrow has a write entry for the same target, or is a read
entry of the root. -/
theorem override_of_not_narrowing (hkind : P.kind = .restricted)
    (hnarrow : P.hasWriteNarrowingEntries = false) {entry : FileSystemSandboxEntry}
    (hentry : entry ∈ P.entries) (hne : entry.access ≠ .write) {c : Option AbsolutePathBuf}
    {q : AbsolutePathBuf} (hres : resolveEntryPath env c entry.path = some q) :
    P.hasSameTargetWriteOverride entry = true ∨
      entry.path = .special .root ∧ entry.access = .read := by
  have hnot : entry.access.canWrite = false := by
    rw [← Bool.not_eq_true, FileSystemAccessMode.canWrite_eq_true_iff]
    exact hne
  rw [FileSystemSandboxPolicy.hasWriteNarrowingEntries, decide_eq_true hkind, Bool.true_and,
    List.any_eq_false] at hnarrow
  have hpass := hnarrow entry hentry
  cases hpath : entry.path with
  | path path =>
    simp only [hpath, hnot] at hpass
    exact .inl (by simpa using hpass)
  | globPattern pattern =>
    simp [hpath, resolveEntryPath, resolveFileSystemPath] at hres
  | special value =>
    cases value with
    | root =>
      refine .inr ⟨rfl, ?_⟩
      simp only [hpath, hnot] at hpass
      cases haccess : entry.access with
      | read => rfl
      | write => exact absurd haccess hne
      | deny => exact absurd (by simp [haccess]) hpass
    | minimal =>
      simp [hpath, resolveEntryPath, resolveFileSystemPath, resolveFileSystemSpecialPath] at hres
    | unknown name subpath =>
      simp [hpath, resolveEntryPath, resolveFileSystemPath, resolveFileSystemSpecialPath] at hres
    | projectRoots subpath =>
      simp only [hpath, hnot] at hpass
      exact .inl (by simpa using hpass)
    | tmpdir =>
      simp only [hpath, hnot] at hpass
      exact .inl (by simpa using hpass)
    | slashTmp =>
      simp only [hpath, hnot] at hpass
      exact .inl (by simpa using hpass)

/-- Under full-disk write access a resolved entry that does not give it is a read entry at `/tmp`,
or a write entry stands at its path. -/
theorem override_of_fullDiskWrite (hcwd : isAbsolute cwd = true) (hkind : P.kind = .restricted)
    (hfull : P.hasFullDiskWriteAccess = true) (he : e ∈ P.resolvedEntriesWithCwd env cwd)
    (hne : e.access ≠ .write) :
    e.access = .read ∧ ((∃ c ∈ P.resolvedEntriesWithCwd env cwd, c.access = .write ∧
      c.path = e.path) ∨ e.path = slashTmpPath) := by
  have hres := fromAbsolutePath_of_isAbsolute env hcwd
  simp only [FileSystemSandboxPolicy.hasFullDiskWriteAccess, hkind, Bool.and_eq_true,
    Bool.not_eq_true', FileSystemSandboxPolicy.hasRootAccess, decide_true, Bool.true_and,
    List.any_eq_true, decide_eq_true_iff, FileSystemAccessMode.canWrite_eq_true_iff] at hfull
  obtain ⟨⟨root, hroot, hrootPath, hrootWrite⟩, hnarrow⟩ := hfull
  obtain ⟨source, hsource, hsourceRes⟩ := List.mem_filterMap.mp he
  obtain ⟨q, hq, rfl⟩ := Option.map_eq_some_iff.mp hsourceRes
  rcases override_of_not_narrowing hkind hnarrow hsource hne hq with hoverride | ⟨hpath, hread⟩
  · obtain ⟨c, hc, hcprop⟩ := List.any_eq_true.mp hoverride
    simp only [Bool.and_eq_true, decide_eq_true_iff,
      FileSystemAccessMode.canWrite_eq_true_iff] at hcprop
    obtain ⟨⟨hcwrite, hlt⟩, hshare⟩ := hcprop
    rw [hcwrite] at hlt
    refine ⟨?_, ?_⟩
    · cases haccess : source.access with
      | read => rfl
      | write => exact absurd haccess hne
      | deny => exact absurd (haccess ▸ hlt) (by decide)
    · rw [hres] at hq
      rcases resolveEntryPath_of_share hshare hq with hcres | htmp
      · refine .inl ⟨⟨q, c.access⟩, List.mem_filterMap.mpr ⟨c, hc, ?_⟩, hcwrite, rfl⟩
        rw [hres, resolveEntry, hcres]
        rfl
      · exact .inr htmp
  · refine ⟨hread, .inl ⟨_, mem_resolvedEntries_of_root hcwd hroot hrootPath, hrootWrite, ?_⟩⟩
    rw [hres, hpath] at hq
    exact Option.some_inj.mp hq

/-- Under full-disk write access every path can be written but those that a read entry at `/tmp`
governs. -/
theorem canWrite_iff_of_fullDiskWrite (hcwd : isAbsolute cwd = true)
    (hfull : P.hasFullDiskWriteAccess = true) :
    P.canWritePathWithCwd env (asPath p) cwd = true ↔ ¬ TmpReadOnly env P cwd p := by
  cases hkind : P.kind with
  | unrestricted =>
    simp [FileSystemSandboxPolicy.canWritePathWithCwd, TmpReadOnly, hfull, hkind,
      FileSystemSandboxPolicy.resolveAccessWithCwd, FileSystemAccessMode.canWrite]
  | externalSandbox =>
    simp [FileSystemSandboxPolicy.canWritePathWithCwd, TmpReadOnly, hfull, hkind,
      FileSystemSandboxPolicy.resolveAccessWithCwd, FileSystemAccessMode.canWrite]
  | restricted =>
    rw [canWritePathWithCwd_eq hkind (resolveCandidatePath_asPath env p cwd), hfull]
    simp only [Bool.true_or, Bool.and_true, decide_eq_true_iff]
    constructor
    · rintro hwrite ⟨-, -, g, hg, -, hread⟩
      rw [accessAt_of_governs hg, hread] at hwrite
      cases hwrite
    · intro hnot
      by_contra hne
      obtain ⟨g, hg, haccess⟩ | ⟨hnone, -⟩ := accessAt_spec (P.resolvedEntriesWithCwd env cwd) p
      · rw [haccess] at hne
        obtain ⟨hread, ⟨c, hc, hcwrite, hcpath⟩ | htmp⟩ :=
          override_of_fullDiskWrite hcwd hkind hfull hg.1 hne
        · have hle := hg.access_le hc hcpath
          rw [hcwrite, hread] at hle
          cases hle
        · exact hnot ⟨hkind, hfull, g, hg, htmp, hread⟩
      · have hroot := hfull
        simp only [FileSystemSandboxPolicy.hasFullDiskWriteAccess, hkind, Bool.and_eq_true,
          FileSystemSandboxPolicy.hasRootAccess, decide_true, Bool.true_and, List.any_eq_true,
          decide_eq_true_iff] at hroot
        obtain ⟨⟨root, hmem, hpath, -⟩, -⟩ := hroot
        exact hnone _ (mem_resolvedEntries_of_root hcwd hmem hpath) List.nil_prefix

/-! ### When equivalent policies agree -/

/-- The two policies let the same absolute paths be read and written. -/
def AccessAgrees (env : Environment) (P Q : FileSystemSandboxPolicy) (cwd : PathBuf) : Prop :=
  ∀ path, isAbsolute path = true →
    P.canReadPathWithCwd env path cwd = Q.canReadPathWithCwd env path cwd ∧
      P.canWritePathWithCwd env path cwd = Q.canWritePathWithCwd env path cwd

lemma access_normalizePath (env : Environment) (P : FileSystemSandboxPolicy) (cwd : PathBuf)
    {path : PathBuf} (h : isAbsolute path = true) :
    P.canReadPathWithCwd env path cwd = P.canReadPathWithCwd env (asPath (normalizePath path)) cwd ∧
      P.canWritePathWithCwd env path cwd =
        P.canWritePathWithCwd env (asPath (normalizePath path)) cwd := by
  have hres : resolveCandidatePath env path cwd =
      resolveCandidatePath env (asPath (normalizePath path)) cwd := by
    rw [resolveCandidatePath_asPath, resolveCandidatePath, if_pos h,
      fromAbsolutePath_of_isAbsolute env h]
  have haccess : P.resolveAccessWithCwd env path cwd =
      P.resolveAccessWithCwd env (asPath (normalizePath path)) cwd := by
    simp only [FileSystemSandboxPolicy.resolveAccessWithCwd, hres]
  have hmetadata : P.isMetadataWriteDenied env path cwd =
      P.isMetadataWriteDenied env (asPath (normalizePath path)) cwd := by
    simp only [FileSystemSandboxPolicy.isMetadataWriteDenied, hres]
  constructor
  · rw [FileSystemSandboxPolicy.canReadPathWithCwd, haccess]
    rfl
  · rw [FileSystemSandboxPolicy.canWritePathWithCwd, haccess, hmetadata]
    rfl

/-- Policies of canonical entries that are semantically equivalent let the same be read; and they
let the same be written if and only if they leave the same of the directories that `.git` files
point to open, and the same of `/tmp` read-only. -/
theorem accessAgrees_iff_of_canonical (hcwd : isAbsolute cwd = true)
    (hP : CanonicalEntries env P cwd) (hQ : CanonicalEntries env Q cwd)
    (h : P.isSemanticallyEquivalentTo env Q cwd = true) :
    AccessAgrees env P Q cwd ↔ ∀ p, (PointedDirOpen env P cwd p ↔ PointedDirOpen env Q cwd p) ∧
        (TmpReadOnly env P cwd p ↔ TmpReadOnly env Q cwd p) := by
  have hsame := sameRoots_of_equivalent h
  have hsame' := sameRoots_of_equivalent (isSemanticallyEquivalentTo_symm h)
  have hwrites : AccessAgrees env P Q cwd ↔ ∀ p,
      (P.canWritePathWithCwd env (asPath p) cwd = true ↔
        Q.canWritePathWithCwd env (asPath p) cwd = true) := by
    constructor
    · intro hagree p
      rw [(hagree (asPath p) rfl).2]
    · intro hwrite path habs
      obtain ⟨hreadP, hwriteP⟩ := access_normalizePath env P cwd habs
      obtain ⟨hreadQ, hwriteQ⟩ := access_normalizePath env Q cwd habs
      rw [hreadP, hreadQ, hwriteP, hwriteQ]
      exact ⟨canRead_of_equivalent hcwd hP hQ h _, Bool.eq_iff_iff.mpr (hwrite _)⟩
  rw [hwrites]
  refine forall_congr' fun p => ?_
  cases hfull : P.hasFullDiskWriteAccess with
  | true =>
    have hfullQ : Q.hasFullDiskWriteAccess = true := hsame.fullWrite ▸ hfull
    have hnone : ∀ R : FileSystemSandboxPolicy, R.hasFullDiskWriteAccess = true →
        ¬ PointedDirOpen env R cwd p := by
      rintro R hR ⟨-, hnot, -⟩
      cases hR.symm.trans hnot
    rw [canWrite_iff_of_fullDiskWrite hcwd hfull, canWrite_iff_of_fullDiskWrite hcwd hfullQ,
      not_iff_not]
    exact ⟨fun htmp => ⟨iff_of_false (hnone P hfull) (hnone Q hfullQ), htmp⟩, fun hand => hand.2⟩
  | false =>
    have hfullQ : Q.hasFullDiskWriteAccess = false := hsame.fullWrite ▸ hfull
    have hnone : ∀ R : FileSystemSandboxPolicy, R.hasFullDiskWriteAccess = false →
        ¬ TmpReadOnly env R cwd p := by
      rintro R hR ⟨-, hnot, -⟩
      cases hR.symm.trans hnot
    constructor
    · intro hcan
      refine ⟨⟨fun hopen => ?_, fun hopen => ?_⟩, iff_of_false (hnone P hfull) (hnone Q hfullQ)⟩
      · exact pointedDirOpen_of_canWrite hP hQ hsame hfull hsame' hopen hcan.mp
      · exact pointedDirOpen_of_canWrite hQ hP hsame' hfullQ hsame hopen hcan.mpr
    · rintro ⟨hopen, -⟩
      exact ⟨canWrite_of_sameRoots hP hQ hsame hfull hsame' hopen.mp,
        canWrite_of_sameRoots hQ hP hsame' hfullQ hsame hopen.mpr⟩

/-- The disk with links taken as they are spelled. -/
def Environment.asSpelled (env : Environment) : Environment :=
  { env with canonicalizePreservingSymlinks := fun path => path }

/-- The signatures need no link to be followed: the entries are canonical, or the policies are
equivalent with their roots compared as they are spelled. -/
def ComparedAsSpelled (env : Environment) (P Q : FileSystemSandboxPolicy) (cwd : PathBuf) : Prop :=
  (CanonicalEntries env P cwd ∧ CanonicalEntries env Q cwd) ∨
    P.isSemanticallyEquivalentTo env.asSpelled Q cwd = true

/-- **When equivalent policies agree.** Policies that are semantically equivalent, and for whose
roots no link has to be followed, let the same be read; and they let the same be written if and only
if they leave the same of the directories that `.git` files point to open, and the same of `/tmp`
read-only. -/
theorem accessAgrees_iff (hcwd : isAbsolute cwd = true)
    (h : P.isSemanticallyEquivalentTo env Q cwd = true) (hspelled : ComparedAsSpelled env P Q cwd) :
    AccessAgrees env P Q cwd ↔ ∀ p, (PointedDirOpen env P cwd p ↔ PointedDirOpen env Q cwd p) ∧
        (TmpReadOnly env P cwd p ↔ TmpReadOnly env Q cwd p) := by
  rcases hspelled with ⟨hP, hQ⟩ | hspelled
  · exact accessAgrees_iff_of_canonical hcwd hP hQ h
  · -- reads and writes do not follow links, so they are the same on the disk as spelled
    have hcanon : ∀ R : FileSystemSandboxPolicy, CanonicalEntries env.asSpelled R cwd :=
      fun _ _ _ => normalizeEffectiveAbsolutePath_eq (fun _ => rfl) _
    have hagrees := accessAgrees_iff_of_canonical hcwd (hcanon P) (hcanon Q) hspelled
    exact hagrees

/-- A workspace whose `.git` is a file that points to a directory of the workspace. -/
def pointerEnvironment : Environment :=
  { emptyEnvironment with
    isFile := fun path => path = ["w".toList, ".git".toList]
    exists? := fun path => path = ["w".toList, ".git".toList]
    resolveGitdirFromFile := fun path =>
      if path = ["w".toList, ".git".toList] then some ["w".toList, "g".toList] else none }

/-- A workspace below a readable disk. -/
def workspacePolicy : FileSystemSandboxPolicy :=
  .ofEntries [⟨.special .root, .read⟩, ⟨.path ["w".toList], .write⟩]

/-- The same with a read entry at the directory that `.git` points to. -/
def readOnlyGitdirPolicy : FileSystemSandboxPolicy :=
  .ofEntries [⟨.special .root, .read⟩, ⟨.path ["w".toList], .write⟩,
    ⟨.path ["w".toList, "g".toList], .read⟩]

/-- The policies are semantically equivalent, and only one lets the pointed directory be written. -/
theorem equivalent_policies_disagree :
    workspacePolicy.isSemanticallyEquivalentTo pointerEnvironment readOnlyGitdirPolicy
        (asPath ["w".toList]) = true ∧
      ¬ AccessAgrees pointerEnvironment workspacePolicy readOnlyGitdirPolicy
        (asPath ["w".toList]) := by
  refine ⟨by decide +kernel, fun h => ?_⟩
  have hwrite := (h (asPath ["w".toList, "g".toList, "f".toList]) rfl).2
  cases hwrite

/-- A disk on which `/tmp` is a link to `/private/tmp`. -/
def linkEnvironment : Environment :=
  { emptyEnvironment with
    exists? := fun path => path = ["tmp".toList]
    canonicalizePreservingSymlinks := fun path =>
      if path = ["tmp".toList] then ["private".toList, "tmp".toList] else path }

/-- Roots that one link leads to make policies semantically equivalent, and only one lets the path
below the link be written. -/
theorem linked_policies_disagree :
    FileSystemSandboxPolicy.isSemanticallyEquivalentTo linkEnvironment
        (.ofEntries [⟨.path ["tmp".toList], .write⟩])
        (.ofEntries [⟨.path ["private".toList, "tmp".toList], .write⟩]) (asPath []) = true ∧
      ¬ AccessAgrees linkEnvironment (.ofEntries [⟨.path ["tmp".toList], .write⟩])
        (.ofEntries [⟨.path ["private".toList, "tmp".toList], .write⟩]) (asPath []) := by
  refine ⟨by decide +kernel, fun h => ?_⟩
  have hwrite := (h (asPath ["tmp".toList, "f".toList]) rfl).2
  cases hwrite

/-- A workspace below a readable disk, with `/tmp` writable through the link. -/
def linkedPolicy : FileSystemSandboxPolicy :=
  .ofEntries [⟨.special .root, .read⟩, ⟨.path ["w".toList], .write⟩,
    ⟨.path ["tmp".toList], .write⟩]

/-- The entries in the other order. -/
theorem accessAgrees_iff_workspace :
    AccessAgrees linkEnvironment linkedPolicy
      { linkedPolicy with entries := linkedPolicy.entries.reverse } (asPath ["w".toList]) := by
  refine (accessAgrees_iff rfl (by decide +kernel) (.inr (by decide +kernel))).mpr fun p => ?_
  have hpointed : ∀ R, ¬ PointedDirOpen linkEnvironment R (asPath ["w".toList]) p := by
    rintro R ⟨-, -, g, dir, -, -, -, hdir, -⟩
    cases hdir
  refine ⟨iff_of_false (hpointed _) (hpointed _), iff_of_false ?_ ?_⟩
  · rintro ⟨-, hfull, -⟩
    cases hfull
  · rintro ⟨-, hfull, -⟩
    cases hfull

end Codex.Permissions
