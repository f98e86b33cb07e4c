import Codex.Permissions.ReadableRoots

/-!
# Fixing the project roots

`materialize_project_roots_with_cwd`: entries and deny globs that are written against the project
roots are rewritten to the paths they have at one `cwd`. Every entry resolves as before. What can
change is the shortcut `has_full_disk_write_access`, which compares entries as they are written, and
the deny globs, whose symbolic form `get_unreadable_globs_with_cwd` reads as an ordinary pattern.

* `fullDiskWrite_materialize`: full-disk write access is never lost;
* `materialize_keeps_meaning_iff`: exactly when nothing changes.
-/

namespace Codex.Permissions

open Codex.Lib

/-! ### The rewriting -/

def projectRootsGlobPatternPrefix : Text := "codex-project-roots://".toList

def parseProjectRootsGlobPattern (pattern : Text) : Option PathBuf :=
  (stripPrefix projectRootsGlobPatternPrefix pattern).map components

variable (env : Environment)

def resolveProjectRootsGlobPattern (subpath : PathBuf) (root : AbsolutePathBuf) : Text :=
  toStringLossy (resolvePathAgainstBase env subpath (asPath root))

/-- The body of the loop of `materialize_project_roots_with_cwd` -/
def materializeProjectRootsEntry (cwd : Option AbsolutePathBuf)
    (entry : FileSystemSandboxEntry) : FileSystemSandboxEntry :=
  match entry.path with
  | .special (.projectRoots _) =>
    match resolveFileSystemPath env cwd entry.path with
    | some path => { entry with path := .path path }
    | none => entry
  | .globPattern pattern =>
    match cwd, parseProjectRootsGlobPattern pattern with
    | some cwd, some subpath =>
      { entry with path := .globPattern (resolveProjectRootsGlobPattern env subpath cwd) }
    | _, _ => entry
  | .special _ => entry
  | .path _ => entry

def FileSystemSandboxPolicy.materializeProjectRootsWithCwd
    (policy : FileSystemSandboxPolicy) (cwd : PathBuf) : FileSystemSandboxPolicy :=
  { policy with
    entries := policy.entries.map (materializeProjectRootsEntry env (fromAbsolutePath env cwd)) }

/-! ### Access -/

variable {env : Environment} {P : FileSystemSandboxPolicy} {cwd : PathBuf}
  {root p : AbsolutePathBuf}

@[simp] lemma access_materializeProjectRootsEntry (env : Environment)
    (cwd : Option AbsolutePathBuf) (entry : FileSystemSandboxEntry) :
    (materializeProjectRootsEntry env cwd entry).access = entry.access := by
  unfold materializeProjectRootsEntry
  split
  · split <;> rfl
  · split <;> rfl
  · rfl
  · rfl

lemma resolveEntry_materializeProjectRootsEntry (env : Environment) (root : AbsolutePathBuf)
    (entry : FileSystemSandboxEntry) :
    resolveEntry env (some root) (materializeProjectRootsEntry env (some root) entry) =
      resolveEntry env (some root) entry := by
  obtain ⟨path, access⟩ := entry
  cases path with
  | path path => rfl
  | globPattern pattern =>
    simp only [materializeProjectRootsEntry]
    cases parseProjectRootsGlobPattern pattern <;> rfl
  | special value => cases value <;> rfl

variable (hcwd : isAbsolute cwd = true)
include hcwd

/-- **The entries resolve alike.** -/
theorem resolvedEntriesWithCwd_materialize :
    (P.materializeProjectRootsWithCwd env cwd).resolvedEntriesWithCwd env cwd =
      P.resolvedEntriesWithCwd env cwd := by
  unfold FileSystemSandboxPolicy.resolvedEntriesWithCwd
    FileSystemSandboxPolicy.materializeProjectRootsWithCwd
  rw [fromAbsolutePath_of_isAbsolute env hcwd, List.filterMap_map]
  exact List.filterMap_congr fun entry _ =>
    resolveEntry_materializeProjectRootsEntry env (normalizePath cwd) entry

lemma resolveAccessWithCwd_materialize (path : PathBuf) :
    (P.materializeProjectRootsWithCwd env cwd).resolveAccessWithCwd env path cwd =
      P.resolveAccessWithCwd env path cwd := by
  have hkind : (P.materializeProjectRootsWithCwd env cwd).kind = P.kind := rfl
  unfold FileSystemSandboxPolicy.resolveAccessWithCwd
  rw [hkind, resolvedEntriesWithCwd_materialize hcwd]

lemma isMetadataWriteDenied_materialize (path : PathBuf) :
    (P.materializeProjectRootsWithCwd env cwd).isMetadataWriteDenied env path cwd =
      P.isMetadataWriteDenied env path cwd := by
  have hkind : (P.materializeProjectRootsWithCwd env cwd).kind = P.kind := rfl
  unfold FileSystemSandboxPolicy.isMetadataWriteDenied
    FileSystemSandboxPolicy.metadataChildOfWritableRoot
    FileSystemSandboxPolicy.hasExplicitWriteEntryForMetadataPath
  rw [hkind, resolvedEntriesWithCwd_materialize hcwd]

omit hcwd

/-! ### The full-disk shortcut -/

variable (env)

/-- A path of an entry with the project roots fixed. -/
def placeAt (root : AbsolutePathBuf) : FileSystemPath → FileSystemPath
  | .special (.projectRoots subpath) =>
    .path (match subpath with
      | some subpath => resolvePathAgainstBase env subpath (asPath root)
      | none => root)
  | path => path

/-- The entry takes write access away, as entries are compared once the project roots are fixed:
no write entry stands at its place. -/
def NarrowsAt (root : AbsolutePathBuf) (P : FileSystemSandboxPolicy)
    (e : FileSystemSandboxEntry) : Prop :=
  e.access ≠ .write ∧
    match e.path with
    | .globPattern _ => True
    | .special .root => e.access = .deny
    | .special .minimal => False
    | .special (.unknown _ _) => False
    | path => ¬ ∃ c ∈ P.entries, c.access = .write ∧ e.access < .write ∧
        fileSystemPathsShareTarget (placeAt env root c.path) (placeAt env root path) = true

lemma path_materialize (root : AbsolutePathBuf)
    (entry : FileSystemSandboxEntry) (h : ∀ pattern, entry.path ≠ .globPattern pattern) :
    (materializeProjectRootsEntry env (some root) entry).path = placeAt env root entry.path := by
  obtain ⟨path, access⟩ := entry
  cases path with
  | path path => rfl
  | globPattern pattern => exact absurd rfl (h pattern)
  | special value =>
    cases value with
    | projectRoots subpath => cases subpath <;> rfl
    | _ => rfl

lemma path_materialize_globPattern (root : AbsolutePathBuf)
    (access : FileSystemAccessMode) (pattern : Text) :
    ∃ pattern', (materializeProjectRootsEntry env (some root) ⟨.globPattern pattern, access⟩).path =
      .globPattern pattern' := by
  simp only [materializeProjectRootsEntry]
  cases parseProjectRootsGlobPattern pattern <;> exact ⟨_, rfl⟩

variable {env}

/-- A pattern shares its target with no other path. -/
theorem sharesTarget_globPattern {path : FileSystemPath} (pattern : Text)
    (h : ∀ pattern, path ≠ .globPattern pattern) :
    fileSystemPathsShareTarget (.globPattern pattern) (placeAt env root path) = false := by
  cases path with
  | path path => rfl
  | globPattern pattern' => exact absurd rfl (h pattern')
  | special value => cases value <;> rfl

variable {e : FileSystemSandboxEntry}

/-- Fixing the project roots leaves the patterns apart and moves the other paths to their places. -/
theorem sharesTarget_materialize (c : FileSystemSandboxEntry)
    (he : ∀ pattern, e.path ≠ .globPattern pattern) :
    fileSystemPathsShareTarget (materializeProjectRootsEntry env (some root) c).path
        (materializeProjectRootsEntry env (some root) e).path =
      fileSystemPathsShareTarget (placeAt env root c.path) (placeAt env root e.path) := by
  rw [path_materialize env root e he]
  by_cases hc : ∀ pattern, c.path ≠ .globPattern pattern
  · rw [path_materialize env root c hc]
  · obtain ⟨⟨pattern, hpattern⟩⟩ : Nonempty {pattern // c.path = .globPattern pattern} := by
      by_contra hnone
      exact hc fun pattern heq => hnone ⟨pattern, heq⟩
    obtain ⟨path, access⟩ := c
    obtain rfl : path = .globPattern pattern := hpattern
    obtain ⟨pattern', hpattern'⟩ := path_materialize_globPattern env root access pattern
    rw [hpattern', sharesTarget_globPattern pattern' he]
    exact (sharesTarget_globPattern pattern he).symm

/-- Paths that share a target as written share it once the project roots are fixed. -/
theorem sharesTarget_placeAt {left right : FileSystemPath}
    (h : fileSystemPathsShareTarget left right = true) :
    fileSystemPathsShareTarget (placeAt env root left) (placeAt env root right) = true := by
  cases left with
  | path left =>
    cases right with
    | special value =>
      cases value with
      | projectRoots subpath => exact absurd h (by simp [fileSystemPathsShareTarget,
          specialPathMatchesAbsolutePath])
      | _ => exact h
    | _ => exact h
  | globPattern left =>
    cases right with
    | special value => exact absurd h (by simp [fileSystemPathsShareTarget])
    | _ => exact h
  | special left =>
    cases right with
    | path right =>
      cases left with
      | projectRoots subpath => exact absurd h (by simp [fileSystemPathsShareTarget,
          specialPathMatchesAbsolutePath])
      | _ => exact h
    | globPattern right => exact absurd h (by simp [fileSystemPathsShareTarget])
    | special right =>
      simp only [fileSystemPathsShareTarget] at h
      cases left with
      | projectRoots subpath =>
        cases right with
        | projectRoots subpath' =>
          obtain rfl : subpath = subpath' := by
            simpa [specialPathsShareTarget] using h
          exact decide_eq_true rfl
        | _ => exact absurd h (by simp [specialPathsShareTarget])
      | _ =>
        cases right with
        | projectRoots subpath' => exact absurd h (by simp [specialPathsShareTarget])
        | _ => exact h

lemma hasSameTargetWriteOverride_materialize
    (hcwd : isAbsolute cwd = true) (he : ∀ pattern, e.path ≠ .globPattern pattern) :
    (P.materializeProjectRootsWithCwd env cwd).hasSameTargetWriteOverride
        (materializeProjectRootsEntry env (some (normalizePath cwd)) e) = true ↔
      ∃ c ∈ P.entries, c.access = .write ∧ e.access < .write ∧
        fileSystemPathsShareTarget (placeAt env (normalizePath cwd) c.path)
          (placeAt env (normalizePath cwd) e.path) = true := by
  unfold FileSystemSandboxPolicy.hasSameTargetWriteOverride
    FileSystemSandboxPolicy.materializeProjectRootsWithCwd
  rw [fromAbsolutePath_of_isAbsolute env hcwd, List.any_map, List.any_eq_true]
  refine exists_congr fun c => and_congr_right fun _ => ?_
  simp only [Function.comp_apply, access_materializeProjectRootsEntry, Bool.and_eq_true,
    decide_eq_true_iff, FileSystemAccessMode.canWrite_eq_true_iff, sharesTarget_materialize c he]
  constructor
  · rintro ⟨⟨hwrite, hlt⟩, hshare⟩
    exact ⟨hwrite, hwrite ▸ hlt, hshare⟩
  · rintro ⟨hwrite, hlt, hshare⟩
    exact ⟨⟨hwrite, hwrite ▸ hlt⟩, hshare⟩

variable (P)

/-- The closure of `has_write_narrowing_entries` -/
def narrows (entry : FileSystemSandboxEntry) : Bool :=
  !entry.access.canWrite &&
    match entry.path with
    | .path _ => !P.hasSameTargetWriteOverride entry
    | .globPattern _ => true
    | .special .root => entry.access = .deny
    | .special .minimal => false
    | .special (.unknown _ _) => false
    | .special _ => !P.hasSameTargetWriteOverride entry

lemma hasWriteNarrowingEntries_eq :
    P.hasWriteNarrowingEntries = (P.kind = .restricted && P.entries.any (narrows P)) := rfl

variable {P}

/-- An entry that takes write access away still does so once the project roots are fixed, unless a
write entry stands at its place. -/
theorem narrows_materialize (hcwd : isAbsolute cwd = true) (e : FileSystemSandboxEntry) :
    narrows (P.materializeProjectRootsWithCwd env cwd)
        (materializeProjectRootsEntry env (some (normalizePath cwd)) e) = true ↔
      NarrowsAt env (normalizePath cwd) P e := by
  have hwrite : (!e.access.canWrite) = true ↔ e.access ≠ .write := by
    rw [Bool.not_eq_true', ← Bool.not_eq_true, FileSystemAccessMode.canWrite_eq_true_iff]
  unfold narrows NarrowsAt
  rw [Bool.and_eq_true, access_materializeProjectRootsEntry, hwrite]
  refine and_congr_right fun _ => ?_
  -- where the place of the entry decides
  have hplace : (∀ pattern, e.path ≠ .globPattern pattern) →
      ((!(P.materializeProjectRootsWithCwd env cwd).hasSameTargetWriteOverride
        (materializeProjectRootsEntry env (some (normalizePath cwd)) e)) = true ↔
      ¬ ∃ c ∈ P.entries, c.access = .write ∧ e.access < .write ∧
        fileSystemPathsShareTarget (placeAt env (normalizePath cwd) c.path)
          (placeAt env (normalizePath cwd) e.path) = true) := by
    intro he
    rw [← hasSameTargetWriteOverride_materialize hcwd he, Bool.not_eq_true', Bool.not_eq_true]
  obtain ⟨path, access⟩ := e
  cases path with
  | path path => exact hplace (by simp)
  | globPattern pattern =>
    obtain ⟨pattern', hpattern'⟩ :=
      path_materialize_globPattern env (normalizePath cwd) access pattern
    rw [hpattern']
    simp
  | special value =>
    cases value with
    | root => simp [materializeProjectRootsEntry]
    | minimal => simp [materializeProjectRootsEntry]
    | unknown path subpath => simp [materializeProjectRootsEntry]
    | tmpdir => exact hplace (by simp)
    | slashTmp => exact hplace (by simp)
    | projectRoots subpath => cases subpath <;> exact hplace (by simp)

lemma narrows_of_narrowsAt (h : NarrowsAt env root P e) : narrows P e = true := by
  have hnone : (¬ ∃ c ∈ P.entries, c.access = .write ∧ e.access < .write ∧
      fileSystemPathsShareTarget (placeAt env root c.path) (placeAt env root e.path) = true) →
      (!P.hasSameTargetWriteOverride e) = true := by
    intro hnone
    rw [Bool.not_eq_true', ← Bool.not_eq_true]
    intro hover
    obtain ⟨c, hc, hcover⟩ := List.any_eq_true.mp hover
    simp only [Bool.and_eq_true, decide_eq_true_iff,
      FileSystemAccessMode.canWrite_eq_true_iff] at hcover
    obtain ⟨⟨hwrite, hlt⟩, hshare⟩ := hcover
    exact hnone ⟨c, hc, hwrite, hwrite ▸ hlt, sharesTarget_placeAt hshare⟩
  obtain ⟨hwrite, hmatch⟩ := h
  unfold narrows
  rw [Bool.and_eq_true, Bool.not_eq_true', ← Bool.not_eq_true,
    FileSystemAccessMode.canWrite_eq_true_iff]
  refine ⟨hwrite, ?_⟩
  obtain ⟨path, access⟩ := e
  cases path with
  | path path => exact hnone hmatch
  | globPattern pattern => rfl
  | special value =>
    cases value with
    | root => exact decide_eq_true hmatch
    | minimal => exact hmatch.elim
    | unknown path subpath => exact hmatch.elim
    | tmpdir => exact hnone hmatch
    | slashTmp => exact hnone hmatch
    | projectRoots subpath => exact hnone hmatch

lemma hasRootAccess_materialize (predicate : FileSystemAccessMode → Bool) :
    (P.materializeProjectRootsWithCwd env cwd).hasRootAccess predicate =
      P.hasRootAccess predicate := by
  have hroot : ∀ (cwd : Option AbsolutePathBuf) (e : FileSystemSandboxEntry),
      (materializeProjectRootsEntry env cwd e).path = .special .root ↔ e.path = .special .root := by
    rintro cwd ⟨path, access⟩
    cases path with
    | path path => exact Iff.rfl
    | globPattern pattern =>
      simp only [materializeProjectRootsEntry]
      split <;> simp
    | special value =>
      cases value with
      | projectRoots subpath =>
        simp only [materializeProjectRootsEntry]
        split <;> simp
      | _ => exact Iff.rfl
  unfold FileSystemSandboxPolicy.hasRootAccess
    FileSystemSandboxPolicy.materializeProjectRootsWithCwd
  rw [List.any_map]
  simp only [Function.comp_def, hroot, access_materializeProjectRootsEntry]

/-- Full-disk write access once the project roots are fixed. -/
theorem fullDiskWrite_materialize_iff (hcwd : isAbsolute cwd = true)
    (hkind : P.kind = .restricted) :
    (P.materializeProjectRootsWithCwd env cwd).hasFullDiskWriteAccess = true ↔
      P.hasRootAccess FileSystemAccessMode.canWrite = true ∧
        ∀ e ∈ P.entries, ¬ NarrowsAt env (normalizePath cwd) P e := by
  have hkind' : (P.materializeProjectRootsWithCwd env cwd).kind = .restricted := hkind
  have hentries : (P.materializeProjectRootsWithCwd env cwd).entries =
      P.entries.map (materializeProjectRootsEntry env (some (normalizePath cwd))) := by
    unfold FileSystemSandboxPolicy.materializeProjectRootsWithCwd
    rw [fromAbsolutePath_of_isAbsolute env hcwd]
  simp only [FileSystemSandboxPolicy.hasFullDiskWriteAccess, hkind']
  rw [Bool.and_eq_true, hasRootAccess_materialize, Bool.not_eq_true', hasWriteNarrowingEntries_eq,
    hkind', hentries, decide_eq_true rfl, Bool.true_and, List.any_map, List.any_eq_false]
  refine and_congr_right fun _ => forall_congr' fun e => forall_congr' fun _ => ?_
  rw [Function.comp_apply, narrows_materialize hcwd]

/-- **Full-disk write access is never lost.** -/
theorem fullDiskWrite_materialize (hcwd : isAbsolute cwd = true)
    (h : P.hasFullDiskWriteAccess = true) :
    (P.materializeProjectRootsWithCwd env cwd).hasFullDiskWriteAccess = true := by
  cases hkind : P.kind with
  | restricted =>
    rw [fullDiskWrite_materialize_iff hcwd hkind]
    simp only [FileSystemSandboxPolicy.hasFullDiskWriteAccess, hkind] at h
    rw [Bool.and_eq_true, Bool.not_eq_true', hasWriteNarrowingEntries_eq, hkind,
      decide_eq_true rfl, Bool.true_and, List.any_eq_false] at h
    exact ⟨h.1, fun e he hnarrows => h.2 e he (narrows_of_narrowsAt hnarrows)⟩
  | unrestricted =>
    have hkind' : (P.materializeProjectRootsWithCwd env cwd).kind = .unrestricted := hkind
    simp only [FileSystemSandboxPolicy.hasFullDiskWriteAccess, hkind']
  | externalSandbox =>
    have hkind' : (P.materializeProjectRootsWithCwd env cwd).kind = .externalSandbox := hkind
    simp only [FileSystemSandboxPolicy.hasFullDiskWriteAccess, hkind']

/-! ### The deny globs -/

/-- What a deny glob is read as at `cwd`. -/
def globReading (env : Environment) (cwd : PathBuf) (pattern : Text) : Text :=
  toStringLossy (resolvePathAgainstBase env (components pattern) cwd)

/-- A glob with its project roots fixed at `root`. -/
def materializedGlob (env : Environment) (root : AbsolutePathBuf) (pattern : Text) : Text :=
  match parseProjectRootsGlobPattern pattern with
  | some subpath => resolveProjectRootsGlobPattern env subpath root
  | none => pattern

/-- The entry denies what the pattern matches. -/
def denyGlob (pattern : Text) : FileSystemSandboxEntry := ⟨.globPattern pattern, .deny⟩

private theorem mem_destutter' {a x : Text} {l : List Text} (h : x = a ∨ x ∈ l) :
    x ∈ l.destutter' (· ≠ ·) a := by
  induction l generalizing a with
  | nil => simpa using h
  | cons b l ih =>
    by_cases hab : a = b
    · rw [List.destutter'_cons_neg _ (not_not.mpr hab)]
      apply ih
      rcases h with rfl | h
      · exact .inl rfl
      · rcases List.mem_cons.mp h with rfl | h
        · exact .inl hab.symm
        · exact .inr h
    · rw [List.destutter'_cons_pos _ hab]
      rcases h with rfl | h
      · exact List.mem_cons_self
      · exact List.mem_cons_of_mem _ (ih (List.mem_cons.mp h))

lemma mem_getUnreadableGlobs_iff (hkind : P.kind = .restricted) {pattern : Text} :
    pattern ∈ P.getUnreadableGlobsWithCwd env cwd ↔
      ∃ glob, denyGlob glob ∈ P.entries ∧ globReading env cwd glob = pattern := by
  have hdedup : ∀ l : List Text, pattern ∈ l.destutter (· ≠ ·) ↔ pattern ∈ l := by
    intro l
    refine ⟨fun h => (List.destutter_sublist _ l).subset h, fun h => ?_⟩
    cases l with
    | nil => exact h
    | cons a l =>
      rw [List.destutter_cons']
      exact mem_destutter' (List.mem_cons.mp h)
  unfold FileSystemSandboxPolicy.getUnreadableGlobsWithCwd
  rw [if_pos hkind]
  simp only
  rw [hdedup, List.mem_insertionSort, List.mem_filterMap]
  constructor
  · rintro ⟨⟨path, access⟩, hmem, hsome⟩
    cases access with
    | deny =>
      cases path with
      | globPattern glob => exact ⟨glob, hmem, Option.some.inj hsome⟩
      | path path => cases hsome
      | special value => cases hsome
    | read => cases hsome
    | write => cases hsome
  · rintro ⟨glob, hmem, rfl⟩
    exact ⟨denyGlob glob, hmem, rfl⟩

lemma mem_denyGlobs_materialize (hcwd : isAbsolute cwd = true) {glob : Text} :
    denyGlob glob ∈ (P.materializeProjectRootsWithCwd env cwd).entries ↔
      ∃ source, denyGlob source ∈ P.entries ∧
        materializedGlob env (normalizePath cwd) source = glob := by
  have hglob : ∀ source access,
      materializeProjectRootsEntry env (some (normalizePath cwd)) ⟨.globPattern source, access⟩ =
        ⟨.globPattern (materializedGlob env (normalizePath cwd) source), access⟩ := by
    intro source access
    simp only [materializeProjectRootsEntry, materializedGlob]
    cases parseProjectRootsGlobPattern source <;> rfl
  unfold FileSystemSandboxPolicy.materializeProjectRootsWithCwd
  rw [fromAbsolutePath_of_isAbsolute env hcwd, List.mem_map]
  constructor
  · rintro ⟨⟨path, access⟩, hmem, heq⟩
    cases path with
    | globPattern source =>
      rw [hglob] at heq
      obtain ⟨hpath, rfl⟩ := FileSystemSandboxEntry.mk.inj heq
      exact ⟨source, hmem, FileSystemPath.globPattern.inj hpath⟩
    | path path => exact absurd (congrArg FileSystemSandboxEntry.path heq) (by
        simp [materializeProjectRootsEntry, denyGlob])
    | special value =>
      have hpath := path_materialize env (normalizePath cwd) ⟨.special value, access⟩ (by simp)
      rw [heq] at hpath
      cases value <;> exact absurd hpath (by simp [denyGlob, placeAt])
  · rintro ⟨source, hmem, rfl⟩
    exact ⟨denyGlob source, hmem, hglob source .deny⟩

/-! ### When nothing changes -/

/-- The policies let the same be read and written at `cwd` and deny the same patterns. -/
structure SameMeaning (env : Environment) (P Q : FileSystemSandboxPolicy) (cwd : PathBuf) :
    Prop where
  read : ∀ path, P.canReadPathWithCwd env path cwd = Q.canReadPathWithCwd env path cwd
  write : ∀ path, P.canWritePathWithCwd env path cwd = Q.canWritePathWithCwd env path cwd
  globs : ∀ pattern, pattern ∈ P.getUnreadableGlobsWithCwd env cwd ↔
    pattern ∈ Q.getUnreadableGlobsWithCwd env cwd

/-- Of a deny glob with symbolic project roots, what it is read as and what it is rewritten to are
both given by deny globs on the other side. -/
def GlobsKept (env : Environment) (P : FileSystemSandboxPolicy) (cwd : PathBuf) : Prop :=
  P.kind = .restricted → ∀ glob, denyGlob glob ∈ P.entries →
    parseProjectRootsGlobPattern glob ≠ none → (∃ other, denyGlob other ∈ P.entries ∧
        globReading env cwd (materializedGlob env (normalizePath cwd) other) =
          globReading env cwd glob) ∧
      ∃ other, denyGlob other ∈ P.entries ∧ globReading env cwd other =
        globReading env cwd (materializedGlob env (normalizePath cwd) glob)

/-- The policy has full-disk write access already; or it has no writable root or an entry that takes
write access away from a place where no write entry stands; or no path that resolves to write is
refused for its metadata directory. -/
def WritesKept (env : Environment) (P : FileSystemSandboxPolicy) (cwd : PathBuf) : Prop :=
  P.kind = .restricted → P.hasFullDiskWriteAccess = true ∨
    P.hasRootAccess FileSystemAccessMode.canWrite = false ∨
    (∃ e ∈ P.entries, NarrowsAt env (normalizePath cwd) P e) ∨
    ∀ path, P.resolveAccessWithCwd env path cwd = .write →
      P.isMetadataWriteDenied env path cwd = false

lemma globs_materialize_iff (hcwd : isAbsolute cwd = true) :
    (∀ pattern, pattern ∈ (P.materializeProjectRootsWithCwd env cwd).getUnreadableGlobsWithCwd
        env cwd ↔ pattern ∈ P.getUnreadableGlobsWithCwd env cwd) ↔ GlobsKept env P cwd := by
  by_cases hkind : P.kind = .restricted
  · have hkind' : (P.materializeProjectRootsWithCwd env cwd).kind = .restricted := hkind
    simp only [mem_getUnreadableGlobs_iff hkind, mem_getUnreadableGlobs_iff hkind',
      mem_denyGlobs_materialize hcwd]
    constructor
    · intro h _ glob hglob _
      obtain ⟨_, ⟨other, hother, rfl⟩, hreading⟩ := (h _).mpr ⟨glob, hglob, rfl⟩
      exact ⟨⟨other, hother, hreading⟩, (h _).mp ⟨_, ⟨glob, hglob, rfl⟩, rfl⟩⟩
    · intro h pattern
      have hplain : ∀ glob, parseProjectRootsGlobPattern glob = none →
          materializedGlob env (normalizePath cwd) glob = glob := by
        intro glob hnone
        rw [materializedGlob, hnone]
      constructor
      · rintro ⟨_, ⟨glob, hglob, rfl⟩, rfl⟩
        by_cases hsymbolic : parseProjectRootsGlobPattern glob = none
        · rw [hplain glob hsymbolic]
          exact ⟨glob, hglob, rfl⟩
        · exact (h hkind glob hglob hsymbolic).2
      · rintro ⟨glob, hglob, rfl⟩
        by_cases hsymbolic : parseProjectRootsGlobPattern glob = none
        · exact ⟨_, ⟨glob, hglob, hplain glob hsymbolic⟩, rfl⟩
        · obtain ⟨other, hother, hreading⟩ := (h hkind glob hglob hsymbolic).1
          exact ⟨_, ⟨other, hother, rfl⟩, hreading⟩
  · have hkind' : ¬ (P.materializeProjectRootsWithCwd env cwd).kind = .restricted := hkind
    unfold FileSystemSandboxPolicy.getUnreadableGlobsWithCwd
    rw [if_neg hkind, if_neg hkind']
    exact iff_of_true (fun _ => Iff.rfl) fun h => absurd h hkind

lemma writes_materialize_iff (hcwd : isAbsolute cwd = true) :
    (∀ path, (P.materializeProjectRootsWithCwd env cwd).canWritePathWithCwd env path cwd =
        P.canWritePathWithCwd env path cwd) ↔ WritesKept env P cwd := by
  -- only the shortcut can differ
  have hcan : ∀ path,
      (P.materializeProjectRootsWithCwd env cwd).canWritePathWithCwd env path cwd =
        P.canWritePathWithCwd env path cwd ↔
      (P.resolveAccessWithCwd env path cwd = .write → P.isMetadataWriteDenied env path cwd = true →
        (P.materializeProjectRootsWithCwd env cwd).hasFullDiskWriteAccess =
          P.hasFullDiskWriteAccess) := by
    intro path
    unfold FileSystemSandboxPolicy.canWritePathWithCwd
    rw [resolveAccessWithCwd_materialize hcwd, isMetadataWriteDenied_materialize hcwd]
    cases P.resolveAccessWithCwd env path cwd <;> cases P.isMetadataWriteDenied env path cwd <;>
      cases P.hasFullDiskWriteAccess <;>
      cases (P.materializeProjectRootsWithCwd env cwd).hasFullDiskWriteAccess <;>
      simp [FileSystemAccessMode.canWrite]
  simp only [hcan]
  constructor
  · intro h hkind
    by_cases hfull : P.hasFullDiskWriteAccess = true
    · exact .inl hfull
    · refine .inr ?_
      by_contra hnot
      push Not at hnot
      obtain ⟨hroot, hnarrows, path, hwrite, hdenied⟩ := hnot
      have hsame := h path hwrite (by simpa using hdenied)
      have hfull' := (fullDiskWrite_materialize_iff hcwd hkind).mpr
        ⟨by simpa using hroot, hnarrows⟩
      exact hfull (hsame ▸ hfull')
  · intro h path hwrite hdenied
    have hkind : P.kind = .restricted := by
      by_contra hkind
      rw [FileSystemSandboxPolicy.isMetadataWriteDenied, if_neg hkind] at hdenied
      cases hdenied
    -- without the shortcut afterwards there was none before
    have hnone : (P.materializeProjectRootsWithCwd env cwd).hasFullDiskWriteAccess = false →
        (P.materializeProjectRootsWithCwd env cwd).hasFullDiskWriteAccess =
          P.hasFullDiskWriteAccess := by
      intro hfull'
      rw [hfull']
      symm
      by_contra hfull
      rw [fullDiskWrite_materialize hcwd (by simpa using hfull)] at hfull'
      exact absurd hfull'.symm Bool.false_ne_true
    rcases h hkind with hfull | hroot | ⟨e, he, hnarrows⟩ | hopen
    · rw [hfull, fullDiskWrite_materialize hcwd hfull]
    · apply hnone
      by_contra hfull'
      have hroot' := ((fullDiskWrite_materialize_iff hcwd hkind).mp (by simpa using hfull')).1
      rw [hroot] at hroot'
      cases hroot'
    · apply hnone
      by_contra hfull'
      exact ((fullDiskWrite_materialize_iff hcwd hkind).mp (by simpa using hfull')).2 e he hnarrows
    · rw [hopen path hwrite] at hdenied
      cases hdenied

/-- **Fixing the project roots.** At an absolute `cwd` a policy with its project roots fixed means
what the policy means exactly when the readings of its symbolic deny globs are denied on both sides,
and full-disk write access is not newly found where a metadata directory is closed. -/
theorem materialize_keeps_meaning_iff (hcwd : isAbsolute cwd = true) :
    SameMeaning env (P.materializeProjectRootsWithCwd env cwd) P cwd ↔
      GlobsKept env P cwd ∧ WritesKept env P cwd := by
  rw [← globs_materialize_iff hcwd, ← writes_materialize_iff hcwd]
  constructor
  · intro h
    exact ⟨h.globs, h.write⟩
  · rintro ⟨hglobs, hwrites⟩
    refine ⟨fun path => ?_, hwrites, hglobs⟩
    unfold FileSystemSandboxPolicy.canReadPathWithCwd
    rw [resolveAccessWithCwd_materialize hcwd]

/-- The whole disk writable but the project roots readable, one of them writable by its path, and
every `.env` file in the project roots denied by a symbolic glob. -/
def symbolicRootsPolicy (entries : List FileSystemSandboxEntry) : FileSystemSandboxPolicy :=
  .ofEntries ([⟨.special .root, .write⟩, ⟨.special (.projectRoots none), .read⟩,
    ⟨.path ["w".toList], .write⟩] ++ entries)

/-- At `/w` the read entry for the project roots meets the write entry for `/w`: with the roots
fixed the policy has full-disk write access, and a file below `/.git` may be written. A symbolic
deny glob is read as a pattern below `/w/codex-project-roots:` before. -/
theorem materialize_changes_meaning :
    ((symbolicRootsPolicy []).canWritePathWithCwd emptyEnvironment
          (asPath [".git".toList, "x".toList]) (asPath ["w".toList]) = false ∧
        ((symbolicRootsPolicy []).materializeProjectRootsWithCwd emptyEnvironment
          (asPath ["w".toList])).canWritePathWithCwd emptyEnvironment
            (asPath [".git".toList, "x".toList]) (asPath ["w".toList]) = true) ∧
      ((symbolicRootsPolicy [denyGlob "codex-project-roots://*.env".toList])
          |>.getUnreadableGlobsWithCwd emptyEnvironment (asPath ["w".toList])) =
        ["/w/codex-project-roots:/*.env".toList] ∧
      (((symbolicRootsPolicy [denyGlob "codex-project-roots://*.env".toList])
          |>.materializeProjectRootsWithCwd emptyEnvironment (asPath ["w".toList]))
          |>.getUnreadableGlobsWithCwd emptyEnvironment (asPath ["w".toList])) =
        ["/w/*.env".toList] ∧
      ¬ SameMeaning emptyEnvironment
        ((symbolicRootsPolicy []).materializeProjectRootsWithCwd emptyEnvironment
          (asPath ["w".toList])) (symbolicRootsPolicy []) (asPath ["w".toList]) := by
  have hbefore : (symbolicRootsPolicy []).canWritePathWithCwd emptyEnvironment
      (asPath [".git".toList, "x".toList]) (asPath ["w".toList]) = false := by decide +kernel
  have hafter : ((symbolicRootsPolicy []).materializeProjectRootsWithCwd emptyEnvironment
      (asPath ["w".toList])).canWritePathWithCwd emptyEnvironment
        (asPath [".git".toList, "x".toList]) (asPath ["w".toList]) = true := by decide +kernel
  refine ⟨⟨hbefore, hafter⟩, by decide +kernel, by decide +kernel, fun h => ?_⟩
  have hsame := h.write (asPath [".git".toList, "x".toList])
  rw [hbefore, hafter] at hsame
  cases hsame

/-- That policy at `/w`. -/
theorem materialize_keeps_meaning_iff_symbolicRoots :
    SameMeaning emptyEnvironment
        ((symbolicRootsPolicy []).materializeProjectRootsWithCwd emptyEnvironment
          (asPath ["w".toList])) (symbolicRootsPolicy []) (asPath ["w".toList]) ↔
      GlobsKept emptyEnvironment (symbolicRootsPolicy []) (asPath ["w".toList]) ∧
        WritesKept emptyEnvironment (symbolicRootsPolicy []) (asPath ["w".toList]) :=
  materialize_keeps_meaning_iff rfl

end Codex.Permissions
