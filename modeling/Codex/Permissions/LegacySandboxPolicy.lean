import Codex.Permissions.WritableRoots

/-!
# Legacy sandbox policies

`SandboxPolicy` is the older form of a policy. `from_legacy_sandbox_policy_for_cwd` writes it as
entries, with read entries for the metadata directories of each root, and
`to_legacy_sandbox_policy` reads it back off the write entries.
-/

namespace Codex.Permissions

open Codex.Lib

/-! ### The two forms -/

inductive NetworkAccess where
  | restricted
  | enabled

def NetworkAccess.isEnabled : NetworkAccess → Bool
  | .enabled => true
  | .restricted => false

inductive SandboxPolicy where
  | dangerFullAccess
  | readOnly (networkAccess : Bool)
  | externalSandbox (networkAccess : NetworkAccess)
  | workspaceWrite (writableRoots : List AbsolutePathBuf) (networkAccess : Bool)
      (excludeTmpdirEnvVar excludeSlashTmp : Bool)

def SandboxPolicy.hasFullNetworkAccess : SandboxPolicy → Bool
  | .dangerFullAccess => true
  | .externalSandbox networkAccess => networkAccess.isEnabled
  | .readOnly networkAccess => networkAccess
  | .workspaceWrite _ networkAccess _ _ => networkAccess

inductive NetworkSandboxPolicy where
  | restricted
  | enabled

def NetworkSandboxPolicy.isEnabled : NetworkSandboxPolicy → Bool
  | .enabled => true
  | .restricted => false

/-- `From<&SandboxPolicy> for NetworkSandboxPolicy` -/
def NetworkSandboxPolicy.ofLegacy (value : SandboxPolicy) : NetworkSandboxPolicy :=
  if value.hasFullNetworkAccess then .enabled else .restricted

/-! ### From the legacy form -/

variable (entries : List FileSystemSandboxEntry)

def appendDefaultReadOnlyEntryIfNoExplicitRule
    (path : FileSystemPath) : List FileSystemSandboxEntry :=
  if entries.any fun entry => fileSystemPathsShareTarget entry.path path then entries
  else entries ++ [⟨path, .read⟩]

def appendDefaultReadOnlyProjectRootSubpathIfNoExplicitRule
    (subpath : Text) : List FileSystemSandboxEntry :=
  appendDefaultReadOnlyEntryIfNoExplicitRule entries
    (.special (.projectRoots (some (components subpath))))

def appendDefaultReadOnlyPathIfNoExplicitRule
    (path : AbsolutePathBuf) : List FileSystemSandboxEntry :=
  appendDefaultReadOnlyEntryIfNoExplicitRule entries (.path path)

/-- The loop over `default_read_only_subpaths_for_writable_root` of one root -/
def appendDefaultReadOnlySubpaths (env : Environment) (protectMissingDotCodex : Bool)
    (entries : List FileSystemSandboxEntry) (writableRoot : AbsolutePathBuf) :
    List FileSystemSandboxEntry :=
  (defaultReadOnlySubpathsForWritableRoot env writableRoot protectMissingDotCodex).foldl
    appendDefaultReadOnlyPathIfNoExplicitRule entries

namespace FileSystemSandboxPolicy

def unrestricted : FileSystemSandboxPolicy := ⟨.unrestricted, none, []⟩

def externalSandbox : FileSystemSandboxPolicy := ⟨.externalSandbox, none, []⟩

/-- `FileSystemSandboxPolicy::workspace_write`, before the defaults are appended -/
def workspaceWriteEntries (writableRoots : List AbsolutePathBuf)
    (excludeTmpdirEnvVar excludeSlashTmp : Bool) : List FileSystemSandboxEntry :=
  [⟨.special .root, .read⟩, ⟨.special (.projectRoots none), .write⟩] ++
    (if excludeSlashTmp then [] else [⟨.special .slashTmp, .write⟩]) ++
    (if excludeTmpdirEnvVar then [] else [⟨.special .tmpdir, .write⟩]) ++
    writableRoots.map fun path => ⟨.path path, .write⟩

variable (env : Environment)

def workspaceWrite (writableRoots : List AbsolutePathBuf)
    (excludeTmpdirEnvVar excludeSlashTmp : Bool) : FileSystemSandboxPolicy :=
  let entries := workspaceWriteEntries writableRoots excludeTmpdirEnvVar excludeSlashTmp
  let entries := appendDefaultReadOnlyProjectRootSubpathIfNoExplicitRule entries ".git".toList
  let entries := appendDefaultReadOnlyProjectRootSubpathIfNoExplicitRule entries ".agents".toList
  let entries := appendDefaultReadOnlyProjectRootSubpathIfNoExplicitRule entries ".codex".toList
  .ofEntries (writableRoots.foldl (appendDefaultReadOnlySubpaths env false) entries)

/-- `From<&SandboxPolicy> for FileSystemSandboxPolicy` -/
def ofLegacy : SandboxPolicy → FileSystemSandboxPolicy
  | .dangerFullAccess => .unrestricted
  | .externalSandbox _ => .externalSandbox
  | .readOnly _ => .ofEntries [⟨.special .root, .read⟩]
  | .workspaceWrite writableRoots _ excludeTmpdirEnvVar excludeSlashTmp =>
    .workspaceWrite env writableRoots excludeTmpdirEnvVar excludeSlashTmp

def fromLegacySandboxPolicyForCwd (sandboxPolicy : SandboxPolicy)
    (cwd : PathBuf) : FileSystemSandboxPolicy :=
  let fileSystemPolicy := ofLegacy env sandboxPolicy
  match sandboxPolicy with
  | .workspaceWrite writableRoots _ _ _ =>
    let entries :=
      match fromAbsolutePath env cwd with
      | some cwdRoot => appendDefaultReadOnlySubpaths env true fileSystemPolicy.entries cwdRoot
      | none => fileSystemPolicy.entries
    { fileSystemPolicy with
      entries := writableRoots.foldl (appendDefaultReadOnlySubpaths env false) entries }
  | _ => fileSystemPolicy

end FileSystemSandboxPolicy

/-! ### Back to the legacy form -/

/-- The variables of the loop of `to_legacy_sandbox_policy` -/
structure LegacyScan where
  workspaceRootWritable : Bool := false
  writableRoots : List AbsolutePathBuf := []
  tmpdirWritable : Bool := false
  slashTmpWritable : Bool := false
  unbridgeableRootWrite : Bool := false

/-- The body of the loop of `to_legacy_sandbox_policy` -/
def scanEntry (env : Environment) (cwdAbsolute : Option AbsolutePathBuf) (scan : LegacyScan)
    (entry : FileSystemSandboxEntry) : LegacyScan :=
  match entry.path with
  | .globPattern _ => scan
  | .path path =>
    if entry.access.canWrite then
      if cwdAbsolute = some path then { scan with workspaceRootWritable := true }
      else { scan with writableRoots := scan.writableRoots ++ [path] }
    else scan
  | .special .root =>
    match entry.access with
    | .deny => scan
    | .read => scan
    | .write => { scan with unbridgeableRootWrite := true }
  | .special .minimal => scan
  | .special (.projectRoots subpath) =>
    if subpath = none ∧ entry.access.canWrite = true then
      { scan with workspaceRootWritable := true }
    else
      match resolveFileSystemSpecialPath env cwdAbsolute (.projectRoots subpath) with
      | some path =>
        if entry.access.canWrite then
          { scan with writableRoots := scan.writableRoots ++ [path] }
        else scan
      | none => scan
  | .special .tmpdir =>
    if entry.access.canWrite then { scan with tmpdirWritable := true } else scan
  | .special .slashTmp =>
    if entry.access.canWrite then { scan with slashTmpWritable := true } else scan
  | .special (.unknown _ _) => scan

/-- The message of the `io::Error` of `to_legacy_sandbox_policy` -/
def unbridgeableMessage : String :=
  "permissions profile requests filesystem writes outside the workspace root, which is not " ++
    "supported until the runtime enforces FileSystemSandboxPolicy directly"

namespace FileSystemSandboxPolicy

def toLegacySandboxPolicy (env : Environment) (policy : FileSystemSandboxPolicy)
    (networkPolicy : NetworkSandboxPolicy) (cwd : PathBuf) : Except String SandboxPolicy :=
  match policy.kind with
  | .externalSandbox =>
    .ok (.externalSandbox (if networkPolicy.isEnabled then .enabled else .restricted))
  | .unrestricted =>
    .ok (if networkPolicy.isEnabled then .dangerFullAccess else .externalSandbox .restricted)
  | .restricted =>
    let scan := policy.entries.foldl (scanEntry env (fromAbsolutePath env cwd)) {}
    if policy.hasFullDiskWriteAccess then
      .ok (if networkPolicy.isEnabled then .dangerFullAccess else .externalSandbox .restricted)
    else if scan.workspaceRootWritable then
      .ok (.workspaceWrite (dedupAbsolutePaths env scan.writableRoots false)
        networkPolicy.isEnabled (!scan.tmpdirWritable) (!scan.slashTmpWritable))
    else if scan.unbridgeableRootWrite || !scan.writableRoots.isEmpty || scan.tmpdirWritable ||
        scan.slashTmpWritable then
      .error unbridgeableMessage
    else .ok (.readOnly networkPolicy.isEnabled)

end FileSystemSandboxPolicy

/-! ### Only write entries matter -/

variable {env : Environment} {cwd : PathBuf} {c : Option AbsolutePathBuf}
  (entries : List FileSystemSandboxEntry)

/-- The write entries of a list, in their order. -/
def writes : List FileSystemSandboxEntry :=
  entries.filter fun entry => entry.access.canWrite

lemma scanEntry_of_not_write {entry : FileSystemSandboxEntry} (h : entry.access.canWrite = false)
    (scan : LegacyScan) : scanEntry env c scan entry = scan := by
  obtain ⟨path, access⟩ := entry
  have haccess : access.canWrite = false := h
  unfold scanEntry
  cases path with
  | path path => simp [haccess]
  | globPattern pattern => rfl
  | special value =>
    cases value with
    | root => cases access <;> first | rfl | simp [FileSystemAccessMode.canWrite] at haccess
    | projectRoots subpath =>
      simp only [haccess, Bool.false_eq_true, and_false, if_false]
      cases resolveFileSystemSpecialPath env c (.projectRoots subpath) <;> rfl
    | _ => simp [haccess]

lemma foldl_scanEntry (scan : LegacyScan) :
    entries.foldl (scanEntry env c) scan = (writes entries).foldl (scanEntry env c) scan := by
  induction entries generalizing scan with
  | nil => rfl
  | cons entry entries ih =>
    unfold writes at ih ⊢
    rw [List.foldl_cons, List.filter_cons, ih]
    cases hwrite : entry.access.canWrite with
    | true => rfl
    | false => rw [scanEntry_of_not_write hwrite, if_neg Bool.false_ne_true]

lemma writes_appendDefault (path : FileSystemPath) :
    writes (appendDefaultReadOnlyEntryIfNoExplicitRule entries path) = writes entries := by
  unfold appendDefaultReadOnlyEntryIfNoExplicitRule
  split
  · rfl
  · simp [writes, FileSystemAccessMode.canWrite]

lemma writes_appendDefaultSubpaths (protectMissing : Bool)
    (entries : List FileSystemSandboxEntry) (root : AbsolutePathBuf) :
    writes (appendDefaultReadOnlySubpaths env protectMissing entries root) = writes entries := by
  unfold appendDefaultReadOnlySubpaths
  generalize defaultReadOnlySubpathsForWritableRoot env root protectMissing = paths
  induction paths generalizing entries with
  | nil => rfl
  | cons path paths ih =>
    rw [List.foldl_cons, ih]
    exact writes_appendDefault entries (.path path)

variable (roots : List AbsolutePathBuf)

lemma writes_foldl_appendDefaultSubpaths (entries : List FileSystemSandboxEntry) :
    writes (roots.foldl (appendDefaultReadOnlySubpaths env false) entries) = writes entries := by
  induction roots generalizing entries with
  | nil => rfl
  | cons root roots ih => rw [List.foldl_cons, ih, writes_appendDefaultSubpaths]

/-- The write entries of a workspace policy are the ones it starts from. -/
theorem writes_fromLegacy (network noTmpdir noSlashTmp : Bool) :
    writes (FileSystemSandboxPolicy.fromLegacySandboxPolicyForCwd env
        (.workspaceWrite roots network noTmpdir noSlashTmp) cwd).entries =
      ⟨.special (.projectRoots none), .write⟩ ::
        ((if noSlashTmp then [] else [⟨.special .slashTmp, .write⟩]) ++
          (if noTmpdir then [] else [⟨.special .tmpdir, .write⟩]) ++
          roots.map fun path => ⟨.path path, .write⟩) := by
  have hbase : writes (FileSystemSandboxPolicy.workspaceWrite env roots noTmpdir
      noSlashTmp).entries =
        writes (FileSystemSandboxPolicy.workspaceWriteEntries roots noTmpdir noSlashTmp) := by
    unfold FileSystemSandboxPolicy.workspaceWrite FileSystemSandboxPolicy.ofEntries
    simp only [writes_foldl_appendDefaultSubpaths,
      appendDefaultReadOnlyProjectRootSubpathIfNoExplicitRule, writes_appendDefault]
  have hmap : writes (roots.map fun path => ⟨.path path, .write⟩) =
      roots.map fun path => ⟨.path path, .write⟩ := by
    refine List.filter_eq_self.mpr fun entry hentry => ?_
    obtain ⟨path, -, rfl⟩ := List.mem_map.mp hentry
    rfl
  have hentries : writes (FileSystemSandboxPolicy.fromLegacySandboxPolicyForCwd env
      (.workspaceWrite roots network noTmpdir noSlashTmp) cwd).entries =
        writes (FileSystemSandboxPolicy.workspaceWriteEntries roots noTmpdir noSlashTmp) := by
    unfold FileSystemSandboxPolicy.fromLegacySandboxPolicyForCwd
    simp only [FileSystemSandboxPolicy.ofLegacy, writes_foldl_appendDefaultSubpaths]
    cases fromAbsolutePath env cwd with
    | none => exact hbase
    | some root => exact (writes_appendDefaultSubpaths _ _ _).trans hbase
  rw [hentries, ← hmap]
  unfold FileSystemSandboxPolicy.workspaceWriteEntries writes
  cases noTmpdir <;> cases noSlashTmp <;> simp [FileSystemAccessMode.canWrite]

/-! ### The roots that come back -/

/-- Write entries at paths are the writable roots, but for the working directory. -/
theorem foldl_scanEntry_paths (scan : LegacyScan) (h : scan.workspaceRootWritable = true) :
    (roots.map fun path => (⟨.path path, .write⟩ : FileSystemSandboxEntry)).foldl
        (scanEntry env c) scan =
      { scan with
        writableRoots := scan.writableRoots ++ roots.filter fun root => c ≠ some root } := by
  induction roots generalizing scan with
  | nil => simp
  | cons root roots ih =>
    rw [List.map_cons, List.foldl_cons]
    by_cases hroot : c = some root
    · have hscan : scanEntry env c scan ⟨.path root, .write⟩ = scan := by
        simp [scanEntry, FileSystemAccessMode.canWrite, hroot, ← h]
      rw [hscan, ih scan h]
      simp [hroot]
    · have hscan : scanEntry env c scan ⟨.path root, .write⟩ =
          { scan with writableRoots := scan.writableRoots ++ [root] } := by
        simp [scanEntry, FileSystemAccessMode.canWrite, hroot]
      rw [hscan, ih]
      · simp [hroot]
      · exact h

/-- Removing duplicates keeps each path once, in order. -/
theorem dedupAbsolutePaths_spec (paths : List AbsolutePathBuf) :
    (dedupAbsolutePaths env paths false).Nodup ∧
      (dedupAbsolutePaths env paths false).Sublist paths := by
  unfold dedupAbsolutePaths
  simp only [Bool.false_eq_true, if_false]
  have hfold : ∀ kept : List AbsolutePathBuf, kept.Nodup →
      (paths.foldl (fun deduped path => if path ∈ deduped then deduped else deduped ++ [path])
        kept).Nodup ∧
      (paths.foldl (fun deduped path => if path ∈ deduped then deduped else deduped ++ [path])
        kept).Sublist (kept ++ paths) := by
    induction paths with
    | nil =>
      intro kept hkept
      exact ⟨hkept, by simp⟩
    | cons path paths ih =>
      intro kept hkept
      rw [List.foldl_cons]
      split
      · obtain ⟨hnodup, hsub⟩ := ih kept hkept
        exact ⟨hnodup, hsub.trans ((List.Sublist.refl kept).append (List.sublist_cons_self _ _))⟩
      · obtain ⟨hnodup, hsub⟩ := ih (kept ++ [path]) (by
          rw [List.nodup_append]
          refine ⟨hkept, by simp, fun x hx y hy => ?_⟩
          rintro rfl
          rw [List.mem_singleton.mp hy] at hx
          contradiction)
        exact ⟨hnodup, by simpa using hsub⟩
  exact hfold [] List.nodup_nil

/-! ### The round trip -/

/-- `back` is the policy with its roots listed once, in their order, and without `cwd`. -/
def SameUpToRoots (cwd : AbsolutePathBuf) : SandboxPolicy → SandboxPolicy → Prop
  | .workspaceWrite roots network noTmpdir noSlashTmp, back =>
    ∃ roots', back = .workspaceWrite roots' network noTmpdir noSlashTmp ∧ roots'.Nodup ∧
      roots'.Sublist roots ∧ ∀ root, root ∈ roots' ↔ root ∈ roots ∧ root ≠ cwd
  | policy, back => back = policy

lemma isEnabled_ofLegacy (policy : SandboxPolicy) :
    (NetworkSandboxPolicy.ofLegacy policy).isEnabled = policy.hasFullNetworkAccess := by
  unfold NetworkSandboxPolicy.ofLegacy
  cases policy.hasFullNetworkAccess <;> rfl

/-- No write entry of a workspace policy is the filesystem root. -/
theorem hasFullDiskWriteAccess_fromLegacy (network noTmpdir noSlashTmp : Bool) :
    (FileSystemSandboxPolicy.fromLegacySandboxPolicyForCwd env
      (.workspaceWrite roots network noTmpdir noSlashTmp) cwd).hasFullDiskWriteAccess = false := by
  have hkind : (FileSystemSandboxPolicy.fromLegacySandboxPolicyForCwd env
    (.workspaceWrite roots network noTmpdir noSlashTmp) cwd).kind = .restricted := rfl
  have hroot : (FileSystemSandboxPolicy.fromLegacySandboxPolicyForCwd env
      (.workspaceWrite roots network noTmpdir noSlashTmp) cwd).hasRootAccess
        FileSystemAccessMode.canWrite = false := by
    rw [FileSystemSandboxPolicy.hasRootAccess, decide_eq_true hkind, Bool.true_and,
      List.any_eq_false]
    intro entry hentry hwrite
    rw [Bool.and_eq_true, decide_eq_true_iff] at hwrite
    have hmem : entry ∈ writes (FileSystemSandboxPolicy.fromLegacySandboxPolicyForCwd env
        (.workspaceWrite roots network noTmpdir noSlashTmp) cwd).entries :=
      List.mem_filter.mpr ⟨hentry, hwrite.2⟩
    rw [writes_fromLegacy] at hmem
    have hpath : entry.path ≠ .special .root := by
      rcases List.mem_cons.mp hmem with rfl | hmem
      · simp
      · simp only [List.mem_append, List.mem_map] at hmem
        rcases hmem with (hmem | hmem) | ⟨path, -, rfl⟩
        · split at hmem
          · simp at hmem
          · simp [List.mem_singleton.mp hmem]
        · split at hmem
          · simp at hmem
          · simp [List.mem_singleton.mp hmem]
        · simp
    exact hpath hwrite.1
  rw [FileSystemSandboxPolicy.hasFullDiskWriteAccess, hkind]
  simp [hroot]

/-- A policy that lets the working directory be written but not the whole disk is read back as a
workspace policy. -/
theorem toLegacy_of_scan {policy : FileSystemSandboxPolicy} (hkind : policy.kind = .restricted)
    (hfull : policy.hasFullDiskWriteAccess = false) {scan : LegacyScan}
    (hscan : policy.entries.foldl (scanEntry env (fromAbsolutePath env cwd)) {} = scan)
    (hwritable : scan.workspaceRootWritable = true) (network : NetworkSandboxPolicy) :
    policy.toLegacySandboxPolicy env network cwd =
      .ok (.workspaceWrite (dedupAbsolutePaths env scan.writableRoots false) network.isEnabled
        (!scan.tmpdirWritable) (!scan.slashTmpWritable)) := by
  simp only [FileSystemSandboxPolicy.toLegacySandboxPolicy, hkind, hfull, hscan, hwritable,
    Bool.false_eq_true, if_false, if_true]

/-- **Legacy policies round-trip**: reading back what a legacy policy is written as succeeds, and
gives the policy with its roots listed once and without the working directory. -/
theorem legacy_roundTrip (hcwd : isAbsolute cwd = true) (policy : SandboxPolicy) :
    ∃ back, (FileSystemSandboxPolicy.fromLegacySandboxPolicyForCwd env policy
        cwd).toLegacySandboxPolicy env (NetworkSandboxPolicy.ofLegacy policy) cwd = .ok back ∧
      SameUpToRoots (normalizePath cwd) policy back := by
  cases policy with
  | dangerFullAccess => exact ⟨_, rfl, rfl⟩
  | externalSandbox network => cases network <;> exact ⟨_, rfl, rfl⟩
  | readOnly network => cases network <;> exact ⟨_, rfl, rfl⟩
  | workspaceWrite roots network noTmpdir noSlashTmp =>
    have hscan : (FileSystemSandboxPolicy.fromLegacySandboxPolicyForCwd env
        (.workspaceWrite roots network noTmpdir noSlashTmp) cwd).entries.foldl
          (scanEntry env (fromAbsolutePath env cwd)) {} =
        { workspaceRootWritable := true
          writableRoots := roots.filter fun root => fromAbsolutePath env cwd ≠ some root
          tmpdirWritable := !noTmpdir
          slashTmpWritable := !noSlashTmp } := by
      rw [foldl_scanEntry, writes_fromLegacy, List.foldl_cons, List.foldl_append,
        foldl_scanEntry_paths]
      · cases noTmpdir <;> cases noSlashTmp <;> rfl
      · cases noTmpdir <;> cases noSlashTmp <;> rfl
    refine ⟨_, toLegacy_of_scan rfl (hasFullDiskWriteAccess_fromLegacy ..) hscan rfl _, ?_⟩
    rw [isEnabled_ofLegacy, Bool.not_not, Bool.not_not]
    obtain ⟨hnodup, hsub⟩ := dedupAbsolutePaths_spec
      (roots.filter fun root => fromAbsolutePath env cwd ≠ some root)
    refine ⟨_, rfl, hnodup, hsub.trans List.filter_sublist, fun root => ?_⟩
    rw [mem_dedupAbsolutePaths fun h => absurd h Bool.false_ne_true, List.mem_filter,
      fromAbsolutePath_of_isAbsolute env hcwd, decide_eq_true_iff, ne_eq, Option.some_inj]
    exact and_congr_right fun _ => not_congr eq_comm

/-- A workspace that lists its own directory, `/tmp` and a root twice. -/
theorem legacy_roundTrip_workspace :
    ∃ back, (FileSystemSandboxPolicy.fromLegacySandboxPolicyForCwd emptyEnvironment
        (.workspaceWrite [["w".toList], ["r".toList], slashTmpPath, ["r".toList]] true false true)
        (asPath ["w".toList])).toLegacySandboxPolicy emptyEnvironment
          (NetworkSandboxPolicy.ofLegacy (.workspaceWrite
            [["w".toList], ["r".toList], slashTmpPath, ["r".toList]] true false true))
          (asPath ["w".toList]) = .ok back ∧
      SameUpToRoots (normalizePath (asPath ["w".toList]))
        (.workspaceWrite [["w".toList], ["r".toList], slashTmpPath, ["r".toList]] true false true)
        back :=
  legacy_roundTrip rfl _

end Codex.Permissions
