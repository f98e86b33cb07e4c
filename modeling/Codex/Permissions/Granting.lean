import Codex.Permissions.Materialize
import Codex.Permissions.PolicyTransforms
import Codex.Permissions.SemanticSignature

/-!
# Granting more

The operations that add to a policy: `with_additional_readable_roots` and
`with_additional_writable_roots` of `protocol/src/permissions.rs`, which leave a root out that
already has the access, and `effective_file_system_sandbox_policy` of
`sandboxing/src/policy_transforms.rs`, which appends every additional entry.

An added entry is the most specific one for a whole subtree, and an added write entry protects
metadata directories of its own.

* `keepsAccess_withAdditionalReadableRoots`, `keepsAccess_withAdditionalWritableRoots`: the first
  two keep every read and every write;
* `granting_keeps_access_iff`: exactly when the third does.
-/

namespace Codex.Permissions

open Codex.Lib

/-! ### The operations -/

/-- `self.entries.push` -/
def FileSystemSandboxPolicy.pushEntry (policy : FileSystemSandboxPolicy)
    (entry : FileSystemSandboxEntry) : FileSystemSandboxPolicy :=
  { policy with entries := policy.entries ++ [entry] }

variable (env : Environment) (policy : FileSystemSandboxPolicy)

def FileSystemSandboxPolicy.withAdditionalReadableRoots (cwd : PathBuf)
    (additionalReadableRoots : List AbsolutePathBuf) : FileSystemSandboxPolicy :=
  if policy.hasFullDiskReadAccess then policy
  else
    additionalReadableRoots.foldl (fun policy path =>
      if policy.canReadPathWithCwd env (asPath path) cwd then policy
      else policy.pushEntry ⟨.path path, .read⟩) policy

def FileSystemSandboxPolicy.withAdditionalWritableRoots (cwd : PathBuf)
    (additionalWritableRoots : List AbsolutePathBuf) : FileSystemSandboxPolicy :=
  additionalWritableRoots.foldl (fun policy path =>
    if policy.canWritePathWithCwd env (asPath path) cwd then policy
    else policy.pushEntry ⟨.path path, .write⟩) policy

variable (fileSystemPolicy : FileSystemSandboxPolicy)

def mergeFileSystemPolicyWithAdditionalPermissions
    (additionalPermissions : FileSystemPermissions) : FileSystemSandboxPolicy :=
  match fileSystemPolicy.kind with
  | .restricted =>
    { fileSystemPolicy with
      entries := additionalPermissions.entries.foldl pushUnique fileSystemPolicy.entries
      globScanMaxDepth := mergeGlobScanMaxDepth fileSystemPolicy.entries
        fileSystemPolicy.globScanMaxDepth additionalPermissions.entries
        additionalPermissions.globScanMaxDepth }
  | .unrestricted => fileSystemPolicy
  | .externalSandbox => fileSystemPolicy

def effectiveFileSystemSandboxPolicy
    (additionalPermissions : Option AdditionalPermissionProfile) : FileSystemSandboxPolicy :=
  match additionalPermissions with
  | none => fileSystemPolicy
  | some additionalPermissions =>
    match additionalPermissions.fileSystem with
    | none => fileSystemPolicy
    | some fileSystemPermissions =>
      if fileSystemPermissions.isEmpty then fileSystemPolicy
      else mergeFileSystemPolicyWithAdditionalPermissions fileSystemPolicy fileSystemPermissions

/-! ### Keeping access -/

/-- What the first policy lets be read and written, the second does too. -/
def KeepsAccess (cwd : PathBuf) (P Q : FileSystemSandboxPolicy) : Prop :=
  ∀ path, (P.canReadPathWithCwd env path cwd = true → Q.canReadPathWithCwd env path cwd = true) ∧
    (P.canWritePathWithCwd env path cwd = true → Q.canWritePathWithCwd env path cwd = true)

/-- The policy lets the path be written: a write entry governs it, and the whole disk is writable
or the metadata directory looked at is open. -/
def WritableAt (cwd : PathBuf) (P : FileSystemSandboxPolicy) (q : AbsolutePathBuf) : Prop :=
  accessAt (P.resolvedEntriesWithCwd env cwd) q = .write ∧ (P.hasFullDiskWriteAccess = true ∨
      metadataOpen (P.resolvedEntriesWithCwd env cwd) q = true)

variable {env : Environment} {P Q R : FileSystemSandboxPolicy} {cwd : PathBuf}
  {p q : AbsolutePathBuf} {B C : List ResolvedFileSystemEntry} {e g w : ResolvedFileSystemEntry}

lemma KeepsAccess.refl (P : FileSystemSandboxPolicy) : KeepsAccess env cwd P P := fun _ => ⟨id, id⟩

lemma KeepsAccess.trans (h : KeepsAccess env cwd P Q) (h' : KeepsAccess env cwd Q R) :
    KeepsAccess env cwd P R :=
  fun path => ⟨(h' path).1 ∘ (h path).1, (h' path).2 ∘ (h path).2⟩

variable (hkind : P.kind = .restricted)
include hkind

variable {path : PathBuf}

lemma canWrite_iff_writableAt (htarget : resolveCandidatePath env path cwd = some q) :
    P.canWritePathWithCwd env path cwd = true ↔ WritableAt env cwd P q := by
  rw [canWritePathWithCwd_eq hkind htarget, WritableAt]
  simp

lemma canRead_iff_accessAt (htarget : resolveCandidatePath env path cwd = some q) :
    P.canReadPathWithCwd env path cwd = true ↔
      accessAt (P.resolvedEntriesWithCwd env cwd) q ≠ .deny := by
  rw [← canRead_asPath hkind, FileSystemSandboxPolicy.canReadPathWithCwd,
    FileSystemSandboxPolicy.canReadPathWithCwd, resolveAccessWithCwd_eq hkind htarget,
    resolveAccessWithCwd_eq hkind (resolveCandidatePath_asPath env q cwd)]

/-- A restricted policy gives nothing at a path that does not resolve. -/
theorem canRead_of_unresolved (htarget : resolveCandidatePath env path cwd = none) :
    P.canReadPathWithCwd env path cwd = false ∧ P.canWritePathWithCwd env path cwd = false := by
  simp [FileSystemSandboxPolicy.canReadPathWithCwd, FileSystemSandboxPolicy.canWritePathWithCwd,
    FileSystemSandboxPolicy.resolveAccessWithCwd, hkind, htarget, FileSystemAccessMode.canRead,
    FileSystemAccessMode.canWrite]

omit hkind

lemma keepsAccess_iff (hP : P.kind = .restricted) (hQ : Q.kind = .restricted) :
    KeepsAccess env cwd P Q ↔ ∀ q, (accessAt (P.resolvedEntriesWithCwd env cwd) q ≠ .deny →
          accessAt (Q.resolvedEntriesWithCwd env cwd) q ≠ .deny) ∧
        (WritableAt env cwd P q → WritableAt env cwd Q q) := by
  constructor
  · intro h q
    have hres := resolveCandidatePath_asPath env q cwd
    rw [← canRead_iff_accessAt hP hres, ← canRead_iff_accessAt hQ hres,
      ← canWrite_iff_writableAt hP hres, ← canWrite_iff_writableAt hQ hres]
    exact h (asPath q)
  · intro h path
    cases hres : resolveCandidatePath env path cwd with
    | none =>
      obtain ⟨hread, hwrite⟩ := canRead_of_unresolved hP hres
      rw [hread, hwrite]
      exact ⟨fun h => absurd h Bool.false_ne_true, fun h => absurd h Bool.false_ne_true⟩
    | some q =>
      rw [canRead_iff_accessAt hP hres, canRead_iff_accessAt hQ hres,
        canWrite_iff_writableAt hP hres, canWrite_iff_writableAt hQ hres]
      exact h q

/-! ### More entries -/

variable (hsub : ∀ x ∈ B, x ∈ C)
include hsub

/-- What governs among more entries governs among fewer that include it. -/
theorem governs_of_subset (hg : EntryGoverns C q g) (hmem : g ∈ B) : EntryGoverns B q g :=
  ⟨hmem, hg.2.1, fun e he => hg.2.2 e (hsub e he)⟩

lemma exists_governs_of_subset (hg : EntryGoverns B q g) :
    ∃ g', EntryGoverns C q g' ∧ accessAt C q = g'.access := by
  obtain h | ⟨hnone, -⟩ := accessAt_spec C q
  · exact h
  · exact absurd hg.2.1 (hnone g (hsub g hg.1))

/-- Adding entries that do not deny keeps every read. -/
theorem accessAt_ne_deny_of_subset
    (hnew : ∀ x ∈ C, x.access = .deny → x ∈ B) (h : accessAt B q ≠ .deny) :
    accessAt C q ≠ .deny := by
  obtain ⟨g, hg, -⟩ | ⟨-, hdeny⟩ := accessAt_spec B q
  · obtain ⟨g', hg', haccess⟩ := exists_governs_of_subset hsub hg
    rw [haccess]
    intro hdeny
    refine h ?_
    rw [accessAt_of_governs (governs_of_subset hsub hg' (hnew g' hg'.1 hdeny)), hdeny]
  · exact absurd hdeny h

/-- The write entry that governs a path still does unless an added read entry is more specific. -/
theorem accessAt_eq_write_of_subset
    (hnew : ∀ x ∈ C, x.access = .deny → x ∈ B) (hg : EntryGoverns B q g)
    (hwrite : g.access = .write)
    (hread : ∀ r ∈ C, r.access = .read → r.path <+: q → g.path.length < r.path.length →
      ∃ w ∈ C, w.access = .write ∧ w.path = r.path) :
    accessAt C q = .write := by
  have hwriteB : accessAt B q = .write := (accessAt_of_governs hg).trans hwrite
  obtain ⟨g', hg', haccess⟩ := exists_governs_of_subset hsub hg
  rw [haccess]
  cases hg'access : g'.access with
  | write => rfl
  | deny =>
    have hB := governs_of_subset hsub hg' (hnew g' hg'.1 hg'access)
    rw [accessAt_of_governs hB, hg'access] at hwriteB
    cases hwriteB
  | read =>
    exfalso
    -- a write entry at the path of a governing read entry would win over it
    have hnowrite : ∀ w ∈ C, w.access = .write → w.path ≠ g'.path := by
      intro w hw hwaccess hpath
      have hle := hg'.access_le hw hpath
      rw [hwaccess, hg'access] at hle
      cases hle
    have hlen := hg'.length_le (hsub g hg.1) hg.2.1
    rcases hlen.lt_or_eq with hlt | heq
    · obtain ⟨w, hw, hwaccess, hpath⟩ := hread g' hg'.1 hg'access hg'.2.1 hlt
      exact hnowrite w hw hwaccess hpath
    · have hbelow := hg'.path_prefix (hsub g hg.1) hg.2.1
      exact hnowrite g (hsub g hg.1) hwrite (hbelow.eq_of_length heq)

omit hsub

/-- Full-disk write access is kept when no entry is added but write entries. -/
theorem fullDiskWrite_of_subset (hkind : Q.kind = P.kind) (hsub : ∀ x ∈ P.entries, x ∈ Q.entries)
    (hnew : ∀ x ∈ Q.entries, x.access ≠ .write → x ∈ P.entries)
    (h : P.hasFullDiskWriteAccess = true) : Q.hasFullDiskWriteAccess = true := by
  cases hP : P.kind with
  | unrestricted => simp [FileSystemSandboxPolicy.hasFullDiskWriteAccess, hkind, hP]
  | externalSandbox => simp [FileSystemSandboxPolicy.hasFullDiskWriteAccess, hkind, hP]
  | restricted =>
    have hQ : Q.kind = .restricted := hkind.trans hP
    simp only [FileSystemSandboxPolicy.hasFullDiskWriteAccess, hP, hQ, Bool.and_eq_true,
      Bool.not_eq_true', FileSystemSandboxPolicy.hasRootAccess, decide_true, Bool.true_and,
      List.any_eq_true, hasWriteNarrowingEntries_eq, List.any_eq_false] at h ⊢
    obtain ⟨⟨root, hroot, hwrite⟩, hnarrow⟩ := h
    refine ⟨⟨root, hsub root hroot, hwrite⟩, fun x hx hnarrows => ?_⟩
    have hne : x.access ≠ .write := by
      intro hwrite
      simp [narrows, hwrite, FileSystemAccessMode.canWrite] at hnarrows
    have hover : P.hasSameTargetWriteOverride x = true → Q.hasSameTargetWriteOverride x = true := by
      intro hover
      obtain ⟨c, hc, hprop⟩ := List.any_eq_true.mp hover
      exact List.any_eq_true.mpr ⟨c, hsub c hc, hprop⟩
    refine hnarrow x (hnew x hx hne) ?_
    unfold narrows at hnarrows ⊢
    rw [Bool.and_eq_true] at hnarrows ⊢
    refine ⟨hnarrows.1, ?_⟩
    have hkept := hnarrows.2
    revert hkept
    split <;> first
      | exact id
      | (intro hnot
         rw [Bool.not_eq_true', ← Bool.not_eq_true] at hnot ⊢
         exact fun h => hnot (hover h))

/-! ### The metadata directory looked at -/

/-- Below the path of every write entry that holds there, nothing new is looked at. -/
theorem metadataOpen_of_short (hpq : p <+: q)
    (hshort : ∀ e ∈ B, e.access = .write → e.path <+: q → e.path.length < p.length) :
    metadataOpen B p = metadataOpen B q := by
  have hholds : ∀ e ∈ B, e.access = .write → (e.path <+: p ↔ e.path <+: q) := by
    intro e he hwrite
    refine ⟨fun h => h.trans hpq, fun h => ?_⟩
    exact List.prefix_of_prefix_length_le h hpq (hshort e he hwrite h).le
  have hchildren : metadataChildren B p = metadataChildren B q := by
    unfold metadataChildren
    refine List.filterMap_congr fun e he => ?_
    obtain ⟨hmem, hcan⟩ := List.mem_filter.mp he
    have hwrite : e.access = .write := by simpa using hcan
    unfold metadataChild
    by_cases hq : e.path <+: q
    · have hp := (hholds e hmem hwrite).mpr hq
      obtain ⟨rest, rfl⟩ := hp
      obtain ⟨below, rfl⟩ := hpq
      have hlt := hshort e hmem hwrite hq
      cases rest with
      | nil => simp at hlt
      | cons name rest => simp
    · rw [if_neg hq, if_neg fun h => hq ((hholds e hmem hwrite).mp h)]
  have hexplicit : ∀ m, hasExplicitWriteEntry B m p = hasExplicitWriteEntry B m q := by
    intro m
    rw [Bool.eq_iff_iff, hasExplicitWriteEntry_eq_true_iff, hasExplicitWriteEntry_eq_true_iff]
    refine exists_congr fun e => and_congr_right fun he => and_congr_right fun hwrite => ?_
    rw [hholds e he hwrite]
  unfold metadataOpen
  rw [hchildren]
  simp only [hexplicit]

/-- The directory looked at is closed when it is the one of a write entry that no write entry
opens. -/
theorem metadataOpen_eq_false_iff :
    metadataOpen C q = false ↔ ∃ m, (metadataChildren C q).head? = some m ∧
        ∀ e ∈ C, e.access = .write → e.path <+: q → ¬ m.1 <+: e.path := by
  unfold metadataOpen
  cases hhead : (metadataChildren C q).head? with
  | none => simp
  | some m =>
    simp only [Option.some.injEq, exists_eq_left', ← Bool.not_eq_true,
      hasExplicitWriteEntry_eq_true_iff]
    push Not
    rfl

lemma metadataChildren_append (B C : List ResolvedFileSystemEntry) (q : AbsolutePathBuf) :
    metadataChildren (B ++ C) q = metadataChildren B q ++ metadataChildren C q := by
  simp [metadataChildren, List.filterMap_append]

/-! ### Adding one root -/

lemma resolvedEntries_pushEntry (P : FileSystemSandboxPolicy) (p : AbsolutePathBuf)
    (access : FileSystemAccessMode) :
    (P.pushEntry ⟨.path p, access⟩).resolvedEntriesWithCwd env cwd =
      P.resolvedEntriesWithCwd env cwd ++ [⟨p, access⟩] := by
  simp [FileSystemSandboxPolicy.resolvedEntriesWithCwd, FileSystemSandboxPolicy.pushEntry,
    resolveEntry, resolveEntryPath, resolveFileSystemPath]

/-- A policy with full-disk write access lets every path be read. -/
theorem accessAt_ne_deny_of_fullDiskWrite (hcwd : isAbsolute cwd = true)
    (hkind : P.kind = .restricted) (hfull : P.hasFullDiskWriteAccess = true) :
    accessAt (P.resolvedEntriesWithCwd env cwd) q ≠ .deny := by
  obtain ⟨g, hg, haccess⟩ | ⟨hnone, -⟩ := accessAt_spec (P.resolvedEntriesWithCwd env cwd) q
  · rw [haccess]
    intro hdeny
    have hread := (override_of_fullDiskWrite hcwd hkind hfull hg.1 (by rw [hdeny]; decide)).1
    rw [hread] at hdeny
    exact FileSystemAccessMode.noConfusion hdeny
  · simp only [FileSystemSandboxPolicy.hasFullDiskWriteAccess, hkind, Bool.and_eq_true,
      FileSystemSandboxPolicy.hasRootAccess, decide_true, Bool.true_and, List.any_eq_true,
      decide_eq_true_iff] at hfull
    obtain ⟨⟨root, hmem, hpath, -⟩, -⟩ := hfull
    exact absurd List.nil_prefix (hnone _ (mem_resolvedEntries_of_root hcwd hmem hpath))

variable {x : ResolvedFileSystemEntry}

lemma mem_of_access_ne (hx : x ∈ B ++ [e]) (hne : x.access ≠ e.access) : x ∈ B := by
  rcases List.mem_append.mp hx with hx | hx
  · exact hx
  · exact absurd (congrArg _ (List.mem_singleton.mp hx)) hne

/-- A read entry at a path that could not be read takes nothing away: nothing below it could be
written through an entry above it. -/
theorem keepsAccess_pushRead (hcwd : isAbsolute cwd = true) (hkind : P.kind = .restricted)
    (hread : P.canReadPathWithCwd env (asPath p) cwd = false) :
    KeepsAccess env cwd P (P.pushEntry ⟨.path p, .read⟩) := by
  rw [← Bool.not_eq_true, canRead_asPath hkind, not_not] at hread
  have hsub : ∀ x ∈ P.resolvedEntriesWithCwd env cwd,
      x ∈ P.resolvedEntriesWithCwd env cwd ++ [⟨p, .read⟩] :=
    fun x hx => List.mem_append_left _ hx
  have hnew : ∀ x ∈ P.resolvedEntriesWithCwd env cwd ++ [⟨p, .read⟩], x.access ≠ .read →
      x ∈ P.resolvedEntriesWithCwd env cwd := fun x => mem_of_access_ne
  have hkind' : (P.pushEntry ⟨.path p, .read⟩).kind = .restricted := hkind
  rw [keepsAccess_iff hkind hkind', resolvedEntries_pushEntry]
  have hdeny : ∀ x ∈ P.resolvedEntriesWithCwd env cwd ++ [⟨p, .read⟩], x.access = .deny →
      x ∈ P.resolvedEntriesWithCwd env cwd := fun x hx hdeny => hnew x hx (by simp [hdeny])
  refine fun q => ⟨accessAt_ne_deny_of_subset hsub hdeny, ?_⟩
  rintro ⟨hwrite, hopen⟩
  rw [WritableAt, resolvedEntries_pushEntry]
  have hnofull : P.hasFullDiskWriteAccess ≠ true :=
    fun hfull => accessAt_ne_deny_of_fullDiskWrite hcwd hkind hfull hread
  obtain ⟨g, hg, hgwrite⟩ := accessAt_eq_write_iff.mp hwrite
  constructor
  · refine accessAt_eq_write_of_subset hsub hdeny hg hgwrite fun r hr hrread hrq hlt => ?_
    exfalso
    rcases List.mem_append.mp hr with hr | hr
    · exact absurd (hg.length_le hr hrq) (not_le.mpr hlt)
    · -- the entry that governs `q` governs `p` above it
      obtain rfl := List.mem_singleton.mp hr
      have hgp : g.path <+: p := List.prefix_of_prefix_length_le hg.2.1 hrq hlt.le
      rw [accessAt_of_governs (hg.of_prefix hgp hrq), hgwrite] at hread
      exact FileSystemAccessMode.noConfusion hread
  · refine .inr ?_
    have hopenB := hopen.resolve_left hnofull
    rw [← Bool.not_eq_false, metadataOpen_eq_false_iff] at hopenB ⊢
    rintro ⟨m, hm, hclosed⟩
    refine hopenB ⟨m, ?_, fun e he => hclosed e (hsub e he)⟩
    rw [metadataChildren_append] at hm
    simpa [metadataChildren, FileSystemAccessMode.canWrite] using hm

/-- A write entry at a path that could not be written takes nothing away: where its metadata
directories were open, a more specific write entry opens them. -/
theorem keepsAccess_pushWrite (hkind : P.kind = .restricted)
    (hwritable : P.canWritePathWithCwd env (asPath p) cwd = false) :
    KeepsAccess env cwd P (P.pushEntry ⟨.path p, .write⟩) := by
  rw [← Bool.not_eq_true,
    canWrite_iff_writableAt hkind (resolveCandidatePath_asPath env p cwd)] at hwritable
  have hsub : ∀ x ∈ P.resolvedEntriesWithCwd env cwd,
      x ∈ P.resolvedEntriesWithCwd env cwd ++ [⟨p, .write⟩] :=
    fun x hx => List.mem_append_left _ hx
  have hnew : ∀ x ∈ P.resolvedEntriesWithCwd env cwd ++ [⟨p, .write⟩], x.access ≠ .write →
      x ∈ P.resolvedEntriesWithCwd env cwd := fun x => mem_of_access_ne
  have hkind' : (P.pushEntry ⟨.path p, .write⟩).kind = .restricted := hkind
  rw [keepsAccess_iff hkind hkind', resolvedEntries_pushEntry]
  have hdeny : ∀ x ∈ P.resolvedEntriesWithCwd env cwd ++ [⟨p, .write⟩], x.access = .deny →
      x ∈ P.resolvedEntriesWithCwd env cwd := fun x hx hdeny => hnew x hx (by simp [hdeny])
  refine fun q => ⟨accessAt_ne_deny_of_subset hsub hdeny, ?_⟩
  rintro ⟨hwrite, hopen⟩
  rw [WritableAt, resolvedEntries_pushEntry]
  obtain ⟨g, hg, hgwrite⟩ := accessAt_eq_write_iff.mp hwrite
  constructor
  · refine accessAt_eq_write_of_subset hsub hdeny hg hgwrite fun r hr hrread hrq hlt => ?_
    exact absurd (hg.length_le (hnew r hr (by simp [hrread])) hrq) (not_le.mpr hlt)
  · refine hopen.imp (fullDiskWrite_of_subset (P := P) (Q := P.pushEntry ⟨.path p, .write⟩)
      rfl (fun x hx => List.mem_append_left _ hx) ?_) ?_
    · intro x hx hne
      rcases List.mem_append.mp hx with hx | hx
      · exact hx
      · exact absurd (by rw [List.mem_singleton.mp hx]) hne
    · intro hopenB
      rw [← Bool.not_eq_false, metadataOpen_eq_false_iff]
      rintro ⟨m, hm, hclosed⟩
      rw [metadataChildren_append, List.head?_append] at hm
      cases hhead : (metadataChildren (P.resolvedEntriesWithCwd env cwd) q).head? with
      | some m' =>
        -- the directory looked at is the one from before
        rw [hhead, Option.some_or, Option.some_inj] at hm
        subst hm
        rw [← Bool.not_eq_false, metadataOpen_eq_false_iff] at hopenB
        exact hopenB ⟨m', hhead, fun e he => hclosed e (hsub e he)⟩
      | none =>
        rw [hhead, Option.none_or] at hm
        obtain ⟨e, he, -, name, hname, hbelow, rfl⟩ :=
          mem_metadataChildren_iff.mp (List.mem_of_head? hm)
        obtain rfl := List.mem_singleton.mp he
        have hpq : p <+: q := (List.prefix_append _ _).trans hbelow
        have hnochild := List.head?_eq_none_iff.mp hhead
        rcases lt_or_ge p.length g.path.length with hlt | hle
        · -- the entry that governs `q` stands in the directory
          refine hclosed g (hsub g hg.1) hgwrite hg.2.1 ?_
          exact List.prefix_of_prefix_length_le hbelow hg.2.1
            (by simpa [join, Nat.succ_le_iff] using hlt)
        · -- it governs `p` as well, where no metadata directory is looked at
          have hgp : g.path <+: p := List.prefix_of_prefix_length_le hg.2.1 hpq hle
          refine hwritable ⟨?_, .inr ?_⟩
          · rw [accessAt_of_governs (hg.of_prefix hgp hpq), hgwrite]
          · have hnil : metadataChildren (P.resolvedEntriesWithCwd env cwd) p = [] := by
              refine List.eq_nil_iff_forall_not_mem.mpr fun m hm => ?_
              obtain ⟨e, he, hwrite, name, hname, hbelow, rfl⟩ := mem_metadataChildren_iff.mp hm
              have hmem := mem_metadataChildren_iff.mpr
                ⟨e, he, hwrite, name, hname, hbelow.trans hpq, rfl⟩
              rw [hnochild] at hmem
              exact List.not_mem_nil hmem
            rw [metadataOpen, hnil]
            rfl

/-! ### Adding roots -/

/-- What a loop that adds roots keeps, from what each step keeps. -/
theorem keepsAccess_foldl
    {step : FileSystemSandboxPolicy → AbsolutePathBuf → FileSystemSandboxPolicy}
    (hstep : ∀ P path, KeepsAccess env cwd P (step P path)) (roots : List AbsolutePathBuf) :
    KeepsAccess env cwd P (roots.foldl step P) := by
  induction roots generalizing P with
  | nil => exact KeepsAccess.refl P
  | cons path roots ih => exact (hstep P path).trans ih

lemma keepsAccess_withAdditionalReadableRoots (hcwd : isAbsolute cwd = true)
    (roots : List AbsolutePathBuf) :
    KeepsAccess env cwd P (P.withAdditionalReadableRoots env cwd roots) := by
  unfold FileSystemSandboxPolicy.withAdditionalReadableRoots
  split
  · exact KeepsAccess.refl P
  · refine keepsAccess_foldl (fun P path => ?_) roots
    split
    case isTrue => exact KeepsAccess.refl P
    case isFalse hread =>
      have hkind : P.kind = .restricted := by
        by_contra hkind
        refine hread ?_
        cases h : P.kind <;> simp_all [FileSystemSandboxPolicy.canReadPathWithCwd,
          FileSystemSandboxPolicy.resolveAccessWithCwd, FileSystemAccessMode.canRead]
      exact keepsAccess_pushRead hcwd hkind (Bool.not_eq_true _ ▸ hread)

lemma keepsAccess_withAdditionalWritableRoots (roots : List AbsolutePathBuf) :
    KeepsAccess env cwd P (P.withAdditionalWritableRoots env cwd roots) := by
  unfold FileSystemSandboxPolicy.withAdditionalWritableRoots
  refine keepsAccess_foldl (fun P path => ?_) roots
  split
  case isTrue => exact KeepsAccess.refl P
  case isFalse hwrite =>
    have hkind : P.kind = .restricted := by
      by_contra hkind
      refine hwrite ?_
      cases h : P.kind <;> simp_all [FileSystemSandboxPolicy.canWritePathWithCwd,
        FileSystemSandboxPolicy.resolveAccessWithCwd, FileSystemAccessMode.canWrite,
        FileSystemSandboxPolicy.hasFullDiskWriteAccess]
    exact keepsAccess_pushWrite hkind (Bool.not_eq_true _ ▸ hwrite)

/-! ### Appending every entry -/

variable (additional : Option AdditionalPermissionProfile)

/-- The entries of an additional profile. -/
def additionalEntries : List FileSystemSandboxEntry :=
  match additional with
  | some additional => additional.fileSystemEntries
  | none => []

/-- A policy with further entries after its own. -/
def FileSystemSandboxPolicy.combinedWith (policy : FileSystemSandboxPolicy)
    (entries : List FileSystemSandboxEntry) : FileSystemSandboxPolicy :=
  { policy with entries := policy.entries ++ entries }

/-- No additional entry denies. -/
def DeniesNothing : Prop :=
  ∀ e ∈ additionalEntries additional, e.access ≠ .deny

/-- Every read entry, of the policy or added, at a path that the policy lets be written has a write
entry at the same path. -/
def ReadsMatched (env : Environment) (cwd : PathBuf) (P : FileSystemSandboxPolicy)
    (added : List FileSystemSandboxEntry) : Prop :=
  ∀ r ∈ (P.combinedWith added).resolvedEntriesWithCwd env cwd, r.access = .read →
    P.canWritePathWithCwd env (asPath r.path) cwd = true →
      ∃ w ∈ (P.combinedWith added).resolvedEntriesWithCwd env cwd,
        w.access = .write ∧ w.path = r.path

/-- The whole disk stays writable, or no metadata directory of a write entry, of the policy or
added, that the policy lets be written is one that the entries together close. -/
def MetadataStaysOpen (env : Environment) (cwd : PathBuf) (P : FileSystemSandboxPolicy)
    (added : List FileSystemSandboxEntry) : Prop :=
  (P.combinedWith added).hasFullDiskWriteAccess = true ∨
    ∀ w ∈ (P.combinedWith added).resolvedEntriesWithCwd env cwd, w.access = .write →
      ∀ name ∈ protectedMetadataPathNames,
        P.canWritePathWithCwd env (asPath (join w.path name)) cwd = true →
          metadataOpen ((P.combinedWith added).resolvedEntriesWithCwd env cwd)
            (join w.path name) = true

lemma resolvedEntries_combinedWith (added : List FileSystemSandboxEntry) :
    (P.combinedWith added).resolvedEntriesWithCwd env cwd = P.resolvedEntriesWithCwd env cwd ++
        added.filterMap (resolveEntry env (fromAbsolutePath env cwd)) := by
  simp [FileSystemSandboxPolicy.resolvedEntriesWithCwd, FileSystemSandboxPolicy.combinedWith]

variable {added : List FileSystemSandboxEntry}

/-- A further entry that denies is one of the policy's own. -/
theorem mem_of_deny_combinedWith (hnodeny : ∀ e ∈ added, e.access ≠ .deny)
    (hx : x ∈ (P.combinedWith added).resolvedEntriesWithCwd env cwd)
    (hdeny : x.access = .deny) : x ∈ P.resolvedEntriesWithCwd env cwd := by
  rw [resolvedEntries_combinedWith] at hx
  rcases List.mem_append.mp hx with hx | hx
  · exact hx
  · obtain ⟨e, he, hres⟩ := List.mem_filterMap.mp hx
    obtain ⟨path, -, rfl⟩ := Option.map_eq_some_iff.mp hres
    exact absurd hdeny (hnodeny e he)

/-- Write access is kept everywhere exactly when the read entries are matched and the metadata
directories stay open. -/
theorem keepsAccess_combinedWith_iff (hkind : P.kind = .restricted)
    (hnodeny : ∀ e ∈ added, e.access ≠ .deny) :
    KeepsAccess env cwd P (P.combinedWith added) ↔
      ReadsMatched env cwd P added ∧ MetadataStaysOpen env cwd P added := by
  have hkind' : (P.combinedWith added).kind = .restricted := hkind
  have hcan : ∀ q, P.canWritePathWithCwd env (asPath q) cwd = true ↔ WritableAt env cwd P q :=
    fun q => canWrite_iff_writableAt hkind (resolveCandidatePath_asPath env q cwd)
  have hsub : ∀ x ∈ P.resolvedEntriesWithCwd env cwd,
      x ∈ (P.combinedWith added).resolvedEntriesWithCwd env cwd := by
    intro x hx
    rw [resolvedEntries_combinedWith]
    exact List.mem_append_left _ hx
  rw [keepsAccess_iff hkind hkind']
  unfold ReadsMatched MetadataStaysOpen
  simp only [hcan]
  constructor
  · intro h
    constructor
    · intro r hr _ hwritable
      -- the entry that gives write access at the path of the read entry stands there
      obtain ⟨g, hg, hwrite⟩ := accessAt_eq_write_iff.mp ((h r.path).2 hwritable).1
      refine ⟨g, hg.1, hwrite, ?_⟩
      have hbelow := hg.path_prefix hr List.prefix_rfl
      exact hg.2.1.eq_of_length (le_antisymm hg.2.1.length_le hbelow.length_le)
    · by_cases hfull : (P.combinedWith added).hasFullDiskWriteAccess = true
      · exact .inl hfull
      · refine .inr fun w _ _ name _ hwritable => ?_
        exact ((h (join w.path name)).2 hwritable).2.resolve_left hfull
  · rintro ⟨hreads, hmeta⟩ q
    refine ⟨accessAt_ne_deny_of_subset hsub fun x hx => mem_of_deny_combinedWith hnodeny hx, ?_⟩
    rintro ⟨hwrite, hopen⟩
    obtain ⟨g, hg, hgwrite⟩ := accessAt_eq_write_iff.mp hwrite
    -- write access at `q` comes down to the paths between the governing entry and `q`
    have habove : ∀ p, p <+: q → g.path.length < p.length → WritableAt env cwd P p := by
      intro p hpq hlt
      have hgp : g.path <+: p := List.prefix_of_prefix_length_le hg.2.1 hpq hlt.le
      refine ⟨by rw [accessAt_of_governs (hg.of_prefix hgp hpq), hgwrite], hopen.imp_right ?_⟩
      intro hopen
      rw [metadataOpen_of_short hpq, hopen]
      exact fun e he _ hq => (hg.length_le he hq).trans_lt hlt
    have hwriteC : accessAt ((P.combinedWith added).resolvedEntriesWithCwd env cwd) q = .write := by
      refine accessAt_eq_write_of_subset hsub (fun x hx => mem_of_deny_combinedWith hnodeny hx) hg
        hgwrite fun r hr hrread hrq hlt => ?_
      exact hreads r hr hrread (habove r.path hrq hlt)
    refine ⟨hwriteC, ?_⟩
    rcases hmeta with hfull | hmeta
    · exact .inl hfull
    · refine .inr ?_
      by_contra hnotopen
      rw [Bool.not_eq_true] at hnotopen
      obtain ⟨m, hm, hclosed⟩ := metadataOpen_eq_false_iff.mp hnotopen
      obtain ⟨w, hw, hwwrite, name, hname, hbelow, rfl⟩ :=
        mem_metadataChildren_iff.mp (List.mem_of_head? hm)
      -- no write entry stands in the closed directory, so none holds below its parent
      have hshort : ∀ e ∈ (P.combinedWith added).resolvedEntriesWithCwd env cwd,
          e.access = .write → e.path <+: q → e.path.length < (join w.path name).length := by
        intro e he hewrite heq
        by_contra hle
        exact hclosed e he hewrite heq (List.prefix_of_prefix_length_le hbelow heq (not_lt.mp hle))
      have hwritable := habove (join w.path name) hbelow (hshort g (hsub g hg.1) hgwrite hg.2.1)
      have hopenC := hmeta w hw hwwrite name hname hwritable
      rw [metadataOpen_of_short hbelow hshort, hnotopen] at hopenC
      exact Bool.false_ne_true hopenC

lemma effective_entries (hkind : P.kind = .restricted)
    (additional : Option AdditionalPermissionProfile) :
    (effectiveFileSystemSandboxPolicy P additional).kind = .restricted ∧
      (effectiveFileSystemSandboxPolicy P additional).entries =
        (additionalEntries additional).foldl pushUnique P.entries := by
  unfold effectiveFileSystemSandboxPolicy
  cases additional with
  | none => exact ⟨hkind, rfl⟩
  | some profile =>
    obtain ⟨network, fileSystem⟩ := profile
    cases fileSystem with
    | none => exact ⟨hkind, rfl⟩
    | some permissions =>
      by_cases hempty : permissions.isEmpty = true
      · have hnil : permissions.entries = [] := List.isEmpty_iff.mp hempty
        simp [hempty, hkind, hnil, additionalEntries, AdditionalPermissionProfile.fileSystemEntries]
      · simp [hempty, hkind, mergeFileSystemPolicyWithAdditionalPermissions, additionalEntries,
          AdditionalPermissionProfile.fileSystemEntries]

/-- Leaving out entries that are there already changes no answer. -/
theorem keepsAccess_effective_iff (hcwd : isAbsolute cwd = true) (hkind : P.kind = .restricted)
    (additional : Option AdditionalPermissionProfile) :
    KeepsAccess env cwd P (effectiveFileSystemSandboxPolicy P additional) ↔
      KeepsAccess env cwd P (P.combinedWith (additionalEntries additional)) := by
  obtain ⟨hkindE, hentries⟩ := effective_entries hkind additional
  have hkindC : (P.combinedWith (additionalEntries additional)).kind = .restricted := hkind
  have hmem : ∀ x, x ∈ (effectiveFileSystemSandboxPolicy P additional).entries ↔
      x ∈ (P.combinedWith (additionalEntries additional)).entries := by
    intro x
    rw [hentries, mem_foldl_pushUnique]
    exact List.mem_append.symm
  have hres : ∀ x,
      x ∈ (effectiveFileSystemSandboxPolicy P additional).resolvedEntriesWithCwd env cwd ↔
      x ∈ (P.combinedWith (additionalEntries additional)).resolvedEntriesWithCwd env cwd := by
    intro x
    simp only [FileSystemSandboxPolicy.resolvedEntriesWithCwd, List.mem_filterMap, hmem]
  have hfull := hasFullDiskWriteAccess_congr (hkindE.trans hkindC.symm) hmem
  have hhead : ∀ q,
      (metadataChildren ((effectiveFileSystemSandboxPolicy P additional).resolvedEntriesWithCwd env
        cwd) q).head? =
      (metadataChildren ((P.combinedWith (additionalEntries additional)).resolvedEntriesWithCwd env
        cwd) q).head? := by
    intro q
    unfold FileSystemSandboxPolicy.resolvedEntriesWithCwd
    rw [fromAbsolutePath_of_isAbsolute env hcwd, hentries]
    exact (head?_metadataChildren _).trans
      ((findSome?_foldl_pushUnique _ _ _).trans (head?_metadataChildren _).symm)
  have hexplicit : ∀ m q, hasExplicitWriteEntry
      ((effectiveFileSystemSandboxPolicy P additional).resolvedEntriesWithCwd env cwd) m q =
      hasExplicitWriteEntry
        ((P.combinedWith (additionalEntries additional)).resolvedEntriesWithCwd env cwd) m q := by
    intro m q
    rw [Bool.eq_iff_iff, hasExplicitWriteEntry_eq_true_iff, hasExplicitWriteEntry_eq_true_iff]
    simp only [hres]
  rw [keepsAccess_iff hkind hkindE, keepsAccess_iff hkind hkindC]
  unfold WritableAt metadataOpen
  simp only [accessAt_congr hres, hfull, hhead, hexplicit]

/-- A policy that is not restricted gives every access, and is left as it is. -/
theorem effective_of_not_restricted (hkind : P.kind ≠ .restricted)
    (additional : Option AdditionalPermissionProfile) :
    effectiveFileSystemSandboxPolicy P additional = P := by
  unfold effectiveFileSystemSandboxPolicy mergeFileSystemPolicyWithAdditionalPermissions
  split
  · rfl
  · split
    · rfl
    · split
      · rfl
      · cases h : P.kind <;> simp_all

/-- **Granting more.** Additional permissions without a deny entry, additional readable roots and
additional writable roots take no access away exactly when the read entries are matched and the
metadata directories stay open. -/
theorem granting_keeps_access_iff (hcwd : isAbsolute cwd = true)
    {additional : Option AdditionalPermissionProfile} (hnodeny : DeniesNothing additional) :
    (KeepsAccess env cwd P (effectiveFileSystemSandboxPolicy P additional) ∧
      (∀ roots, KeepsAccess env cwd P (P.withAdditionalReadableRoots env cwd roots)) ∧
      ∀ roots, KeepsAccess env cwd P (P.withAdditionalWritableRoots env cwd roots)) ↔
    (P.kind = .restricted → ReadsMatched env cwd P (additionalEntries additional) ∧
        MetadataStaysOpen env cwd P (additionalEntries additional)) := by
  constructor
  · rintro ⟨heffective, -, -⟩ hkind
    rw [keepsAccess_effective_iff hcwd hkind] at heffective
    exact (keepsAccess_combinedWith_iff hkind hnodeny).mp heffective
  · intro h
    refine ⟨?_, keepsAccess_withAdditionalReadableRoots hcwd,
      keepsAccess_withAdditionalWritableRoots⟩
    by_cases hkind : P.kind = .restricted
    · rw [keepsAccess_effective_iff hcwd hkind]
      exact (keepsAccess_combinedWith_iff hkind hnodeny).mpr (h hkind)
    · rw [effective_of_not_restricted hkind]
      exact KeepsAccess.refl P

/-- The policy that lets `/a` be written. -/
def writableFolder : FileSystemSandboxPolicy := .ofEntries [⟨.path ["a".toList], .write⟩]

/-- The profile that asks for one access at `/a/b`. -/
def folderBelow (access : FileSystemAccessMode) : AdditionalPermissionProfile where
  fileSystem := some { entries := [⟨.path ["a".toList, "b".toList], access⟩] }

lemma deniesNothing_folderBelow {access : FileSystemAccessMode} (h : access ≠ .deny) :
    DeniesNothing (some (folderBelow access)) := by
  intro e he
  obtain rfl := List.mem_singleton.mp he
  exact h

/-- Below a writable folder, a granted read of `/a/b` takes writing there away, and a granted write
of `/a/b` takes writing at `/a/b/.git` away. -/
theorem granting_takes_access_away :
    ¬ (∀ (env : Environment) (cwd : PathBuf) (P : FileSystemSandboxPolicy)
      (additional : Option AdditionalPermissionProfile), isAbsolute cwd = true →
        DeniesNothing additional →
          KeepsAccess env cwd P (effectiveFileSystemSandboxPolicy P additional)) ∧
      (writableFolder.canWritePathWithCwd emptyEnvironment
          (asPath ["a".toList, "b".toList, ".git".toList]) [.rootDir] = true ∧
        (effectiveFileSystemSandboxPolicy writableFolder
          (some (folderBelow .write))).canWritePathWithCwd emptyEnvironment
            (asPath ["a".toList, "b".toList, ".git".toList]) [.rootDir] = false) := by
  refine ⟨fun h => ?_, by decide, by decide⟩
  have hkept := (h emptyEnvironment [.rootDir] writableFolder (some (folderBelow .read)) rfl
    (deniesNothing_folderBelow (by decide)) (asPath ["a".toList, "b".toList])).2 (by decide)
  cases hkept

/-- The writable folder and a granted read below it. -/
theorem granting_keeps_access_iff_folderBelow :
    (KeepsAccess emptyEnvironment [.rootDir] writableFolder
        (effectiveFileSystemSandboxPolicy writableFolder (some (folderBelow .read))) ∧
      (∀ roots, KeepsAccess emptyEnvironment [.rootDir] writableFolder
        (writableFolder.withAdditionalReadableRoots emptyEnvironment [.rootDir] roots)) ∧
      ∀ roots, KeepsAccess emptyEnvironment [.rootDir] writableFolder
        (writableFolder.withAdditionalWritableRoots emptyEnvironment [.rootDir] roots)) ↔
    (writableFolder.kind = .restricted → ReadsMatched emptyEnvironment [.rootDir] writableFolder
          (additionalEntries (some (folderBelow .read))) ∧
        MetadataStaysOpen emptyEnvironment [.rootDir] writableFolder
          (additionalEntries (some (folderBelow .read)))) :=
  granting_keeps_access_iff rfl (deniesNothing_folderBelow (by decide))

end Codex.Permissions
