import Codex.Permissions.Policy

/-!
# The order of the entries

Which of the answers of a policy depend on the order of its entries. Access and reading never do.
Writing and the forbidden-metadata check look at the metadata directory of the first writable entry
that has one around the target, and when several do the order decides.

* `orderIrrelevant_iff`: exactly when the order is irrelevant at a path.
-/

namespace Codex.Permissions

open Codex.Lib

/-- The four answers a policy gives about a path. -/
structure Answers where
  access : FileSystemAccessMode
  canRead : Bool
  canWrite : Bool
  forbidden : Option Text

variable (env : Environment) (policy : FileSystemSandboxPolicy)

/-- The policy's answers about a path. -/
def answers (path cwd : PathBuf) : Answers where
  access := policy.resolveAccessWithCwd env path cwd
  canRead := policy.canReadPathWithCwd env path cwd
  canWrite := policy.canWritePathWithCwd env path cwd
  forbidden := forbiddenAgentMetadataWrite env path cwd policy

/-- No reordering of the entries changes an answer. -/
def OrderIrrelevant (path cwd : PathBuf) : Prop :=
  ∀ entries, entries.Perm policy.entries →
    answers env { policy with entries := entries } path cwd = answers env policy path cwd

/-- The whole disk is writable and so is the path; or at most one metadata directory of a writable
entry holds the path; or a write entry opens each of them. -/
def MetadataUnambiguous (path cwd : PathBuf) : Prop :=
  ∀ target, resolveCandidatePath env path cwd = some target →
    (policy.hasFullDiskWriteAccess = true ∧ policy.resolveAccessWithCwd env path cwd = .write) ∨
    (∀ m ∈ metadataChildren (policy.resolvedEntriesWithCwd env cwd) target,
      ∀ m' ∈ metadataChildren (policy.resolvedEntriesWithCwd env cwd) target, m = m') ∨
    ∀ m ∈ metadataChildren (policy.resolvedEntriesWithCwd env cwd) target,
      policy.hasExplicitWriteEntryForMetadataPath env m.1 target cwd = true

/-! ### What a reordering keeps -/

variable {env : Environment} {policy : FileSystemSandboxPolicy} {path cwd : PathBuf}
  {target : AbsolutePathBuf} {entries : List FileSystemSandboxEntry}
  (h : entries.Perm policy.entries)
include h

lemma mem_resolvedEntries_perm (e : ResolvedFileSystemEntry) :
    e ∈ FileSystemSandboxPolicy.resolvedEntriesWithCwd env { policy with entries := entries } cwd ↔
      e ∈ policy.resolvedEntriesWithCwd env cwd :=
  (h.filterMap _).mem_iff

lemma hasFullDiskWriteAccess_perm :
    FileSystemSandboxPolicy.hasFullDiskWriteAccess { policy with entries := entries } =
      policy.hasFullDiskWriteAccess :=
  hasFullDiskWriteAccess_congr rfl fun _ => h.mem_iff

lemma resolveAccessWithCwd_perm :
    FileSystemSandboxPolicy.resolveAccessWithCwd env { policy with entries := entries } path cwd =
      policy.resolveAccessWithCwd env path cwd := by
  unfold FileSystemSandboxPolicy.resolveAccessWithCwd
  simp only [accessAt_congr (mem_resolvedEntries_perm h)]

omit h

/-- What the answers say about a target inside the metadata directory looked at: nothing when an
entry opens it, its name when not. -/
def blockedName (env : Environment) (policy : FileSystemSandboxPolicy) (target : AbsolutePathBuf)
    (cwd : PathBuf) (m : AbsolutePathBuf × Text) : Option Text :=
  if policy.hasExplicitWriteEntryForMetadataPath env m.1 target cwd then none else some m.2

lemma blockedName_perm (h : entries.Perm policy.entries) (m : AbsolutePathBuf × Text) :
    blockedName env { policy with entries := entries } target cwd m =
      blockedName env policy target cwd m := by
  have hexplicit : FileSystemSandboxPolicy.hasExplicitWriteEntryForMetadataPath env
      { policy with entries := entries } m.1 target cwd =
        policy.hasExplicitWriteEntryForMetadataPath env m.1 target cwd := (h.filterMap _).any_eq
  unfold blockedName
  rw [hexplicit]

lemma mem_metadataChildren_perm (h : entries.Perm policy.entries) (m : AbsolutePathBuf × Text) :
    m ∈ metadataChildren
        (FileSystemSandboxPolicy.resolvedEntriesWithCwd env { policy with entries := entries } cwd)
        target ↔
      m ∈ metadataChildren (policy.resolvedEntriesWithCwd env cwd) target := by
  simp only [mem_metadataChildren_iff, mem_resolvedEntries_perm h]

/-- The name that blocks the first metadata directory around the target, if one does. -/
def firstBlocked (env : Environment) (policy : FileSystemSandboxPolicy) (target : AbsolutePathBuf)
    (cwd : PathBuf) : Option Text :=
  (metadataChildren (policy.resolvedEntriesWithCwd env cwd) target).head?.bind
    (blockedName env policy target cwd)

lemma metadataOpen_eq (target : AbsolutePathBuf) :
    metadataOpen (policy.resolvedEntriesWithCwd env cwd) target =
      (firstBlocked env policy target cwd).isNone := by
  unfold metadataOpen firstBlocked
  cases (metadataChildren (policy.resolvedEntriesWithCwd env cwd) target).head? with
  | none => rfl
  | some m =>
    simp only [Option.bind_some, blockedName,
      FileSystemSandboxPolicy.hasExplicitWriteEntryForMetadataPath]
    by_cases hexplicit : hasExplicitWriteEntry (policy.resolvedEntriesWithCwd env cwd) m.1 target
    · simp [hexplicit]
    · simp [hexplicit]

/-- The order matters only through the name that blocks first. -/
theorem answers_eq (hkind : policy.kind = .restricted)
    (htarget : resolveCandidatePath env path cwd = some target) :
    answers env policy path cwd =
      { access := policy.resolveAccessWithCwd env path cwd
        canRead := (policy.resolveAccessWithCwd env path cwd).canRead
        canWrite := decide (policy.resolveAccessWithCwd env path cwd = .write) &&
          (policy.hasFullDiskWriteAccess || (firstBlocked env policy target cwd).isNone)
        forbidden :=
          if policy.resolveAccessWithCwd env path cwd = .write ∧
              policy.hasFullDiskWriteAccess = true then none
          else firstBlocked env policy target cwd } := by
  have hcan := canWritePathWithCwd_eq hkind htarget
  rw [metadataOpen_eq, ← resolveAccessWithCwd_eq hkind htarget] at hcan
  unfold answers
  congr 1
  rw [forbiddenAgentMetadataWrite_eq hkind htarget, hcan]
  unfold firstBlocked
  cases (metadataChildren (policy.resolvedEntriesWithCwd env cwd) target).head? with
  | none => simp
  | some m =>
    simp only [Option.bind_some, blockedName,
      FileSystemSandboxPolicy.hasExplicitWriteEntryForMetadataPath]
    by_cases hexplicit : hasExplicitWriteEntry (policy.resolvedEntriesWithCwd env cwd) m.1 target
    · simp [hexplicit]
    · simp [hexplicit]

/-- Any metadata directory around the target can be made the first by a reordering. -/
theorem exists_perm_head {m : AbsolutePathBuf × Text}
    (hm : m ∈ metadataChildren (policy.resolvedEntriesWithCwd env cwd) target) :
    ∃ entries : List FileSystemSandboxEntry, entries.Perm policy.entries ∧
      (metadataChildren (FileSystemSandboxPolicy.resolvedEntriesWithCwd env
        { policy with entries := entries } cwd) target).head? = some m := by
  obtain ⟨e, he, hwrite, hname⟩ := mem_metadataChildren_iff.mp hm
  obtain ⟨entry, hentry, hres⟩ := List.mem_filterMap.mp he
  obtain ⟨before, after, hsplit⟩ := List.append_of_mem hentry
  refine ⟨entry :: (before ++ after), ?_, ?_⟩
  · rw [hsplit]
    exact List.perm_middle.symm
  · have hchild : metadataChild target e = some m := metadataChild_eq_some_iff.mpr hname
    simp [FileSystemSandboxPolicy.resolvedEntriesWithCwd, metadataChildren, hres, hwrite,
      FileSystemAccessMode.canWrite, hchild]

/-- All blocking names agree exactly when there is one metadata directory at most or all are open:
all but the deepest are open. -/
theorem blockedName_const_iff :
    (∀ m ∈ metadataChildren (policy.resolvedEntriesWithCwd env cwd) target,
      ∀ m' ∈ metadataChildren (policy.resolvedEntriesWithCwd env cwd) target,
        blockedName env policy target cwd m = blockedName env policy target cwd m') ↔
    (∀ m ∈ metadataChildren (policy.resolvedEntriesWithCwd env cwd) target,
      ∀ m' ∈ metadataChildren (policy.resolvedEntriesWithCwd env cwd) target, m = m') ∨
    ∀ m ∈ metadataChildren (policy.resolvedEntriesWithCwd env cwd) target,
      policy.hasExplicitWriteEntryForMetadataPath env m.1 target cwd = true := by
  constructor
  · intro hconst
    by_cases hall : ∀ m ∈ metadataChildren (policy.resolvedEntriesWithCwd env cwd) target,
        policy.hasExplicitWriteEntryForMetadataPath env m.1 target cwd = true
    · exact .inr hall
    · -- some directory is closed, so none is open, so no two differ in depth
      push Not at hall
      obtain ⟨closed, hclosed, hnot⟩ := hall
      have hnone : ∀ m ∈ metadataChildren (policy.resolvedEntriesWithCwd env cwd) target,
          policy.hasExplicitWriteEntryForMetadataPath env m.1 target cwd ≠ true := by
        intro m hm hopen
        have hsame := hconst m hm closed hclosed
        simp [blockedName, blockedName, if_pos hopen, if_neg hnot] at hsame
      refine .inl fun m hm m' hm' => metadataChildren_eq_of_length hm hm' ?_
      rcases lt_trichotomy m.1.length m'.1.length with hlt | heq | hlt
      · exact absurd (hasExplicitWriteEntry_of_shorter hm hm' hlt) (hnone m hm)
      · exact heq
      · exact absurd (hasExplicitWriteEntry_of_shorter hm' hm hlt) (hnone m' hm')
  · rintro (heq | hall) m hm m' hm'
    · rw [heq m hm m' hm']
    · rw [blockedName, blockedName, if_pos (hall m hm), if_pos (hall m' hm')]

/-! ### When the order is irrelevant -/

/-- A function that is constant on a list gives one value at the head, in every order. -/
private theorem head?_bind_eq {α β : Type} {l l' : List α} {f : α → Option β}
    (hmem : ∀ x, x ∈ l' ↔ x ∈ l) (hconst : ∀ x ∈ l, ∀ y ∈ l, f x = f y) :
    l'.head?.bind f = l.head?.bind f := by
  cases l with
  | nil =>
    have hnil : l' = [] := List.eq_nil_iff_forall_not_mem.mpr fun x hx => by
      simpa using (hmem x).mp hx
    rw [hnil]
  | cons x l =>
    cases l' with
    | nil => exact absurd ((hmem x).mpr List.mem_cons_self) List.not_mem_nil
    | cons y l' => exact hconst y ((hmem y).mp List.mem_cons_self) x List.mem_cons_self

lemma firstBlocked_perm (h : entries.Perm policy.entries)
    (hconst : ∀ m ∈ metadataChildren (policy.resolvedEntriesWithCwd env cwd) target,
      ∀ m' ∈ metadataChildren (policy.resolvedEntriesWithCwd env cwd) target,
        blockedName env policy target cwd m = blockedName env policy target cwd m') :
    firstBlocked env { policy with entries := entries } target cwd =
      firstBlocked env policy target cwd := by
  unfold firstBlocked
  rw [show blockedName env { policy with entries := entries } target cwd =
    blockedName env policy target cwd from funext (blockedName_perm h)]
  exact head?_bind_eq (mem_metadataChildren_perm h) hconst

/-- **When the order of the entries is irrelevant.** All four answers about a path are the same for
every order of the entries exactly when the metadata directories around it leave no choice. -/
theorem orderIrrelevant_iff (hkind : policy.kind = .restricted) :
    OrderIrrelevant env policy path cwd ↔ MetadataUnambiguous env policy path cwd := by
  constructor
  · intro hirr target htarget
    rw [← blockedName_const_iff]
    by_cases hfull : policy.hasFullDiskWriteAccess = true ∧
        policy.resolveAccessWithCwd env path cwd = .write
    · exact .inl hfull
    refine .inr ?_
    have hfull' : ¬ (policy.resolveAccessWithCwd env path cwd = .write ∧
        policy.hasFullDiskWriteAccess = true) := fun h => hfull h.symm
    -- put any directory first: its blocking name is the answer for the given order
    have hfirst : ∀ m ∈ metadataChildren (policy.resolvedEntriesWithCwd env cwd) target,
        blockedName env policy target cwd m = (answers env policy path cwd).forbidden := by
      intro m hm
      obtain ⟨entries, hperm, hhead⟩ := exists_perm_head hm
      have hans := congrArg Answers.forbidden (hirr entries hperm)
      have hkind' : ({ policy with entries := entries } : FileSystemSandboxPolicy).kind =
          .restricted := hkind
      rw [answers_eq hkind' htarget, resolveAccessWithCwd_perm hperm,
        hasFullDiskWriteAccess_perm hperm] at hans
      simp only [if_neg hfull'] at hans
      rw [← hans, firstBlocked, hhead, Option.bind_some, blockedName_perm hperm]
    intro m hm m' hm'
    rw [hfirst m hm, hfirst m' hm']
  · intro hsafe entries hperm
    cases htarget : resolveCandidatePath env path cwd with
    | none =>
      simp [answers, FileSystemSandboxPolicy.resolveAccessWithCwd,
        FileSystemSandboxPolicy.canReadPathWithCwd,
        FileSystemSandboxPolicy.canWritePathWithCwd, forbiddenAgentMetadataWrite, hkind, htarget,
        FileSystemAccessMode.canWrite]
    | some target =>
      have hkind' : ({ policy with entries := entries } : FileSystemSandboxPolicy).kind =
          .restricted := hkind
      rw [answers_eq hkind' htarget, answers_eq hkind htarget, resolveAccessWithCwd_perm hperm,
        hasFullDiskWriteAccess_perm hperm]
      rcases hsafe target htarget with hfull | hmeta
      · simp [hfull.1, hfull.2]
      · rw [firstBlocked_perm hperm (blockedName_const_iff.mpr hmeta)]

/-! ### An order that matters -/

/-- A writable workspace and, inside its `.git`, another writable directory. -/
def nestedMetadataPolicy : FileSystemSandboxPolicy :=
  .ofEntries [⟨.path ["w".toList], .write⟩, ⟨.path ["w".toList, ".git".toList, "x".toList], .write⟩]

/-- A file in the `.git` of the inner directory. -/
def nestedMetadataFile : AbsolutePathBuf :=
  ["w".toList, ".git".toList, "x".toList, ".git".toList, "f".toList]

/-- Swapping the two entries of `nestedMetadataPolicy` makes the file read-only. -/
theorem answers_depend_on_order :
    ¬ OrderIrrelevant emptyEnvironment nestedMetadataPolicy (asPath nestedMetadataFile)
      (asPath ["w".toList]) := by
  intro h
  have hswap := h [⟨.path ["w".toList, ".git".toList, "x".toList], .write⟩,
    ⟨.path ["w".toList], .write⟩] (List.Perm.swap _ _ _)
  cases congrArg Answers.canWrite hswap

/-- In a workspace with one writable entry the order is irrelevant at every metadata file. -/
theorem orderIrrelevant_iff_workspace :
    OrderIrrelevant emptyEnvironment (.ofEntries [⟨.path ["w".toList], .write⟩])
        (asPath ["w".toList, ".git".toList]) (asPath ["w".toList]) ↔
      MetadataUnambiguous emptyEnvironment (.ofEntries [⟨.path ["w".toList], .write⟩])
        (asPath ["w".toList, ".git".toList]) (asPath ["w".toList]) :=
  orderIrrelevant_iff rfl

end Codex.Permissions
