import Codex.Permissions.PolicyTransforms

/-!
# The read-deny matcher

`ReadDenyMatcher` of `protocol/src/permissions.rs` refuses a read at and below every path where a
deny entry stands, under each spelling of either path that it can derive. The access of a path is
that of its most specific entry, so below a denied path an entry may give access that the matcher
does not.

* `isReadDenied_iff_spelling`: a path is refused exactly when some spelling of it lies at or below
  some spelling of a denied path;
* `isReadDenied_iff_governs`: on a disk without links these are the paths that a deny entry
  governs, and those governed by an entry that stands below one.
-/

namespace Codex.Permissions

open Codex.Lib

variable {env : Environment} {P : FileSystemSandboxPolicy} {cwd : PathBuf}
  {path : AbsolutePathBuf} {entries : List ResolvedFileSystemEntry}

/-- `is_read_denied`, of the matcher of a policy -/
def isReadDenied (env : Environment) (path : AbsolutePathBuf) (policy : FileSystemSandboxPolicy)
    (cwd : PathBuf) : Bool :=
  (ReadDenyMatcher.new env policy cwd).any fun matcher => matcher.isReadDenied env path

/-- No entry of the policy is a pattern. -/
def GlobFree (P : FileSystemSandboxPolicy) : Prop :=
  ∀ entry ∈ P.entries, ∀ pattern, entry.path ≠ .globPattern pattern

/-- The entry denies, and stands elsewhere than on the root. -/
def DeniesBelowRoot (e : ResolvedFileSystemEntry) : Prop := e.access = .deny ∧ e.path ≠ []

/-- Some spelling of the path lies at or below some spelling of the denied one. -/
def SpelledBelow (env : Environment) (denied path : AbsolutePathBuf) : Prop :=
  ∃ d ∈ normalizedAndCanonicalCandidates env (normalizeEffectiveAbsolutePath env denied),
    ∃ c ∈ normalizedAndCanonicalCandidates env path, d <+: c

/-- Every path has one spelling. -/
structure NoLinks (env : Environment) : Prop extends PlainDisk env where
  canonical : ∀ path target, env.canonicalize path = some target → target = path

/-! ### What the matcher refuses -/

lemma getUnreadableGlobs_of_globFree (hglob : GlobFree P) :
    P.getUnreadableGlobsWithCwd env cwd = [] := by
  unfold FileSystemSandboxPolicy.getUnreadableGlobsWithCwd
  split
  · dsimp only
    rw [List.filterMap_eq_nil_iff.mpr]
    · rfl
    · intro entry hentry
      split
      · exact absurd ‹_› (hglob entry hentry _)
      · rfl
  · rfl

/-- Without patterns the matcher compares with the spellings of the unreadable roots only. -/
theorem isReadDenied_eq_true_iff (hglob : GlobFree P) :
    isReadDenied env path P cwd = true ↔ P.hasDeniedReadRestrictions = true ∧
        ∃ root ∈ P.getUnreadableRootsWithCwd env cwd,
          ∃ d ∈ normalizedAndCanonicalCandidates env root,
            ∃ c ∈ normalizedAndCanonicalCandidates env path, d <+: c := by
  unfold isReadDenied ReadDenyMatcher.new
  split
  case isFalse hdenied => simp [hdenied]
  case isTrue hdenied =>
    rw [getUnreadableGlobs_of_globFree hglob]
    simp only [Option.any_some, ReadDenyMatcher.isReadDenied, List.map_nil, List.any_nil,
      Bool.false_eq_true, if_false, List.filterMap_nil, Bool.or_false, List.any_map,
      List.any_eq_true, Function.comp_apply, decide_eq_true_iff, hdenied, true_and]
    refine exists_congr fun root => and_congr_right fun _ => ?_
    constructor
    · rintro ⟨c, hc, d, hd, hdc⟩
      exact ⟨d, hd, c, hc, hdc⟩
    · rintro ⟨d, hd, c, hc, hdc⟩
      exact ⟨c, hc, d, hd, hdc⟩

lemma hasDeniedReadRestrictions_of_mem (hkind : P.kind = .restricted)
    {e : ResolvedFileSystemEntry} (he : e ∈ P.resolvedEntriesWithCwd env cwd)
    (hdeny : e.access = .deny) : P.hasDeniedReadRestrictions = true := by
  obtain ⟨source, hsource, hres⟩ := List.mem_filterMap.mp he
  obtain ⟨q, -, rfl⟩ := Option.map_eq_some_iff.mp hres
  rw [FileSystemSandboxPolicy.hasDeniedReadRestrictions, Bool.and_eq_true]
  exact ⟨decide_eq_true hkind, List.any_eq_true.mpr ⟨source, hsource, decide_eq_true hdeny⟩⟩

/-- A read is refused when the path is, by some spelling, at or below a deny entry that does not
stand on the root. -/
theorem isReadDenied_iff_spelledBelow (hkind : P.kind = .restricted) (hglob : GlobFree P)
    (hcwd : isAbsolute cwd = true) :
    isReadDenied env path P cwd = true ↔
      ∃ e ∈ P.resolvedEntriesWithCwd env cwd, DeniesBelowRoot e ∧ SpelledBelow env e.path path := by
  have hroot : ∀ q : AbsolutePathBuf,
      (fromAbsolutePath env cwd).map absoluteRootPathForCwd ≠ some q ↔ q ≠ [] := by
    intro q
    rw [fromAbsolutePath_of_isAbsolute env hcwd, Option.map_some, ne_eq, Option.some_inj,
      absoluteRootPathForCwd, eq_comm]
  rw [isReadDenied_eq_true_iff hglob]
  constructor
  · rintro ⟨-, root, hmem, hspelled⟩
    obtain ⟨e, he, hdeny, hne, rfl⟩ := (mem_unreadableRoots_normalized_iff hkind).mp hmem
    exact ⟨e, he, ⟨hdeny, (hroot e.path).mp hne⟩, hspelled⟩
  · rintro ⟨e, he, ⟨hdeny, hne⟩, hspelled⟩
    refine ⟨hasDeniedReadRestrictions_of_mem hkind he hdeny, _, ?_, hspelled⟩
    exact (mem_unreadableRoots_normalized_iff hkind).mpr ⟨e, he, hdeny, (hroot e.path).mpr hne, rfl⟩

/-! ### A disk without links -/

lemma mem_candidates_of_noLinks (henv : NoLinks env) {candidate : AbsolutePathBuf} :
    candidate ∈ normalizedAndCanonicalCandidates env path ↔ candidate = path := by
  unfold normalizedAndCanonicalCandidates
  cases hcanon : env.canonicalize path with
  | none => simp
  | some target => simp [henv.canonical path target hcanon]

lemma spelledBelow_iff_of_noLinks (henv : NoLinks env) {denied : AbsolutePathBuf} :
    SpelledBelow env denied path ↔ denied <+: path := by
  unfold SpelledBelow
  simp only [normalizeEffectiveAbsolutePath_eq henv.canonicalize, mem_candidates_of_noLinks henv,
    exists_eq_left]

/-- A deny entry stands at or above a path when one governs the path, or the entry that governs it
stands below one. -/
theorem exists_deniesBelowRoot_iff :
    (∃ e ∈ entries, DeniesBelowRoot e ∧ e.path <+: path) ↔ ∃ g, EntryGoverns entries path g ∧
        (DeniesBelowRoot g ∨
          g.access ≠ .deny ∧ ∃ e ∈ entries, DeniesBelowRoot e ∧ e.path <+: g.path ∧
            e.path ≠ g.path) := by
  constructor
  · rintro ⟨e, he, hdenies, hpath⟩
    obtain ⟨g, hg, -⟩ | ⟨hnone, -⟩ := accessAt_spec entries path
    · have habove : e.path <+: g.path := hg.path_prefix he hpath
      refine ⟨g, hg, ?_⟩
      by_cases hdeny : g.access = .deny
      · refine .inl ⟨hdeny, fun hroot => hdenies.2 ?_⟩
        rw [hroot] at habove
        exact List.prefix_nil.mp habove
      · refine .inr ⟨hdeny, e, he, hdenies, habove, fun heq => hdeny ?_⟩
        -- among the entries of one path the deny entry comes first
        rw [← accessAt_of_governs (hg.of_prefix (List.prefix_refl _) hg.2.1), ← heq]
        exact accessAt_of_deny he hdenies.1
    · exact absurd hpath (hnone e he)
  · rintro ⟨g, hg, hdenies | ⟨-, e, he, hdenies, habove, -⟩⟩
    · exact ⟨g, hg.1, hdenies, hg.2.1⟩
    · exact ⟨e, he, hdenies, habove.trans hg.2.1⟩

/-- What the matcher refuses: every path that by some spelling is at or below a deny entry other
than one on the root. Without links these are the paths that such an entry governs and the paths
of an entry that stands strictly below one. -/
theorem isReadDenied_iff (hkind : P.kind = .restricted) (hglob : GlobFree P)
    (hcwd : isAbsolute cwd = true) :
    (isReadDenied env path P cwd = true ↔ ∃ e ∈ P.resolvedEntriesWithCwd env cwd,
          DeniesBelowRoot e ∧ SpelledBelow env e.path path) ∧
      (NoLinks env → (isReadDenied env path P cwd = true ↔
          ∃ g, EntryGoverns (P.resolvedEntriesWithCwd env cwd) path g ∧ (DeniesBelowRoot g ∨
              g.access ≠ .deny ∧ ∃ e ∈ P.resolvedEntriesWithCwd env cwd,
                DeniesBelowRoot e ∧ e.path <+: g.path ∧ e.path ≠ g.path))) := by
  have hspelled : isReadDenied env path P cwd = true ↔ ∃ e ∈ P.resolvedEntriesWithCwd env cwd,
        DeniesBelowRoot e ∧ SpelledBelow env e.path path :=
    isReadDenied_iff_spelledBelow hkind hglob hcwd
  refine ⟨hspelled, fun henv => ?_⟩
  simp only [hspelled, spelledBelow_iff_of_noLinks henv]
  exact exists_deniesBelowRoot_iff

/-! ### A readable entry below a denied one -/

/-- `/a` is denied and `/a/b` below it readable. -/
def reallowingPolicy : FileSystemSandboxPolicy :=
  FileSystemSandboxPolicy.ofEntries
    [⟨.path ["a".toList], .deny⟩, ⟨.path ["a".toList, "b".toList], .read⟩]

lemma reallowingPolicy_globFree : GlobFree reallowingPolicy := by
  intro entry hentry pattern
  simp only [reallowingPolicy, FileSystemSandboxPolicy.ofEntries, List.mem_cons,
    List.not_mem_nil, or_false] at hentry
  rcases hentry with rfl | rfl <;> exact FileSystemPath.noConfusion

lemma noLinks_emptyEnvironment : NoLinks emptyEnvironment :=
  ⟨⟨fun _ => rfl, fun _ => rfl⟩, fun _ _ h => absurd h (Option.some_ne_none _).symm⟩

lemma isReadDenied_reallowed :
    isReadDenied emptyEnvironment ["a".toList, "b".toList, "c".toList] reallowingPolicy
      [.rootDir] = true := by
  decide +kernel

theorem isReadDenied_iff_reallowingPolicy :
    (∃ e ∈ reallowingPolicy.resolvedEntriesWithCwd emptyEnvironment [.rootDir], DeniesBelowRoot e ∧
          SpelledBelow emptyEnvironment e.path ["a".toList, "b".toList, "c".toList]) ∧
      ∃ g, EntryGoverns (reallowingPolicy.resolvedEntriesWithCwd emptyEnvironment [.rootDir])
          ["a".toList, "b".toList, "c".toList] g ∧
        (DeniesBelowRoot g ∨
          g.access ≠ .deny ∧
            ∃ e ∈ reallowingPolicy.resolvedEntriesWithCwd emptyEnvironment [.rootDir],
              DeniesBelowRoot e ∧ e.path <+: g.path ∧ e.path ≠ g.path) := by
  have habs : isAbsolute [.rootDir] = true := rfl
  exact ⟨(isReadDenied_iff rfl reallowingPolicy_globFree habs).1.mp isReadDenied_reallowed,
    ((isReadDenied_iff rfl reallowingPolicy_globFree habs).2 noLinks_emptyEnvironment).mp
      isReadDenied_reallowed⟩

/-- Below `/a`, `/a/b` governs and gives read access, and the matcher refuses. -/
theorem isReadDenied_not_governing :
    ¬ ∀ (env : Environment) (P : FileSystemSandboxPolicy) (cwd : PathBuf) (path : AbsolutePathBuf),
      P.kind = .restricted → GlobFree P → isAbsolute cwd = true →
        (isReadDenied env path P cwd = true ↔
          ∃ g, EntryGoverns (P.resolvedEntriesWithCwd env cwd) path g ∧ DeniesBelowRoot g) := by
  intro h
  obtain ⟨g, hg, hdeny, -⟩ := (h emptyEnvironment reallowingPolicy [.rootDir]
    ["a".toList, "b".toList, "c".toList] rfl reallowingPolicy_globFree rfl).mp
      isReadDenied_reallowed
  have haccess := accessAt_of_governs hg
  have hread : accessAt (reallowingPolicy.resolvedEntriesWithCwd emptyEnvironment [.rootDir])
      ["a".toList, "b".toList, "c".toList] = .read := by decide +kernel
  rw [hread, hdeny] at haccess
  exact FileSystemAccessMode.noConfusion haccess

end Codex.Permissions
