import Codex.ApplyPatch.Apply
import Codex.ApplyPatch.Parser

/-!
# What is shown for approval

`try_verify_apply_patch_args` of `apply-patch/src/invocation.rs` computes, before anything is
applied, the change each hunk would make, and keeps them in a map keyed by path. Every hunk is
computed against the file system as it is at that point, and a later hunk on the same path replaces
the entry of an earlier one, while `apply_hunks` works on the evolving file system.

`verified_shows_applied`: the map tells what is applied as long as the hunks do not get in each
other's way (`NamedApart`). `verified_differs_from_applied`: two updates of one file are shown as
the second one alone.
-/

set_option linter.unusedSectionVars false

namespace Codex.ApplyPatch

open Codex.Lib
open PathUri (join toPathBuf inferredNativePathString)

inductive ApplyPatchFileChange (U : Type) where
  | add (content : Text)
  | delete (content : Text)
  | update (unifiedDiff : Text) (movePath : Option U) (newContent : Text)
  deriving DecidableEq

/-- `ApplyPatchAction`; the `HashMap` is read by its keys only -/
structure ApplyPatchAction (U : Type) where
  changes : U → Option (ApplyPatchFileChange U)
  patch : Text
  cwd : U

variable {U P ε : Type} [PathUri U P ε] [DecidableEq P]

section Operations

variable [DecidableEq U] (fs : ExecutorFileSystem U) (unifiedDiff : Text → Text → Text)

/-- The change of one hunk against the file system `s`. `unifiedDiff` is the text of
`TextDiff::from_lines(old, new)` with one line of context.
Source: the loop body of `try_verify_apply_patch_args` -/
def verifyHunk (cwd : U) (s : fs.State) (hunk : Hunk) :
    Except (ApplyError ε) (U × ApplyPatchFileChange U) :=
  match hunk.resolvePath cwd with
  | .error error => .error (.pathUri error)
  | .ok path =>
    match hunk with
    | .addFile _ contents => .ok (path, .add contents)
    | .deleteFile _ =>
      match fs.readFileText s path with
      | .error source => .error (.io (withPath "Failed to read ".toList path) source)
      | .ok content => .ok (path, .delete content)
    | .updateFile _ movePath chunks =>
      match deriveNewContentsFromChunks fs s path chunks with
      | .error error => .error error
      | .ok patch =>
        let diff := unifiedDiff patch.originalContents patch.newContents
        match movePath with
        | none => .ok (path, .update diff none patch.newContents)
        | some dest =>
          match join cwd dest with
          | .error error => .error (.pathUri error)
          | .ok dest => .ok (path, .update diff (some dest) patch.newContents)

/-- The loop of `try_verify_apply_patch_args` -/
def verifyHunks (cwd : U) (s : fs.State) : List Hunk → (U → Option (ApplyPatchFileChange U)) →
    Except (ApplyError ε) (U → Option (ApplyPatchFileChange U))
  | [], changes => .ok changes
  | hunk :: hunks, changes => do
      let (path, change) ← verifyHunk fs unifiedDiff cwd s hunk
      verifyHunks cwd s hunks (Function.update changes path (some change))

/-- The directory the paths of a patch are relative to.
Source: `effective_cwd` in `try_verify_apply_patch_args` -/
def ApplyPatchArgs.effectiveCwd (args : ApplyPatchArgs) (cwd : U) : Except ε U :=
  match args.workdir with
  | none => .ok cwd
  | some dir => join cwd dir

def tryVerifyApplyPatchArgs (args : ApplyPatchArgs) (cwd : U) (s : fs.State) :
    Except (ApplyError ε) (ApplyPatchAction U) :=
  match args.effectiveCwd cwd with
  | .error error => .error (.pathUri error)
  | .ok effectiveCwd => do
      let changes ← verifyHunks fs unifiedDiff effectiveCwd s args.hunks fun _ => none
      return { changes := changes, patch := args.patch, cwd := effectiveCwd }

end Operations

/-! ### Reading the map -/

/-- The paths an entry speaks about. -/
def ApplyPatchFileChange.paths (path : U) : ApplyPatchFileChange U → List P
  | .update _ (some dest) _ => [toPathBuf path, toPathBuf dest]
  | _ => [toPathBuf path]

/-- An entry read as a statement about the contents afterwards. -/
def ApplyPatchFileChange.HoldsIn (path : U) (m : Contents P) : ApplyPatchFileChange U → Prop
  | .add content => m (toPathBuf path) = some content
  | .delete _ => m (toPathBuf path) = none
  | .update _ none newContent => m (toPathBuf path) = some newContent
  | .update _ (some dest) newContent =>
    m (toPathBuf dest) = some newContent ∧ m (toPathBuf path) = none

/-- The map tells how to get from `m` to `m'`: every entry holds afterwards, and every path that no
entry speaks about is unchanged. -/
def Shows (changes : U → Option (ApplyPatchFileChange U)) (m m' : Contents P) : Prop :=
  (∀ path change, changes path = some change → change.HoldsIn path m') ∧
  ∀ p, (∀ path change, changes path = some change → p ∉ change.paths path) → m' p = m p

/-! ### The effect of a hunk on the contents -/

/-- The file a hunk is about. -/
def Hunk.key (cwd : U) (hunk : Hunk) : Option U := (hunk.resolvePath cwd).toOption

/-- The destination of a move. -/
def Hunk.target (cwd : U) : Hunk → Option U
  | .updateFile _ (some dest) _ => (join cwd dest).toOption
  | _ => none

/-- The paths a hunk names. -/
def Hunk.names (cwd : U) (hunk : Hunk) : List P :=
  (hunk.key cwd).toList.map toPathBuf ++ (hunk.target cwd).toList.map toPathBuf

def Hunk.isUpdate : Hunk → Bool
  | .updateFile _ _ _ => true
  | _ => false

/-- What a hunk does to the contents when it succeeds on the file `path`. -/
def Hunk.Effect (cwd path : U) (m m' : Contents P) : Hunk → Prop
  | .addFile _ contents => m' = Function.update m (toPathBuf path) (some contents)
  | .deleteFile _ => m' = Function.update m (toPathBuf path) none
  | .updateFile _ none chunks =>
    ∃ old new, m (toPathBuf path) = some old ∧
      newContents (inferredNativePathString path) chunks old = .ok new ∧
      m' = Function.update m (toPathBuf path) (some new)
  | .updateFile _ (some dest) chunks =>
    ∃ target old new, join cwd dest = .ok target ∧ m (toPathBuf path) = some old ∧
      newContents (inferredNativePathString path) chunks old = .ok new ∧
      m' = Function.update (Function.update m (toPathBuf target) (some new)) (toPathBuf path) none

section Effects

variable {fs : ExecutorFileSystem U} {cwd : U} {g g' : Progress fs} {hunk : Hunk}
  {affectedPath : PathBuf}

lemma applyAddFile_ok {path : U} {contents : Text}
    (h : applyAddFile g path affectedPath contents = (.ok (), g')) :
    fs.contents g'.state =
      Function.update (fs.contents g.state) (toPathBuf path) (some contents) := by
  unfold applyAddFile at h
  dsimp only at h
  split at h
  · cases (Prod.mk.inj h).1
  · rename_i s hwrite
    rw [← (Prod.mk.inj h).2]
    exact writeFileWithMissingParentRetry_ok hwrite

lemma applyDeleteFile_ok {path : U} (h : applyDeleteFile g path affectedPath = (.ok (), g')) :
    fs.contents g'.state = Function.update (fs.contents g.state) (toPathBuf path) none := by
  unfold applyDeleteFile at h
  dsimp only at h
  split at h
  · cases (Prod.mk.inj h).1
  · split at h
    · cases (Prod.mk.inj h).1
    · rename_i s hremove
      rw [← (Prod.mk.inj h).2]
      exact remove_ok_contents hremove

lemma applyMove_ok {path dest : U} {exact : Bool} {patch : AppliedPatch}
    (h : applyMove g path dest affectedPath exact patch = (.ok (), g')) :
    fs.contents g'.state = Function.update (Function.update (fs.contents g.state) (toPathBuf dest)
        (some patch.newContents)) (toPathBuf path) none := by
  unfold applyMove at h
  dsimp only at h
  split at h
  · cases (Prod.mk.inj h).1
  · rename_i s hwrite
    split at h
    · cases (Prod.mk.inj h).1
    · split at h
      · cases (Prod.mk.inj h).1
      · rename_i s' hremove
        rw [← (Prod.mk.inj h).2, ← writeFileWithMissingParentRetry_ok hwrite]
        exact remove_ok_contents hremove

lemma applyHunk_ok (h : applyHunk cwd g hunk = (.ok (), g')) :
    ∃ path, hunk.key cwd = some path ∧
      hunk.Effect cwd path (fs.contents g.state) (fs.contents g'.state) := by
  unfold applyHunk at h
  split at h
  · cases (Prod.mk.inj h).1
  · rename_i path hpath
    refine ⟨path, toOption_eq_some.mpr hpath, ?_⟩
    cases hunk with
    | addFile _ contents => exact applyAddFile_ok h
    | deleteFile _ => exact applyDeleteFile_ok h
    | updateFile _ movePath chunks =>
      simp only [applyUpdateFile] at h
      split at h
      · cases (Prod.mk.inj h).1
      · rename_i patch hpatch
        obtain ⟨hold, hnew⟩ := deriveNewContentsFromChunks_ok hpatch
        split at h
        · split at h
          · cases (Prod.mk.inj h).1
          · rename_i target htarget
            exact ⟨target, _, _, htarget, hold, hnew, applyMove_ok h⟩
        · split at h
          · cases (Prod.mk.inj h).1
          · rename_i s hwrite
            refine ⟨_, _, hold, hnew, ?_⟩
            rw [← (Prod.mk.inj h).2]
            exact writeFileWithContext_ok hwrite

lemma Hunk.Effect.frame {path : U} {m m' : Contents P} (h : hunk.Effect cwd path m m')
    (hkey : hunk.key cwd = some path) {p : P} (hp : p ∉ hunk.names cwd) : m' p = m p := by
  simp only [Hunk.names, hkey, Option.toList_some, List.map_cons, List.map_nil, List.mem_append,
    List.mem_singleton, not_or] at hp
  cases hunk with
  | addFile _ contents =>
    rw [show m' = _ from h, Function.update_of_ne hp.1]
  | deleteFile _ =>
    rw [show m' = _ from h, Function.update_of_ne hp.1]
  | updateFile _ movePath chunks =>
    cases movePath with
    | none =>
      obtain ⟨old, new, -, -, rfl⟩ := h
      rw [Function.update_of_ne hp.1]
    | some dest =>
      obtain ⟨target, old, new, htarget, -, -, rfl⟩ := h
      have hpt : p ≠ toPathBuf target := by
        intro heq
        exact hp.2 (by simp [Hunk.target, htarget, heq])
      rw [Function.update_of_ne hp.1, Function.update_of_ne hpt]

lemma applyHunks_cons_ok {hunks : List Hunk} (h : applyHunks cwd (hunk :: hunks) g = (.ok (), g')) :
    ∃ g₁, applyHunk cwd g hunk = (.ok (), g₁) ∧ applyHunks cwd hunks g₁ = (.ok (), g') := by
  rw [applyHunks] at h
  split at h
  · rename_i g₁ hg₁
    exact ⟨g₁, hg₁, h⟩
  · cases (Prod.mk.inj h).1

lemma applyHunks_append_ok {pre post : List Hunk}
    (h : applyHunks cwd (pre ++ hunk :: post) g = (.ok (), g')) :
    ∃ g₁ g₂, applyHunks cwd pre g = (.ok (), g₁) ∧ applyHunk cwd g₁ hunk = (.ok (), g₂) ∧
      applyHunks cwd post g₂ = (.ok (), g') := by
  induction pre generalizing g with
  | nil =>
    obtain ⟨g₂, hhunk, hpost⟩ := applyHunks_cons_ok h
    exact ⟨g, g₂, rfl, hhunk, hpost⟩
  | cons k pre ih =>
    obtain ⟨g₀, hg₀, hrest⟩ := applyHunks_cons_ok h
    obtain ⟨g₁, g₂, hpre, hhunk, hpost⟩ := ih hrest
    exact ⟨g₁, g₂, by rw [applyHunks, hg₀]; exact hpre, hhunk, hpost⟩

/-- A run changes nothing but the paths its hunks name. -/
theorem applyHunks_frame {hunks : List Hunk} (h : applyHunks cwd hunks g = (.ok (), g')) {p : P}
    (hp : ∀ hunk ∈ hunks, p ∉ hunk.names cwd) :
    fs.contents g'.state p = fs.contents g.state p := by
  induction hunks generalizing g with
  | nil =>
    obtain rfl : g = g' := (Prod.mk.inj h).2
    rfl
  | cons hunk hunks ih =>
    obtain ⟨g₁, hhunk, hpost⟩ := applyHunks_cons_ok h
    obtain ⟨path, hkey, heffect⟩ := applyHunk_ok hhunk
    rw [ih hpost fun k hk => hp k (List.mem_cons_of_mem _ hk),
      heffect.frame hkey (hp hunk List.mem_cons_self)]

end Effects

/-! ### The map against the run -/

section Map

variable {fs : ExecutorFileSystem U} {unifiedDiff : Text → Text → Text} {cwd : U}
  {s : fs.State} {hunk : Hunk}

/-- The entry of a hunk, against the contents it was computed from: for an update the new content
of what the file held then. -/
def ApplyPatchFileChange.Foretells (cwd path : U) (m : Contents P) (hunk : Hunk) :
    ApplyPatchFileChange U → Prop
  | .add content => ∃ p, hunk = .addFile p content
  | .delete _ => ∃ p, hunk = .deleteFile p
  | .update _ movePath new => ∃ p dest chunks old, hunk = .updateFile p dest chunks ∧
      m (toPathBuf path) = some old ∧
      newContents (inferredNativePathString path) chunks old = .ok new ∧
      hunk.target cwd = movePath ∧ dest.isSome = movePath.isSome

variable {path : U} {change : ApplyPatchFileChange U}
  {changes changes' : U → Option (ApplyPatchFileChange U)}

lemma verifyHunk_ok (h : verifyHunk fs unifiedDiff cwd s hunk = .ok (path, change)) :
    hunk.key cwd = some path ∧ change.Foretells cwd path (fs.contents s) hunk := by
  unfold verifyHunk at h
  split at h
  · cases h
  · rename_i source hsource
    have hkey : hunk.key cwd = some source := toOption_eq_some.mpr hsource
    cases hunk with
    | addFile p contents =>
      cases h
      exact ⟨hkey, p, rfl⟩
    | deleteFile p =>
      dsimp only at h
      split at h
      · cases h
      · cases h
        exact ⟨hkey, p, rfl⟩
    | updateFile p movePath chunks =>
      dsimp only at h
      split at h
      · cases h
      · rename_i patch hpatch
        obtain ⟨hold, hnew⟩ := deriveNewContentsFromChunks_ok hpatch
        split at h
        · cases h
          exact ⟨hkey, p, none, chunks, _, rfl, hold, hnew, rfl, rfl⟩
        · rename_i dest
          split at h
          · cases h
          · rename_i target htarget
            cases h
            exact ⟨hkey, p, some dest, chunks, _, rfl, hold, hnew, toOption_eq_some.mpr htarget,
              rfl⟩

variable [DecidableEq U] {hunks : List Hunk}

lemma verifyHunks_cons_ok
    (h : verifyHunks fs unifiedDiff cwd s (hunk :: hunks) changes = .ok changes') :
    ∃ path change, verifyHunk fs unifiedDiff cwd s hunk = .ok (path, change) ∧
      verifyHunks fs unifiedDiff cwd s hunks (Function.update changes path (some change)) =
        .ok changes' := by
  rw [verifyHunks] at h
  obtain ⟨⟨path, change⟩, hhunk, hrest⟩ := bind_eq_ok.mp h
  exact ⟨path, change, hhunk, hrest⟩

/-- An entry of the map is the one of the last hunk on its key. -/
theorem verifyHunks_entry (h : verifyHunks fs unifiedDiff cwd s hunks changes = .ok changes')
    (hentry : changes' path = some change) :
    (changes path = some change ∧ ∀ hunk ∈ hunks, hunk.key cwd ≠ some path) ∨
    ∃ pre hunk post, hunks = pre ++ hunk :: post ∧
      verifyHunk fs unifiedDiff cwd s hunk = .ok (path, change) ∧
      ∀ hunk' ∈ post, hunk'.key cwd ≠ some path := by
  induction hunks generalizing changes with
  | nil =>
    cases h
    exact .inl ⟨hentry, by simp⟩
  | cons hunk hunks ih =>
    obtain ⟨k, c, hhunk, hrest⟩ := verifyHunks_cons_ok h
    rcases ih hrest with ⟨hupd, hlater⟩ | ⟨pre, hunk', post, rfl, hhunk', hlater⟩
    · by_cases hk : path = k
      · subst hk
        rw [Function.update_self, Option.some.injEq] at hupd
        subst hupd
        exact .inr ⟨[], hunk, hunks, rfl, hhunk, hlater⟩
      · rw [Function.update_of_ne hk] at hupd
        refine .inl ⟨hupd, ?_⟩
        intro hunk' hmem
        rcases List.mem_cons.mp hmem with rfl | hmem
        · rw [(verifyHunk_ok hhunk).1]
          exact fun heq => hk (Option.some.inj heq).symm
        · exact hlater hunk' hmem
    · exact .inr ⟨hunk :: pre, hunk', post, rfl, hhunk', hlater⟩

/-- Every hunk has an entry under its key; a key is never dropped from the map. -/
theorem verifyHunks_key (h : verifyHunks fs unifiedDiff cwd s hunks changes = .ok changes')
    (hkey : changes path ≠ none ∨ ∃ hunk ∈ hunks, hunk.key cwd = some path) :
    changes' path ≠ none := by
  induction hunks generalizing changes with
  | nil =>
    cases h
    simpa using hkey
  | cons hunk hunks ih =>
    obtain ⟨k, c, hhunk, hrest⟩ := verifyHunks_cons_ok h
    refine ih hrest ?_
    by_cases hk : path = k
    · subst hk
      exact .inl (by simp)
    · rcases hkey with hkey | ⟨hunk', hmem, hkey⟩
      · exact .inl (by rwa [Function.update_of_ne hk])
      · rcases List.mem_cons.mp hmem with rfl | hmem
        · rw [(verifyHunk_ok hhunk).1] at hkey
          exact absurd (Option.some.inj hkey).symm hk
        · exact .inr ⟨hunk', hmem, hkey⟩

/-- The hunks do not get in each other's way. -/
structure NamedApart (cwd : U) (hunks : List Hunk) : Prop where
  /-- A move leads to another path, and no other hunk names its source or its destination. -/
  moves : ∀ pre hunk post, hunks = pre ++ hunk :: post → ∀ target ∈ hunk.target cwd,
    (∀ hunk' ∈ pre ++ post, toPathBuf target ∉ hunk'.names cwd) ∧
    ∀ key ∈ hunk.key cwd, toPathBuf target ≠ toPathBuf key ∧
      ∀ hunk' ∈ pre ++ post, toPathBuf key ∉ hunk'.names cwd
  /-- An update that is the last hunk on its file is the only one on it. -/
  updates : ∀ pre hunk post, hunks = pre ++ hunk :: post → hunk.isUpdate = true →
    ∀ key ∈ hunk.key cwd, (∀ hunk' ∈ post, toPathBuf key ∉ hunk'.names cwd) →
      ∀ hunk' ∈ pre, toPathBuf key ∉ hunk'.names cwd
  /-- Hunks on one file name it by one URI. -/
  uris : ∀ hunk ∈ hunks, ∀ hunk' ∈ hunks, ∀ key ∈ hunk.key cwd, ∀ key' ∈ hunk'.key cwd,
    toPathBuf key = toPathBuf key' → key = key'

lemma mem_names_key (h : hunk.key cwd = some path) : toPathBuf path ∈ hunk.names cwd := by
  simp [Hunk.names, h]

/-- The last hunk on a key is the last one that names the file. -/
theorem NamedApart.not_named_later {pre post : List Hunk} (h : NamedApart cwd (pre ++ hunk :: post))
    (hkey : hunk.key cwd = some path) (hlater : ∀ hunk' ∈ post, hunk'.key cwd ≠ some path) :
    ∀ hunk' ∈ post, toPathBuf path ∉ hunk'.names cwd := by
  intro hunk' hmem hname
  simp only [Hunk.names, List.mem_append, List.mem_map, Option.mem_toList] at hname
  rcases hname with ⟨key', hkey', heq⟩ | ⟨target', htarget', heq⟩
  · -- the same file under the same URI
    have hsame := h.uris hunk' (by simp [hmem]) hunk (by simp) key' hkey' path hkey heq
    exact hlater hunk' hmem (hsame ▸ hkey')
  · -- a move onto a file that an earlier hunk names
    obtain ⟨mid, rest, rfl⟩ := List.append_of_mem hmem
    have hm := (h.moves (pre ++ hunk :: mid) hunk' rest (by simp) target' htarget').1 hunk (by simp)
    exact hm (heq ▸ mem_names_key hkey)

/-- The entry of the last hunk on a file holds after the whole run. -/
theorem NamedApart.holdsIn {pre post : List Hunk} {g g₁ g₂ g' : Progress fs}
    (h : NamedApart cwd (pre ++ hunk :: post))
    (hverify : verifyHunk fs unifiedDiff cwd g.state hunk = .ok (path, change))
    (hlater : ∀ hunk' ∈ post, hunk'.key cwd ≠ some path)
    (hpre : applyHunks cwd pre g = (.ok (), g₁)) (hhunk : applyHunk cwd g₁ hunk = (.ok (), g₂))
    (hpost : applyHunks cwd post g₂ = (.ok (), g')) :
    change.HoldsIn path (fs.contents g'.state) := by
  obtain ⟨hkey, hforetells⟩ := verifyHunk_ok hverify
  obtain ⟨path', hkey', heffect⟩ := applyHunk_ok hhunk
  obtain rfl : path = path' := Option.some.inj (hkey.symm.trans hkey')
  have hnamed := h.not_named_later hkey hlater
  have hfinal : fs.contents g'.state (toPathBuf path) = fs.contents g₂.state (toPathBuf path) :=
    applyHunks_frame hpost hnamed
  -- an update finds its file as the verification found it
  have hfresh : hunk.isUpdate = true →
      fs.contents g₁.state (toPathBuf path) = fs.contents g.state (toPathBuf path) := fun hupdate =>
    applyHunks_frame hpre (h.updates pre hunk post rfl hupdate path hkey hnamed)
  cases change with
  | add content =>
    obtain ⟨p, rfl⟩ := hforetells
    show fs.contents g'.state (toPathBuf path) = some content
    rw [hfinal, show fs.contents g₂.state = _ from heffect, Function.update_self]
  | delete content =>
    obtain ⟨p, rfl⟩ := hforetells
    show fs.contents g'.state (toPathBuf path) = none
    rw [hfinal, show fs.contents g₂.state = _ from heffect, Function.update_self]
  | update diff movePath new =>
    obtain ⟨p, dest, chunks, old, rfl, hold, hnew, htarget, hdest⟩ := hforetells
    have hsame := hfresh rfl
    cases dest with
    | none =>
      obtain ⟨old', new', hold', hnew', hstate⟩ := heffect
      obtain rfl : movePath = none := by simpa using hdest.symm
      have hnew_eq : new' = new := by
        rw [hsame, hold, Option.some.injEq] at hold'
        rw [← hold', hnew] at hnew'
        exact (Except.ok.inj hnew').symm
      show fs.contents g'.state (toPathBuf path) = some new
      rw [hfinal, hstate, Function.update_self, hnew_eq]
    | some dest =>
      obtain ⟨target, old', new', htarget', hold', hnew', hstate⟩ := heffect
      have hmove : Hunk.target cwd (.updateFile p (some dest) chunks) = some target :=
        toOption_eq_some.mpr htarget'
      obtain rfl : movePath = some target := by rw [← htarget, hmove]
      have hnew_eq : new' = new := by
        rw [hsame, hold, Option.some.injEq] at hold'
        rw [← hold', hnew] at hnew'
        exact (Except.ok.inj hnew').symm
      obtain ⟨hothers, hsource⟩ := h.moves pre _ post rfl target hmove
      have hne := (hsource path hkey).1
      have htargetFinal : fs.contents g'.state (toPathBuf target) =
          fs.contents g₂.state (toPathBuf target) :=
        applyHunks_frame hpost fun hunk' hmem => hothers hunk' (by simp [hmem])
      refine ⟨?_, ?_⟩
      · rw [htargetFinal, hstate, Function.update_of_ne hne, Function.update_self, hnew_eq]
      · rw [hfinal, hstate, Function.update_self]

/-- **What is shown is what is applied**, for hunks that do not get in each other's way: where the
verification gives a map and the same hunks are applied with success, every entry holds afterwards
and every path without an entry is unchanged. -/
theorem verified_shows_applied (fs : ExecutorFileSystem U) (unifiedDiff : Text → Text → Text)
    (args : ApplyPatchArgs) (cwd effectiveCwd : U) (s : fs.State) (action : ApplyPatchAction U)
    (g' : Progress fs) (hcwd : args.effectiveCwd cwd = .ok effectiveCwd)
    (hverify : tryVerifyApplyPatchArgs fs unifiedDiff args cwd s = .ok action)
    (happly : applyHunksToFiles fs action.cwd args.hunks s = (.ok (), g'))
    (hapart : NamedApart effectiveCwd args.hunks) :
    Shows action.changes (fs.contents s) (fs.contents g'.state) := by
  unfold tryVerifyApplyPatchArgs at hverify
  rw [hcwd] at hverify
  obtain ⟨changes, hchanges, haction⟩ := bind_eq_ok.mp hverify
  cases haction
  unfold applyHunksToFiles at happly
  split_ifs at happly
  · cases (Prod.mk.inj happly).1
  constructor
  · intro path change hentry
    rcases verifyHunks_entry hchanges hentry with ⟨hnone, -⟩ | ⟨pre, hunk, post, hsplit, hhunk,
      hlater⟩
    · cases hnone
    · rw [hsplit] at happly hapart
      obtain ⟨g₁, g₂, hpre, hstep, hpost⟩ := applyHunks_append_ok happly
      exact hapart.holdsIn hhunk hlater hpre hstep hpost
  · intro p hp
    refine applyHunks_frame happly fun hunk hmem hname => ?_
    -- the hunk has an entry, and the entry of a move is the hunk's own
    obtain ⟨pre, post, hsplit⟩ := List.append_of_mem hmem
    rw [hsplit] at happly
    obtain ⟨g₁, g₂, -, hstep, -⟩ := applyHunks_append_ok happly
    obtain ⟨path, hkey, -⟩ := applyHunk_ok hstep
    obtain ⟨change, hentry⟩ := Option.ne_none_iff_exists'.mp
      (verifyHunks_key hchanges (.inr ⟨hunk, hmem, hkey⟩))
    have hout := hp path change hentry
    have hpath : p ≠ toPathBuf path := by
      rintro rfl
      apply hout
      unfold ApplyPatchFileChange.paths
      split <;> simp
    simp only [Hunk.names, hkey, Option.toList_some, List.map_cons, List.map_nil, List.mem_append,
      List.mem_singleton, List.mem_map, Option.mem_toList] at hname
    rcases hname with rfl | ⟨target, htarget, rfl⟩
    · exact hpath rfl
    rcases verifyHunks_entry hchanges hentry with ⟨hnone, -⟩ | ⟨pre', hunk', post', hsplit', hhunk',
      -⟩
    · cases hnone
    obtain ⟨hkey', hforetells⟩ := verifyHunk_ok hhunk'
    have hsame : hunk' = hunk := by
      by_contra hne
      have hmem' : hunk' ∈ pre ++ post := by
        have : hunk' ∈ args.hunks := by rw [hsplit']; simp
        rw [hsplit] at this
        simp only [List.mem_append, List.mem_cons, hne, false_or] at this ⊢
        exact this
      exact (((hapart.moves pre hunk post hsplit target htarget).2 path hkey).2 hunk' hmem')
        (mem_names_key hkey')
    subst hsame
    cases change with
    | add content =>
      obtain ⟨_, rfl⟩ := hforetells
      cases htarget
    | delete content =>
      obtain ⟨_, rfl⟩ := hforetells
      cases htarget
    | update diff movePath new =>
      obtain ⟨_, _, _, _, -, -, -, htarget', -⟩ := hforetells
      rw [htarget] at htarget'
      subst htarget'
      exact hout (by simp [ApplyPatchFileChange.paths])

end Map

/-! ### Two hunks on one file -/

/-- An added file and a moved one. -/
def apartArgs : ApplyPatchArgs where
  patch := []
  hunks := [.addFile "/a".toList "y\n".toList,
    .updateFile "/b".toList (some "/c".toList) [⟨none, ["x".toList], ["y".toList], false⟩]]
  workdir := none
  environmentId := none

/-- Two updates of one file, each of a line of its own. -/
def sameFileArgs : ApplyPatchArgs where
  patch := []
  hunks := [.updateFile "/a".toList none [⟨none, ["x".toList], ["y".toList], false⟩],
    .updateFile "/a".toList none [⟨none, ["z".toList], ["w".toList], false⟩]]
  workdir := none
  environmentId := none

lemma namedApart_apartArgs : NamedApart ("/".toList : Text) apartArgs.hunks := by
  refine ⟨?_, ?_, by decide⟩
  · rintro (_ | ⟨h₁, _ | ⟨h₂, pre⟩⟩) hunk post hsplit target htarget
    · cases hsplit
      cases htarget
    · cases hsplit
      cases htarget
      exact ⟨by decide, by decide⟩
    · have hlen := congrArg List.length hsplit
      simp [apartArgs] at hlen
  · rintro (_ | ⟨h₁, _ | ⟨h₂, pre⟩⟩) hunk post hsplit hupdate key hkey - hunk' hmem
    · cases hmem
    · cases hsplit
      cases hkey
      rw [List.mem_singleton.mp hmem]
      decide
    · have hlen := congrArg List.length hsplit
      simp [apartArgs] at hlen

/-- The map of the added and the moved file, against their application to a file system that holds
the file to move. -/
theorem verified_shows_applied_apart :
    ∃ (action : ApplyPatchAction Text) (g' : Progress (mapFileSystem Text)),
      tryVerifyApplyPatchArgs (mapFileSystem Text) (fun _ _ => []) apartArgs "/".toList
        (Function.update (fun _ => none) "/b".toList (some "x\n".toList)) = .ok action ∧
      applyHunksToFiles (mapFileSystem Text) action.cwd apartArgs.hunks
        (Function.update (fun _ => none) "/b".toList (some "x\n".toList)) = (.ok (), g') ∧
      Shows action.changes (Function.update (fun _ => none) "/b".toList (some "x\n".toList))
        (g'.state : Contents Text) := by
  refine ⟨_, _, rfl, rfl, ?_⟩
  exact verified_shows_applied (mapFileSystem Text) (fun _ _ => []) apartArgs "/".toList "/".toList
    (Function.update (fun _ => none) "/b".toList (some "x\n".toList)) _ _ rfl rfl rfl
    namedApart_apartArgs

/-- Two updates of one file: the map shows the second one alone, both are applied. -/
theorem verified_differs_from_applied :
    ∃ (action : ApplyPatchAction Text) (g' : Progress (mapFileSystem Text)),
      tryVerifyApplyPatchArgs (mapFileSystem Text) (fun _ _ => []) sameFileArgs "/".toList
        (Function.update (fun _ => none) "/a".toList (some "x\nz\n".toList)) = .ok action ∧
      applyHunksToFiles (mapFileSystem Text) action.cwd sameFileArgs.hunks
        (Function.update (fun _ => none) "/a".toList (some "x\nz\n".toList)) = (.ok (), g') ∧
      action.changes "/a".toList = some (.update [] none "x\nw\n".toList) ∧
      (g'.state : Contents Text) "/a".toList = some "y\nw\n".toList ∧
      ¬ Shows action.changes (Function.update (fun _ => none) "/a".toList (some "x\nz\n".toList))
        (g'.state : Contents Text) := by
  refine ⟨_, _, rfl, rfl, by decide, by decide, ?_⟩
  intro hshows
  have hentry := hshows.1 "/a".toList (.update [] none "x\nw\n".toList) (by decide)
  exact absurd hentry (by unfold ApplyPatchFileChange.HoldsIn; decide)

end Codex.ApplyPatch
