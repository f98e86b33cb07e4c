import Codex.ApplyPatch.FileSystem
import Codex.ApplyPatch.Replacements

/-!
# Applying hunks

`apply_hunks_to_files` of `apply-patch/src/lib.rs`: the hunks are applied one after the other to the
evolving file system, and what was committed is recorded in a delta. `exact` starts out true and is
cleared whenever the record may not tell everything: a path that is no plain file, content that
cannot be read as text, a failed write, a failed removal that changed the file.

`Progress` carries what the Rust function mutates (file system, delta, affected paths), so that the
state is there after a failure too; the first component of a result is the `Result` of the code.

* `applyHunksToFiles_exact`: so does a whole run, whether it ends with success or with an error;
* `applyHunksToFiles_selfMove`: a move onto itself leaves the file removed and a record that says it
  was written.
-/

namespace Codex.ApplyPatch

open Codex.Lib
open PathUri (join parent toPathBuf inferredNativePathString)

/-- The `anyhow::Error` and `ApplyPatchError` values of `apply_hunks_to_files` -/
inductive ApplyError (ε : Type) where
  /-- `anyhow::bail!("No files were modified.")` -/
  | noFilesModified
  | pathUri (error : ε)
  | computeReplacements (message : Text)
  | io (context : Text) (source : IoError)

structure AffectedPaths where
  added : List PathBuf := []
  modified : List PathBuf := []
  deleted : List PathBuf := []

/-- The path a summary names for a hunk: the destination for a move.
Source: `Hunk::path` -/
def Hunk.path : Hunk → PathBuf
  | .addFile path _ => path
  | .deleteFile path => path
  | .updateFile _ (some path) _ => path
  | .updateFile path none _ => path

/-- The path a hunk resolves: the source for a move.
Source: `Hunk::resolve_path`, before the join -/
def Hunk.sourcePath : Hunk → PathBuf
  | .updateFile path _ _ => path
  | hunk => hunk.path

variable {U P ε : Type} [PathUri U P ε] [DecidableEq P]

def Hunk.resolvePath (hunk : Hunk) (cwd : U) : Except ε U := join cwd hunk.sourcePath

/-- `format!("{message}{}", path.inferred_native_path_string())` -/
def withPath (message : Text) (path : U) : Text := message ++ inferredNativePathString path

section Operations

variable (fs : ExecutorFileSystem U)

/-! ### The helpers -/

variable (s : fs.State) (path : U)

def ensureNotDirectory : Except IoError Unit := do
  let metadata ← fs.getMetadata s path
  if metadata.isDirectory then
    .error { kind := .invalidInput, message := "path is a directory".toList }
  else return ()

def removeFailureWasSideEffectFree (expectedContent : Option Text) : Bool :=
  match expectedContent with
  | some expected =>
    match fs.readFileText s path with
    | .ok content => content == expected
    | .error _ => false
  | none => false

def noteExistingPathDeltaSupport (exact : Bool) : Bool :=
  match fs.getMetadata s path with
  | .ok metadata => if metadata.isFile && !metadata.isSymlink then exact else false
  | .error source => if source.kind = .notFound then exact else false

def readOptionalFileTextForDelta (exact : Bool) : Option Text × Bool :=
  let exact := noteExistingPathDeltaSupport fs s path exact
  match fs.readFileText s path with
  | .ok content => (some content, exact)
  | .error source => if source.kind = .notFound then (none, exact) else (none, false)

/-- `write_file_with_missing_parent_retry`, after the parents were created -/
def writeFileWithContext (contents : Text) : Except (ApplyError ε) Unit × fs.State :=
  match fs.writeFile s path contents with
  | (.ok (), s) => (.ok (), s)
  | (.error err, s) => (.error (.io (withPath "Failed to write file ".toList path) err), s)

def writeFileWithMissingParentRetry (contents : Text) : Except (ApplyError ε) Unit × fs.State :=
  match fs.writeFile s path contents with
  | (.ok (), s) => (.ok (), s)
  | (.error err, s) =>
    if err.kind = .notFound then
      match parent path with
      | some parent =>
        match fs.createDirectory s parent with
        | (.ok (), s) => writeFileWithContext fs s path contents
        | (.error err, s) =>
          (.error (.io
            (withPath "Failed to create parent directories for ".toList path) err), s)
      | none => writeFileWithContext fs s path contents
    else (.error (.io (withPath "Failed to write file ".toList path) err), s)

structure AppliedPatch where
  originalContents : Text
  newContents : Text

def deriveNewContentsFromChunks (chunks : List UpdateFileChunk) :
    Except (ApplyError ε) AppliedPatch :=
  match fs.readFileText s path with
  | .error err => .error (.io (withPath "Failed to read file to update ".toList path) err)
  | .ok originalContents =>
    match newContents (inferredNativePathString path) chunks originalContents with
    | .error message => .error (.computeReplacements message)
    | .ok newContents => .ok { originalContents, newContents }

/-! ### One hunk -/

/-- What `apply_hunks_to_files` mutates. -/
structure Progress where
  state : fs.State
  delta : AppliedPatchDelta P := {}
  affected : AffectedPaths := {}

variable {fs}

/-- Push a change and set the exactness. -/
def AppliedPatchDelta.record (delta : AppliedPatchDelta P) (exact : Bool)
    (changes : List (AppliedPatchChange P)) : AppliedPatchDelta P :=
  { changes := delta.changes ++ changes, exact := exact }

variable (g : Progress fs)

/-- The `AddFile` branch -/
def applyAddFile (path : U) (affectedPath : PathBuf) (contents : Text) :
    Except (ApplyError ε) Unit × Progress fs :=
  let (overwrittenContent, exact) := readOptionalFileTextForDelta fs g.state path g.delta.exact
  match writeFileWithMissingParentRetry fs g.state path contents with
  | (.error error, s) => (.error error, { g with state := s, delta := g.delta.record false [] })
  | (.ok (), s) =>
    (.ok (), {
      state := s
      delta := g.delta.record exact
        [{ path := toPathBuf path, change := .add contents overwrittenContent }]
      affected := { g.affected with added := g.affected.added ++ [affectedPath] } })

/-- The `DeleteFile` branch -/
def applyDeleteFile (path : U) (affectedPath : PathBuf) :
    Except (ApplyError ε) Unit × Progress fs :=
  let exact := noteExistingPathDeltaSupport fs g.state path g.delta.exact
  let deletedContent := (fs.readFileText g.state path).toOption
  let exact := exact && deletedContent.isSome
  let context := withPath "Failed to delete file ".toList path
  match ensureNotDirectory fs g.state path with
  | .error err => (.error (.io context err), { g with delta := g.delta.record exact [] })
  | .ok () =>
    match fs.remove g.state path with
    | (.error err, s) =>
      (.error (.io context err), { g with
        state := s
        delta := g.delta.record
          (exact && removeFailureWasSideEffectFree fs s path deletedContent) [] })
    | (.ok (), s) =>
      (.ok (), {
        state := s
        delta := g.delta.record exact
          (deletedContent.toList.map fun content =>
            { path := toPathBuf path, change := .delete content })
        affected := { g.affected with deleted := g.affected.deleted ++ [affectedPath] } })

/-- The `UpdateFile` branch with a `move_path` -/
def applyMove (path dest : U) (affectedPath : PathBuf) (exact : Bool)
    (patch : AppliedPatch) : Except (ApplyError ε) Unit × Progress fs :=
  let (overwrittenMoveContent, exact) := readOptionalFileTextForDelta fs g.state dest exact
  match writeFileWithMissingParentRetry fs g.state dest patch.newContents with
  | (.error error, s) => (.error error, { g with state := s, delta := g.delta.record false [] })
  | (.ok (), s) =>
    let destWrite : AppliedPatchChange P :=
      { path := toPathBuf dest, change := .add patch.newContents overwrittenMoveContent }
    let context := withPath "Failed to remove original ".toList path
    match ensureNotDirectory fs s path with
    | .error err =>
      (.error (.io context err), { g with state := s, delta := g.delta.record exact [destWrite] })
    | .ok () =>
      match fs.remove s path with
      | (.error err, s) =>
        (.error (.io context err), { g with
          state := s
          delta := g.delta.record
            (exact && removeFailureWasSideEffectFree fs s path (some patch.originalContents))
            [destWrite] })
      | (.ok (), s) =>
        (.ok (), {
          state := s
          delta := g.delta.record exact
            [{ path := toPathBuf path
               change := .update (some (toPathBuf dest)) patch.originalContents
                 overwrittenMoveContent patch.newContents }]
          affected :=
            { g.affected with modified := g.affected.modified ++ [affectedPath] } })

/-- The `UpdateFile` branch -/
def applyUpdateFile (cwd path : U) (affectedPath : PathBuf)
    (movePath : Option PathBuf) (chunks : List UpdateFileChunk) :
    Except (ApplyError ε) Unit × Progress fs :=
  let exact := noteExistingPathDeltaSupport fs g.state path g.delta.exact
  match deriveNewContentsFromChunks fs g.state path chunks with
  | .error error => (.error error, { g with delta := g.delta.record exact [] })
  | .ok patch =>
    match movePath with
    | some dest =>
      match join cwd dest with
      | .error error => (.error (.pathUri error), { g with delta := g.delta.record exact [] })
      | .ok dest => applyMove g path dest affectedPath exact patch
    | none =>
      match writeFileWithContext fs g.state path patch.newContents with
      | (.error error, s) =>
        (.error error, { g with state := s, delta := g.delta.record false [] })
      | (.ok (), s) =>
        (.ok (), {
          state := s
          delta := g.delta.record exact
            [{ path := toPathBuf path
               change := .update none patch.originalContents none patch.newContents }]
          affected :=
            { g.affected with modified := g.affected.modified ++ [affectedPath] } })

/-- The loop body of `apply_hunks_to_files` -/
def applyHunk (cwd : U) (g : Progress fs) (hunk : Hunk) :
    Except (ApplyError ε) Unit × Progress fs :=
  match hunk.resolvePath cwd with
  | .error error => (.error (.pathUri error), g)
  | .ok path =>
    match hunk with
    | .addFile _ contents => applyAddFile g path hunk.path contents
    | .deleteFile _ => applyDeleteFile g path hunk.path
    | .updateFile _ movePath chunks => applyUpdateFile g cwd path hunk.path movePath chunks

/-! ### All hunks -/

/-- The loop of `apply_hunks_to_files`; the first error ends it -/
def applyHunks (cwd : U) : List Hunk → Progress fs → Except (ApplyError ε) Unit × Progress fs
  | [], g => (.ok (), g)
  | hunk :: hunks, g =>
    match applyHunk cwd g hunk with
    | (.ok (), g) => applyHunks cwd hunks g
    | (.error error, g) => (.error error, g)

/-- `apply_hunks_to_files`, called with an empty delta -/
def applyHunksToFiles (fs : ExecutorFileSystem U) (cwd : U) (hunks : List Hunk) (s : fs.State) :
    Except (ApplyError ε) Unit × Progress fs :=
  if hunks.isEmpty then (.error .noFilesModified, { state := s })
  else applyHunks cwd hunks { state := s }

end Operations

/-! ### What the helpers establish -/

section Specs

variable {fs : ExecutorFileSystem U} {s s' : fs.State} {path : U} {exact : Bool}

lemma noteExistingPathDeltaSupport_eq_true
    (h : noteExistingPathDeltaSupport fs s path exact = true) : exact = true := by
  unfold noteExistingPathDeltaSupport at h
  split at h
  · split_ifs at h
    exact h
  · split_ifs at h
    exact h

/-- While the record stays exact, the content read is the one the path holds. -/
theorem readOptionalFileTextForDelta_eq_true
    (h : (readOptionalFileTextForDelta fs s path exact).2 = true) :
    exact = true ∧
      fs.contents s (toPathBuf path) = (readOptionalFileTextForDelta fs s path exact).1 := by
  unfold readOptionalFileTextForDelta at h ⊢
  dsimp only at h ⊢
  split at h
  · rename_i content hread
    exact ⟨noteExistingPathDeltaSupport_eq_true h, fs.readFileText_ok hread⟩
  · rename_i source hread
    split_ifs at h ⊢ with hkind
    exact ⟨noteExistingPathDeltaSupport_eq_true h, fs.readFileText_notFound hread hkind⟩

lemma writeFileWithContext_ok {contents : Text}
    (h : writeFileWithContext fs s path contents = (.ok (), s')) :
    fs.contents s' = Function.update (fs.contents s) (toPathBuf path) (some contents) := by
  unfold writeFileWithContext at h
  split at h
  · rename_i s₁ hwrite
    obtain rfl : s₁ = s' := (Prod.mk.inj h).2
    have hok := fs.writeFile_ok (by rw [hwrite] : (fs.writeFile s path contents).1 = .ok ())
    rwa [hwrite] at hok
  · cases (Prod.mk.inj h).1

/-- A write after a failed one, with the parents created in between, is the write. -/
theorem writeFileWithMissingParentRetry_ok {contents : Text}
    (h : writeFileWithMissingParentRetry fs s path contents = (.ok (), s')) :
    fs.contents s' = Function.update (fs.contents s) (toPathBuf path) (some contents) := by
  have hretry : ∀ {s₁ s₂ : fs.State}, (fs.writeFile s path contents).2 = s₁ →
      fs.contents s₂ = fs.contents s₁ → writeFileWithContext fs s₂ path contents = (.ok (), s') →
      fs.contents s' = Function.update (fs.contents s) (toPathBuf path) (some contents) := by
    intro s₁ s₂ hfirst hdir hsecond
    rw [writeFileWithContext_ok hsecond, hdir]
    funext p
    by_cases hp : p = toPathBuf path
    · subst hp
      simp
    · rw [Function.update_of_ne hp, Function.update_of_ne hp, ← hfirst, fs.writeFile_frame hp]
  unfold writeFileWithMissingParentRetry at h
  split at h
  · rename_i s₁ hwrite
    obtain rfl : s₁ = s' := (Prod.mk.inj h).2
    have hok := fs.writeFile_ok (by rw [hwrite] : (fs.writeFile s path contents).1 = .ok ())
    rwa [hwrite] at hok
  · rename_i err s₁ hwrite
    have hfirst : (fs.writeFile s path contents).2 = s₁ := by rw [hwrite]
    split_ifs at h
    · split at h
      · rename_i dir hparent
        split at h
        · rename_i s₂ hcreate
          have hdir := fs.createDirectory_frame (s := s₁) (u := dir)
          rw [hcreate] at hdir
          exact hretry hfirst hdir h
        · cases (Prod.mk.inj h).1
      · exact hretry hfirst rfl h
    · cases (Prod.mk.inj h).1

lemma deriveNewContentsFromChunks_ok {chunks : List UpdateFileChunk} {patch : AppliedPatch}
    (h : deriveNewContentsFromChunks fs s path chunks = .ok patch) :
    fs.contents s (toPathBuf path) = some patch.originalContents ∧
      newContents (inferredNativePathString path) chunks patch.originalContents =
        .ok patch.newContents := by
  unfold deriveNewContentsFromChunks at h
  split at h
  · cases h
  · rename_i original hread
    split at h
    · cases h
    · rename_i new hnew
      cases h
      exact ⟨fs.readFileText_ok hread, hnew⟩

lemma remove_ok_contents (h : fs.remove s path = (.ok (), s')) :
    fs.contents s' = Function.update (fs.contents s) (toPathBuf path) none := by
  have hok := fs.remove_ok (by rw [h] : (fs.remove s path).1 = .ok ())
  rwa [h] at hok

/-- A failed removal after which the file still reads as expected changed nothing. -/
theorem contents_of_remove_failure {expected : Option Text} {err : IoError}
    (h : fs.remove s path = (.error err, s'))
    (hfree : removeFailureWasSideEffectFree fs s' path expected = true)
    (hcontent : fs.contents s (toPathBuf path) = expected) : fs.contents s' = fs.contents s := by
  funext p
  by_cases hp : p = toPathBuf path
  · subst hp
    unfold removeFailureWasSideEffectFree at hfree
    split at hfree
    · split at hfree
      · rename_i content hread
        rw [fs.readFileText_ok hread, hcontent, eq_of_beq hfree]
      · cases hfree
    · cases hfree
  · have hframe := fs.remove_frame (s := s) hp
    rwa [h] at hframe

end Specs

/-! ### Exact records -/

section Exact

variable {fs : ExecutorFileSystem U} {g g' g'' : Progress fs}

/-- `g'` extends the record of `g`, and as long as it is exact by changes that replay from the
contents of `g` to those of `g'`. -/
def Progress.Extends (g g' : Progress fs) : Prop :=
  ∃ cs, g'.delta.changes = g.delta.changes ++ cs ∧ (g'.delta.exact = true → g.delta.exact = true ∧
      Replays cs (fs.contents g.state) (fs.contents g'.state))

lemma Progress.Extends.refl (g : Progress fs) : g.Extends g := ⟨[], by simp, fun h => ⟨h, rfl⟩⟩

lemma Progress.Extends.trans (h₁ : g.Extends g') (h₂ : g'.Extends g'') : g.Extends g'' := by
  obtain ⟨cs, hcs, hexact⟩ := h₁
  obtain ⟨ds, hds, hexact'⟩ := h₂
  refine ⟨cs ++ ds, by rw [hds, hcs, List.append_assoc], fun h => ?_⟩
  obtain ⟨hg', hreplay'⟩ := hexact' h
  obtain ⟨hg, hreplay⟩ := hexact hg'
  exact ⟨hg, replays_append.mpr ⟨_, hreplay, hreplay'⟩⟩

variable {exact : Bool}

/-- A failure that records nothing and changes nothing, or clears the flag. -/
theorem extends_of_record_nil {g' : Progress fs} (hdelta : g'.delta = g.delta.record exact [])
    (h : exact = true → g.delta.exact = true ∧ fs.contents g'.state = fs.contents g.state) :
    g.Extends g' := by
  refine ⟨[], by simp [hdelta, AppliedPatchDelta.record], fun hx => ?_⟩
  rw [hdelta] at hx
  obtain ⟨hg, hsame⟩ := h hx
  exact ⟨hg, hsame.symm⟩

lemma extends_of_record {g' : Progress fs} {change : AppliedPatchChange P}
    (hdelta : g'.delta = g.delta.record exact [change])
    (h : exact = true → g.delta.exact = true ∧ change.RecordedIn (fs.contents g.state) ∧
      fs.contents g'.state = change.replay (fs.contents g.state)) :
    g.Extends g' := by
  refine ⟨[change], by simp [hdelta, AppliedPatchDelta.record], fun hx => ?_⟩
  rw [hdelta] at hx
  obtain ⟨hg, hrecorded, hstate⟩ := h hx
  exact ⟨hg, hrecorded, hstate.symm⟩

lemma applyAddFile_extends (path : U) (affectedPath : PathBuf) (contents : Text) :
    g.Extends (applyAddFile g path affectedPath contents).2 := by
  unfold applyAddFile
  dsimp only
  split
  · exact extends_of_record_nil rfl fun h => by cases h
  · rename_i s hwrite
    refine extends_of_record rfl fun h => ?_
    obtain ⟨hg, hold⟩ := readOptionalFileTextForDelta_eq_true h
    exact ⟨hg, hold, writeFileWithMissingParentRetry_ok hwrite⟩

lemma applyDeleteFile_extends (path : U) (affectedPath : PathBuf) :
    g.Extends (applyDeleteFile g path affectedPath).2 := by
  have hread : ∀ {exact : Bool}, (noteExistingPathDeltaSupport fs g.state path exact &&
      (fs.readFileText g.state path).toOption.isSome) = true →
      exact = true ∧ ∃ content, (fs.readFileText g.state path).toOption = some content ∧
        fs.contents g.state (toPathBuf path) = some content := by
    intro exact h
    obtain ⟨hnote, hsome⟩ := Bool.and_eq_true_iff.mp h
    obtain ⟨content, hcontent⟩ := Option.isSome_iff_exists.mp hsome
    exact ⟨noteExistingPathDeltaSupport_eq_true hnote, content, hcontent,
      fs.readFileText_ok (toOption_eq_some.mp hcontent)⟩
  unfold applyDeleteFile
  dsimp only
  split
  · exact extends_of_record_nil rfl fun h => ⟨(hread h).1, rfl⟩
  · split
    · rename_i err s hremove
      refine extends_of_record_nil rfl fun h => ?_
      obtain ⟨hx, hfree⟩ := Bool.and_eq_true_iff.mp h
      obtain ⟨hg, content, hcontent, hold⟩ := hread hx
      rw [hcontent] at hfree
      exact ⟨hg, contents_of_remove_failure hremove hfree hold⟩
    · rename_i s hremove
      rcases hcontent : (fs.readFileText g.state path).toOption with _ | content
      · -- nothing could be read, so the record is not exact
        refine extends_of_record_nil rfl fun h => ?_
        simp at h
      · refine extends_of_record rfl fun h => ?_
        obtain ⟨hg, content', hcontent', hold⟩ := hread (by rw [hcontent]; exact h)
        rw [hcontent, Option.some.injEq] at hcontent'
        subst hcontent'
        exact ⟨hg, hold, remove_ok_contents hremove⟩

/-- A move to another path: the destination is written and the source removed, or only the
destination is written and the record says just that. -/
theorem applyMove_extends {path dest : U} (hne : toPathBuf dest ≠ toPathBuf path)
    (affectedPath : PathBuf) {patch : AppliedPatch} (hexact : exact = true → g.delta.exact = true)
    (horiginal : fs.contents g.state (toPathBuf path) = some patch.originalContents) :
    g.Extends (applyMove g path dest affectedPath exact patch).2 := by
  unfold applyMove
  dsimp only
  split
  · exact extends_of_record_nil rfl fun h => by cases h
  · rename_i s hwrite
    have hs := writeFileWithMissingParentRetry_ok hwrite
    split
    · refine extends_of_record rfl fun h => ?_
      obtain ⟨hx, hold⟩ := readOptionalFileTextForDelta_eq_true h
      exact ⟨hexact hx, hold, hs⟩
    · split
      · rename_i err s' hremove
        refine extends_of_record rfl fun h => ?_
        obtain ⟨hx, hfree⟩ := Bool.and_eq_true_iff.mp h
        obtain ⟨hx, hold⟩ := readOptionalFileTextForDelta_eq_true hx
        -- the source still has its content, so only the destination was written
        have hsource : fs.contents s (toPathBuf path) = some patch.originalContents := by
          rw [hs, Function.update_of_ne hne.symm, horiginal]
        exact ⟨hexact hx, hold, (contents_of_remove_failure hremove hfree hsource).trans hs⟩
      · rename_i s' hremove
        refine extends_of_record rfl fun h => ?_
        obtain ⟨hx, hold⟩ := readOptionalFileTextForDelta_eq_true h
        refine ⟨hexact hx, ⟨horiginal, hold⟩, ?_⟩
        rw [remove_ok_contents hremove, hs]
        exact Function.update_comm hne _ _ _

/-- The hunk moves a file to the path it already has, and its chunks match the file. -/
def Hunk.MovesOntoItself (cwd : U) (g : Progress fs) (hunk : Hunk) : Prop :=
  ∃ path dest chunks source target patch, hunk = .updateFile path (some dest) chunks ∧
    join cwd path = .ok source ∧ join cwd dest = .ok target ∧
    toPathBuf target = toPathBuf source ∧
    deriveNewContentsFromChunks fs g.state source chunks = .ok patch

/-- A run of the hunks from `g` comes to one that moves its file onto itself. -/
def ReachesSelfMove (cwd : U) : List Hunk → Progress fs → Prop
  | [], _ => False
  | hunk :: hunks, g => hunk.MovesOntoItself cwd g ∨
    ∃ g', applyHunk cwd g hunk = (.ok (), g') ∧ ReachesSelfMove cwd hunks g'

lemma applyUpdateFile_extends {cwd path : U} (affectedPath : PathBuf)
    {movePath : Option PathBuf} (chunks : List UpdateFileChunk)
    (hmove : ∀ dest ∈ movePath, ∀ target, join cwd dest = .ok target →
      ∀ patch, deriveNewContentsFromChunks fs g.state path chunks = .ok patch →
        toPathBuf target ≠ toPathBuf path) :
    g.Extends (applyUpdateFile g cwd path affectedPath movePath chunks).2 := by
  have hnote : noteExistingPathDeltaSupport fs g.state path g.delta.exact = true →
      g.delta.exact = true := noteExistingPathDeltaSupport_eq_true
  unfold applyUpdateFile
  dsimp only
  split
  · exact extends_of_record_nil rfl fun h => ⟨hnote h, rfl⟩
  · rename_i patch hpatch
    have horiginal := (deriveNewContentsFromChunks_ok hpatch).1
    split
    · rename_i dest
      split
      · exact extends_of_record_nil rfl fun h => ⟨hnote h, rfl⟩
      · rename_i target htarget
        exact applyMove_extends (hmove dest rfl target htarget patch hpatch) affectedPath hnote
          horiginal
    · split
      · exact extends_of_record_nil rfl fun h => by cases h
      · rename_i s hwrite
        exact extends_of_record rfl fun h => ⟨hnote h, horiginal, writeFileWithContext_ok hwrite⟩

/-- **One hunk.** -/
theorem applyHunk_extends {cwd : U} {hunk : Hunk} (h : ¬ hunk.MovesOntoItself cwd g) :
    g.Extends (applyHunk cwd g hunk).2 := by
  unfold applyHunk
  split
  · exact .refl g
  · rename_i path hpath
    cases hunk with
    | addFile _ contents => exact applyAddFile_extends path _ contents
    | deleteFile _ => exact applyDeleteFile_extends path _
    | updateFile source movePath chunks =>
      refine applyUpdateFile_extends _ chunks ?_
      rintro dest rfl target htarget patch hpatch heq
      exact h ⟨source, dest, chunks, path, target, patch, rfl, hpath, htarget, heq, hpatch⟩

/-- **A run of hunks**, up to its end or its first error. -/
theorem applyHunks_extends {cwd : U} {hunks : List Hunk} (h : ¬ ReachesSelfMove cwd hunks g) :
    g.Extends (applyHunks cwd hunks g).2 := by
  induction hunks generalizing g with
  | nil => exact .refl g
  | cons hunk hunks ih =>
    obtain ⟨hfirst, hrest⟩ := not_or.mp h
    have hstep := applyHunk_extends hfirst
    unfold applyHunks
    split
    · rename_i g₁ hg₁
      rw [hg₁] at hstep
      exact hstep.trans (ih fun hreach => hrest ⟨g₁, hg₁, hreach⟩)
    · rename_i error g₁ hg₁
      rw [hg₁] at hstep
      exact hstep

lemma applyHunksToFiles_snd (fs : ExecutorFileSystem U) (cwd : U) (hunks : List Hunk)
    (s : fs.State) :
    (applyHunksToFiles fs cwd hunks s).2 = (applyHunks cwd hunks { state := s }).2 := by
  cases hunks with
  | nil => rfl
  | cons _ _ => rfl

/-- On every file system, whether the run succeeds or fails part-way: where it reaches no move of a
file onto itself, an exact delta replays from the initial contents to the final ones, each recorded
content being the one its path held at that point. -/
theorem replays_of_not_reachesSelfMove {fs : ExecutorFileSystem U} {cwd : U} {hunks : List Hunk}
    {s : fs.State} (h : ¬ ReachesSelfMove cwd hunks { state := s })
    (hexact : (applyHunksToFiles fs cwd hunks s).2.delta.exact = true) :
    Replays (applyHunksToFiles fs cwd hunks s).2.delta.changes (fs.contents s)
      (fs.contents (applyHunksToFiles fs cwd hunks s).2.state) := by
  rw [applyHunksToFiles_snd] at hexact ⊢
  obtain ⟨cs, hcs, hreplay⟩ := applyHunks_extends h
  rw [hcs]
  exact (hreplay hexact).2

end Exact

/-! ### A move of a file onto itself -/

section SelfMove

variable {g : Progress (mapFileSystem U)} {cwd : U} {hunk : Hunk} {m : Contents P}

/-- The record is exact, but nothing it replays to is what the file system holds. -/
def Progress.Diverges (m : Contents P) (g : Progress (mapFileSystem U)) : Prop :=
  g.delta.exact = true → ∀ n, Replays g.delta.changes m n →
    ∃ p, n p ≠ (mapFileSystem U).contents g.state p

variable {s : Contents P} {u : U} {content : Text} (h : s (toPathBuf u) = some content)
include h

lemma mapFileSystem_getMetadata :
    (mapFileSystem U).getMetadata s u =
      .ok { isDirectory := false, isFile := true, isSymlink := false } := by
  simp only [mapFileSystem, h]

lemma mapFileSystem_readFileText : (mapFileSystem U).readFileText s u = .ok content := by
  simp only [mapFileSystem, h]

lemma mapFileSystem_remove :
    (mapFileSystem U).remove s u = (.ok (), Function.update s (toPathBuf u) none) := by
  simp only [mapFileSystem, h]

omit h

/-- The branch with a `move_path` where the two paths are one: the file is written, then removed. -/
lemma applyMove_selfMove {path dest : U} (delta : AppliedPatchDelta P) (affected : AffectedPaths)
    (affectedPath : PathBuf) (exact : Bool) (patch : AppliedPatch)
    (heq : toPathBuf dest = toPathBuf path)
    (hold : s (toPathBuf path) = some patch.originalContents) :
    applyMove (⟨s, delta, affected⟩ : Progress (mapFileSystem U)) path dest affectedPath exact
        patch =
      (.ok (), ⟨Function.update s (toPathBuf path) none,
        delta.record exact
          [{ path := toPathBuf path
             change := .update (some (toPathBuf path)) patch.originalContents
               (some patch.originalContents) patch.newContents }],
        { affected with modified := affected.modified ++ [affectedPath] }⟩) := by
  have hdest : s (toPathBuf dest) = some patch.originalContents := heq ▸ hold
  have hread : readOptionalFileTextForDelta (mapFileSystem U) s dest exact =
      (some patch.originalContents, exact) := by
    unfold readOptionalFileTextForDelta noteExistingPathDeltaSupport
    rw [mapFileSystem_getMetadata hdest, mapFileSystem_readFileText hdest]
    rfl
  have hwrite : writeFileWithMissingParentRetry (mapFileSystem U) s dest patch.newContents =
      (.ok (), Function.update s (toPathBuf path) (some patch.newContents)) := by
    rw [← heq]
    rfl
  have hwritten : Function.update s (toPathBuf path) (some patch.newContents) (toPathBuf path) =
      some patch.newContents := Function.update_self _ _ _
  have hensure : ensureNotDirectory (mapFileSystem U)
      (Function.update s (toPathBuf path) (some patch.newContents)) path = .ok () := by
    unfold ensureNotDirectory
    rw [mapFileSystem_getMetadata hwritten]
    rfl
  have hremove : (mapFileSystem U).remove
      (Function.update s (toPathBuf path) (some patch.newContents)) path =
        (.ok (), Function.update s (toPathBuf path) none) := by
    rw [mapFileSystem_remove hwritten, Function.update_idem]
  unfold applyMove
  dsimp only
  rw [hread]
  dsimp only
  rw [hwrite]
  dsimp only
  rw [hensure]
  dsimp only
  rw [hremove, heq]

/-- A hunk that moves a file onto itself leaves the path empty, and the record says that it holds
the new content. -/
theorem applyHunk_selfMove (h : hunk.MovesOntoItself cwd g) :
    ∃ p old new, (mapFileSystem U).contents g.state p = some old ∧
      ∃ g', applyHunk cwd g hunk = (.ok (), g') ∧
        (mapFileSystem U).contents g'.state =
          Function.update ((mapFileSystem U).contents g.state) p none ∧
        g'.delta = g.delta.record g.delta.exact
          [{ path := p, change := .update (some p) old (some old) new }] := by
  obtain ⟨path, dest, chunks, source, target, patch, rfl, hsource, htarget, heq, hpatch⟩ := h
  obtain ⟨s, delta, affected⟩ := g
  have hold : (mapFileSystem U).contents s (toPathBuf source) = some patch.originalContents :=
    (deriveNewContentsFromChunks_ok hpatch).1
  have hnote : noteExistingPathDeltaSupport (mapFileSystem U) s source delta.exact =
      delta.exact := by
    unfold noteExistingPathDeltaSupport
    rw [mapFileSystem_getMetadata (s := s) hold]
    rfl
  have hmove := applyMove_selfMove delta affected
    (Hunk.updateFile path (some dest) chunks).path delta.exact patch heq hold
  have hrun : applyHunk cwd (⟨s, delta, affected⟩ : Progress (mapFileSystem U))
      (.updateFile path (some dest) chunks) =
        applyMove ⟨s, delta, affected⟩ source target
          (Hunk.updateFile path (some dest) chunks).path delta.exact patch := by
    unfold applyHunk
    simp only [Hunk.resolvePath, Hunk.sourcePath, hsource]
    unfold applyUpdateFile
    dsimp only at hpatch ⊢
    rw [hnote, hpatch]
    dsimp only
    rw [htarget]
  exact ⟨_, _, _, hold, _, hrun.trans hmove, rfl, rfl⟩

/-- A record that replays to other contents never comes to replay to the right ones again: a path
that differs is touched by no later change. -/
theorem Progress.Diverges.step (h : g.Diverges m) : (applyHunk cwd g hunk).2.Diverges m := by
  by_cases hself : hunk.MovesOntoItself cwd g
  · obtain ⟨q, old, new, hold, g', hg', hstate, hdelta⟩ := applyHunk_selfMove hself
    rw [hg']
    intro hexact n' hn'
    rw [hdelta] at hexact hn'
    obtain ⟨n, hn, ⟨hq, -⟩, rfl⟩ := replays_append.mp hn'
    obtain ⟨p, hp⟩ := h hexact n hn
    have hne : p ≠ q := by
      rintro rfl
      exact hp (hq.trans hold.symm)
    refine ⟨p, ?_⟩
    rw [hstate, Function.update_of_ne hne]
    simpa [AppliedPatchChange.replay, hne] using hp
  · obtain ⟨cs, hcs, hreplay⟩ := applyHunk_extends hself
    intro hexact n' hn'
    obtain ⟨hg, hcontents⟩ := hreplay hexact
    rw [hcs] at hn'
    obtain ⟨n, hn, hstep⟩ := replays_append.mp hn'
    obtain ⟨p, hp⟩ := h hg n hn
    exact ⟨p, hstep.ne_of_ne hcontents hp⟩

lemma Progress.Diverges.run {hunks : List Hunk} (h : g.Diverges m) :
    (applyHunks cwd hunks g).2.Diverges m := by
  induction hunks generalizing g with
  | nil => exact h
  | cons hunk hunks ih =>
    have hstep : (applyHunk cwd g hunk).2.Diverges m := h.step
    unfold applyHunks
    split
    · rename_i g₁ hg₁
      rw [hg₁] at hstep
      exact ih hstep
    · rename_i error g₁ hg₁
      rw [hg₁] at hstep
      exact hstep

/-- From a record that replays to the contents, a run that comes to a move of a file onto itself
ends with one that does not. -/
theorem diverges_of_reachesSelfMove {hunks : List Hunk}
    (hg : g.delta.exact = true → Replays g.delta.changes m g.state)
    (h : ReachesSelfMove cwd hunks g) : (applyHunks cwd hunks g).2.Diverges m := by
  induction hunks generalizing g with
  | nil => exact h.elim
  | cons hunk hunks ih =>
    by_cases hself : hunk.MovesOntoItself cwd g
    · obtain ⟨q, old, new, hold, g', hg', hstate, hdelta⟩ := applyHunk_selfMove hself
      have hdiverges : g'.Diverges m := by
        intro _ n' hn'
        rw [hdelta] at hn'
        obtain ⟨n, -, -, rfl⟩ := replays_append.mp hn'
        refine ⟨q, ?_⟩
        rw [hstate, Function.update_self]
        simp [AppliedPatchChange.replay]
      rw [applyHunks, hg']
      exact hdiverges.run
    · obtain ⟨g', hg', hrest⟩ := h.resolve_left hself
      obtain ⟨cs, hcs, hreplay⟩ := applyHunk_extends hself
      rw [hg'] at hcs hreplay
      rw [applyHunks, hg']
      refine ih ?_ hrest
      intro hexact
      obtain ⟨hexact', hcontents⟩ := hreplay hexact
      rw [hcs]
      exact replays_append.mpr ⟨_, hg hexact', hcontents⟩

end SelfMove

/-! ### Main results -/

section Main

/-- **The exact-delta law holds exactly where no move of a file onto itself is reached.** On the
in-memory file system, whether the run succeeds or fails part-way, as long as the delta is still
exact: its changes replay from the initial contents to the final ones, each recorded content being
the one its path held at that point, if and only if the run comes to no hunk that moves a file onto
itself and whose new contents can be derived. -/
theorem applyHunksToFiles_exact (cwd : U) (hunks : List Hunk) (initial : Contents P)
    (hexact : (applyHunksToFiles (mapFileSystem U) cwd hunks initial).2.delta.exact = true) :
    (Replays (applyHunksToFiles (mapFileSystem U) cwd hunks initial).2.delta.changes initial
        (applyHunksToFiles (mapFileSystem U) cwd hunks initial).2.state ∧
      replay (applyHunksToFiles (mapFileSystem U) cwd hunks initial).2.delta.changes initial =
        (applyHunksToFiles (mapFileSystem U) cwd hunks initial).2.state) ↔
      ¬ ReachesSelfMove cwd hunks ({ state := initial } : Progress (mapFileSystem U)) := by
  constructor
  · rintro ⟨hreplays, -⟩ hreach
    have hdiverges :
        (applyHunksToFiles (mapFileSystem U) cwd hunks initial).2.Diverges initial := by
      cases hunks with
      | nil => exact hreach.elim
      | cons hunk hunks => exact diverges_of_reachesSelfMove (fun _ => rfl) hreach
    obtain ⟨p, hp⟩ := hdiverges hexact _ hreplays
    exact hp rfl
  · intro h
    have hreplays := replays_of_not_reachesSelfMove h hexact
    exact ⟨hreplays, hreplays.replay_eq⟩

/-- Add a file, update it with a move away from it, delete the result, and ask for a move of the
file that is gone onto itself, which fails: every kind of change, and a path that is touched three
times. -/
theorem applyHunksToFiles_exact_chain :
    replay (applyHunksToFiles (mapFileSystem Text) "/".toList
        [.addFile "/a".toList "x\n".toList,
          .updateFile "/a".toList (some "/b".toList) [⟨none, ["x".toList], ["y".toList], false⟩],
          .deleteFile "/b".toList,
          .updateFile "/a".toList (some "/a".toList) [⟨none, ["x".toList], ["y".toList], false⟩]]
        (fun _ => none)).2.delta.changes (fun _ => none) =
      (applyHunksToFiles (mapFileSystem Text) "/".toList
        [.addFile "/a".toList "x\n".toList,
          .updateFile "/a".toList (some "/b".toList) [⟨none, ["x".toList], ["y".toList], false⟩],
          .deleteFile "/b".toList,
          .updateFile "/a".toList (some "/a".toList) [⟨none, ["x".toList], ["y".toList], false⟩]]
        (fun _ => none)).2.state := by
  refine ((applyHunksToFiles_exact "/".toList _ (fun _ => none) (by decide)).mpr ?_).2
  rintro (h | ⟨g₁, hg₁, h | ⟨g₂, hg₂, h | ⟨g₃, hg₃, h | ⟨_, _, h⟩⟩⟩⟩)
  · obtain ⟨_, _, _, _, _, _, hhunk, -⟩ := h
    cases hhunk
  · -- another path
    obtain ⟨_, _, _, _, _, _, hhunk, hsource, htarget, heq, -⟩ := h
    cases hhunk
    cases hsource
    cases htarget
    cases heq
  · obtain ⟨_, _, _, _, _, _, hhunk, -⟩ := h
    cases hhunk
  · -- the file was moved away, so it cannot be read
    obtain ⟨_, _, _, _, _, patch, hhunk, hsource, -, -, hpatch⟩ := h
    obtain rfl := (Prod.mk.inj hg₁).2
    obtain rfl := (Prod.mk.inj hg₂).2
    obtain rfl := (Prod.mk.inj hg₃).2
    cases hhunk
    cases hsource
    have hread := (deriveNewContentsFromChunks_ok hpatch).1
    have hsome := congrArg Option.isSome hread
    rw [Option.isSome_some] at hsome
    cases hsome
  · exact h

/-- A move onto itself: the file is written and then removed, the record is exact and says that the
file holds the new content. -/
theorem applyHunksToFiles_selfMove :
    let hunks := [Hunk.updateFile "/a".toList (some "/a".toList)
      [⟨none, ["x".toList], ["y".toList], false⟩]]
    let initial : Contents Text := Function.update (fun _ => none) "/a".toList (some "x\n".toList)
    let run := applyHunksToFiles (mapFileSystem Text) "/".toList hunks initial
    run.1.toOption = some () ∧ run.2.delta.exact = true ∧
      replay run.2.delta.changes initial "/a".toList = some "y\n".toList ∧
      (run.2.state : Contents Text) "/a".toList = none ∧
      replay run.2.delta.changes initial ≠ run.2.state := by
  intro hunks initial run
  refine ⟨by decide, by decide, by decide, by decide, ?_⟩
  intro heq
  have hpoint := congrFun heq "/a".toList
  cases hpoint

end Main

end Codex.ApplyPatch
