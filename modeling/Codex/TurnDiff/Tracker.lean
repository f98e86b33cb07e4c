import Codex.ApplyPatch.FileSystem
import Mathlib.Data.Char
import Mathlib.Data.List.AList
import Mathlib.Data.List.Sort
import Mathlib.Data.List.Lex

/-!
# The turn diff tracker

`core/src/turn_diff_tracker.rs`: the net text diff of a turn, kept from the committed deltas of
`apply_patch` without reading the workspace again. `baseline` holds what a path held before the
turn, `current` what it holds now, `origin` the path a moved file came from.

Hash maps are association lists with distinct keys; where the code iterates over one, the model
takes the enumeration as an argument (`refreshPairs`), so that results can be stated for every hash
order. The text of one diff and the display form of a path are the parameters `Display`.
-/

namespace Codex.TurnDiff

open Codex.Lib Codex.ApplyPatch

abbrev HashMap (K V : Type) := AList fun _ : K => V

structure TrackedContent where
  content : Text
  revision : ℕ

structure TrackedPath (P : Type) where
  environmentId : Text
  path : P
  deriving DecidableEq

structure DiffCacheKey (P : Type) where
  leftPath : TrackedPath P
  leftRevision : Option ℕ
  rightPath : TrackedPath P
  rightRevision : Option ℕ
  deriving DecidableEq

/-- How paths and diffs are written: `display_path` with the display roots of the tracker, and the
text `render_diff` writes for two contents that differ. -/
structure Display (P : Type) where
  displayPath : TrackedPath P → Text
  diffText : TrackedPath P → Option Text → TrackedPath P → Option Text → Text

/-- `TurnDiffTracker`; `{}` is `TurnDiffTracker::default()` -/
structure TurnDiffTracker (P : Type) where
  valid : Bool := true
  baselineByPath : HashMap (TrackedPath P) TrackedContent := ∅
  currentByPath : HashMap (TrackedPath P) TrackedContent := ∅
  originByCurrentPath : HashMap (TrackedPath P) (TrackedPath P) := ∅
  nextRevision : ℕ := 0
  renderedDiffs : HashMap (DiffCacheKey P) (Option Text) := ∅
  unifiedDiff : Option Text := none

/-- `Vec::dedup`: drop elements equal to the one before. -/
def dedupAdjacent {K : Type} [DecidableEq K] : List K → List K
  | [] => []
  | [a] => [a]
  | a :: b :: l => if a = b then dedupAdjacent (b :: l) else a :: dedupAdjacent (b :: l)

variable {P : Type} [DecidableEq P]

/-- An order in which hash maps are iterated. -/
structure MapOrder (P : Type) [DecidableEq P] where
  keys : HashMap (TrackedPath P) TrackedContent → List (TrackedPath P)
  keys_perm : ∀ m, (keys m).Perm m.keys
  entries : HashMap (TrackedPath P) (TrackedPath P) → List (Σ _ : TrackedPath P, TrackedPath P)
  entries_perm : ∀ m, (entries m).Perm m.entries

/-- The order of the lists. -/
def MapOrder.listed : MapOrder P := ⟨AList.keys, fun _ => .rfl, AList.entries, fun _ => .rfl⟩

namespace TurnDiffTracker

/-! ### Changes -/

variable (t : TurnDiffTracker P) (path : TrackedPath P)

/-- `contains_key` on both maps -/
def isTracked : Bool :=
  (t.currentByPath.lookup path).isSome || (t.baselineByPath.lookup path).isSome

variable (content : Text)

/-- `tracked_content` and the insertion into `baseline_by_path` -/
def insertBaseline : TurnDiffTracker P :=
  { t with
    baselineByPath := t.baselineByPath.insert path ⟨content, t.nextRevision⟩
    nextRevision := t.nextRevision + 1 }

/-- `tracked_content` and the insertion into `current_by_path` -/
def insertCurrent : TurnDiffTracker P :=
  { t with
    currentByPath := t.currentByPath.insert path ⟨content, t.nextRevision⟩
    nextRevision := t.nextRevision + 1 }

/-- The first change of a path records what it held before: `content`, where there was any. -/
def noteBaseline (content : Option Text) : TurnDiffTracker P :=
  if t.isTracked path then t
  else match content with
  | some content => t.insertBaseline path content
  | none => t

/-- `current_by_path.remove` -/
def eraseCurrent : TurnDiffTracker P :=
  { t with currentByPath := t.currentByPath.erase path }

/-- `origin_by_current_path.remove` -/
def eraseOrigin : TurnDiffTracker P :=
  { t with originByCurrentPath := t.originByCurrentPath.erase path }

/-- `origin_by_current_path.insert` -/
def insertOrigin (path origin : TrackedPath P) : TurnDiffTracker P :=
  { t with originByCurrentPath := t.originByCurrentPath.insert path origin }

def applyAdd (overwrittenContent : Option Text) : TurnDiffTracker P :=
  ((t.eraseOrigin path).noteBaseline path overwrittenContent).insertCurrent path content

def applyDelete : TurnDiffTracker P :=
  ((t.noteBaseline path (some content)).eraseCurrent path).eraseOrigin path

/-- `apply_update`, the `Some(dest_path)` branch -/
def applyMove (sourcePath destPath : TrackedPath P)
    (overwrittenMoveContent : Option Text) (newContent : Text) : TurnDiffTracker P :=
  let t := t.noteBaseline destPath overwrittenMoveContent
  let origin := (t.originByCurrentPath.lookup sourcePath).getD sourcePath
  let t := (t.eraseOrigin sourcePath).eraseCurrent sourcePath
  let t := (t.insertCurrent destPath newContent).eraseOrigin destPath
  if destPath ≠ origin then t.insertOrigin destPath origin else t

def applyUpdate (sourcePath : TrackedPath P)
    (movePath : Option (TrackedPath P)) (oldContent : Text) (overwrittenMoveContent : Option Text)
    (newContent : Text) : TurnDiffTracker P :=
  let t := t.noteBaseline sourcePath (some oldContent)
  match movePath with
  | some destPath => t.applyMove sourcePath destPath overwrittenMoveContent newContent
  | none => t.insertCurrent sourcePath newContent

/-- `apply_change`, on tracked paths -/
def applyTrackedChange (c : AppliedPatchChange (TrackedPath P)) : TurnDiffTracker P :=
  match c.change with
  | .add content overwrittenContent => t.applyAdd c.path content overwrittenContent
  | .delete content => t.applyDelete c.path content
  | .update movePath oldContent overwrittenMoveContent newContent =>
    t.applyUpdate c.path movePath oldContent overwrittenMoveContent newContent

end TurnDiffTracker

/-- A change in an environment, with its paths tracked: `TrackedPath::new(environment_id, ..)`. -/
def trackedChange (environmentId : Text) (c : AppliedPatchChange P) :
    AppliedPatchChange (TrackedPath P) where
  path := ⟨environmentId, c.path⟩
  change :=
    match c.change with
    | .add content overwritten => .add content overwritten
    | .delete content => .delete content
    | .update movePath oldContent overwritten newContent =>
      .update (movePath.map fun path => ⟨environmentId, path⟩) oldContent overwritten newContent

namespace TurnDiffTracker

variable (t : TurnDiffTracker P)

def applyChange (environmentId : Text) (c : AppliedPatchChange P) : TurnDiffTracker P :=
  t.applyTrackedChange (trackedChange environmentId c)

/-! ### Pairs and rendering -/

/-- One entry `(dest_path, origin_path)` of `origin_by_current_path`: a rename where the file is
gone from its origin and new at its destination. Source: the closure of `rename_pairs` -/
def addRenamePair (pairs : HashMap (TrackedPath P) (TrackedPath P))
    (entry : Σ _ : TrackedPath P, TrackedPath P) : HashMap (TrackedPath P) (TrackedPath P) :=
  if entry.1 = entry.2 ∨ (t.currentByPath.lookup entry.2).isSome ∨
      (t.currentByPath.lookup entry.1).isNone ∨ (t.baselineByPath.lookup entry.2).isNone ∨
      (t.baselineByPath.lookup entry.1).isSome then pairs
  else pairs.insert entry.2 entry.1

/-- The moves that are shown as renames, by origin; `origins` enumerates `origin_by_current_path`.
Where two destinations have one origin the later one of the enumeration stays.
Source: `rename_pairs` -/
def renamePairs (origins : List (Σ _ : TrackedPath P, TrackedPath P)) :
    HashMap (TrackedPath P) (TrackedPath P) :=
  origins.foldl t.addRenamePair ∅

/-- The `(left_path, right_path)` pairs, in the order of the paths.
Source: the loop of `refresh_unified_diff`, up to the pair -/
def pairLoop (renames : HashMap (TrackedPath P) (TrackedPath P))
    (pairedDestinations : List (TrackedPath P)) :
    List (TrackedPath P) → List (TrackedPath P) → List (TrackedPath P × TrackedPath P)
  | _, [] => []
  | handled, path :: paths =>
    if path ∈ handled then pairLoop renames pairedDestinations handled paths
    else if path ∈ pairedDestinations then
      pairLoop renames pairedDestinations (path :: handled) paths
    else match renames.lookup path with
    | some dest =>
        (path, dest) :: pairLoop renames pairedDestinations (dest :: path :: handled) paths
    | none => (path, path) :: pairLoop renames pairedDestinations (path :: handled) paths

variable (d : Display P)

/-- The pairs, from enumerations of the keys and of the origins.
Source: `refresh_unified_diff`, up to the rendering -/
def refreshPairs (keys : List (TrackedPath P))
    (origins : List (Σ _ : TrackedPath P, TrackedPath P)) :
    List (TrackedPath P × TrackedPath P) :=
  let renames := t.renamePairs origins
  let pairedDestinations := renames.entries.map (·.2)
  let paths := dedupAdjacent (keys.insertionSort fun a b => d.displayPath a ≤ d.displayPath b)
  pairLoop renames pairedDestinations [] paths

def renderDiff (leftPath : TrackedPath P) (leftContent : Option Text)
    (rightPath : TrackedPath P) (rightContent : Option Text) : Option Text :=
  if leftContent = rightContent then none
  else some (d.diffText leftPath leftContent rightPath rightContent)

/-- What the rendering loop carries: the diffs left of the last refresh, the diffs of this one, and
the text so far. -/
structure Rendering (P : Type) where
  previousDiffs : HashMap (DiffCacheKey P) (Option Text)
  renderedDiffs : HashMap (DiffCacheKey P) (Option Text) := ∅
  aggregated : Text := []

/-- `aggregated.push_str(diff)`, with a line feed where the diff does not end in one. -/
def pushDiff (aggregated : Text) : Option Text → Text
  | some diff =>
    let aggregated := aggregated ++ diff
    if aggregated.getLast? = some '\n' then aggregated else aggregated ++ ['\n']
  | none => aggregated

/-- Render one pair, or take it from the cache when both sides are still of the same revision.
Source: the loop of `refresh_unified_diff`, after the pair -/
def renderPair (r : Rendering P) (pair : TrackedPath P × TrackedPath P) : Rendering P :=
  let leftContent := t.baselineByPath.lookup pair.1
  let rightContent := t.currentByPath.lookup pair.2
  let key : DiffCacheKey P :=
    { leftPath := pair.1
      leftRevision := leftContent.map (·.revision)
      rightPath := pair.2
      rightRevision := rightContent.map (·.revision) }
  let rendered := (r.previousDiffs.lookup key).getD
    (renderDiff d pair.1 (leftContent.map (·.content)) pair.2 (rightContent.map (·.content)))
  { previousDiffs := r.previousDiffs.erase key
    renderedDiffs := r.renderedDiffs.insert key rendered
    aggregated := pushDiff r.aggregated rendered }

variable (order : MapOrder P)

/-- The pairs of a refresh. -/
def pairsIn : List (TrackedPath P × TrackedPath P) :=
  t.refreshPairs d (order.keys t.baselineByPath ++ order.keys t.currentByPath)
    (order.entries t.originByCurrentPath)

/-- `refresh_unified_diff`, with its maps iterated in `order` -/
def refreshUnifiedDiffIn : TurnDiffTracker P :=
  let r := (t.pairsIn d order).foldl (t.renderPair d) { previousDiffs := t.renderedDiffs }
  { t with
    renderedDiffs := r.renderedDiffs
    unifiedDiff := if r.aggregated.isEmpty then none else some r.aggregated }

def invalidate : TurnDiffTracker P :=
  { t with valid := false, renderedDiffs := ∅, unifiedDiff := none }

/-- `track_delta` -/
def trackDeltaIn (environmentId : Text) (delta : AppliedPatchDelta P) : TurnDiffTracker P :=
  if !t.valid then t
  else if !delta.exact then t.invalidate
  else (delta.changes.foldl (fun t c => t.applyChange environmentId c) t).refreshUnifiedDiffIn d
    order

/-- Deltas one after the other, each with the hash order of its refresh. -/
def trackDeltasIn (deltas : List (MapOrder P × Text × AppliedPatchDelta P)) : TurnDiffTracker P :=
  deltas.foldl (fun t delta => t.trackDeltaIn d delta.1 delta.2.1 delta.2.2) t

/-- Each refresh in the order of the lists. -/
def trackDelta (environmentId : Text) (delta : AppliedPatchDelta P) : TurnDiffTracker P :=
  t.trackDeltaIn d .listed environmentId delta

/-- Deltas of several environments, one after the other. -/
def trackDeltas (deltas : List (Text × AppliedPatchDelta P)) : TurnDiffTracker P :=
  t.trackDeltasIn d (deltas.map (MapOrder.listed, ·))

end TurnDiffTracker

end Codex.TurnDiff
