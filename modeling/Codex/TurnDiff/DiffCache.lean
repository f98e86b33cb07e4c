import Codex.TurnDiff.NetsOut

/-!
# The cache of rendered diffs

A refresh takes the diff of a pair from the cache where both sides are of the revision that it was
rendered for. Every content that enters a map gets a revision of its own, so a revision stands for
one content; a rename of another path changes the pair and with it the key.

* `foldl_renderPair`: with a sound cache the rendering loop writes what it would write without one;
* `unifiedDiff_eq_scratch`: **the unified diff is never stale**, whatever the hash order of each
  refresh.
-/

namespace Codex.TurnDiff

open Codex.Lib Codex.ApplyPatch

variable {P : Type} [DecidableEq P]

/-! ### Without the cache -/

namespace TurnDiffTracker

/-- The diff of a pair, rendered from the maps. -/
def renderFresh (t : TurnDiffTracker P) (d : Display P) (pair : TrackedPath P × TrackedPath P) :
    Option Text :=
  renderDiff d pair.1 (t.baseline pair.1) pair.2 (t.current pair.2)

/-- The unified diff, rendered from the maps. -/
def scratchDiff (t : TurnDiffTracker P) (d : Display P) (order : MapOrder P) : Option Text :=
  let aggregated :=
    (t.pairsIn d order).foldl (fun text pair => pushDiff text (t.renderFresh d pair)) []
  if aggregated.isEmpty then none else some aggregated

end TurnDiffTracker

/-! ### Sound caches -/

/-- What a key stands for, where revision `v` is content `contents v`. -/
def DiffCacheKey.render (d : Display P) (contents : ℕ → Text) (key : DiffCacheKey P) :
    Option Text :=
  TurnDiffTracker.renderDiff d key.leftPath (key.leftRevision.map contents) key.rightPath
    (key.rightRevision.map contents)

/-- The revisions of a key have been given out. -/
def DiffCacheKey.Before (n : ℕ) (key : DiffCacheKey P) : Prop :=
  (∀ v ∈ key.leftRevision, v < n) ∧ ∀ v ∈ key.rightRevision, v < n

/-- A map of contents: every revision has been given out and stands for its content. -/
def ContentsSound (contents : ℕ → Text) (n : ℕ) (m : HashMap (TrackedPath P) TrackedContent) :
    Prop :=
  ∀ path entry, m.lookup path = some entry →
    entry.revision < n ∧ entry.content = contents entry.revision

/-- A cache: every entry is the diff that its key stands for. -/
def DiffsSound (d : Display P) (contents : ℕ → Text) (n : ℕ)
    (cache : HashMap (DiffCacheKey P) (Option Text)) : Prop :=
  ∀ key rendered, cache.lookup key = some rendered → key.Before n ∧ rendered = key.render d contents

/-- Revisions stand for contents, in both maps and in the cache. -/
structure CacheSound (d : Display P) (t : TurnDiffTracker P) (contents : ℕ → Text) : Prop where
  baseline : ContentsSound contents t.nextRevision t.baselineByPath
  current : ContentsSound contents t.nextRevision t.currentByPath
  cached : DiffsSound d contents t.nextRevision t.renderedDiffs

variable {t : TurnDiffTracker P} {d : Display P} {contents : ℕ → Text} {n : ℕ}
  {m : HashMap (TrackedPath P) TrackedContent} (h : ContentsSound contents n m)
include h

/-- A new revision for a new content leaves the older ones alone. -/
theorem ContentsSound.next (content : Text) :
    ContentsSound (Function.update contents n content) (n + 1) m := by
  intro path entry hlookup
  obtain ⟨hlt, heq⟩ := h path entry hlookup
  exact ⟨Nat.lt_succ_of_lt hlt, by rw [Function.update_of_ne hlt.ne, heq]⟩

lemma ContentsSound.insert (path : TrackedPath P) (content : Text) :
    ContentsSound (Function.update contents n content) (n + 1) (m.insert path ⟨content, n⟩) := by
  intro path' entry hlookup
  by_cases hpath : path' = path
  · subst hpath
    rw [AList.lookup_insert, Option.some.injEq] at hlookup
    subst hlookup
    exact ⟨Nat.lt_succ_self n, by simp⟩
  · rw [AList.lookup_insert_ne hpath] at hlookup
    exact h.next content path' entry hlookup

lemma ContentsSound.erase (path : TrackedPath P) : ContentsSound contents n (m.erase path) := by
  intro path' entry hlookup
  by_cases hpath : path' = path
  · subst hpath
    simp [AList.lookup_erase] at hlookup
  · rw [AList.lookup_erase_ne hpath] at hlookup
    exact h path' entry hlookup

omit h

lemma DiffsSound.next {cache : HashMap (DiffCacheKey P) (Option Text)}
    (h : DiffsSound d contents n cache) (content : Text) :
    DiffsSound d (Function.update contents n content) (n + 1) cache := by
  intro key rendered hlookup
  obtain ⟨⟨hleft, hright⟩, rfl⟩ := h key rendered hlookup
  have hsame : ∀ revision : Option ℕ, (∀ v ∈ revision, v < n) →
      revision.map (Function.update contents n content) = revision.map contents := by
    intro revision hlt
    cases revision with
    | none => rfl
    | some v => simp [Function.update_of_ne (hlt v rfl).ne]
  refine ⟨⟨fun v hv => Nat.lt_succ_of_lt (hleft v hv), fun v hv => Nat.lt_succ_of_lt (hright v hv)⟩,
    ?_⟩
  unfold DiffCacheKey.render
  rw [hsame _ hleft, hsame _ hright]

/-! ### Changes -/

namespace CacheSound

lemma initial (d : Display P) : CacheSound d {} fun _ => [] where
  baseline _ _ h := by cases h
  current _ _ h := by cases h
  cached _ _ h := by cases h

lemma insertBaseline (h : CacheSound d t contents) (path : TrackedPath P) (content : Text) :
    CacheSound d (t.insertBaseline path content)
      (Function.update contents t.nextRevision content) :=
  ⟨h.baseline.insert path content, h.current.next content, h.cached.next content⟩

lemma insertCurrent (h : CacheSound d t contents) (path : TrackedPath P) (content : Text) :
    CacheSound d (t.insertCurrent path content)
      (Function.update contents t.nextRevision content) :=
  ⟨h.baseline.next content, h.current.insert path content, h.cached.next content⟩

lemma eraseCurrent (h : CacheSound d t contents) (path : TrackedPath P) :
    CacheSound d (t.eraseCurrent path) contents :=
  ⟨h.baseline, h.current.erase path, h.cached⟩

lemma eraseOrigin (h : CacheSound d t contents) (path : TrackedPath P) :
    CacheSound d (t.eraseOrigin path) contents :=
  ⟨h.baseline, h.current, h.cached⟩

lemma insertOrigin (h : CacheSound d t contents) (path origin : TrackedPath P) :
    CacheSound d (t.insertOrigin path origin) contents :=
  ⟨h.baseline, h.current, h.cached⟩

lemma noteBaseline (h : CacheSound d t contents) (path : TrackedPath P) (content : Option Text) :
    ∃ contents', CacheSound d (t.noteBaseline path content) contents' := by
  unfold TurnDiffTracker.noteBaseline
  split_ifs
  · exact ⟨contents, h⟩
  · cases content with
    | none => exact ⟨contents, h⟩
    | some content => exact ⟨_, h.insertBaseline path content⟩

lemma applyAdd (h : CacheSound d t contents) (path : TrackedPath P) (content : Text)
    (overwritten : Option Text) :
    ∃ contents', CacheSound d (t.applyAdd path content overwritten) contents' := by
  obtain ⟨contents₁, h₁⟩ := (h.eraseOrigin path).noteBaseline path overwritten
  exact ⟨_, h₁.insertCurrent path content⟩

lemma applyDelete (h : CacheSound d t contents) (path : TrackedPath P) (content : Text) :
    ∃ contents', CacheSound d (t.applyDelete path content) contents' := by
  obtain ⟨contents₁, h₁⟩ := h.noteBaseline path (some content)
  exact ⟨contents₁, (h₁.eraseCurrent path).eraseOrigin path⟩

lemma applyMove (h : CacheSound d t contents) (source dest : TrackedPath P)
    (overwritten : Option Text) (newContent : Text) :
    ∃ contents', CacheSound d (t.applyMove source dest overwritten newContent) contents' := by
  obtain ⟨contents₁, h₁⟩ := h.noteBaseline dest overwritten
  have hgone := (h₁.eraseOrigin source).eraseCurrent source
  have hmoved := (hgone.insertCurrent dest newContent).eraseOrigin dest
  unfold TurnDiffTracker.applyMove
  dsimp only
  split_ifs
  · exact ⟨_, hmoved.insertOrigin dest _⟩
  · exact ⟨_, hmoved⟩

/-- **A change keeps the cache sound.** -/
theorem applyTrackedChange (h : CacheSound d t contents) (c : AppliedPatchChange (TrackedPath P)) :
    ∃ contents', CacheSound d (t.applyTrackedChange c) contents' := by
  obtain ⟨path, change⟩ := c
  cases change with
  | add content overwritten => exact h.applyAdd path content overwritten
  | delete content => exact h.applyDelete path content
  | update movePath oldContent overwritten newContent =>
    obtain ⟨contents₁, h₁⟩ := h.noteBaseline path (some oldContent)
    cases movePath with
    | none => exact ⟨_, h₁.insertCurrent path newContent⟩
    | some dest => exact h₁.applyMove path dest overwritten newContent

lemma applyChanges (h : CacheSound d t contents) (environmentId : Text)
    (cs : List (AppliedPatchChange P)) :
    ∃ contents',
      CacheSound d (cs.foldl (fun t c => t.applyChange environmentId c) t) contents' := by
  induction cs generalizing t contents with
  | nil => exact ⟨contents, h⟩
  | cons c cs ih =>
    obtain ⟨contents₁, h₁⟩ := h.applyTrackedChange (trackedChange environmentId c)
    exact ih h₁

end CacheSound

/-! ### The rendering loop -/

open TurnDiffTracker (Rendering pushDiff)

lemma map_revision {m : HashMap (TrackedPath P) TrackedContent} (h : ContentsSound contents n m)
    (path : TrackedPath P) :
    ((m.lookup path).map (·.revision)).map contents = (m.lookup path).map (·.content) := by
  cases hlookup : m.lookup path with
  | none => rfl
  | some entry => simp [(h path entry hlookup).2]

/-- **One pair**: taken from the cache or not, the diff is the one that the maps give. -/
theorem renderPair_spec (h : CacheSound d t contents) {r : Rendering P}
    (hprevious : DiffsSound d contents t.nextRevision r.previousDiffs)
    (hrendered : DiffsSound d contents t.nextRevision r.renderedDiffs)
    (pair : TrackedPath P × TrackedPath P) :
    DiffsSound d contents t.nextRevision (t.renderPair d r pair).previousDiffs ∧
      DiffsSound d contents t.nextRevision (t.renderPair d r pair).renderedDiffs ∧
      (t.renderPair d r pair).aggregated = pushDiff r.aggregated (t.renderFresh d pair) := by
  set key : DiffCacheKey P :=
    { leftPath := pair.1
      leftRevision := (t.baselineByPath.lookup pair.1).map (·.revision)
      rightPath := pair.2
      rightRevision := (t.currentByPath.lookup pair.2).map (·.revision) } with hkey
  have hfresh : key.render d contents = t.renderFresh d pair := by
    unfold DiffCacheKey.render
    rw [map_revision h.baseline, map_revision h.current]
    rfl
  have hbefore : key.Before t.nextRevision := by
    constructor
    · intro v hv
      obtain ⟨entry, hlookup, rfl⟩ := Option.map_eq_some_iff.mp hv
      exact (h.baseline _ entry hlookup).1
    · intro v hv
      obtain ⟨entry, hlookup, rfl⟩ := Option.map_eq_some_iff.mp hv
      exact (h.current _ entry hlookup).1
  have hvalue :
      (r.previousDiffs.lookup key).getD (t.renderFresh d pair) = t.renderFresh d pair := by
    cases hlookup : r.previousDiffs.lookup key with
    | none => rfl
    | some rendered => exact (hprevious key rendered hlookup).2.trans hfresh
  refine ⟨?_, ?_, congrArg (pushDiff r.aggregated) hvalue⟩
  · intro key' rendered hlookup
    have hlookup : (r.previousDiffs.erase key).lookup key' = some rendered := hlookup
    by_cases hsame : key' = key
    · rw [hsame, AList.lookup_erase] at hlookup
      cases hlookup
    · rw [AList.lookup_erase_ne hsame] at hlookup
      exact hprevious key' rendered hlookup
  · intro key' rendered hlookup
    have hlookup : (r.renderedDiffs.insert key
        ((r.previousDiffs.lookup key).getD (t.renderFresh d pair))).lookup key' = some rendered :=
      hlookup
    by_cases hsame : key' = key
    · rw [hsame, AList.lookup_insert, hvalue, Option.some.injEq] at hlookup
      rw [hsame, ← hlookup]
      exact ⟨hbefore, hfresh.symm⟩
    · rw [AList.lookup_insert_ne hsame] at hlookup
      exact hrendered key' rendered hlookup

/-- **The loop** writes what it would write without a cache, and leaves a sound cache. -/
theorem foldl_renderPair (h : CacheSound d t contents) {r : Rendering P}
    (hprevious : DiffsSound d contents t.nextRevision r.previousDiffs)
    (hrendered : DiffsSound d contents t.nextRevision r.renderedDiffs)
    (pairs : List (TrackedPath P × TrackedPath P)) :
    DiffsSound d contents t.nextRevision (pairs.foldl (t.renderPair d) r).renderedDiffs ∧
      (pairs.foldl (t.renderPair d) r).aggregated =
        pairs.foldl (fun text pair => pushDiff text (t.renderFresh d pair)) r.aggregated := by
  induction pairs generalizing r with
  | nil => exact ⟨hrendered, rfl⟩
  | cons pair pairs ih =>
    obtain ⟨hprevious', hrendered', haggregated⟩ := renderPair_spec h hprevious hrendered pair
    rw [List.foldl_cons, List.foldl_cons, ← haggregated]
    exact ih hprevious' hrendered'

lemma diffsSound_empty : DiffsSound d contents n (∅ : HashMap (DiffCacheKey P) (Option Text)) := by
  intro key rendered hlookup
  cases hlookup

/-- A refresh keeps the cache sound and renders what the maps give. -/
theorem CacheSound.refreshUnifiedDiffIn (h : CacheSound d t contents) (order : MapOrder P) :
    CacheSound d (t.refreshUnifiedDiffIn d order) contents ∧
      (t.refreshUnifiedDiffIn d order).unifiedDiff =
        (t.refreshUnifiedDiffIn d order).scratchDiff d order := by
  obtain ⟨hrendered, haggregated⟩ := foldl_renderPair h
    (r := { previousDiffs := t.renderedDiffs }) h.cached diffsSound_empty (t.pairsIn d order)
  refine ⟨⟨h.baseline, h.current, hrendered⟩, ?_⟩
  unfold TurnDiffTracker.refreshUnifiedDiffIn
  simp only [haggregated]
  rfl

/-! ### Whole turns -/

/-- What a reader of the diff may rely on after a run: the diff of the maps while the tracking goes
on, and none after an inexact delta. -/
def ShowsMaps (d : Display P) (t : TurnDiffTracker P) (order : MapOrder P) : Prop :=
  t.unifiedDiff = if t.valid then t.scratchDiff d order else none

/-- The hash order of the last refresh. -/
def lastOrder (deltas : List (MapOrder P × Text × AppliedPatchDelta P)) : MapOrder P :=
  (deltas.getLast?.map (·.1)).getD .listed

/-- **One delta**, in a state whose cache is sound and which shows nothing once it is invalid. -/
theorem trackDeltaIn_shows (h : CacheSound d t contents)
    (hinvalid : t.valid = false → t.unifiedDiff = none) (order : MapOrder P) (environmentId : Text)
    (delta : AppliedPatchDelta P) :
    (∃ contents', CacheSound d (t.trackDeltaIn d order environmentId delta) contents') ∧
      ShowsMaps d (t.trackDeltaIn d order environmentId delta) order := by
  unfold TurnDiffTracker.trackDeltaIn
  by_cases hvalid : t.valid = true
  · by_cases hexact : delta.exact = true
    · obtain ⟨contents₁, h₁⟩ := h.applyChanges environmentId delta.changes
      obtain ⟨hsound, hshown⟩ := h₁.refreshUnifiedDiffIn order
      simp only [hvalid, hexact, Bool.not_true, Bool.false_eq_true, if_false]
      refine ⟨⟨contents₁, hsound⟩, ?_⟩
      have hkept := valid_foldl (delta.changes.map (trackedChange environmentId)) t
      rw [List.foldl_map] at hkept
      unfold ShowsMaps
      rw [hshown, if_pos]
      exact hkept.trans hvalid
    · simp only [hvalid, hexact, Bool.not_true, Bool.not_false, Bool.false_eq_true, if_false,
        if_true]
      exact ⟨⟨contents, h.baseline, h.current, diffsSound_empty⟩, rfl⟩
  · have hgone : t.valid = false := by simpa using hvalid
    simp only [hgone, Bool.not_false, if_true]
    refine ⟨⟨contents, h⟩, ?_⟩
    unfold ShowsMaps
    rw [hgone, hinvalid hgone]
    rfl

lemma ShowsMaps.of_invalid {order : MapOrder P} (h : ShowsMaps d t order)
    (hinvalid : t.valid = false) : t.unifiedDiff = none := by
  unfold ShowsMaps at h
  rw [h, hinvalid]
  rfl

/-- A run keeps the cache sound and shows the maps. -/
theorem trackDeltasIn_shows (d : Display P)
    (deltas : List (MapOrder P × Text × AppliedPatchDelta P)) :
    (∃ contents, CacheSound d (TurnDiffTracker.trackDeltasIn {} d deltas) contents) ∧
      ShowsMaps d (TurnDiffTracker.trackDeltasIn {} d deltas) (lastOrder deltas) := by
  induction deltas using List.reverseRecOn with
  | nil => exact ⟨⟨_, CacheSound.initial d⟩, rfl⟩
  | append_singleton deltas delta ih =>
    obtain ⟨⟨contents, hsound⟩, hshows⟩ := ih
    have hlast : lastOrder (deltas ++ [delta]) = delta.1 := by simp [lastOrder]
    rw [hlast, TurnDiffTracker.trackDeltasIn, List.foldl_append]
    exact trackDeltaIn_shows hsound hshows.of_invalid delta.1 delta.2.1 delta.2.2

/-- **The unified diff is never stale.** After any sequence of deltas, each refresh with a hash
order of its own, a read gives the diff that is rendered from the maps without the cache; after an
inexact delta the tracking has ended and there is none. -/
theorem unifiedDiff_eq_scratch (d : Display P)
    (deltas : List (MapOrder P × Text × AppliedPatchDelta P)) :
    (TurnDiffTracker.trackDeltasIn {} d deltas).unifiedDiff =
      if (TurnDiffTracker.trackDeltasIn {} d deltas).valid then
        (TurnDiffTracker.trackDeltasIn {} d deltas).scratchDiff d (lastOrder deltas)
      else none :=
  (trackDeltasIn_shows d deltas).2

end Codex.TurnDiff
