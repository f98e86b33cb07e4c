import Codex.TurnDiff.Tracker

/-!
# The tracker nets out

The changes of a turn lead from the contents `F₀` before it to the contents now. `Nets` says what
the maps of the tracker have to do with the two: a tracked path has its content before and now, an
untracked path is unchanged, and the origin of a path is the one the moves of the turn give it
(`originAfter`).

* `refreshPairs_account`: the pairs handed to the renderer then account for every changed path
  exactly once;
* `trackDeltas_netsOut` puts the two together, for every hash order.
-/

namespace Codex.TurnDiff

open Codex.Lib Codex.ApplyPatch

variable {P : Type} [DecidableEq P]

namespace TurnDiffTracker

variable (t : TurnDiffTracker P) (p : TrackedPath P)

/-- The content a path had before the turn, as far as the tracker knows. -/
def baseline : Option Text :=
  (t.baselineByPath.lookup p).map (·.content)

/-- The content a path has now, as far as the tracker knows. -/
def current : Option Text :=
  (t.currentByPath.lookup p).map (·.content)

/-- Where the file at a path came from: itself unless it was moved. -/
def origin : TrackedPath P :=
  (t.originByCurrentPath.lookup p).getD p

/-! ### What the steps do to the maps -/

section Steps

variable (t : TurnDiffTracker P) (path : TrackedPath P) (content : Text)

lemma isTracked_eq_true_iff : t.isTracked path = true ↔
    t.current path ≠ none ∨ t.baseline path ≠ none := by
  simp [isTracked, current, baseline, Option.isSome_iff_ne_none]

lemma isTracked_eq_false_iff : t.isTracked path = false ↔
    t.current path = none ∧ t.baseline path = none := by
  simp [isTracked, current, baseline]

@[simp] lemma baseline_insertBaseline : (t.insertBaseline path content).baseline =
    Function.update t.baseline path (some content) := by
  funext p
  by_cases h : p = path
  · subst h
    simp [baseline, insertBaseline]
  · simp [baseline, insertBaseline, AList.lookup_insert_ne h, Function.update_of_ne h]

@[simp] lemma current_insertCurrent : (t.insertCurrent path content).current =
    Function.update t.current path (some content) := by
  funext p
  by_cases h : p = path
  · subst h
    simp [current, insertCurrent]
  · simp [current, insertCurrent, AList.lookup_insert_ne h, Function.update_of_ne h]

@[simp] lemma baseline_insertCurrent : (t.insertCurrent path content).baseline = t.baseline := rfl

@[simp] lemma origin_insertCurrent : (t.insertCurrent path content).origin = t.origin := rfl

@[simp] lemma current_eraseCurrent : (t.eraseCurrent path).current =
    Function.update t.current path none := by
  funext p
  by_cases h : p = path
  · subst h
    simp [current, eraseCurrent]
  · simp [current, eraseCurrent, AList.lookup_erase_ne h, Function.update_of_ne h]

@[simp] lemma baseline_eraseCurrent : (t.eraseCurrent path).baseline = t.baseline := rfl

@[simp] lemma origin_eraseCurrent : (t.eraseCurrent path).origin = t.origin := rfl

@[simp] lemma origin_eraseOrigin : (t.eraseOrigin path).origin =
    Function.update t.origin path path := by
  funext p
  by_cases h : p = path
  · subst h
    simp [origin, eraseOrigin]
  · simp [origin, eraseOrigin, AList.lookup_erase_ne h, Function.update_of_ne h]

@[simp] lemma baseline_eraseOrigin : (t.eraseOrigin path).baseline = t.baseline := rfl

@[simp] lemma current_eraseOrigin : (t.eraseOrigin path).current = t.current := rfl

variable (origin : TrackedPath P)

@[simp] lemma origin_insertOrigin :
    (t.insertOrigin path origin).origin = Function.update t.origin path origin := by
  funext p
  by_cases h : p = path
  · subst h
    simp [TurnDiffTracker.origin, insertOrigin]
  · simp [TurnDiffTracker.origin, insertOrigin, AList.lookup_insert_ne h, Function.update_of_ne h]

@[simp] lemma baseline_insertOrigin : (t.insertOrigin path origin).baseline = t.baseline := rfl

@[simp] lemma current_insertOrigin : (t.insertOrigin path origin).current = t.current := rfl

@[simp] lemma current_noteBaseline (content : Option Text) :
    (t.noteBaseline path content).current = t.current := by
  unfold noteBaseline
  split_ifs
  · rfl
  · cases content <;> rfl

@[simp] lemma origin_noteBaseline (content : Option Text) :
    (t.noteBaseline path content).origin = t.origin := by
  unfold noteBaseline
  split_ifs
  · rfl
  · cases content <;> rfl

/-- Noting the baseline of a path: the old content for a path that was not tracked. -/
theorem baseline_noteBaseline (content : Option Text) :
    (t.noteBaseline path content).baseline =
      if t.isTracked path then t.baseline else Function.update t.baseline path content := by
  unfold noteBaseline
  split_ifs with h
  · rfl
  · cases content with
    | some content => simp
    | none =>
      have hnone := (t.isTracked_eq_false_iff path).mp (by simpa using h)
      exact (Function.update_eq_self_iff.mpr hnone.2.symm).symm

end Steps

end TurnDiffTracker

/-! ### Origins -/

/-- The origins after a change: a move takes the origin along, an added or deleted file starts
anew. -/
def originStep (origin : TrackedPath P → TrackedPath P) (c : AppliedPatchChange (TrackedPath P)) :
    TrackedPath P → TrackedPath P :=
  match c.change with
  | .add _ _ | .delete _ => Function.update origin c.path c.path
  | .update none _ _ _ => origin
  | .update (some dest) _ _ _ =>
    Function.update (Function.update origin c.path c.path) dest (origin c.path)

/-- Where each file came from, by the changes of a turn alone. -/
def originAfter (cs : List (AppliedPatchChange (TrackedPath P))) : TrackedPath P → TrackedPath P :=
  cs.foldl originStep id

/-- A move leads to another path. -/
def MovesApart (c : AppliedPatchChange (TrackedPath P)) : Prop :=
  match c.change with
  | .update (some dest) _ _ _ => dest ≠ c.path
  | _ => True

/-! ### The invariant -/

/-- The maps of the tracker against the contents before the turn and now. -/
structure Nets (t : TurnDiffTracker P) (F₀ F : Contents (TrackedPath P))
    (origin : TrackedPath P → TrackedPath P) : Prop where
  tracked : ∀ p, t.isTracked p = true → t.baseline p = F₀ p ∧ t.current p = F p
  untracked : ∀ p, t.isTracked p = false → F₀ p = F p
  origins : t.origin = origin

namespace Nets

variable {t : TurnDiffTracker P} {F₀ F : Contents (TrackedPath P)}
  {origin : TrackedPath P → TrackedPath P} {path dest : TrackedPath P}

/-- The invariant at one path, in terms of the contents the maps hold there. -/
def At (b c f₀ f : Option Text) : Prop :=
  (c ≠ none ∨ b ≠ none → b = f₀ ∧ c = f) ∧ (c = none ∧ b = none → f₀ = f)

lemma iff_at : Nets t F₀ F origin ↔
    (∀ p, At (t.baseline p) (t.current p) (F₀ p) (F p)) ∧ t.origin = origin := by
  constructor
  · intro h
    refine ⟨fun p => ⟨fun htracked => ?_, fun hnone => ?_⟩, h.origins⟩
    · exact h.tracked p ((t.isTracked_eq_true_iff p).mpr htracked)
    · exact h.untracked p ((t.isTracked_eq_false_iff p).mpr hnone)
  · rintro ⟨h, horigin⟩
    refine ⟨fun p htracked => ?_, fun p huntracked => ?_, horigin⟩
    · exact (h p).1 ((t.isTracked_eq_true_iff p).mp htracked)
    · exact (h p).2 ((t.isTracked_eq_false_iff p).mp huntracked)

/-- The baseline noted for a path is what it held before the turn, whether it was tracked or not. -/
theorem baseline_noteBaseline (h : ∀ p, At (t.baseline p) (t.current p) (F₀ p) (F p))
    {content : Option Text} (hcontent : F path = content) :
    (t.noteBaseline path content).baseline path = F₀ path := by
  rw [t.baseline_noteBaseline]
  split_ifs with htracked
  · exact ((h path).1 ((t.isTracked_eq_true_iff path).mp htracked)).1
  · have hnone := (t.isTracked_eq_false_iff path).mp (by simpa using htracked)
    rw [Function.update_self, ← hcontent, (h path).2 hnone]

lemma baseline_noteBaseline_of_ne (t : TurnDiffTracker P) {p : TrackedPath P} (hp : p ≠ path)
    (content : Option Text) : (t.noteBaseline path content).baseline p = t.baseline p := by
  rw [t.baseline_noteBaseline]
  split_ifs
  · rfl
  · rw [Function.update_of_ne hp]

/-- Where the baseline is noted, any content is right. -/
lemma At.noted {f₀ : Option Text} (c : Option Text) : At f₀ c f₀ c :=
  ⟨fun _ => ⟨rfl, rfl⟩, fun h => h.2.trans h.1.symm⟩

/-- A change of one path, whose baseline is noted first. -/
theorem at_noteBaseline (h : ∀ p, At (t.baseline p) (t.current p) (F₀ p) (F p))
    {content : Option Text} (hcontent : F path = content) (new : Option Text) (p : TrackedPath P) :
    At ((t.noteBaseline path content).baseline p) (Function.update t.current path new p) (F₀ p)
      (Function.update F path new p) := by
  by_cases hp : p = path
  · subst hp
    rw [baseline_noteBaseline h hcontent, Function.update_self, Function.update_self]
    exact .noted new
  · rw [baseline_noteBaseline_of_ne _ hp, Function.update_of_ne hp, Function.update_of_ne hp]
    exact h p

variable (h : Nets t F₀ F origin)
include h

lemma applyAdd {content : Text} {overwritten : Option Text} (hold : F path = overwritten) :
    Nets (t.applyAdd path content overwritten) F₀ (Function.update F path (some content))
      (Function.update origin path path) := by
  obtain ⟨hat, horigin⟩ := iff_at.mp h
  have hat' : ∀ p, At ((t.eraseOrigin path).baseline p) ((t.eraseOrigin path).current p) (F₀ p)
      (F p) := hat
  refine iff_at.mpr ⟨fun p => ?_, by simp [TurnDiffTracker.applyAdd, horigin]⟩
  simp only [TurnDiffTracker.applyAdd, TurnDiffTracker.baseline_insertCurrent,
    TurnDiffTracker.current_insertCurrent, TurnDiffTracker.current_noteBaseline]
  exact at_noteBaseline hat' hold _ p

lemma applyDelete {content : Text} (hold : F path = some content) :
    Nets (t.applyDelete path content) F₀ (Function.update F path none)
      (Function.update origin path path) := by
  obtain ⟨hat, horigin⟩ := iff_at.mp h
  refine iff_at.mpr ⟨fun p => ?_, by simp [TurnDiffTracker.applyDelete, horigin]⟩
  simp only [TurnDiffTracker.applyDelete, TurnDiffTracker.baseline_eraseOrigin,
    TurnDiffTracker.current_eraseOrigin, TurnDiffTracker.baseline_eraseCurrent,
    TurnDiffTracker.current_eraseCurrent, TurnDiffTracker.current_noteBaseline]
  exact at_noteBaseline hat hold _ p

variable {oldContent newContent : Text}

lemma applyUpdate (overwritten : Option Text) (hold : F path = some oldContent) :
    Nets (t.applyUpdate path none oldContent overwritten newContent) F₀
      (Function.update F path (some newContent)) origin := by
  obtain ⟨hat, horigin⟩ := iff_at.mp h
  refine iff_at.mpr ⟨fun p => ?_, by simp [TurnDiffTracker.applyUpdate, horigin]⟩
  simp only [TurnDiffTracker.applyUpdate, TurnDiffTracker.baseline_insertCurrent,
    TurnDiffTracker.current_insertCurrent, TurnDiffTracker.current_noteBaseline]
  exact at_noteBaseline hat hold _ p

lemma applyUpdate_move (hne : dest ≠ path)
    {overwritten : Option Text} (hold : F path = some oldContent) (hdest : F dest = overwritten) :
    Nets (t.applyUpdate path (some dest) oldContent overwritten newContent) F₀
      (Function.update (Function.update F path none) dest (some newContent))
      (Function.update (Function.update origin path path) dest (origin path)) := by
  obtain ⟨hat, horigin⟩ := iff_at.mp h
  set t₁ := t.noteBaseline path (some oldContent) with ht₁
  set t₂ := t₁.noteBaseline dest overwritten with ht₂
  -- the baselines of both paths are noted, the source first
  have hbaseline₁ : t₁.baseline path = F₀ path := baseline_noteBaseline hat hold
  have hbaseline₂ : t₂.baseline dest = F₀ dest := by
    rw [t₁.baseline_noteBaseline]
    have htracked : t₁.isTracked dest = t.isTracked dest := by
      rw [Bool.eq_iff_iff, t₁.isTracked_eq_true_iff, t.isTracked_eq_true_iff,
        TurnDiffTracker.current_noteBaseline, baseline_noteBaseline_of_ne t hne]
    have hnote := baseline_noteBaseline hat hdest
    rw [t.baseline_noteBaseline] at hnote
    rw [htracked]
    split_ifs at hnote ⊢
    · rwa [baseline_noteBaseline_of_ne t hne]
    · simpa using hnote
  have hmaps : (t.applyUpdate path (some dest) oldContent overwritten newContent).baseline =
      t₂.baseline ∧
      (t.applyUpdate path (some dest) oldContent overwritten newContent).current =
        Function.update (Function.update t.current path none) dest (some newContent) ∧
      (t.applyUpdate path (some dest) oldContent overwritten newContent).origin =
        Function.update (Function.update origin path path) dest (origin path) := by
    have hsource : (t₂.originByCurrentPath.lookup path).getD path = origin path := by
      have : t₂.origin = origin := by simp [ht₂, ht₁, horigin]
      exact congrFun this path
    simp only [TurnDiffTracker.applyUpdate, TurnDiffTracker.applyMove, ← ht₁, ← ht₂, hsource]
    split_ifs with hmoved
    · simp [ht₂, ht₁, horigin]
    · obtain rfl : dest = origin path := by simpa using hmoved
      simp [ht₂, ht₁, horigin]
  refine iff_at.mpr ⟨fun p => ?_, hmaps.2.2⟩
  rw [hmaps.1, hmaps.2.1]
  by_cases hpd : p = dest
  · subst hpd
    rw [hbaseline₂, Function.update_self, Function.update_self]
    exact .noted _
  · rw [Function.update_of_ne hpd, Function.update_of_ne hpd, baseline_noteBaseline_of_ne t₁ hpd]
    by_cases hp : p = path
    · subst hp
      rw [hbaseline₁, Function.update_self, Function.update_self]
      exact .noted _
    · rw [baseline_noteBaseline_of_ne t hp, Function.update_of_ne hp, Function.update_of_ne hp]
      exact hat p

/-- **One change** that is consistent with the contents. -/
theorem applyTrackedChange {c : AppliedPatchChange (TrackedPath P)}
    (hrecorded : c.RecordedIn F) (hmove : MovesApart c) :
    Nets (t.applyTrackedChange c) F₀ (c.replay F) (originStep origin c) := by
  obtain ⟨path, change⟩ := c
  cases change with
  | add content overwritten => exact h.applyAdd hrecorded
  | delete content => exact h.applyDelete hrecorded
  | update movePath old overwritten new =>
    cases movePath with
    | none => exact h.applyUpdate overwritten hrecorded
    | some dest => exact h.applyUpdate_move hmove hrecorded.1 hrecorded.2

/-- **The changes of a turn.** -/
theorem applyTrackedChanges
    {cs : List (AppliedPatchChange (TrackedPath P))} {F' : Contents (TrackedPath P)}
    (hreplay : Replays cs F F') (hmove : ∀ c ∈ cs, MovesApart c) :
    Nets (cs.foldl (fun t c => t.applyTrackedChange c) t) F₀ F' (cs.foldl originStep origin) := by
  induction cs generalizing t F origin with
  | nil =>
    obtain rfl : F = F' := hreplay
    exact h
  | cons c cs ih =>
    exact ih (h.applyTrackedChange hreplay.1 (hmove c List.mem_cons_self)) hreplay.2
      fun c' hc' => hmove c' (List.mem_cons_of_mem _ hc')

end Nets

/-! ### The pairs of a refresh -/

lemma mem_dedupAdjacent {K : Type} [DecidableEq K] {l : List K} {k : K} :
    k ∈ dedupAdjacent l ↔ k ∈ l := by
  fun_induction dedupAdjacent l with
  | case1 => rfl
  | case2 a => rfl
  | case3 a l ih =>
    rw [ih, List.mem_cons, List.mem_cons, List.mem_cons]
    tauto
  | case4 a b l hne ih => rw [List.mem_cons, ih, List.mem_cons, List.mem_cons, List.mem_cons]

namespace TurnDiffTracker

variable {t : TurnDiffTracker P} {renames : HashMap (TrackedPath P) (TrackedPath P)}
  {destinations handled paths : List (TrackedPath P)}

/-- A rename pair: the destination has the origin, the file is gone from there, and it is new at
the destination. -/
structure Renamed (t : TurnDiffTracker P) (origin dest : TrackedPath P) : Prop where
  ne : dest ≠ origin
  origin_gone : t.current origin = none
  dest_exists : t.current dest ≠ none
  origin_existed : t.baseline origin ≠ none
  dest_new : t.baseline dest = none

variable {origin dest : TrackedPath P}

lemma addRenamePair_lookup {pairs : HashMap (TrackedPath P) (TrackedPath P)}
    {entry : Σ _ : TrackedPath P, TrackedPath P}
    (h : (t.addRenamePair pairs entry).lookup origin = some dest) :
    pairs.lookup origin = some dest ∨ (entry = ⟨dest, origin⟩ ∧ t.Renamed origin dest) := by
  unfold addRenamePair at h
  split_ifs at h with hskip
  · exact .inl h
  · by_cases ho : origin = entry.2
    · subst ho
      rw [AList.lookup_insert, Option.some.injEq] at h
      subst h
      simp only [not_or, Bool.not_eq_true, Option.isSome_eq_false_iff,
        Option.isNone_iff_eq_none] at hskip
      obtain ⟨hne, hgone, hexists, hexisted, hnew⟩ := hskip
      refine .inr ⟨rfl, hne, ?_, ?_, ?_, ?_⟩
      · simp [current, hgone]
      · simpa [current] using hexists
      · simpa [baseline] using hexisted
      · simp [baseline, hnew]
    · rw [AList.lookup_insert_ne ho] at h
      exact .inl h

lemma renamePairs_lookup {origins : List (Σ _ : TrackedPath P, TrackedPath P)}
    (h : (t.renamePairs origins).lookup origin = some dest) :
    ⟨dest, origin⟩ ∈ origins ∧ t.Renamed origin dest := by
  have hfold : ∀ pairs : HashMap (TrackedPath P) (TrackedPath P),
      (origins.foldl t.addRenamePair pairs).lookup origin = some dest →
      pairs.lookup origin = some dest ∨ (⟨dest, origin⟩ ∈ origins ∧ t.Renamed origin dest) := by
    clear h
    induction origins with
    | nil => exact fun pairs hpairs => .inl hpairs
    | cons entry origins ih =>
      intro pairs hpairs
      rcases ih _ hpairs with hpairs | ⟨hmem, hrenamed⟩
      · rcases addRenamePair_lookup hpairs with hpairs | ⟨rfl, hrenamed⟩
        · exact .inl hpairs
        · exact .inr ⟨List.mem_cons_self, hrenamed⟩
      · exact .inr ⟨List.mem_cons_of_mem _ hmem, hrenamed⟩
  rcases hfold ∅ h with hempty | hpair
  · simp at hempty
  · exact hpair

/-- The right side of the pair of a path. -/
def rightOf (renames : HashMap (TrackedPath P) (TrackedPath P)) (path : TrackedPath P) :
    TrackedPath P :=
  (renames.lookup path).getD path

variable {path : TrackedPath P} {pair : TrackedPath P × TrackedPath P}

lemma mem_pairLoop (h : pair ∈ pairLoop renames destinations handled paths) :
    pair.1 ∈ paths ∧ pair.1 ∉ handled ∧ pair.1 ∉ destinations ∧
      pair.2 = rightOf renames pair.1 := by
  induction paths generalizing handled with
  | nil => simp [pairLoop] at h
  | cons path paths ih =>
    have hstep : ∀ {handled' : List (TrackedPath P)}, (∀ p ∈ handled, p ∈ handled') →
        pair ∈ pairLoop renames destinations handled' paths →
        pair.1 ∈ path :: paths ∧ pair.1 ∉ handled ∧ pair.1 ∉ destinations ∧
          pair.2 = rightOf renames pair.1 := by
      intro handled' hsub hmem
      obtain ⟨h₁, h₂, h₃, h₄⟩ := ih hmem
      exact ⟨List.mem_cons_of_mem _ h₁, fun hp => h₂ (hsub _ hp), h₃, h₄⟩
    rw [pairLoop] at h
    split_ifs at h with hhandled hdest
    · exact hstep (fun p hp => hp) h
    · exact hstep (fun p hp => List.mem_cons_of_mem _ hp) h
    · rcases hlookup : renames.lookup path with _ | dest
      · rw [hlookup] at h
        rcases List.mem_cons.mp h with rfl | h
        · exact ⟨List.mem_cons_self, hhandled, hdest, by simp [rightOf, hlookup]⟩
        · exact hstep (fun p hp => List.mem_cons_of_mem _ hp) h
      · rw [hlookup] at h
        rcases List.mem_cons.mp h with rfl | h
        · exact ⟨List.mem_cons_self, hhandled, hdest, by simp [rightOf, hlookup]⟩
        · exact hstep (fun p hp => List.mem_cons_of_mem _ (List.mem_cons_of_mem _ hp)) h

/-- A path that is neither handled nor a destination gets its pair; what the loop marks as handled
on the way are paths it has seen and destinations. -/
theorem pairLoop_of_mem
    (hrenames : ∀ origin dest, renames.lookup origin = some dest → dest ∈ destinations)
    (hpath : path ∈ paths) (hhandled : path ∉ handled) (hdest : path ∉ destinations) :
    (path, rightOf renames path) ∈ pairLoop renames destinations handled paths := by
  induction paths generalizing handled with
  | nil => simp at hpath
  | cons q paths ih =>
    rw [pairLoop]
    by_cases hq : path = q
    · subst hq
      rw [if_neg hhandled, if_neg hdest]
      rcases hlookup : renames.lookup path with _ | dest <;> simp [rightOf, hlookup]
    · have hpath' : path ∈ paths := (List.mem_cons.mp hpath).resolve_left hq
      split_ifs
      · exact ih hpath' hhandled
      · exact ih hpath' (by simp [hq, hhandled])
      · rcases hlookup : renames.lookup q with _ | dest
        · exact List.mem_cons_of_mem _ (ih hpath' (by simp [hq, hhandled]))
        · have hne : path ≠ dest := by
            rintro rfl
            exact hdest (hrenames q path hlookup)
          exact List.mem_cons_of_mem _ (ih hpath' (by simp [hq, hhandled, hne]))

lemma nodup_pairLoop : ((pairLoop renames destinations handled paths).map (·.1)).Nodup := by
  induction paths generalizing handled with
  | nil => simp [pairLoop]
  | cons path paths ih =>
    have hcons : ∀ (handled' : List (TrackedPath P)) (right : TrackedPath P), path ∈ handled' →
        (((path, right) :: pairLoop renames destinations handled' paths).map (·.1)).Nodup := by
      intro handled' right hmem
      rw [List.map_cons, List.nodup_cons]
      refine ⟨fun hin => ?_, ih⟩
      obtain ⟨pair, hpair, heq⟩ := List.mem_map.mp hin
      exact (mem_pairLoop hpair).2.1 (heq ▸ hmem)
    rw [pairLoop]
    split_ifs
    · exact ih
    · exact ih
    · rcases renames.lookup path with _ | dest
      · exact hcons _ _ List.mem_cons_self
      · exact hcons _ _ (List.mem_cons_of_mem _ List.mem_cons_self)

/-- A destination stands on the right of the pair of its origin only. -/
theorem pairLoop_of_destination {originOf : TrackedPath P → TrackedPath P}
    (horigin : ∀ origin dest, renames.lookup origin = some dest → originOf dest = origin)
    (hpath : path ∈ destinations) (hpair : pair ∈ pairLoop renames destinations handled paths)
    (hacc : pair.1 = path ∨ pair.2 = path) : pair.1 = originOf path := by
  obtain ⟨-, -, hnd, hright⟩ := mem_pairLoop hpair
  rcases hacc with hacc | hacc
  · exact absurd (hacc ▸ hpath) hnd
  · unfold rightOf at hright
    rcases hlookup : renames.lookup pair.1 with _ | dest
    · rw [hlookup, Option.getD_none] at hright
      exact absurd (hright ▸ hacc ▸ hpath) hnd
    · rw [hlookup, Option.getD_some, hacc] at hright
      subst hright
      exact (horigin _ _ hlookup).symm

/-- Any other path stands on the left of its own pair only. -/
theorem pairLoop_of_not_destination
    (hrenames : ∀ origin dest, renames.lookup origin = some dest → dest ∈ destinations)
    (hpath : path ∉ destinations) (hpair : pair ∈ pairLoop renames destinations handled paths)
    (hacc : pair.1 = path ∨ pair.2 = path) : pair.1 = path := by
  rcases hacc with hacc | hacc
  · exact hacc
  · obtain ⟨-, -, -, hright⟩ := mem_pairLoop hpair
    unfold rightOf at hright
    rcases hlookup : renames.lookup pair.1 with _ | dest
    · rw [hlookup, Option.getD_none] at hright
      exact hright ▸ hacc
    · rw [hlookup, Option.getD_some, hacc] at hright
      exact absurd (hrenames _ _ (hright ▸ hlookup)) hpath

/-- The left sides are distinct, so a path whose pairs all have one left side is in one pair. -/
theorem countP_pairLoop (left : TrackedPath P)
    (hleft : ∃ pair ∈ pairLoop renames destinations handled paths, pair.1 = path ∨ pair.2 = path)
    (hunique : ∀ pair ∈ pairLoop renames destinations handled paths,
      (pair.1 = path ∨ pair.2 = path) → pair.1 = left) :
    (pairLoop renames destinations handled paths).countP
      (fun pair => pair.1 = path ∨ pair.2 = path) = 1 := by
  refine le_antisymm ?_ ?_
  · calc (pairLoop renames destinations handled paths).countP
          (fun pair => pair.1 = path ∨ pair.2 = path)
        ≤ (pairLoop renames destinations handled paths).countP (fun pair => pair.1 = left) :=
          List.countP_mono_left fun pair hpair hacc => by
            simpa using hunique pair hpair (by simpa using hacc)
      _ = ((pairLoop renames destinations handled paths).map (·.1)).countP (· = left) := by
          rw [List.countP_map]
          rfl
      _ ≤ 1 := List.nodup_iff_count_le_one.mp nodup_pairLoop left
  · obtain ⟨pair, hpair, hacc⟩ := hleft
    exact List.countP_pos_iff.mpr ⟨pair, hpair, by simpa using hacc⟩

section Refresh

variable {d : Display P} {keys : List (TrackedPath P)}
  {origins : List (Σ _ : TrackedPath P, TrackedPath P)}

lemma renamePairs_origin (horigins : origins.Perm t.originByCurrentPath.entries)
    {left right : TrackedPath P} (h : (t.renamePairs origins).lookup left = some right) :
    t.origin right = left ∧ t.Renamed left right := by
  obtain ⟨hmem, hrenamed⟩ := renamePairs_lookup h
  have hentry : t.originByCurrentPath.lookup right = some left :=
    AList.mem_lookup_iff.mpr (horigins.mem_iff.mp hmem)
  exact ⟨by simp [origin, hentry], hrenamed⟩

lemma refreshPairs_rename (horigins : origins.Perm t.originByCurrentPath.entries)
    {left right : TrackedPath P} (hpair : (left, right) ∈ t.refreshPairs d keys origins)
    (hne : left ≠ right) : t.origin right = left ∧ t.Renamed left right := by
  obtain ⟨-, -, -, hright⟩ := mem_pairLoop hpair
  dsimp only at hright
  unfold rightOf at hright
  rcases hlookup : (t.renamePairs origins).lookup left with _ | dest
  · rw [hlookup] at hright
    exact absurd hright.symm hne
  · rw [hlookup, Option.getD_some] at hright
    subst hright
    exact renamePairs_origin horigins hlookup

variable (hkeys : keys.Perm (t.baselineByPath.keys ++ t.currentByPath.keys))
include hkeys

lemma mem_refreshPaths {p : TrackedPath P} (hp : t.isTracked p = true) :
    p ∈ dedupAdjacent (keys.insertionSort fun a b => d.displayPath a ≤ d.displayPath b) := by
  rw [mem_dedupAdjacent, List.mem_insertionSort, hkeys.mem_iff, List.mem_append,
    ← AList.mem_keys, ← AList.mem_keys, ← AList.lookup_isSome, ← AList.lookup_isSome]
  rw [isTracked, Bool.or_eq_true] at hp
  exact hp.symm

/-- **Every tracked path is in exactly one pair**, whatever the order of the enumerations. -/
theorem refreshPairs_account

    (horigins : origins.Perm t.originByCurrentPath.entries) {p : TrackedPath P}
    (hp : t.isTracked p = true) :
    (t.refreshPairs d keys origins).countP (fun pair => pair.1 = p ∨ pair.2 = p) = 1 := by
  set renames := t.renamePairs origins with hrenames
  set destinations := renames.entries.map (·.2) with hdestinations
  set paths := dedupAdjacent (keys.insertionSort fun a b => d.displayPath a ≤ d.displayPath b)
    with hpaths
  have hloop : t.refreshPairs d keys origins = pairLoop renames destinations [] paths := rfl
  have hdest : ∀ o q, renames.lookup o = some q → q ∈ destinations := fun o q hq =>
    List.mem_map.mpr ⟨⟨o, q⟩, AList.mem_lookup_iff.mp hq, rfl⟩
  rw [hloop]
  by_cases hpd : p ∈ destinations
  · obtain ⟨⟨o, q⟩, hentry, rfl⟩ := List.mem_map.mp hpd
    dsimp only at hpd hp ⊢
    have hlookup : renames.lookup o = some q := AList.mem_lookup_iff.mpr hentry
    obtain ⟨-, hrenamed⟩ := renamePairs_origin horigins hlookup
    -- the origin is gone, so it is no destination and has a pair of its own
    have ho : o ∉ destinations := by
      intro hmemo
      obtain ⟨⟨o', q'⟩, hentry', rfl⟩ := List.mem_map.mp hmemo
      have hlookup' := AList.mem_lookup_iff.mpr hentry'
      exact (renamePairs_origin horigins hlookup').2.dest_exists hrenamed.origin_gone
    have htracked : t.isTracked o = true :=
      (t.isTracked_eq_true_iff o).mpr (.inr hrenamed.origin_existed)
    have hpair : (o, rightOf renames o) ∈ pairLoop renames destinations [] paths :=
      pairLoop_of_mem hdest (mem_refreshPaths hkeys htracked) (by simp) ho
    rw [rightOf, hlookup, Option.getD_some] at hpair
    refine countP_pairLoop (t.origin q) ⟨(o, q), hpair, .inr rfl⟩ fun pair hpair hacc => ?_
    exact pairLoop_of_destination (fun o q hq => (renamePairs_origin horigins hq).1) hpd hpair hacc
  · have hpair : (p, rightOf renames p) ∈ pairLoop renames destinations [] paths :=
      pairLoop_of_mem hdest (mem_refreshPaths hkeys hp) (by simp) hpd
    refine countP_pairLoop p ⟨_, hpair, .inl rfl⟩ fun pair hpair hacc => ?_
    exact pairLoop_of_not_destination hdest hpd hpair hacc

end Refresh

end TurnDiffTracker

/-! ### Whole turns -/

section Turn

variable {t : TurnDiffTracker P} {F₀ F F' : Contents (TrackedPath P)}
  {origin : TrackedPath P → TrackedPath P}

variable (t)

variable (path : TrackedPath P)

@[simp] lemma valid_insertCurrent
    (content : Text) : (t.insertCurrent path content).valid = t.valid := rfl

@[simp] lemma valid_eraseCurrent : (t.eraseCurrent path).valid = t.valid := rfl

@[simp] lemma valid_eraseOrigin : (t.eraseOrigin path).valid = t.valid := rfl

@[simp] lemma valid_insertOrigin (path origin : TrackedPath P) :
    (t.insertOrigin path origin).valid = t.valid := rfl

@[simp] lemma valid_noteBaseline
    (content : Option Text) : (t.noteBaseline path content).valid = t.valid := by
  unfold TurnDiffTracker.noteBaseline
  split_ifs
  · rfl
  · cases content <;> rfl

lemma valid_applyTrackedChange
    (c : AppliedPatchChange (TrackedPath P)) : (t.applyTrackedChange c).valid = t.valid := by
  obtain ⟨path, change⟩ := c
  cases change with
  | add content overwritten =>
    simp [TurnDiffTracker.applyTrackedChange, TurnDiffTracker.applyAdd]
  | delete content => simp [TurnDiffTracker.applyTrackedChange, TurnDiffTracker.applyDelete]
  | update movePath old overwritten new =>
    simp only [TurnDiffTracker.applyTrackedChange, TurnDiffTracker.applyUpdate]
    cases movePath with
    | none => simp
    | some dest =>
      simp only [TurnDiffTracker.applyMove]
      split_ifs <;> simp

variable {t}

lemma valid_foldl (cs : List (AppliedPatchChange (TrackedPath P))) (t : TurnDiffTracker P) :
    (cs.foldl (fun t c => t.applyTrackedChange c) t).valid = t.valid := by
  induction cs generalizing t with
  | nil => rfl
  | cons c cs ih => rw [List.foldl_cons, ih, valid_applyTrackedChange]

/-- The changes of a list of deltas, on tracked paths. -/
def trackedChanges (deltas : List (Text × AppliedPatchDelta P)) :
    List (AppliedPatchChange (TrackedPath P)) :=
  deltas.flatMap fun delta => delta.2.changes.map (trackedChange delta.1)

/-- **One delta.** A refresh reads the maps and leaves them as they are. -/
theorem Nets.trackDelta (h : Nets t F₀ F origin) (hvalid : t.valid = true) (d : Display P)
    {environmentId : Text} {delta : AppliedPatchDelta P} (hexact : delta.exact = true)
    (hreplay : Replays (delta.changes.map (trackedChange environmentId)) F F')
    (hmove : ∀ c ∈ delta.changes.map (trackedChange environmentId), MovesApart c) :
    Nets (t.trackDelta d environmentId delta) F₀ F'
      ((delta.changes.map (trackedChange environmentId)).foldl originStep origin) ∧
    (t.trackDelta d environmentId delta).valid = true := by
  have hnets := h.applyTrackedChanges hreplay hmove
  have hval := valid_foldl (delta.changes.map (trackedChange environmentId)) t
  rw [List.foldl_map] at hnets hval
  unfold TurnDiffTracker.trackDelta TurnDiffTracker.trackDeltaIn
  rw [hvalid, hexact]
  exact ⟨⟨hnets.tracked, hnets.untracked, hnets.origins⟩, hval.trans hvalid⟩

/-- **A whole turn.** -/
theorem Nets.trackDeltas (h : Nets t F₀ F origin) (hvalid : t.valid = true) (d : Display P)
    {deltas : List (Text × AppliedPatchDelta P)} (hexact : ∀ delta ∈ deltas, delta.2.exact = true)
    (hreplay : Replays (trackedChanges deltas) F F')
    (hmove : ∀ c ∈ trackedChanges deltas, MovesApart c) :
    Nets (t.trackDeltas d deltas) F₀ F' ((trackedChanges deltas).foldl originStep origin) := by
  induction deltas generalizing t F origin with
  | nil =>
    obtain rfl : F = F' := hreplay
    exact h
  | cons delta deltas ih =>
    have hsplit : trackedChanges (delta :: deltas) =
        delta.2.changes.map (trackedChange delta.1) ++ trackedChanges deltas := by
      simp [trackedChanges]
    rw [hsplit] at hreplay hmove ⊢
    obtain ⟨F₁, hfirst, hrest⟩ := replays_append.mp hreplay
    obtain ⟨hnets, hval⟩ := h.trackDelta hvalid d (hexact delta List.mem_cons_self) hfirst
      fun c hc => hmove c (List.mem_append_left _ hc)
    rw [List.foldl_append]
    exact ih hnets hval (fun e he => hexact e (List.mem_cons_of_mem _ he)) hrest
      fun c hc => hmove c (List.mem_append_right _ hc)

lemma Nets.initial (F₀ : Contents (TrackedPath P)) : Nets {} F₀ F₀ id where
  tracked p h := by cases h
  untracked p _ := rfl
  origins := rfl

/-- **The tracker nets out.** After any sequence of exact deltas that lead from `F₀` to `F`, moves
leading to other paths: the maps give the contents before and now for a tracked path, an untracked
path is unchanged, and whatever the hash order the pairs handed to the renderer have every changed
path in exactly one of them. A pair of two paths is a rename: the file on the right came from the
left, which is gone, and is new where it is. -/
theorem trackDeltas_netsOut (d : Display P) (F₀ F : Contents (TrackedPath P))
    (deltas : List (Text × AppliedPatchDelta P)) (hexact : ∀ delta ∈ deltas, delta.2.exact = true)
    (hreplay : Replays (trackedChanges deltas) F₀ F)
    (hmove : ∀ c ∈ trackedChanges deltas, MovesApart c) :
    (∀ p, (TurnDiffTracker.trackDeltas {} d deltas).isTracked p = true →
      (TurnDiffTracker.trackDeltas {} d deltas).baseline p = F₀ p ∧
      (TurnDiffTracker.trackDeltas {} d deltas).current p = F p) ∧
    (∀ p, (TurnDiffTracker.trackDeltas {} d deltas).isTracked p = false → F₀ p = F p) ∧
    ∀ keys origins,
      keys.Perm ((TurnDiffTracker.trackDeltas {} d deltas).baselineByPath.keys ++
        (TurnDiffTracker.trackDeltas {} d deltas).currentByPath.keys) →
      origins.Perm (TurnDiffTracker.trackDeltas {} d deltas).originByCurrentPath.entries →
      (∀ p, F₀ p ≠ F p →
        ((TurnDiffTracker.trackDeltas {} d deltas).refreshPairs d keys origins).countP
          (fun pair => pair.1 = p ∨ pair.2 = p) = 1) ∧
      ∀ left right,
        (left, right) ∈ (TurnDiffTracker.trackDeltas {} d deltas).refreshPairs d keys origins →
        left ≠ right →
        originAfter (trackedChanges deltas) right = left ∧
          F₀ left ≠ none ∧ F left = none ∧ F₀ right = none ∧ F right ≠ none := by
  have hnets := (Nets.initial F₀).trackDeltas rfl d hexact hreplay hmove
  set t := TurnDiffTracker.trackDeltas {} d deltas
  refine ⟨hnets.tracked, hnets.untracked, fun keys origins hkeys horigins => ⟨?_, ?_⟩⟩
  · intro p hp
    refine TurnDiffTracker.refreshPairs_account hkeys horigins ?_
    by_contra huntracked
    exact hp (hnets.untracked p (by simpa using huntracked))
  · intro left right hpair hne
    obtain ⟨horigin, hrenamed⟩ := TurnDiffTracker.refreshPairs_rename horigins hpair hne
    have hleft := hnets.tracked left
      ((t.isTracked_eq_true_iff left).mpr (.inr hrenamed.origin_existed))
    have hright := hnets.tracked right
      ((t.isTracked_eq_true_iff right).mpr (.inl hrenamed.dest_exists))
    refine ⟨?_, ?_, ?_, ?_, ?_⟩
    · rw [← horigin, hnets.origins]
      rfl
    · rw [← hleft.1]
      exact hrenamed.origin_existed
    · rw [← hleft.2]
      exact hrenamed.origin_gone
    · rw [← hright.1]
      exact hrenamed.dest_new
    · rw [← hright.2]
      exact hrenamed.dest_exists

/-- A turn that moves `/a` to `/b` with a change and then adds a new `/a`. -/
def moveAndReadd : List (Text × AppliedPatchDelta Text) :=
  [([], { changes := [⟨"/a".toList,
      .update (some "/b".toList) "x".toList none "y".toList⟩] }),
    ([], { changes := [⟨"/a".toList, .add "z".toList none⟩] })]

/-- After it the tracker has the old and the new content of `/a`. -/
theorem trackDeltas_netsOut_moveAndReadd :
    (TurnDiffTracker.trackDeltas {} ⟨fun p => p.path, fun _ _ _ _ => []⟩ moveAndReadd).baseline
        ⟨[], "/a".toList⟩ = some "x".toList ∧
    (TurnDiffTracker.trackDeltas {} ⟨fun p => p.path, fun _ _ _ _ => []⟩ moveAndReadd).current
        ⟨[], "/a".toList⟩ = some "z".toList := by
  have hreplay : Replays (trackedChanges moveAndReadd)
      (Function.update (fun _ => none) ⟨[], "/a".toList⟩ (some "x".toList))
      (replay (trackedChanges moveAndReadd)
        (Function.update (fun _ => none) ⟨[], "/a".toList⟩ (some "x".toList))) :=
    ⟨⟨rfl, rfl⟩, rfl, rfl⟩
  have hmove : ∀ c ∈ trackedChanges moveAndReadd, MovesApart c := by
    intro c hc
    rcases List.mem_cons.mp hc with rfl | hc
    · show (⟨[], "/b".toList⟩ : TrackedPath Text) ≠ ⟨[], "/a".toList⟩
      decide
    · rw [List.mem_singleton.mp hc]
      trivial
  have h := (trackDeltas_netsOut ⟨fun p => p.path, fun _ _ _ _ => []⟩ _ _ moveAndReadd (by decide)
    hreplay hmove).1 ⟨[], "/a".toList⟩ (by decide)
  exact ⟨h.1.trans rfl, h.2.trans rfl⟩

end Turn

end Codex.TurnDiff
