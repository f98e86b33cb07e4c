import Codex.ApplyPatch.LineEndings

/-!
# The streaming and the one-shot parser

Both parsers drive the same machine over the lines of the patch, so both are brought to one form:
`runText L last` runs the terminated lines `L` and finishes with the last line. For a text with
terminated lines `init` and last line `last`

* the streaming parser is `runText (init.map stripCr) last`, however the text is cut into deltas
  (`streamParse_eq_runText`);
* the one-shot parser checks the first and the last line, then strips once more:
  `runText ((init.map stripCr).map stripCr) last` (`parsePatch_eq_runText`).

They agree except in two cases (`streamParse_agrees_iff`): the bare end marker, which `finish`
accepts in any mode, and an accepted patch with a content line that ends in two carriage returns,
of which the one-shot parser drops both (`losesContentCr`).
-/

namespace Codex.ApplyPatch

open Codex.Lib

namespace StreamingPatchParser

variable {p p' q q' : StreamingPatchParser} {ls : List Text} {last : Text}

/-! ### Runs with and without the second strip -/

/-- Along the run over the lines stripped once more: a line that loses a carriage return there is
taken as content. -/
def losesContentCr (q : StreamingPatchParser) : List Text → Bool
  | [] => false
  | l :: ls =>
    (stripCr l ≠ l && !({ q with lineNumber := q.lineNumber + 1 }.contentOf (stripCr l)).isEmpty) ||
    match q.stepLine (stripCr l) with
    | .ok q' => losesContentCr q' ls
    | .error _ => false

lemma crIn_map_addCr (ts : List Text) : crIn (ts.map (· ++ ['\r'])) = crIn ts + ts.length := by
  induction ts with
  | nil => rfl
  | cons t ts ih =>
    have hcons : ∀ (u : Text) us, crIn (u :: us) = u.count '\r' + crIn us := fun u us => by
      simp [crIn]
    rw [List.map_cons, hcons, ih, hcons, List.count_append, List.length_cons]
    have : List.count '\r' ['\r'] = 1 := by decide
    omega

lemma SameShape.refl (p : StreamingPatchParser) : SameShape p p := ⟨rfl, rfl, rfl, rfl⟩

lemma SameShape.countLine (hs : SameShape p q) : SameShape { p with lineNumber := p.lineNumber + 1 }
      { q with lineNumber := q.lineNumber + 1 } :=
  ⟨hs.mode, hs.environmentId, congrArg (· + 1) hs.lineNumber, hs.hunks⟩

/-- One step, with the carriage returns counted on both sides. -/
theorem stepLine_sim {l l' : Text} (hs : SameShape p q) (hl : CrRel l l')
    (h : p.stepLine l = .ok p') :
    ∃ q', q.stepLine l' = .ok q' ∧ SameShape p' q' ∧
      p'.crCount + q.crCount = q'.crCount + p.crCount +
        if l = l' then 0
        else ({ q with lineNumber := q.lineNumber + 1 }.contentOf l').length := by
  obtain ⟨q', hq', hs', hc⟩ := processLine_sim hs.countLine hl h
  refine ⟨q', hq', hs', ?_⟩
  have hp := crCount_of_processLine h
  have hq := crCount_of_processLine hq'
  simp only [crCount] at hp hq ⊢
  rcases hc with ⟨rfl, hc⟩ | ⟨rfl, hc⟩
  · rw [if_pos rfl]
    rw [hc] at hp
    omega
  · rw [if_neg (by simp)]
    rw [hc, crIn_map_addCr] at hp
    omega

/-- **A whole run.** A run over the lines that succeeds makes the run over the lines stripped once
more succeed with the same shape, and the first has more carriage returns in its hunks as soon as
a content line lost one. -/
theorem runLines_sim (hs : SameShape p q) (h : p.runLines ls = .ok p') :
    ∃ q', q.runLines (ls.map stripCr) = .ok q' ∧ SameShape p' q' ∧
      q'.crCount + p.crCount ≤ p'.crCount + q.crCount ∧
      (q.losesContentCr ls = true → q'.crCount + p.crCount < p'.crCount + q.crCount) := by
  induction ls generalizing p q with
  | nil =>
    cases h
    exact ⟨q, rfl, hs, by omega, by simp [losesContentCr]⟩
  | cons l ls ih =>
    rw [runLines_cons] at h
    obtain ⟨p₁, hp₁, hrun⟩ := bind_eq_ok.mp h
    obtain ⟨q₁, hq₁, hs₁, hcount⟩ := stepLine_sim hs (crRel_stripCr l) hp₁
    obtain ⟨q', hq', hs', hle, hlt⟩ := ih hs₁ hrun
    refine ⟨q', ?_, hs', by omega, ?_⟩
    · rw [List.map_cons, runLines_cons, hq₁]
      exact hq'
    · intro hloses
      simp only [losesContentCr, hq₁, Bool.or_eq_true, Bool.and_eq_true, decide_eq_true_eq,
        Bool.not_eq_true', List.isEmpty_eq_false_iff] at hloses
      rcases hloses with ⟨hne, hcontent⟩ | hrest
      · rw [if_neg fun heq => hne heq.symm] at hcount
        have := List.length_pos_iff.mpr hcontent
        omega
      · have := hlt hrest
        omega

/-- Where no content line loses a return, the two runs are the same. -/
theorem runLines_eq_of_not_losesContentCr (h : q.runLines (ls.map stripCr) = .ok q')
    (hl : q.losesContentCr ls = false) : q.runLines ls = .ok q' := by
  induction ls generalizing q with
  | nil => exact h
  | cons l ls ih =>
    rw [List.map_cons, runLines_cons] at h
    obtain ⟨q₁, hq₁, hrun⟩ := bind_eq_ok.mp h
    simp only [losesContentCr, hq₁, Bool.or_eq_false_iff, Bool.and_eq_false_iff,
      decide_eq_false_iff_not, not_not, Bool.not_eq_false', List.isEmpty_iff] at hl
    have hstep : q.stepLine l = .ok q₁ := by
      rcases crRel_stripCr l with heq | heq
      · rwa [← heq] at hq₁
      · have hcontent := hl.1.resolve_left fun hsame => by
          rw [hsame] at heq
          simpa using congrArg List.length heq
        rw [heq]
        exact processLine_addCr hq₁ hcontent
    rw [runLines_cons, hstep]
    exact ih hrun hl.2

/-! ### The last line -/

variable {hunks : List Hunk}

/-- What `finish` does on a nonempty buffer, in one step: the end marker ends the patch in every
mode, any other line is processed and has to end it. -/
theorem finish_cases (hne : p.lineBuffer ≠ []) (h : p.finish = .ok (hunks, p')) :
    hunks = p'.hunks ∧ p'.mode = .endedPatch ∧ ((trim p.lineBuffer = endPatchMarker ∧
          ({ p with lineBuffer := [], lineNumber := p.lineNumber + 1 } :
            StreamingPatchParser).ensureUpdateHunkIsNotEmpty endPatchMarker = .ok () ∧
          p' = { p with lineBuffer := [], lineNumber := p.lineNumber + 1, mode := .endedPatch }) ∨
        (trim p.lineBuffer ≠ endPatchMarker ∧
          ({ p with lineBuffer := [], lineNumber := p.lineNumber + 1 } :
            StreamingPatchParser).processLine p.lineBuffer = .ok p')) := by
  have hempty : p.lineBuffer.isEmpty = false := by simpa using hne
  simp only [finish, finishLine, hempty, Bool.false_eq_true, if_false] at h
  obtain ⟨r, hr, h⟩ := bind_eq_ok.mp h
  split_ifs at h with hmode
  cases h
  refine ⟨rfl, hmode, ?_⟩
  split_ifs at hr with hend
  · obtain ⟨_, he, hr⟩ := bind_eq_ok.mp hr
    rw [hend] at he
    exact .inl ⟨hend, he, by simpa using hr.symm⟩
  · exact .inr ⟨hend, hr⟩

/-- A last line with something on it is the end marker. -/
theorem trim_of_finish (hblank : trim p.lineBuffer ≠ [])
    (h : p.finish = .ok (hunks, p')) : trim p.lineBuffer = endPatchMarker := by
  have hne : p.lineBuffer ≠ [] := by
    intro hnil
    rw [hnil] at hblank
    exact hblank rfl
  obtain ⟨-, hmode, ⟨hend, -⟩ | ⟨-, hp⟩⟩ := finish_cases hne h
  · exact hend
  -- the only other way into `endedPatch` is a header step on the marker
  · rcases processLine_cases hp with ⟨-, -, rfl⟩ | ⟨-, hm, hh⟩ | ⟨hm, -, _, _, _, -, -, rfl⟩ |
      ⟨⟨n, hm⟩, -, _, _, _, _, -, -, rfl⟩ | ⟨-, ht, -⟩
    · cases hmode
    · have hheader : ∀ s, StreamingPatchParser.header
          { p with lineBuffer := [], lineNumber := p.lineNumber + 1 } s = some .endPatch →
          s = endPatchMarker := by
        intro s hs
        unfold StreamingPatchParser.header at hs
        split at hs
        · simp at hs
        · split_ifs at hs with heq
          · exact heq
          · repeat' split at hs
            all_goals simp at hs
      rcases handleHunkHeadersAndEndPatch_cases hh with ⟨_, -, -, -, rfl⟩ | ⟨hend, -, -⟩ |
        ⟨hunk, mode, hhead, -, rfl⟩
      · exact absurd hmode hm
      · have hs := hheader _ hend
        unfold headerText at hs
        split at hs
        · -- inside an update hunk only the end of the line was trimmed
          unfold trim trimStart
          rcases hbuf : p.lineBuffer with _ | ⟨c, s⟩
          · exact absurd hbuf hne
          · rw [hbuf] at hs
            have hc : (trimEnd (c :: s)).head? = some c := head?_trimEnd (by rw [hs]; decide)
            rw [hs, show endPatchMarker.head? = some '*' by decide] at hc
            obtain rfl : '*' = c := Option.some.inj hc
            rw [List.dropWhile_cons_of_neg (by decide)]
            exact hs
        · exact hs
      · exfalso
        dsimp only at hmode
        rw [hmode] at hhead
        unfold StreamingPatchParser.header at hhead
        repeat' split at hhead
        all_goals simp at hhead
    · rw [hm] at hmode
      cases hmode
    · rw [hm] at hmode
      cases hmode
    · exact absurd ht hblank

/-- `finish` sees the shape only, and a last line with no second strip keeps the counts. -/
theorem finish_sim (hs : SameShape p q) (hblank : trim last ≠ [])
    (h : ({ p with lineBuffer := last } : StreamingPatchParser).finish = .ok (hunks, p')) :
    ∃ q', ({ q with lineBuffer := last } : StreamingPatchParser).finish = .ok (q.hunks, q') ∧
      hunks = p.hunks := by
  have hend := trim_of_finish hblank h
  have hne : last ≠ [] := by
    intro hnil
    rw [hnil] at hblank
    exact hblank rfl
  obtain ⟨rfl, -, ⟨-, he, rfl⟩ | ⟨hno, -⟩⟩ := finish_cases hne h
  · have hs' : SameShape { p with lineBuffer := [], lineNumber := p.lineNumber + 1 }
        { q with lineBuffer := [], lineNumber := q.lineNumber + 1 } :=
      ⟨hs.mode, hs.environmentId, congrArg (· + 1) hs.lineNumber, hs.hunks⟩
    refine ⟨_, finish_of_end hend ?_, rfl⟩
    rw [← hs'.ensureUpdateHunkIsNotEmpty]
    exact he
  · exact absurd hend hno

/-! ### One form for both parsers -/

/-- Run terminated lines and finish with the last line: the hunks and the environment id. -/
def runText (ls : List Text) (last : Text) : Except ParseError (List Hunk × Option Text) := do
  let p ← ({} : StreamingPatchParser).runLines ls
  let (hunks, p) ← ({ p with lineBuffer := last } : StreamingPatchParser).finish
  return (hunks, p.environmentId)

lemma streamParse_eq_runText {deltas init : List Text}
    (h : deltas.flatten = joinLines (init ++ [last])) (hinit : ∀ l ∈ init, '\n' ∉ l)
    (hlast : '\n' ∉ last) : streamParse deltas = runText (init.map stripCr) last := by
  unfold streamParse runText
  rw [pushDeltas_eq_feed, h, feed_eq_runLines {} rfl init last hinit hlast]
  cases runLines {} (init.map stripCr) <;> rfl

/-- The one-shot parser of a text without a heredoc around it. -/
theorem parsePatch_eq_runText {t : Text} {init : List Text} (hws : NoSurroundingWhitespace t)
    (hheredoc : isHeredocWrapped (lines t) = false) (hlines : lines t = init ++ [last])
    (hinit : ∀ l ∈ init, '\n' ∉ l) (hlast : '\n' ∉ last) :
    (BoundariesOk (init ++ [last]) →
      (parsePatch t).toOption.map (fun args => (args.hunks, args.environmentId)) =
        (runText (init.map stripCr) last).toOption) ∧
    (¬ BoundariesOk (init ++ [last]) → (parsePatch t).toOption = none) := by
  have htrim : lines (trim t) = init ++ [last] := by rw [trim_eq_self hws, hlines]
  constructor
  · intro hok
    rw [parsePatch_of_boundariesOk htrim hok hinit hlast]
    unfold runText
    rcases hrun : runLines {} (init.map stripCr) with e | p
    · rfl
    · simp only [ok_bind, pure_eq_ok]
      rcases StreamingPatchParser.finish { p with lineBuffer := last } with e | ⟨hunks, p'⟩ <;> rfl
  · intro hbad
    obtain ⟨e, he⟩ := checkPatchBoundariesStrict_of_not_ok hbad
    unfold parsePatch parsePatchText checkPatchBoundariesLenient
    simp only [htrim]
    rw [← hlines, hheredoc, hlines, he]
    rfl

/-- A run that ends well has the begin marker first and the end marker last, unless its only line
is the end marker. -/
theorem boundariesOk_of_runText {r : List Hunk × Option Text} (hblank : trim last ≠ [])
    (h : runText ls last = .ok r) :
    trim last = endPatchMarker ∧ (ls ≠ [] → BoundariesOk (ls ++ [last])) := by
  unfold runText at h
  obtain ⟨p, hrun, h⟩ := bind_eq_ok.mp h
  obtain ⟨⟨hunks, p'⟩, hfinish, -⟩ := bind_eq_ok.mp h
  have hend := trim_of_finish (p := { p with lineBuffer := last }) hblank hfinish
  refine ⟨hend, fun hne => ⟨?_, by simpa using hend⟩⟩
  rcases ls with _ | ⟨l, ls⟩
  · exact absurd rfl hne
  · rw [runLines_cons] at hrun
    obtain ⟨p₁, hp₁, -⟩ := bind_eq_ok.mp hrun
    unfold stepLine at hp₁
    rcases processLine_cases hp₁ with ⟨-, ht, -⟩ | ⟨hm, -, -⟩ | ⟨hm, -⟩ | ⟨⟨n, hm⟩, -⟩ | ⟨hm, -⟩
    · simpa using ht
    · exact absurd rfl hm
    · cases hm
    · cases hm
    · cases hm

/-- The two runs give the same unless the second strip takes a return from a content line. -/
theorem runText_stripCr (hblank : trim last ≠ []) :
    (runText ls last).toOption = (runText (ls.map stripCr) last).toOption ↔
      ((∃ r, runText (ls.map stripCr) last = .ok r) → losesContentCr {} ls = false) := by
  constructor
  · rintro heq ⟨r, hr⟩
    rw [hr, toOption_ok, toOption_eq_some] at heq
    unfold runText at heq hr
    obtain ⟨p, hp, heq⟩ := bind_eq_ok.mp heq
    obtain ⟨⟨hunks, p'⟩, hpf, heq⟩ := bind_eq_ok.mp heq
    obtain ⟨q, hq, hr⟩ := bind_eq_ok.mp hr
    obtain ⟨⟨hunks', q'⟩, hqf, hr⟩ := bind_eq_ok.mp hr
    -- equal results have equal hunks, hence equally many returns
    obtain ⟨q₁, hq₁, hs, -, hlt⟩ := runLines_sim (SameShape.refl {}) hp
    obtain rfl : q₁ = q := by rw [hq₁] at hq; exact Except.ok.inj hq
    obtain ⟨_, hqf', hhunks⟩ := finish_sim hs hblank hpf
    rw [hqf'] at hqf
    cases hqf
    have hsame : p.hunks = q₁.hunks := by
      have h₁ := congrArg Prod.fst (Except.ok.inj heq)
      have h₂ := congrArg Prod.fst (Except.ok.inj hr)
      rw [← hhunks]
      exact h₁.trans h₂.symm
    by_contra hloses
    have := hlt (by simpa using hloses)
    simp only [crCount, hsame] at this
    omega
  · intro hcond
    rcases hr : runText (ls.map stripCr) last with e | r
    · -- the run over the lines as they are cannot succeed alone
      rw [toOption_error, toOption_eq_none]
      intro r hok
      unfold runText at hok hr
      obtain ⟨p, hp, hok⟩ := bind_eq_ok.mp hok
      obtain ⟨⟨hunks, p'⟩, hpf, -⟩ := bind_eq_ok.mp hok
      obtain ⟨q, hq, hs, -, -⟩ := runLines_sim (SameShape.refl {}) hp
      obtain ⟨q', hqf, -⟩ := finish_sim hs hblank hpf
      simp [hq, hqf] at hr
    · have hl := hcond ⟨r, hr⟩
      unfold runText at hr ⊢
      obtain ⟨q, hq, hrest⟩ := bind_eq_ok.mp hr
      rw [runLines_eq_of_not_losesContentCr hq hl]
      exact congrArg Except.toOption hrest

end StreamingPatchParser

open StreamingPatchParser

/-- Both parsers take a text the same way, however it is cut into deltas: both reject it, or both
accept it with the same hunks and environment id. -/
def ParsersAgree (t : Text) : Prop :=
  ∀ deltas : List Text, deltas.flatten = t → (streamParse deltas).toOption =
      (parsePatch t).toOption.map fun args => (args.hunks, args.environmentId)

/-- The one-shot parser accepts the text and drops a second carriage return from one of its content
lines. -/
def LosesContentCr (t : Text) : Prop :=
  (∃ args, parsePatch t = .ok args) ∧ losesContentCr {} (lines t).dropLast = true

lemma parsersAgree_nil : ParsersAgree [] := by
  intro deltas hflat
  have hstream : streamParse deltas = .error (.invalidPatchError lastLineMessage) := by
    unfold streamParse
    rw [pushDeltas_eq_feed, hflat]
    rfl
  rw [hstream]
  rfl

/-- **The streaming and the one-shot parser agree exactly when** the text is not the bare end
marker and the one-shot parser does not drop a second carriage return from a content line of a
patch it accepts. -/
theorem parsersAgree_iff (t : Text) (hws : NoSurroundingWhitespace t)
    (hheredoc : isHeredocWrapped (lines t) = false) :
    ParsersAgree t ↔ t ≠ endPatchMarker ∧ ¬ LosesContentCr t := by
  by_cases hne : t = []
  · subst hne
    refine ⟨fun _ => ⟨by decide, ?_⟩, fun _ => parsersAgree_nil⟩
    rintro ⟨-, hl⟩
    cases hl
  obtain ⟨init, last, ht, hinit, hlast, hlastne, hnt, hlines⟩ := exists_lines hne hws.2
  have hinit' : ∀ l ∈ init.map stripCr, '\n' ∉ l := by
    intro l hl
    obtain ⟨m, hm, rfl⟩ := List.mem_map.mp hl
    exact not_mem_stripCr (hinit m hm)
  have hblank : trim last ≠ [] := trim_ne_nil hlastne hnt
  obtain ⟨hok, hbad⟩ := parsePatch_eq_runText hws hheredoc hlines hinit' hlast
  have hdrop : (lines t).dropLast = init.map stripCr := by rw [hlines]; simp
  have hagree : ParsersAgree t ↔ (runText (init.map stripCr) last).toOption =
      (parsePatch t).toOption.map fun args => (args.hunks, args.environmentId) := by
    constructor
    · intro h
      rw [← h [t] (by simp), streamParse_eq_runText (by simpa using ht) hinit hlast]
    · intro h deltas hflat
      rw [← h, streamParse_eq_runText (hflat.trans ht) hinit hlast]
  have haccepted : BoundariesOk (init.map stripCr ++ [last]) →
      ((∃ r, runText ((init.map stripCr).map stripCr) last = .ok r) ↔
        ∃ args, parsePatch t = .ok args) := by
    intro hb
    have h := hok hb
    constructor
    · rintro ⟨r, hr⟩
      rw [hr] at h
      obtain ⟨args, hargs, -⟩ := Option.map_eq_some_iff.mp h
      exact ⟨args, toOption_eq_some.mp hargs⟩
    · rintro ⟨args, hargs⟩
      rw [hargs] at h
      exact ⟨_, toOption_eq_some.mp h.symm⟩
  rw [hagree]
  by_cases hb : BoundariesOk (init.map stripCr ++ [last])
  · -- the first line is the begin marker, so the text is not the end marker alone
    have htne : t ≠ endPatchMarker := by
      rintro rfl
      have : lines endPatchMarker = [endPatchMarker] := by decide
      rw [← hlines, this] at hb
      exact absurd hb.1 (by decide)
    rw [hok hb, runText_stripCr hblank, haccepted hb]
    simp only [LosesContentCr, hdrop, not_and, Bool.not_eq_true, ne_eq, htne, not_false_eq_true,
      true_and]
  · rw [hbad hb, Option.map_none, toOption_eq_none]
    have hrejected : ¬ LosesContentCr t := by
      rintro ⟨⟨args, hargs⟩, -⟩
      have := hbad hb
      rw [hargs] at this
      cases this
    constructor
    · intro hnone
      refine ⟨?_, hrejected⟩
      rintro rfl
      have hl : lines endPatchMarker = [endPatchMarker] := by decide
      rw [hl, eq_comm, List.append_eq_singleton_iff] at hlines
      obtain ⟨hi, hl'⟩ | ⟨-, hl'⟩ := hlines
      · rw [hi, List.cons.inj hl' |>.1] at hnone
        exact hnone ([], none) rfl
      · cases hl'
    · rintro ⟨htne, -⟩ r hr
      obtain ⟨hend, hbounds⟩ := boundariesOk_of_runText hblank hr
      by_cases hi : init = []
      · rw [hi, List.nil_append, joinLines_singleton] at ht
        rw [← ht, trim_eq_self hws] at hend
        exact htne hend
      · exact hb (hbounds (by simpa using hi))

/-- A patch that adds one file: both parsers agree on it. -/
theorem parsersAgree_iff_addFile :
    NoSurroundingWhitespace "*** Begin Patch\n*** Add File: a\n+x\n*** End Patch".toList ∧
    isHeredocWrapped (lines "*** Begin Patch\n*** Add File: a\n+x\n*** End Patch".toList) = false ∧
    ParsersAgree "*** Begin Patch\n*** Add File: a\n+x\n*** End Patch".toList := by
  have hws : NoSurroundingWhitespace
      "*** Begin Patch\n*** Add File: a\n+x\n*** End Patch".toList := by decide +kernel
  refine ⟨hws, by decide +kernel,
    (parsersAgree_iff _ hws (by decide +kernel)).mpr ⟨by decide +kernel, ?_⟩⟩
  rintro ⟨-, hl⟩
  cases hl

/-- The parsers do not always agree: the streaming parser accepts the bare end marker as an empty
patch, and from `+x\r\r\n` it keeps a carriage return that the one-shot parser drops. -/
theorem parsers_disagree :
    (streamParse [endPatchMarker] = .ok ([], none) ∧ (parsePatch endPatchMarker).toOption = none) ∧
    ((streamParse ["*** Begin Patch\n*** Add File: a\n+x\r\r\n*** End Patch".toList]).toOption =
        some ([.addFile "a".toList "x\r\n".toList], none) ∧
      (parsePatch "*** Begin Patch\n*** Add File: a\n+x\r\r\n*** End Patch".toList).toOption.map
        (fun args => (args.hunks, args.environmentId)) =
        some ([.addFile "a".toList "x\n".toList], none)) ∧
    ¬ ∀ t : Text, NoSurroundingWhitespace t → isHeredocWrapped (lines t) = false →
      ParsersAgree t := by
  refine ⟨⟨by decide +kernel, by decide +kernel⟩, ⟨by decide +kernel, by decide +kernel⟩, ?_⟩
  intro hall
  have h := hall endPatchMarker (by decide +kernel) (by decide +kernel) [endPatchMarker] (by simp)
  cases h

end Codex.ApplyPatch
