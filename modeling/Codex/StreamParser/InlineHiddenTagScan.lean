import Codex.StreamParser.InlineHiddenTag

/-!
# Hidden inline tags and the scan of the whole text

A text is scanned from the left: before the first opener it is visible, behind it hidden up to the
first closer of that tag, and so on behind the closer (`segments`). An incremental parser whose
openers do not occur in each other gives the same.

* `scan_finish`: one push and a flush give what the scan gives;
* `collect_eq_segments`: **the chunks of a text are parsed as the text**.
-/

namespace Codex.StreamParser

open Codex.Lib

variable {T : Type}

/-! ### The scan of a whole text -/

/-- A piece of a scanned text. -/
inductive Segment (T : Type) where
  | visible (text : Text)
  | tag (spec : InlineTagSpec T) (content : Text) (closed : Bool)

namespace Segment

/-- The text that the piece was. -/
def source : Segment T → Text
  | .visible text => text
  | .tag spec content closed => spec.openTag ++ content ++ if closed then spec.closeTag else []

def visibleText : Segment T → Text
  | .visible text => text
  | .tag _ _ _ => []

def extracted : Segment T → Option (ExtractedInlineTag T)
  | .visible _ => none
  | .tag spec content _ => some ⟨spec.tag, content⟩

end Segment

/-- What the pieces give. -/
def chunkOf (pieces : List (Segment T)) : StreamTextChunk (ExtractedInlineTag T) :=
  ⟨pieces.flatMap Segment.visibleText, pieces.filterMap Segment.extracted⟩

/-- The scan from the left, for as many tags. -/
def segmentsTurns (specs : List (InlineTagSpec T)) : ℕ → Text → List (Segment T)
  | 0, _ => []
  | turns + 1, text =>
    match splitFirst InlineTagSpec.openTag specs text with
    | none => [.visible text]
    | some (before, spec, rest) =>
      match splitOnce spec.closeTag rest with
      | none => [.visible before, .tag spec rest false]
      | some (content, rest) =>
        .visible before :: .tag spec content true :: segmentsTurns specs turns rest

/-- **The leftmost scan of a text**: tags are not nested, and an unclosed one ends with the text. -/
def segments (specs : List (InlineTagSpec T)) (text : Text) : List (Segment T) :=
  segmentsTurns specs (text.length + 1) text

variable {specs : List (InlineTagSpec T)}

lemma length_rest_lt {text before rest content rest' : Text} {spec : InlineTagSpec T}
    (hopen : splitFirst InlineTagSpec.openTag specs text = some (before, spec, rest))
    (hclose : splitOnce spec.closeTag rest = some (content, rest')) :
      rest'.length < text.length := by
  obtain ⟨-, htext, -⟩ := splitFirst_eq_some hopen
  have hpos := List.length_pos_of_ne_nil spec.openTag_ne
  rw [htext, splitOnce_eq_some hclose]
  simp only [List.length_append]
  omega

lemma segments_of_le {turns : ℕ} {text : Text} (h : text.length < turns) :
    segmentsTurns specs turns text = segments specs text := by
  suffices hsame : ∀ (turns turns' : ℕ) (text : Text), text.length < turns → text.length < turns' →
      segmentsTurns specs turns text = segmentsTurns specs turns' text from
    hsame turns _ text h (Nat.lt_succ_self _)
  intro turns
  induction turns with
  | zero => exact fun _ _ h => absurd h (Nat.not_lt_zero _)
  | succ turns ih =>
    intro turns' text h h'
    obtain ⟨turns', rfl⟩ : ∃ n, turns' = n + 1 := ⟨turns' - 1, by omega⟩
    rw [segmentsTurns, segmentsTurns]
    cases hopen : splitFirst InlineTagSpec.openTag specs text with
    | none => rfl
    | some found =>
      obtain ⟨before, spec, rest⟩ := found
      dsimp only
      cases hclose : splitOnce spec.closeTag rest with
      | none => rfl
      | some split =>
        have hless := length_rest_lt hopen hclose
        dsimp only
        rw [ih turns' _ (by omega) (by omega)]

/-- What is visible and hidden of a text that stands behind an opener or outside all tags. -/
def hidden (specs : List (InlineTagSpec T)) :
    Option (ActiveTag T) → Text → StreamTextChunk (ExtractedInlineTag T)
  | none, text => chunkOf (segments specs text)
  | some active, text =>
    match splitOnce active.closeTag text with
    | none => { extracted := [⟨active.tag, active.content ++ text⟩] }
    | some (content, rest) => StreamTextChunk.append
        { extracted := [⟨active.tag, active.content ++ content⟩] } (chunkOf (segments specs rest))

lemma hidden_of_none {text : Text} (h : splitFirst InlineTagSpec.openTag specs text = none) :
    hidden specs none text = { visibleText := text } := by
  rw [hidden, segments, segmentsTurns, h, chunkOf, List.flatMap_singleton]
  rfl

lemma hidden_of_some {text before rest : Text} {spec : InlineTagSpec T}
    (h : splitFirst InlineTagSpec.openTag specs text = some (before, spec, rest)) :
    hidden specs none text = StreamTextChunk.append { visibleText := before }
      (hidden specs (some ⟨spec.tag, spec.closeTag, [], spec.closeTag_ne⟩) rest) := by
  rw [hidden, hidden, segments, segmentsTurns, h]
  dsimp only
  cases hclose : splitOnce spec.closeTag rest with
  | none =>
    simp only [chunkOf, StreamTextChunk.append, List.flatMap_cons, List.flatMap_nil,
      Segment.visibleText, List.append_nil, List.nil_append]
    rfl
  | some split =>
    dsimp only
    rw [segments_of_le (length_rest_lt h hclose)]
    simp only [chunkOf, StreamTextChunk.append, List.flatMap_cons, Segment.visibleText,
      List.nil_append]
    rfl

/-- **No character of a text is lost or duplicated.** -/
theorem source_segments (specs : List (InlineTagSpec T)) (text : Text) :
    (segments specs text).flatMap Segment.source = text := by
  suffices hsource : ∀ (turns : ℕ) (text : Text), text.length < turns →
      (segmentsTurns specs turns text).flatMap Segment.source = text from
    hsource _ text (Nat.lt_succ_self _)
  intro turns
  induction turns with
  | zero => exact fun _ h => absurd h (Nat.not_lt_zero _)
  | succ turns ih =>
    intro text h
    rw [segmentsTurns]
    cases hopen : splitFirst InlineTagSpec.openTag specs text with
    | none => exact List.flatMap_singleton _ _
    | some found =>
      obtain ⟨before, spec, rest⟩ := found
      obtain ⟨-, htext, -⟩ := splitFirst_eq_some hopen
      dsimp only
      cases hclose : splitOnce spec.closeTag rest with
      | none => simp [Segment.source, htext]
      | some split =>
        obtain ⟨content, rest'⟩ := split
        have hless := length_rest_lt hopen hclose
        dsimp only
        rw [List.flatMap_cons, List.flatMap_cons, ih rest' (by omega), htext,
          splitOnce_eq_some hclose]
        simp [Segment.source]

/-! ### The chunks of a text -/

namespace InlineHiddenTagParser

/-- The parser is pushed chunks and finished. -/
def collect (parser : InlineHiddenTagParser T) :
    List Text → StreamTextChunk (ExtractedInlineTag T)
  | [] => parser.finish.1
  | chunk :: chunks => (parser.pushStr chunk).1.append (collect (parser.pushStr chunk).2 chunks)

/-- What was parsed and what is flushed at the end are what the scan gives. -/
theorem scan_finish (hsep : SeparateOpeners specs) (active : Option (ActiveTag T)) (text : Text) :
    (scan ⟨specs, text, active⟩).1.append (finish (scan ⟨specs, text, active⟩).2).1 =
      hidden specs active text := by
  generalize hn : text.length = n
  induction n using Nat.strong_induction_on generalizing text active with
  | _ n ih =>
    cases active with
    | some active =>
      obtain ⟨tag, closeTag, content, hne⟩ := active
      rw [hidden]
      dsimp only
      cases hsplit : splitOnce closeTag text with
      | some split =>
        obtain ⟨before, rest⟩ := split
        have hrest : rest.length < n := by
          have hpos := List.length_pos_of_ne_nil hne
          rw [← hn, splitOnce_eq_some hsplit, List.length_append, List.length_append]
          omega
        rw [scan_active_of_some hne hsplit, StreamTextChunk.append_assoc,
          ih rest.length hrest none rest rfl, hidden]
      | none =>
        rw [scan_active_of_none hne hsplit, finish]
        dsimp only [StreamTextChunk.append]
        rw [List.append_assoc, beforeOverlap_append]
        rfl
    | none =>
      cases hsplit : splitFirst InlineTagSpec.openTag specs text with
      | some found =>
        obtain ⟨before, spec, rest⟩ := found
        have hrest : rest.length < n := by
          have hpos := List.length_pos_of_ne_nil spec.openTag_ne
          rw [← hn, (splitFirst_eq_some hsplit).2.1, List.length_append, List.length_append]
          omega
        rw [scan_idle_of_some hsep hsplit, StreamTextChunk.append_assoc,
          ih rest.length hrest _ rest rfl, hidden_of_some hsplit]
      | none =>
        rw [scan_idle_of_none hsep hsplit, hidden_of_none hsplit, finish]
        dsimp only [StreamTextChunk.append]
        rw [List.take_append_drop]
        rfl

lemma collect_cons (parser : InlineHiddenTagParser T) (hsep : SeparateOpeners parser.specs)
    (chunk : Text) (chunks : List Text) :
    parser.collect (chunk :: chunks) = parser.collect [chunk ++ chunks.flatten] := by
  induction chunks generalizing parser chunk with
  | nil => rw [List.flatten_nil, List.append_nil]
  | cons next chunks ih =>
    have hnext : SeparateOpeners (parser.pushStr chunk).2.specs := by
      rwa [specs_pushStr]
    rw [collect, ih _ hnext, List.flatten_cons, collect, collect, collect, collect,
      pushStr_append hsep, StreamTextChunk.append_assoc]

/-- **The chunks of a text are parsed as the scan of the text**, which loses and duplicates
nothing. -/
theorem collect_eq_segments (specs : List (InlineTagSpec T)) (hsep : SeparateOpeners specs)
    (chunks : List Text) :
    (collect { specs := specs } chunks).visibleText =
        (segments specs chunks.flatten).flatMap Segment.visibleText ∧
      (collect { specs := specs } chunks).extracted =
        (segments specs chunks.flatten).filterMap Segment.extracted ∧
      (segments specs chunks.flatten).flatMap Segment.source = chunks.flatten := by
  have hchunk : collect { specs := specs } chunks = chunkOf (segments specs chunks.flatten) := by
    cases chunks with
    | nil => rfl
    | cons chunk chunks =>
      rw [collect_cons _ hsep, List.flatten_cons]
      exact scan_finish hsep none (chunk ++ chunks.flatten)
  rw [hchunk]
  exact ⟨rfl, rfl, source_segments specs _⟩

/-- Two tags whose openers start alike. -/
def alikeSpecs : List (InlineTagSpec Bool) :=
  [⟨true, "<ab>".toList, "</ab>".toList, by decide, by decide⟩,
    ⟨false, "<ac>".toList, "</ac>".toList, by decide, by decide⟩]

theorem collect_eq_segments_alikeSpecs :
    SeparateOpeners alikeSpecs ∧
      (collect { specs := alikeSpecs }
        ["1<a".toList, "b>2<ac></a".toList, "b>3".toList]).extracted =
        (segments alikeSpecs "1<ab>2<ac></ab>3".toList).filterMap Segment.extracted := by
  have hsep : SeparateOpeners alikeSpecs := by
    rw [SeparateOpeners, Separate]
    decide
  exact ⟨hsep, (collect_eq_segments alikeSpecs hsep
    ["1<a".toList, "b>2<ac></a".toList, "b>3".toList]).2.1⟩

end InlineHiddenTagParser

end Codex.StreamParser
