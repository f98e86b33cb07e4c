import Codex.Lib.AssocMap
import Codex.StreamParser.WholeText

/-!
# The streamed text of the assistant and the completed one

`AssistantMessageStreamParsers` of `core/src/session/turn.rs` keeps one parser for each item of a
response. The deltas of the items may come in any order; what is streamed of an item is what
`strip_hidden_assistant_markup` of `core/src/stream_events_utils.rs` leaves of its complete text.
-/

namespace Codex.Session

open Codex.Lib Codex.StreamParser

def stripHiddenAssistantMarkup (text : Text) (planMode : Bool) : Text :=
  let (withoutCitations, _) := stripCitations text
  if planMode then stripProposedPlanBlocks withoutCitations else withoutCitations

structure AssistantMessageStreamParsers where
  planMode : Bool
  parsersByItem : AList fun _ : Text => AssistantTextStreamParser

/-- One call on the parsers. -/
inductive ItemEvent where
  | seedItemText (itemId text : Text)
  | parseDelta (itemId delta : Text)
  | finishItem (itemId : Text)

def ItemEvent.itemId : ItemEvent → Text
  | .seedItemText itemId _ | .parseDelta itemId _ | .finishItem itemId => itemId

namespace AssistantMessageStreamParsers

def new (planMode : Bool) : AssistantMessageStreamParsers := ⟨planMode, ∅⟩

variable (self : AssistantMessageStreamParsers)

def parserMut (itemId : Text) : AssistantTextStreamParser :=
  (self.parsersByItem.lookup itemId).getD (.new self.planMode)

def parseDelta (itemId delta : Text) : AssistantTextChunk × AssistantMessageStreamParsers :=
  let (out, parser) := (self.parserMut itemId).pushStr delta
  (out, { self with parsersByItem := self.parsersByItem.insert itemId parser })

def seedItemText (itemId text : Text) : AssistantTextChunk × AssistantMessageStreamParsers :=
  if text = [] then ({}, self) else self.parseDelta itemId text

def finishItem (itemId : Text) : AssistantTextChunk × AssistantMessageStreamParsers :=
  match self.parsersByItem.lookup itemId with
  | none => ({}, self)
  | some parser =>
    (parser.finish, { self with parsersByItem := self.parsersByItem.erase itemId })

/-- What `drain_finished` returns; a hash map would list the items in another order -/
def drainFinished : List (Text × AssistantTextChunk) :=
  self.parsersByItem.entries.map fun entry => (entry.1, entry.2.finish)

def step :
    ItemEvent → AssistantTextChunk × AssistantMessageStreamParsers
  | .seedItemText itemId text => self.seedItemText itemId text
  | .parseDelta itemId delta => self.parseDelta itemId delta
  | .finishItem itemId => self.finishItem itemId

/-- The calls of a response, at the end of which the parsers that are left are drained. -/
def stream (self : AssistantMessageStreamParsers) :
    List ItemEvent → List (Text × AssistantTextChunk)
  | [] => self.drainFinished
  | event :: events => (event.itemId, (self.step event).1) :: (self.step event).2.stream events

end AssistantMessageStreamParsers

/-- What is streamed of an item. -/
def streamedOf (itemId : Text) (out : List (Text × AssistantTextChunk)) : AssistantTextChunk :=
  out.foldr (fun chunk rest => if chunk.1 = itemId then chunk.2.append rest else rest) {}

/-- The texts of an item, of which the first has begun with `text`: each ends where it is
finished. -/
def textsOf (itemId : Text) : Text → List ItemEvent → List Text
  | text, [] => [text]
  | text, .seedItemText id more :: events | text, .parseDelta id more :: events =>
    textsOf itemId (if id = itemId then text ++ more else text) events
  | text, .finishItem id :: events =>
    if id = itemId then text :: textsOf itemId [] events else textsOf itemId text events

lemma textsOf_cons_of_ne {itemId : Text} {event : ItemEvent} (h : event.itemId ≠ itemId)
    (text : Text) (events : List ItemEvent) :
    textsOf itemId text (event :: events) = textsOf itemId text events := by
  cases event with
  | seedItemText id more => exact congrArg (textsOf itemId · events) (if_neg h)
  | parseDelta id delta => exact congrArg (textsOf itemId · events) (if_neg h)
  | finishItem id => exact if_neg h

/-! ### One complete text -/

variable (planMode : Bool)

/-- What the parser gives of a complete text. -/
def wholeChunk (text : Text) : AssistantTextChunk :=
  (AssistantTextStreamParser.new planMode).collect [text]

/-- The parser strips the text it is pushed. -/
theorem wholeChunk_eq (text : Text) :
    (wholeChunk planMode text).visibleText = stripHiddenAssistantMarkup text planMode ∧
      (wholeChunk planMode text).citations = (stripCitations text).2 ∧
      planMarks (wholeChunk planMode text).planSegments =
        if planMode then planMarks (planSegments (stripCitations text).1) else [] := by
  cases planMode with
  | false => exact ⟨rfl, rfl, rfl⟩
  | true =>
    have hmarks : planMarks (wholeChunk true text).planSegments =
        planMarks (planSegments (stripCitations text).1) := by
      obtain ⟨hparser, hpushed⟩ := ProposedPlanParser.new.pushStr_append
        (CitationStreamParser.new.pushStr text).1.visibleText
        (CitationStreamParser.new.pushStr text).2.finish.visibleText
      rw [stripCitations, planSegments, planMarks_append]
      dsimp only
      rw [hpushed, hparser, ← planMarks_append, List.append_assoc]
      rfl
    have hvisible : (wholeChunk true text).visibleText =
        (wholeChunk true text).planSegments.flatMap ProposedPlanSegment.visibleText := by
      change _ = List.flatMap _ (_ ++ (_ ++ _))
      rw [List.flatMap_append, List.flatMap_append]
      rfl
    refine ⟨?_, rfl, hmarks⟩
    rw [hvisible, visibleText_eq, hmarks, ← visibleText_eq, ← stripProposedPlanBlocks_eq_flatMap]
    rfl

/-! ### All items -/

lemma pushStr_nil : (AssistantTextStreamParser.new planMode).pushStr [] = ({}, .new planMode) := by
  cases planMode with
  | false => rfl
  | true => rfl

lemma wholeChunk_nil : wholeChunk planMode [] = {} := by
  cases planMode with
  | false => rfl
  | true => rfl

lemma append_empty (chunk : AssistantTextChunk) : chunk.append {} = chunk := by
  simp only [AssistantTextChunk.append, List.append_nil]

lemma streamedOf_cons (itemId : Text) (chunk : Text × AssistantTextChunk)
    (out : List (Text × AssistantTextChunk)) :
    streamedOf itemId (chunk :: out) =
      if chunk.1 = itemId then chunk.2.append (streamedOf itemId out) else streamedOf itemId out :=
  rfl

namespace AssistantMessageStreamParsers

variable {parsers : AssistantMessageStreamParsers} {itemId text : Text}

lemma streamedOf_drainFinished (parsers : AssistantMessageStreamParsers) (itemId : Text) :
    streamedOf itemId parsers.drainFinished =
      (parsers.parsersByItem.lookup itemId).elim {} AssistantTextStreamParser.finish := by
  suffices h : ∀ entries : List (Sigma fun _ : Text => AssistantTextStreamParser),
      entries.NodupKeys → streamedOf itemId (entries.map fun entry => (entry.1, entry.2.finish)) =
        (entries.dlookup itemId).elim {} AssistantTextStreamParser.finish from
    h _ parsers.parsersByItem.nodupKeys
  intro entries hnodup
  induction entries with
  | nil => rfl
  | cons entry entries ih =>
    obtain ⟨hnew, hnodup⟩ := List.nodupKeys_cons.mp hnodup
    rw [List.map_cons, streamedOf_cons, ih hnodup]
    obtain ⟨id, parser⟩ := entry
    split_ifs with hid
    · obtain rfl : id = itemId := hid
      rw [List.dlookup_eq_none.mpr hnew, List.dlookup_cons_eq]
      exact append_empty _
    · have hother : List.dlookup itemId (⟨id, parser⟩ :: entries) = entries.dlookup itemId :=
        List.dlookup_cons_ne entries ⟨id, parser⟩ (Ne.symm hid)
      rw [hother]

/-- The parser of an item has been pushed what has come of the text. -/
structure Holds (parsers : AssistantMessageStreamParsers) (itemId text : Text) : Prop where
  parserMut_eq :
    parsers.parserMut itemId = ((AssistantTextStreamParser.new parsers.planMode).pushStr text).2
  eq_nil : parsers.parsersByItem.lookup itemId = none → text = []

lemma Holds.parseDelta (h : Holds parsers itemId text) (delta : Text) :
    Holds (parsers.parseDelta itemId delta).2 itemId (text ++ delta) := by
  obtain ⟨hparser, -⟩ := (AssistantTextStreamParser.new parsers.planMode).pushStr_append text delta
  have hlookup : (parsers.parseDelta itemId delta).2.parsersByItem.lookup itemId =
      some ((parsers.parserMut itemId).pushStr delta).2 := AList.lookup_insert _
  constructor
  · rw [parserMut, hlookup, h.parserMut_eq]
    exact hparser.symm
  · intro hnone
    simp [hlookup] at hnone

lemma planMode_step (parsers : AssistantMessageStreamParsers) (event : ItemEvent) :
    (parsers.step event).2.planMode = parsers.planMode := by
  cases event with
  | seedItemText id more =>
    rw [step, seedItemText]
    split_ifs <;> rfl
  | parseDelta id delta => rfl
  | finishItem id =>
    rw [step, finishItem]
    cases parsers.parsersByItem.lookup id with
    | none => rfl
    | some parser => rfl

variable (h : Holds parsers itemId text)
include h

/-- The other items are left alone. -/
lemma Holds.step {event : ItemEvent} (hid : event.itemId ≠ itemId) :
    Holds (parsers.step event).2 itemId text := by
  have hlookup : (parsers.step event).2.parsersByItem.lookup itemId =
      parsers.parsersByItem.lookup itemId := by
    cases event with
    | seedItemText id more =>
      rw [AssistantMessageStreamParsers.step, seedItemText]
      split_ifs
      · rfl
      · exact AList.lookup_insert_ne (Ne.symm hid)
    | parseDelta id delta => exact AList.lookup_insert_ne (Ne.symm hid)
    | finishItem id =>
      rw [AssistantMessageStreamParsers.step, finishItem]
      cases parsers.parsersByItem.lookup id with
      | none => rfl
      | some parser => exact AList.lookup_erase_ne (Ne.symm hid)
  refine ⟨?_, by rw [hlookup]; exact h.eq_nil⟩
  rw [parserMut, hlookup, planMode_step]
  exact h.parserMut_eq

/-- A delta that is streamed adds to the text. -/
lemma agrees_parseDelta (delta : Text) (rest : AssistantTextChunk) :
    (((AssistantTextStreamParser.new parsers.planMode).pushStr text).1.append
        ((parsers.parseDelta itemId delta).1.append rest)).Agrees
      (((AssistantTextStreamParser.new parsers.planMode).pushStr
        (text ++ delta)).1.append rest) := by
  obtain ⟨-, hagrees⟩ := (AssistantTextStreamParser.new parsers.planMode).pushStr_append text delta
  have hout : (parsers.parseDelta itemId delta).1 =
      (((AssistantTextStreamParser.new parsers.planMode).pushStr text).2.pushStr delta).1 :=
    congrArg (fun parser => (AssistantTextStreamParser.pushStr parser delta).1) h.parserMut_eq
  rw [hout, ← AssistantTextChunk.append_assoc]
  exact hagrees.symm.append (.refl rest)

/-- What is still to come of an item, after what has been streamed of its text. -/
theorem agrees_stream (events : List ItemEvent) :
    (((AssistantTextStreamParser.new parsers.planMode).pushStr text).1.append
        (streamedOf itemId (parsers.stream events))).Agrees
      (((textsOf itemId text events).map (wholeChunk parsers.planMode)).foldr
        AssistantTextChunk.append {}) := by
  induction events generalizing parsers text with
  | nil =>
    rw [stream, streamedOf_drainFinished, textsOf, List.map_singleton, List.foldr_cons,
      List.foldr_nil, append_empty]
    have hparser := h.parserMut_eq
    cases hlookup : parsers.parsersByItem.lookup itemId with
    | none =>
      rw [h.eq_nil hlookup, pushStr_nil, wholeChunk_nil]
      exact .refl _
    | some parser =>
      rw [parserMut, hlookup, Option.getD_some] at hparser
      rw [hparser]
      exact .refl _
  | cons event events ih =>
    rw [stream, streamedOf_cons]
    dsimp only
    by_cases hid : event.itemId = itemId
    · rw [if_pos hid]
      cases event with
      | parseDelta id delta =>
        obtain rfl : id = itemId := hid
        rw [textsOf, if_pos rfl]
        exact (agrees_parseDelta h delta _).trans (ih (h.parseDelta delta))
      | seedItemText id more =>
        obtain rfl : id = itemId := hid
        rw [textsOf, if_pos rfl, step, seedItemText]
        split_ifs with hmore
        · rw [hmore, List.append_nil]
          exact ih h
        · exact (agrees_parseDelta h more _).trans (ih (h.parseDelta more))
      | finishItem id =>
        obtain rfl : id = itemId := hid
        rw [textsOf, if_pos rfl, List.map_cons, List.foldr_cons, step, finishItem]
        have hparser := h.parserMut_eq
        cases hlookup : parsers.parsersByItem.lookup id with
        | none =>
          have hrest := ih h
          rw [h.eq_nil hlookup, pushStr_nil] at hrest ⊢
          rw [wholeChunk_nil]
          exact hrest
        | some parser =>
          rw [parserMut, hlookup, Option.getD_some] at hparser
          have hfresh : Holds { parsers with parsersByItem := parsers.parsersByItem.erase id } id
              [] := by
            refine ⟨?_, fun _ => rfl⟩
            rw [parserMut, AList.lookup_erase, pushStr_nil]
            rfl
          have hrest := ih hfresh
          rw [pushStr_nil] at hrest
          rw [hparser]
          rw [← AssistantTextChunk.append_assoc]
          exact (AssistantTextChunk.Agrees.refl (wholeChunk parsers.planMode text)).append hrest
    · rw [if_neg hid, textsOf_cons_of_ne hid]
      have hrest := ih (h.step hid)
      rwa [planMode_step] at hrest

omit h

lemma foldr_append (chunks : List AssistantTextChunk) :
    chunks.foldr AssistantTextChunk.append {} =
      ⟨chunks.flatMap AssistantTextChunk.visibleText, chunks.flatMap AssistantTextChunk.citations,
        chunks.flatMap AssistantTextChunk.planSegments⟩ := by
  induction chunks with
  | nil => rfl
  | cons chunk chunks ih =>
    rw [List.foldr_cons, ih]
    rfl

/-- **Whatever the deltas and the order of the items, what is streamed of an item is what is left of
its texts when they are complete.** -/
theorem streamedOf_stream_eq (planMode : Bool) (events : List ItemEvent) (itemId : Text) :
    let out := streamedOf itemId ((new planMode).stream events)
    let texts := textsOf itemId [] events
    out.visibleText = texts.flatMap (stripHiddenAssistantMarkup · planMode) ∧
      out.citations = texts.flatMap (fun text => (stripCitations text).2) ∧
      planMarks out.planSegments = texts.flatMap fun text =>
        if planMode then planMarks (planSegments (stripCitations text).1) else [] := by
  have hnew : Holds (new planMode) itemId [] := by
    refine ⟨?_, fun _ => rfl⟩
    rw [pushStr_nil]
    rfl
  have hagrees := agrees_stream hnew events
  have hwhole := wholeChunk_eq planMode
  rw [pushStr_nil, foldr_append] at hagrees
  refine ⟨hagrees.visibleText.trans ?_, hagrees.citations.trans ?_, hagrees.planMarks.trans ?_⟩
  · dsimp only
    rw [List.flatMap_map]
    exact congrArg (List.flatMap · _) (funext fun text => (hwhole text).1)
  · dsimp only
    rw [List.flatMap_map]
    exact congrArg (List.flatMap · _) (funext fun text => (hwhole text).2.1)
  · dsimp only
    rw [planMarks, List.flatMap_assoc, List.flatMap_map]
    exact congrArg (List.flatMap · _) (funext fun text => (hwhole text).2.2)

end AssistantMessageStreamParsers

end Codex.Session
