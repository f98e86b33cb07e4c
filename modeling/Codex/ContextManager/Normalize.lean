import Codex.Lib.Pairing
import Codex.Lib.Result
import Codex.Protocol.Models

/-!
# Normalising the history

`core/src/context_manager/normalize.rs` and `ContextManager::normalize_history`: before the history
is sent to the model every call gets an output, every output without a call goes, and images are
replaced when the model takes none. Two passes of the source log an error or panic, by build
(`error_or_panic`); the model takes the build as `debugAssertions` and a panic is an error.
-/

namespace Codex.ContextManager

open Codex.Lib Codex.Protocol

variable {Value : Type}

/-! ### The passes -/

variable (debugAssertions : Bool)

def errorOrPanic (message : Text) : Except Text Unit :=
  if debugAssertions then .error message else .ok ()

/-- The three sets `ensure_call_outputs_present` collects first -/
structure OutputIds where
  functionOutputIds : List Text
  toolSearchOutputIds : List Text
  customToolOutputIds : List Text

variable (items : List (ResponseItem Value))

/-- The first loop of `ensure_call_outputs_present` -/
def outputIds : OutputIds where
  functionOutputIds := items.filterMap fun
    | .functionCallOutput _ callId _ _ => some callId
    | _ => none
  toolSearchOutputIds := items.filterMap fun
    | .toolSearchOutput _ callId _ _ _ _ => callId
    | _ => none
  customToolOutputIds := items.filterMap fun
    | .customToolCallOutput _ callId _ _ _ => some callId
    | _ => none

/-- The output put in for a function or local shell call -/
def abortedFunctionOutput (callId : Text) : ResponseItem Value :=
  .functionCallOutput none callId (.fromText "aborted".toList) none

/-- The match of the second loop of `ensure_call_outputs_present` -/
def missingOutput (ids : OutputIds) :
    ResponseItem Value → Except Text (Option (ResponseItem Value))
  | .functionCall _ _ _ _ callId _ =>
    if callId ∈ ids.functionOutputIds then .ok none
    else .ok (some (abortedFunctionOutput callId))
  | .toolSearchCall _ (some callId) _ _ _ _ =>
    if callId ∈ ids.toolSearchOutputIds then .ok none
    else .ok (some
      (.toolSearchOutput none (some callId) "completed".toList "client".toList [] none))
  | .customToolCall _ _ callId _ _ _ =>
    if callId ∈ ids.customToolOutputIds then .ok none
    else do
      errorOrPanic debugAssertions
        ("Custom tool call output is missing for call id: ".toList ++ callId)
      return some (.customToolCallOutput none callId none (.fromText "aborted".toList) none)
  | .localShellCall _ (some callId) _ _ _ =>
    if callId ∈ ids.functionOutputIds then .ok none
    else do
      errorOrPanic debugAssertions
        ("Local shell call output is missing for call id: ".toList ++ callId)
      return some (abortedFunctionOutput callId)
  | _ => .ok none

def ensureCallOutputsPresent (items : List (ResponseItem Value)) :
    Except Text (List (ResponseItem Value)) := do
  let ids := outputIds items
  let missingOutputsToInsert ← collectM (fun (item, idx) => do
    let missing ← missingOutput debugAssertions ids item
    return (missing.map (idx, ·)).toList) items.zipIdx
  return insertAfter items missingOutputsToInsert

/-- The four sets `remove_orphan_outputs` collects first -/
structure CallIds where
  functionCallIds : List Text
  toolSearchCallIds : List Text
  localShellCallIds : List Text
  customToolCallIds : List Text

/-- The first part of `remove_orphan_outputs` -/
def callIds : CallIds where
  functionCallIds := items.filterMap fun
    | .functionCall _ _ _ _ callId _ => some callId
    | _ => none
  toolSearchCallIds := items.filterMap fun
    | .toolSearchCall _ callId _ _ _ _ => callId
    | _ => none
  localShellCallIds := items.filterMap fun
    | .localShellCall _ callId _ _ _ => callId
    | _ => none
  customToolCallIds := items.filterMap fun
    | .customToolCall _ _ callId _ _ _ => some callId
    | _ => none

/-- `if !has_match { error_or_panic(..) } has_match` -/
def retainMatched (hasMatch : Bool) (message : Text) : Except Text Bool := do
  if !hasMatch then errorOrPanic debugAssertions message
  return hasMatch

/-- The closure of `items.retain` in `remove_orphan_outputs` -/
def retainItem (ids : CallIds) : ResponseItem Value → Except Text Bool
  | .functionCallOutput _ callId _ _ =>
    retainMatched debugAssertions
      (callId ∈ ids.functionCallIds || callId ∈ ids.localShellCallIds)
      ("Orphan function call output for call id: ".toList ++ callId)
  | .customToolCallOutput _ callId _ _ _ =>
    retainMatched debugAssertions (callId ∈ ids.customToolCallIds)
      ("Orphan custom tool call output for call id: ".toList ++ callId)
  | .toolSearchOutput _ callId _ execution _ _ =>
    if execution = "server".toList then .ok true
    else match callId with
      | some callId =>
        retainMatched debugAssertions (callId ∈ ids.toolSearchCallIds)
          ("Orphan tool search output for call id: ".toList ++ callId)
      | none => .ok true
  | _ => .ok true

def removeOrphanOutputs (items : List (ResponseItem Value)) :
    Except Text (List (ResponseItem Value)) := do
  let ids := callIds items
  collectM (fun item => do
    let keep ← retainItem debugAssertions ids item
    return if keep then [item] else []) items

def imageContentOmittedPlaceholder : Text :=
  "image content omitted because you do not support image input".toList

/-- The loop over the content of a message -/
def stripContentItem : ContentItem → ContentItem
  | .inputImage _ _ => .inputText imageContentOmittedPlaceholder
  | item => item

/-- The loop over the content items of an output -/
def stripOutputContentItem : FunctionCallOutputContentItem → FunctionCallOutputContentItem
  | .inputImage _ _ => .inputText imageContentOmittedPlaceholder
  | item => item

/-- The branch for outputs, through `content_items_mut` -/
def stripOutput (output : FunctionCallOutputPayload) : FunctionCallOutputPayload :=
  match output.body with
  | .text _ => output
  | .contentItems items => { output with body := .contentItems (items.map stripOutputContentItem) }

/-- The body of the loop of `strip_images_when_unsupported` -/
def stripImages : ResponseItem Value → ResponseItem Value
  | .message id role content phase metadata =>
    .message id role (content.map stripContentItem) phase metadata
  | .functionCallOutput id callId output metadata =>
    .functionCallOutput id callId (stripOutput output) metadata
  | .customToolCallOutput id callId name output metadata =>
    .customToolCallOutput id callId name (stripOutput output) metadata
  | .imageGenerationCall id status revisedPrompt _ metadata =>
    .imageGenerationCall id status revisedPrompt [] metadata
  | item => item

variable (inputModalities : List InputModality)

/-- What `strip_images_when_unsupported` does to one item. -/
def stripItem (item : ResponseItem Value) : ResponseItem Value :=
  if .image ∈ inputModalities then item else stripImages item

def stripImagesWhenUnsupported (items : List (ResponseItem Value)) : List (ResponseItem Value) :=
  items.map (stripItem inputModalities)

def normalizeHistory (inputModalities : List InputModality)
    (items : List (ResponseItem Value)) : Except Text (List (ResponseItem Value)) := do
  let items ← ensureCallOutputsPresent debugAssertions items
  let items ← removeOrphanOutputs debugAssertions items
  return stripImagesWhenUnsupported inputModalities items

/-! ### Calls and outputs by key -/

/-- The kinds of calls that are answered by different kinds of outputs. -/
inductive CallKind where
  | function
  | toolSearch
  | customTool
  deriving DecidableEq

/-- The kind and id of a call that an output must answer. -/
def callKey : ResponseItem Value → Option (CallKind × Text)
  | .functionCall _ _ _ _ callId _ => some (.function, callId)
  | .localShellCall _ (some callId) _ _ _ => some (.function, callId)
  | .toolSearchCall _ (some callId) _ _ _ _ => some (.toolSearch, callId)
  | .customToolCall _ _ callId _ _ _ => some (.customTool, callId)
  | _ => none

/-- The kind and id of the call that an output answers. -/
def outputKey : ResponseItem Value → Option (CallKind × Text)
  | .functionCallOutput _ callId _ _ => some (.function, callId)
  | .toolSearchOutput _ (some callId) _ _ _ _ => some (.toolSearch, callId)
  | .customToolCallOutput _ callId _ _ _ => some (.customTool, callId)
  | _ => none

/-- A tool search the server ran itself. -/
def isServerOutput : ResponseItem Value → Bool
  | .toolSearchOutput _ _ _ execution _ _ => execution = "server".toList
  | _ => false

/-- The output put in for a call of this kind and id. -/
def synthesisedOutput : CallKind × Text → ResponseItem Value
  | (.function, callId) => abortedFunctionOutput callId
  | (.toolSearch, callId) =>
    .toolSearchOutput none (some callId) "completed".toList "client".toList [] none
  | (.customTool, callId) =>
    .customToolCallOutput none callId none (.fromText "aborted".toList) none

/-- The pairing the two passes work by. -/
def callPairing (Value : Type) : Pairing (ResponseItem Value) (CallKind × Text) where
  callKey := callKey
  outputKey := outputKey
  exempt := isServerOutput
  synth := synthesisedOutput
  outputKey_synth := by rintro ⟨kind, callId⟩; cases kind <;> rfl
  callKey_synth := by rintro ⟨kind, callId⟩; cases kind <;> rfl
  outputKey_of_call := by
    intro x k h
    cases x <;> simp_all [callKey, outputKey]

variable {items : List (ResponseItem Value)} {callId : Text} {x : ResponseItem Value}

lemma mem_outputIds :
    (callId ∈ (outputIds items).functionOutputIds ↔
        (.function, callId) ∈ items.filterMap outputKey) ∧
      (callId ∈ (outputIds items).toolSearchOutputIds ↔
        (.toolSearch, callId) ∈ items.filterMap outputKey) ∧
      (callId ∈ (outputIds items).customToolOutputIds ↔
        (.customTool, callId) ∈ items.filterMap outputKey) := by
  simp only [outputIds, List.mem_filterMap]
  refine ⟨?_, ?_, ?_⟩
  all_goals
    refine exists_congr fun x => and_congr_right fun _ => ?_
    cases x with
    | toolSearchOutput _ callId' => cases callId' <;> simp [outputKey]
    | _ => simp [outputKey]

variable (items)

/-- The output the pairing finds missing behind an item. -/
def missingFor (x : ResponseItem Value) : Option (ResponseItem Value) :=
  (callPairing Value).missing (items.filterMap outputKey) x

/-- An output of which the pairing finds no call. -/
def isOrphan (x : ResponseItem Value) : Bool :=
  (callPairing Value).orphan (items.filterMap callKey) x

variable {items}

lemma missingFor_of_call {k : CallKind × Text} (h : callKey x = some k) :
    missingFor items x =
      if k ∈ items.filterMap outputKey then none else some (synthesisedOutput k) := by
  by_cases hk : k ∈ items.filterMap outputKey
  · simp [missingFor, Pairing.missing, callPairing, h, hk, Option.filter]
  · simp [missingFor, Pairing.missing, callPairing, h, hk, Option.filter]

lemma missingFor_of_not_call (h : callKey x = none) : missingFor items x = none := by
  simp [missingFor, Pairing.missing, callPairing, h]

variable (modalities : List InputModality) (debugAssertions : Bool)

lemma errorOrPanic_spec (message : Text) :
    OkUnless (debugAssertions = true) (errorOrPanic debugAssertions message) () := by
  cases debugAssertions with
  | false => exact .ok ()
  | true => exact .inr ⟨rfl, message, rfl⟩

/-- The loop of the first pass finds what the pairing finds missing; it panics only where something
is missing. -/
theorem missingOutput_spec (items : List (ResponseItem Value)) (x : ResponseItem Value) :
    OkUnless (debugAssertions = true ∧ missingFor items x ≠ none)
      (missingOutput debugAssertions (outputIds items) x) (missingFor items x) := by
  cases hkey : callKey x with
  | none =>
    rw [missingFor_of_not_call hkey]
    refine .inl ?_
    unfold missingOutput
    split <;> first | rfl | simp [callKey] at hkey
  | some k =>
    rw [missingFor_of_call hkey]
    have hpanic : ∀ message, OkUnless
        (debugAssertions = true ∧ some (synthesisedOutput k : ResponseItem Value) ≠ none)
        (errorOrPanic debugAssertions message) () :=
      fun message => (errorOrPanic_spec debugAssertions message).mono fun h => ⟨h, by simp⟩
    by_cases hmem : k ∈ items.filterMap outputKey
    · rw [if_pos hmem]
      refine .inl ?_
      unfold missingOutput
      split <;> simp only [callKey, Option.some.injEq, reduceCtorEq] at hkey
      · rw [if_pos (mem_outputIds.1.mpr (hkey ▸ hmem))]
      · rw [if_pos (mem_outputIds.2.1.mpr (hkey ▸ hmem))]
      · rw [if_pos (mem_outputIds.2.2.mpr (hkey ▸ hmem))]
      · rw [if_pos (mem_outputIds.1.mpr (hkey ▸ hmem))]
    · rw [if_neg hmem]
      unfold missingOutput
      split <;> simp only [callKey, Option.some.injEq, reduceCtorEq] at hkey
      · rw [if_neg fun h => hmem (hkey ▸ mem_outputIds.1.mp h), ← hkey]
        exact .ok _
      · rw [if_neg fun h => hmem (hkey ▸ mem_outputIds.2.1.mp h), ← hkey]
        exact .ok _
      · rw [if_neg fun h => hmem (hkey ▸ mem_outputIds.2.2.mp h)]
        exact (hpanic _).bind (hkey ▸ .ok _)
      · rw [if_neg fun h => hmem (hkey ▸ mem_outputIds.1.mp h)]
        exact (hpanic _).bind (hkey ▸ .ok _)

/-- **The first pass** is the pairing's; it panics only where an output is missing. -/
theorem ensureCallOutputsPresent_spec (items : List (ResponseItem Value)) :
    OkUnless (debugAssertions = true ∧ ∃ x ∈ items, missingFor items x ≠ none)
      (ensureCallOutputsPresent debugAssertions items) ((callPairing Value).ensure items) := by
  have hrecords : items.zipIdx.flatMap (fun p => ((missingFor items p.1).map (p.2, ·)).toList) =
      recordsFrom (missingFor items) items 0 :=
    (List.filterMap_eq_flatMap_toList _ _).symm
  have hinsert : insertAfter items (recordsFrom (missingFor items) items 0) =
      (callPairing Value).ensure items := insertAfter_eq_flatMap (missingFor items) items
  rw [← hinsert, ← hrecords]
  refine OkUnless.bind (OkUnless.collectM ?_) (.ok _)
  rintro ⟨x, i⟩ hmem
  have hx : x ∈ items := List.fst_mem_of_mem_zipIdx hmem
  refine OkUnless.bind ?_ (.ok _)
  exact (missingOutput_spec debugAssertions items x).mono fun h => ⟨h.1, x, hx, h.2⟩

/-! ### The second pass -/

lemma mem_callIds :
    (callId ∈ (callIds items).functionCallIds ∨ callId ∈ (callIds items).localShellCallIds ↔
        (.function, callId) ∈ items.filterMap callKey) ∧
      (callId ∈ (callIds items).toolSearchCallIds ↔
        (.toolSearch, callId) ∈ items.filterMap callKey) ∧
      (callId ∈ (callIds items).customToolCallIds ↔
        (.customTool, callId) ∈ items.filterMap callKey) := by
  simp only [callIds, List.mem_filterMap, ← exists_or, ← and_or_left]
  refine ⟨?_, ?_, ?_⟩
  all_goals
    refine exists_congr fun x => and_congr_right fun _ => ?_
    cases x with
    | localShellCall _ callId' => cases callId' <;> simp [callKey]
    | toolSearchCall _ callId' => cases callId' <;> simp [callKey]
    | _ => simp [callKey]

lemma isOrphan_of_output {k : CallKind × Text} (hserver : isServerOutput x = false)
    (h : outputKey x = some k) :
    isOrphan items x = decide (k ∉ items.filterMap callKey) := by
  simp [isOrphan, Pairing.orphan, callPairing, hserver, h]

lemma isOrphan_of_server (hserver : isServerOutput x = true) : isOrphan items x = false := by
  simp [isOrphan, Pairing.orphan, callPairing, hserver]

lemma isOrphan_of_not_output (h : outputKey x = none) : isOrphan items x = false := by
  simp [isOrphan, Pairing.orphan, callPairing, h]

lemma retainMatched_spec (debugAssertions hasMatch : Bool) (message : Text) :
    OkUnless (debugAssertions = true ∧ hasMatch = false)
      (retainMatched debugAssertions hasMatch message) hasMatch := by
  cases hasMatch with
  | true => exact .ok true
  | false =>
    refine OkUnless.bind (v := ()) ?_ (.ok false)
    exact (errorOrPanic_spec debugAssertions message).mono fun h => ⟨h, rfl⟩

/-- The second pass keeps what the pairing finds no orphan; it panics only at an orphan. -/
theorem retainItem_spec (items : List (ResponseItem Value)) (x : ResponseItem Value) :
    OkUnless (debugAssertions = true ∧ isOrphan items x = true)
      (retainItem debugAssertions (callIds items) x) (!isOrphan items x) := by
  -- an output with key `k`, retained when its key is among the call keys
  have hmatched : ∀ (k : CallKind × Text) (hasMatch : Bool) (message : Text),
      isServerOutput x = false → outputKey x = some k →
      (hasMatch = true ↔ k ∈ items.filterMap callKey) →
      OkUnless (debugAssertions = true ∧ isOrphan items x = true)
        (retainMatched debugAssertions hasMatch message) (!isOrphan items x) := by
    intro k hasMatch message hserver hkey hiff
    have horphan : (!isOrphan items x) = hasMatch := by
      rw [isOrphan_of_output hserver hkey, Bool.eq_iff_iff, hiff]
      simp
    rw [horphan]
    refine (retainMatched_spec debugAssertions hasMatch message).mono fun h => ⟨h.1, ?_⟩
    rw [← horphan] at h
    simpa using h.2
  cases x with
  | functionCallOutput _ callId =>
    refine hmatched (.function, callId) _ _ rfl rfl ?_
    rw [← mem_callIds.1]
    simp
  | customToolCallOutput _ callId =>
    refine hmatched (.customTool, callId) _ _ rfl rfl ?_
    rw [← mem_callIds.2.2]
    simp
  | toolSearchOutput _ callId _ execution =>
    simp only [retainItem]
    by_cases hserver : execution = "server".toList
    · rw [if_pos hserver, isOrphan_of_server]
      · exact .ok true
      · exact decide_eq_true hserver
    · rw [if_neg hserver]
      cases callId with
      | none =>
        rw [isOrphan_of_not_output rfl]
        exact .ok true
      | some callId =>
        refine hmatched (.toolSearch, callId) _ _ (decide_eq_false hserver) rfl ?_
        rw [← mem_callIds.2.1]
        simp
  | _ =>
    rw [isOrphan_of_not_output rfl]
    exact .ok true

/-- **The second pass** is the pairing's; it panics only at an orphan. -/
theorem removeOrphanOutputs_spec (items : List (ResponseItem Value)) :
    OkUnless (debugAssertions = true ∧ ∃ x ∈ items, isOrphan items x = true)
      (removeOrphanOutputs debugAssertions items) ((callPairing Value).prune items) := by
  have hprune : items.flatMap (fun x => if !isOrphan items x then [x] else []) =
      (callPairing Value).prune items := (filter_eq_flatMap _ items).symm
  rw [← hprune]
  refine OkUnless.collectM ?_
  intro x hx
  refine OkUnless.bind ?_ (.ok _)
  exact (retainItem_spec debugAssertions items x).mono fun h => ⟨h.1, x, hx, h.2⟩

/-! ### The third pass -/

@[simp] lemma callKey_stripItem (x : ResponseItem Value) :
    callKey (stripItem modalities x) = callKey x := by
  unfold stripItem
  split
  · rfl
  · cases x <;> rfl

@[simp] lemma outputKey_stripItem (x : ResponseItem Value) :
    outputKey (stripItem modalities x) = outputKey x := by
  unfold stripItem
  split
  · rfl
  · cases x <;> rfl

@[simp] lemma isServerOutput_stripItem (x : ResponseItem Value) :
    isServerOutput (stripItem modalities x) = isServerOutput x := by
  unfold stripItem
  split
  · rfl
  · cases x <;> rfl

lemma stripContentItem_idem (c : ContentItem) :
    stripContentItem (stripContentItem c) = stripContentItem c := by
  cases c <;> rfl

lemma stripOutput_idem (output : FunctionCallOutputPayload) :
    stripOutput (stripOutput output) = stripOutput output := by
  obtain ⟨body, success⟩ := output
  cases body with
  | text content => rfl
  | contentItems items =>
    have hitem : ∀ c, stripOutputContentItem (stripOutputContentItem c) =
        stripOutputContentItem c := by
      intro c
      cases c <;> rfl
    simp [stripOutput, hitem]

/-- What was stripped once has nothing left to strip. -/
theorem stripItem_idem (x : ResponseItem Value) :
    stripItem modalities (stripItem modalities x) = stripItem modalities x := by
  unfold stripItem
  split
  · rfl
  · cases x with
    | message => simp [stripImages, stripContentItem_idem]
    | functionCallOutput => simp [stripImages, stripOutput_idem]
    | customToolCallOutput => simp [stripImages, stripOutput_idem]
    | _ => rfl

/-- Nothing is stripped from the outputs the first pass puts in. -/
theorem stripItem_synthesisedOutput (k : CallKind × Text) :
    stripItem modalities (synthesisedOutput k : ResponseItem Value) = synthesisedOutput k := by
  obtain ⟨kind, callId⟩ := k
  unfold stripItem
  split
  · rfl
  · cases kind <;> rfl

/-! ### The whole normalisation -/

/-- The release build always normalises; a build with debug assertions gives the same list or
panics, and it panics only where an output is missing or an orphan is found. -/
theorem normalizeHistory_spec (modalities : List InputModality)
    (items : List (ResponseItem Value)) :
    OkUnless (debugAssertions = true ∧ ((∃ x ∈ items, missingFor items x ≠ none) ∨
          ∃ x ∈ (callPairing Value).ensure items,
            isOrphan ((callPairing Value).ensure items) x = true))
      (normalizeHistory debugAssertions modalities items)
      (((callPairing Value).prune ((callPairing Value).ensure items)).map
        (stripItem modalities)) := by
  have hensure := ensureCallOutputsPresent_spec debugAssertions items
  have hremove := removeOrphanOutputs_spec debugAssertions ((callPairing Value).ensure items)
  refine (hensure.mono fun h => ⟨h.1, .inl h.2⟩).bind ?_
  exact (hremove.mono fun h => ⟨h.1, .inr h.2⟩).bind (.ok _)

/-- What the history sent to the model looks like, as `items` normalised to `out`. -/
structure WellPaired (modalities : List InputModality) (items out : List (ResponseItem Value)) :
    Prop where
  /-- every call is answered -/
  calls : ∀ c ∈ out, ∀ k, callKey c = some k → ∃ o ∈ out, outputKey o = some k
  /-- every output that names a call answers one, but for searches of the server -/
  outputs : ∀ o ∈ out, isServerOutput o = false → ∀ k, outputKey o = some k →
    ∃ c ∈ out, callKey c = some k
  /-- the items that are no orphans, in their order, each call without an output followed by the
  output made up for it -/
  inPlace : out = (items.filter fun x => !isOrphan items x).flatMap fun x =>
    stripItem modalities x :: (missingFor items x).toList

lemma callsMatched_of_normalized (items : List (ResponseItem Value)) :
    (callPairing Value).CallsMatched
      (((callPairing Value).prune ((callPairing Value).ensure items)).map
        (stripItem modalities)) :=
  Pairing.callsMatched_prune_ensure.map (callKey_stripItem modalities)
    (outputKey_stripItem modalities)

lemma outputsMatched_of_normalized (items : List (ResponseItem Value)) :
    (callPairing Value).OutputsMatched
      (((callPairing Value).prune ((callPairing Value).ensure items)).map
        (stripItem modalities)) :=
  Pairing.outputsMatched_prune.map (callKey_stripItem modalities)
    (outputKey_stripItem modalities) (isServerOutput_stripItem modalities)

lemma map_stripItem_block (items : List (ResponseItem Value)) (x : ResponseItem Value) :
    (x :: (missingFor items x).toList).map (stripItem modalities) =
      stripItem modalities x :: (missingFor items x).toList := by
  cases hmiss : missingFor items x with
  | none => rfl
  | some y =>
    obtain ⟨k, -, -, rfl⟩ := Pairing.missing_eq_some_iff.mp hmiss
    simp only [Option.toList_some, List.map_cons, List.map_nil]
    rw [show (callPairing Value).synth k = synthesisedOutput k from rfl,
      stripItem_synthesisedOutput]

/-- A paired and stripped list goes through unchanged, in every build. -/
theorem normalizeHistory_of_paired {modalities : List InputModality}
    (hc : (callPairing Value).CallsMatched items) (ho : (callPairing Value).OutputsMatched items)
    (hstrip : items.map (stripItem modalities) = items) (debugAssertions : Bool) :
    normalizeHistory debugAssertions modalities items = .ok items := by
  have hensure := Pairing.ensure_of_matched hc
  have hspec := normalizeHistory_spec debugAssertions modalities items
  rw [Pairing.prune_ensure_of_matched hc ho, hstrip] at hspec
  refine hspec.eq_ok ?_
  rintro ⟨-, ⟨x, hx, hmiss⟩ | ⟨x, hx, horphan⟩⟩
  · obtain ⟨y, hy⟩ := Option.ne_none_iff_exists'.mp hmiss
    obtain ⟨k, hk, hnot, -⟩ := Pairing.missing_eq_some_iff.mp hy
    exact hnot (hc x hx k hk)
  · rw [hensure] at hx horphan
    obtain ⟨hexempt, k, hk, hnot⟩ := Pairing.orphan_eq_true_iff.mp horphan
    exact hnot (ho x hx hexempt k hk)

/-- **The history sent to the model is well paired.** Normalising gives a list, in the release build
always and with debug assertions the same one or a panic; in it calls and outputs match, the items
stand in their places, and normalising it again changes nothing. -/
theorem normalizeHistory_wellPaired (modalities : List InputModality)
    (items : List (ResponseItem Value)) :
    ∃ out, normalizeHistory false modalities items = .ok out ∧ WellPaired modalities items out ∧
      (∀ debugAssertions, normalizeHistory debugAssertions modalities out = .ok out) ∧
      ∀ out', normalizeHistory true modalities items = .ok out' → out' = out := by
  have hcalls := callsMatched_of_normalized modalities items
  have houtputs := outputsMatched_of_normalized modalities items
  refine ⟨_, (normalizeHistory_spec false modalities items).eq_ok (by simp), ?_, ?_, ?_⟩
  · refine ⟨?_, ?_, ?_⟩
    · intro c hc k hk
      exact List.mem_filterMap.mp (hcalls c hc k hk)
    · intro o ho hserver k hk
      exact List.mem_filterMap.mp (houtputs o ho hserver k hk)
    · rw [Pairing.prune_ensure_eq, List.map_flatMap]
      apply List.flatMap_congr
      intro x _
      exact map_stripItem_block modalities items x
  · intro debugAssertions
    refine normalizeHistory_of_paired hcalls houtputs ?_ debugAssertions
    rw [List.map_map]
    apply List.map_congr_left
    intro x _
    exact stripItem_idem modalities x
  · intro out' hout'
    exact (normalizeHistory_spec true modalities items).eq_of_ok hout'

/-- The three kinds of outputs. -/
def isOutput : ResponseItem Value → Bool
  | .functionCallOutput _ _ _ _ => true
  | .customToolCallOutput _ _ _ _ _ => true
  | .toolSearchOutput _ _ _ _ _ _ => true
  | _ => false

/-- A client tool-search output without a call id stays although it answers no call; and without
image support an image generation, which is neither a call nor an output, is changed. -/
theorem normalizeHistory_keeps_unmatched_and_strips :
    (∃ out : List (ResponseItem Unit), normalizeHistory false [.text, .image]
        [.toolSearchOutput none none "completed".toList "client".toList [] none] = .ok out ∧
      ¬ ∀ o ∈ out, isOutput o = true → isServerOutput o = false →
        ∃ c ∈ out, ∃ k, callKey c = some k ∧ outputKey o = some k) ∧
    (∃ out : List (ResponseItem Unit), normalizeHistory false [.text]
        [.imageGenerationCall none "completed".toList none "base64".toList none] = .ok out ∧
      .imageGenerationCall none "completed".toList none "base64".toList none ∉ out) := by
  refine ⟨⟨_, rfl, ?_⟩, ⟨_, rfl, by decide⟩⟩
  intro h
  obtain ⟨c, hc, k, hk, -⟩ := h _ List.mem_cons_self rfl rfl
  rw [List.mem_singleton.mp hc, callKey_stripItem] at hk
  exact absurd hk (by simp [callKey])

end Codex.ContextManager
