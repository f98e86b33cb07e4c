import Codex.ApplyPatch.Parser

/-!
# What one carriage return more does to a run

The one-shot parser strips a carriage return from every line twice: once in `str::lines`, once
more when the joined text goes through `push_delta`. So two runs of the machine are compared here,
one over lines `l` and one over lines `l'` with `l' = l` or `l = l' ++ "\r"` (`CrRel`).

* The control flow of a step never looks at the texts already read, only at the *shape* of the
  state (`SameShape`: modes, paths, chunk headers, and which line lists are empty).
* A step adds to the hunks exactly the lines `contentOf` names (`crCount_of_processLine`).
* So a run over the lines with the extra returns that succeeds makes the other run succeed with
  the same shape, and the hunks of the second have fewer carriage returns as soon as a line with
  an extra return was content (`runLines_sim`).
-/

namespace Codex.ApplyPatch

open Codex.Lib

/-! ### Shapes -/

variable (chunk : UpdateFileChunk)

/-- A chunk with its line texts erased. -/
def UpdateFileChunk.blank : UpdateFileChunk :=
  { chunk with
    oldLines := chunk.oldLines.map fun _ => []
    newLines := chunk.newLines.map fun _ => [] }

/-- A hunk with its content texts erased. -/
def Hunk.blank : Hunk → Hunk
  | .addFile path _ => .addFile path []
  | .deleteFile path => .deleteFile path
  | .updateFile path movePath chunks => .updateFile path movePath (chunks.map (·.blank))

@[simp] lemma UpdateFileChunk.hasNoLines_blank : chunk.blank.hasNoLines = chunk.hasNoLines := by
  simp only [UpdateFileChunk.blank, UpdateFileChunk.hasNoLines, List.isEmpty_map]

@[simp] lemma UpdateFileChunk.isEndOfFile_blank : chunk.blank.isEndOfFile = chunk.isEndOfFile := rfl

lemma map_setLast {α β : Type} (f : α → β) (l : List α) (x : α) :
    (setLast l x).map f = setLast (l.map f) (f x) := by
  simp [setLast, List.map_dropLast]

/-- A list with a last element is its other elements and that one. -/
theorem eq_setLast_of_getLast? {α : Type} {l : List α} {x : α} (h : l.getLast? = some x) :
    l = l.dropLast ++ [x] := by
  obtain ⟨ys, rfl⟩ := List.getLast?_eq_some_iff.mp h
  simp

namespace StreamingPatchParser

/-- Two states that differ at most in the texts of the lines read. -/
structure SameShape (p q : StreamingPatchParser) : Prop where
  mode : p.mode = q.mode
  environmentId : p.environmentId = q.environmentId
  lineNumber : p.lineNumber = q.lineNumber
  hunks : p.hunks.map Hunk.blank = q.hunks.map Hunk.blank

variable {p p' q q' : StreamingPatchParser} {line trimmed : Text}

lemma SameShape.header (h : SameShape p q) (s : Text) : p.header s = q.header s := by
  unfold StreamingPatchParser.header
  rw [h.mode, h.lineNumber]

lemma SameShape.headerText (h : SameShape p q) (s : Text) : p.headerText s = q.headerText s := by
  unfold StreamingPatchParser.headerText
  rw [h.mode]

lemma SameShape.last (h : SameShape p q) :
    p.hunks.getLast?.map Hunk.blank = q.hunks.getLast?.map Hunk.blank := by
  rw [← List.getLast?_map, ← List.getLast?_map, h.hunks]

variable {l l' : Text} {effect : UpdateLine} {last : Option UpdateFileChunk}
  {movePath : Option PathBuf}

/-- The last hunk is an update hunk of the same path, move target and chunk shapes. -/
theorem SameShape.last_updateFile (h : SameShape p q) {path : PathBuf}
    {chunks : List UpdateFileChunk}
    (hp : p.hunks.getLast? = some (.updateFile path movePath chunks)) :
    ∃ chunks', q.hunks.getLast? = some (.updateFile path movePath chunks') ∧
      chunks.map (·.blank) = chunks'.map (·.blank) := by
  have hlast := h.last
  rw [hp] at hlast
  rcases hq : q.hunks.getLast? with _ | ⟨_ | _ | ⟨path', movePath', chunks'⟩⟩ <;>
    simp [hq, Hunk.blank] at hlast
  obtain ⟨rfl, rfl, hchunks⟩ := hlast
  exact ⟨chunks', rfl, hchunks⟩

lemma SameShape.last_addFile (h : SameShape p q) {path : PathBuf} {contents : Text}
    (hp : p.hunks.getLast? = some (.addFile path contents)) :
    ∃ contents', q.hunks.getLast? = some (.addFile path contents') := by
  have hlast := h.last
  rw [hp] at hlast
  rcases hq : q.hunks.getLast? with _ | ⟨⟨path', contents'⟩ | _ | _⟩ <;>
    simp [hq, Hunk.blank] at hlast
  exact ⟨contents', by rw [hlast]⟩

/-- The check at the end of an update hunk looks at the shape only. -/
theorem SameShape.ensureUpdateHunkIsNotEmpty (h : SameShape p q) (s : Text) :
    p.ensureUpdateHunkIsNotEmpty s = q.ensureUpdateHunkIsNotEmpty s := by
  have key : ∀ r : StreamingPatchParser, r.ensureUpdateHunkIsNotEmpty s =
      ({ r with hunks := r.hunks.map Hunk.blank } :
        StreamingPatchParser).ensureUpdateHunkIsNotEmpty s := by
    intro r
    unfold StreamingPatchParser.ensureUpdateHunkIsNotEmpty
    simp only [List.getLast?_map]
    rcases r.hunks.getLast? with _ | ⟨_ | _ | ⟨path, movePath, chunks⟩⟩
    · rfl
    · rfl
    · rfl
    · simp only [Option.map_some, Hunk.blank, List.getLast?_map]
      rcases chunks.getLast? with _ | chunk <;> simp
  rw [key p, key q, h.hunks]
  unfold StreamingPatchParser.ensureUpdateHunkIsNotEmpty
  simp only [h.mode, h.lineNumber]

/-- So does the reading of a line of an update hunk. -/
theorem readUpdateLine_blank (n : ℕ) (movePath : Option PathBuf) (last : Option UpdateFileChunk)
    (line : Text) :
    readUpdateLine n movePath (last.map (·.blank)) line = readUpdateLine n movePath last line := by
  cases last with
  | none => rfl
  | some chunk =>
    have hchange :
        readChangeLine n (some chunk.blank) line = readChangeLine n (some chunk) line := by
      simp [readChangeLine]
    simp [readUpdateLine, hchange]

/-! ### The lines a step adds -/

variable (p)

/-- The texts a successful step adds to the open hunk: one for a line of an added file, the old and
the new lines for a change line of an update hunk, none for any other line. -/
def contentOf (line : Text) : List Text :=
  match p.header (p.headerText line) with
  | some _ => []
  | none =>
    match p.mode, p.hunks.getLast? with
    | .addFile, some (.addFile _ _) =>
      match line with
      | '+' :: text => [text]
      | _ => []
    | .updateFile _, some (.updateFile _ movePath chunks) =>
      match readUpdateLine p.lineNumber movePath chunks.getLast? line with
      | .ok (.change old new) => old ++ new
      | _ => []
    | _, _ => []

/-- Carriage returns in a list of texts. -/
def crIn (ts : List Text) : ℕ := (ts.map (·.count '\r')).sum

/-- Carriage returns in the content of a hunk. -/
def hunkCr : Hunk → ℕ
  | .addFile _ contents => contents.count '\r'
  | .deleteFile _ => 0
  | .updateFile _ _ chunks => (chunks.map fun c => crIn (c.oldLines ++ c.newLines)).sum

/-- Carriage returns in the contents of all hunks read so far. -/
def crCount : ℕ := (p.hunks.map hunkCr).sum

variable {p}

@[simp] lemma crIn_append (ts us : List Text) : crIn (ts ++ us) = crIn ts + crIn us := by
  simp [crIn]

@[simp] lemma crIn_nil : crIn [] = 0 := rfl

lemma sum_map_setLast {α : Type} (f : α → ℕ) {l : List α} {x : α} (h : l.getLast? = some x)
    (y : α) : ((setLast l y).map f).sum + f x = (l.map f).sum + f y := by
  have hl : (l.map f).sum = (l.dropLast.map f).sum + f x := by
    conv_lhs => rw [eq_setLast_of_getLast? h]
    simp
  rw [hl]
  simp [setLast]
  omega

lemma hunkCr_of_header {hunk : Hunk} {mode : Mode}
    (h : p.header trimmed = some (.hunk hunk mode)) : hunkCr hunk = 0 ∧ hunk.blank = hunk := by
  unfold StreamingPatchParser.header at h
  split at h
  · simp at h
  · split_ifs at h
    · simp at h
    split at h
    · simp only [Option.some.injEq, Header.hunk.injEq] at h
      obtain ⟨rfl, -⟩ := h
      exact ⟨rfl, rfl⟩
    · split at h
      · simp only [Option.some.injEq, Header.hunk.injEq] at h
        obtain ⟨rfl, -⟩ := h
        exact ⟨rfl, rfl⟩
      · split at h
        · simp only [Option.some.injEq, Header.hunk.injEq] at h
          obtain ⟨rfl, -⟩ := h
          exact ⟨rfl, rfl⟩
        · cases h

/-- The returns a change line brings. -/
def UpdateLine.content : UpdateLine → List Text
  | .change old new => old ++ new
  | _ => []

lemma hunkCr_updateLine (path : PathBuf) (movePath movePath' : Option PathBuf)
    (chunks : List UpdateFileChunk) (effect : UpdateLine) :
    hunkCr (.updateFile path movePath' (effect.chunks chunks)) =
      hunkCr (.updateFile path movePath chunks) + crIn effect.content := by
  cases effect with
  | ignored => rfl
  | moveTo _ => rfl
  | openChunk _ => simp [hunkCr, UpdateLine.chunks, UpdateFileChunk.opened, UpdateLine.content]
  | endOfFile =>
    rcases hl : chunks.getLast? with _ | chunk
    · simp [hunkCr, UpdateLine.chunks, hl, UpdateLine.content]
    · have := sum_map_setLast (fun c : UpdateFileChunk => crIn (c.oldLines ++ c.newLines)) hl
        { chunk with isEndOfFile := true }
      simp only [hunkCr, UpdateLine.chunks, hl, UpdateLine.content, crIn_nil] at this ⊢
      omega
  | change old new =>
    rcases hl : chunks.getLast? with _ | chunk
    · have hnil : chunks = [] := List.getLast?_eq_none_iff.mp hl
      subst hnil
      simp [hunkCr, UpdateLine.chunks, UpdateLine.content, UpdateFileChunk.opened,
        UpdateFileChunk.push]
    · have := sum_map_setLast (fun c : UpdateFileChunk => crIn (c.oldLines ++ c.newLines)) hl
        (chunk.push old new)
      simp only [hunkCr, UpdateLine.chunks, hl, UpdateLine.content, UpdateFileChunk.push,
        crIn_append] at this ⊢
      omega

lemma contentOf_of_header {header : Header} (h : p.header (p.headerText line) = some header) :
    p.contentOf line = [] := by
  simp [contentOf, h]

/-- Outside an added file and an update hunk no line is content. -/
theorem contentOf_of_mode (ha : p.mode ≠ .addFile) (hu : ∀ n, p.mode ≠ .updateFile n) :
    p.contentOf line = [] := by
  unfold contentOf
  rcases hm : p.mode with _ | _ | _ | _ | n | _
  · split <;> rfl
  · split <;> rfl
  · exact absurd hm ha
  · split <;> rfl
  · exact absurd hm (hu n)
  · split <;> rfl

/-- **A step adds exactly its content.** -/
theorem crCount_of_processLine (h : p.processLine line = .ok p') :
    p'.crCount = p.crCount + crIn (p.contentOf line) := by
  rcases processLine_cases h with ⟨hm, -, rfl⟩ | ⟨-, -, hh⟩ | ⟨hm, hnone, text, path, contents,
    rfl, hlast, rfl⟩ | ⟨⟨n, hm⟩, hnone, path, movePath, chunks, effect, hlast, hr, rfl⟩ |
    ⟨hm, -, hp'⟩
  · rw [contentOf_of_mode (by simp [hm]) (by simp [hm])]
    rfl
  · rcases handleHunkHeadersAndEndPatch_cases hh with ⟨_, hhead, -, -, rfl⟩ | ⟨hhead, -, rfl⟩ |
      ⟨hunk, mode, hhead, -, rfl⟩
    · rw [contentOf_of_header hhead]
      rfl
    · rw [contentOf_of_header hhead]
      rfl
    · rw [contentOf_of_header hhead]
      simp [crCount, (hunkCr_of_header hhead).1]
  · have hsum := sum_map_setLast hunkCr hlast (.addFile path (contents ++ text ++ ['\n']))
    simp only [crCount, contentOf, hnone, hm, hlast, crIn, List.map_cons, List.map_nil,
      List.sum_cons, List.sum_nil] at hsum ⊢
    simp only [hunkCr, List.count_append] at hsum
    have : List.count '\r' ['\n'] = 0 := by decide
    omega
  · have hsum := sum_map_setLast hunkCr hlast
      (.updateFile path (effect.movePath movePath) (effect.chunks chunks))
    rw [hunkCr_updateLine path movePath] at hsum
    have hcontent : p.contentOf line = effect.content := by
      simp only [contentOf, hnone, hm, hlast, hr]
      cases effect <;> rfl
    simp only [crCount, hcontent] at hsum ⊢
    omega
  · rw [contentOf_of_mode (by simp [hm]) (by simp [hm]), hp']
    rfl

/-! ### Lines with one carriage return more -/

/-- `l` is `l'`, perhaps with one carriage return more at its end. -/
def CrRel (l l' : Text) : Prop := l = l' ∨ l = l' ++ ['\r']

lemma crRel_stripCr (l : Text) : CrRel l (stripCr l) := by
  unfold stripCr
  split_ifs with h
  · obtain ⟨ys, rfl⟩ := List.getLast?_eq_some_iff.mp h
    exact .inr (by simp)
  · exact .inl rfl

lemma CrRel.trim_eq (h : CrRel l l') : trim l = trim l' := by
  rcases h with rfl | rfl
  · rfl
  · exact trim_concat (by decide) l'

lemma CrRel.trimEnd_eq (h : CrRel l l') : trimEnd l = trimEnd l' := by
  rcases h with rfl | rfl
  · rfl
  · exact trimEnd_concat (by decide) l'

lemma CrRel.headerText (h : CrRel l l') (p : StreamingPatchParser) :
    p.headerText l = p.headerText l' := by
  unfold StreamingPatchParser.headerText
  rw [h.trim_eq, h.trimEnd_eq]

variable {n : ℕ}

/-- Read without the extra return, a change line has the same lines without it. -/
theorem readChangeLine_dropCr {l : Text} (h : readChangeLine n last (l ++ ['\r']) = .ok effect) :
    ∃ old new, readChangeLine n last l = .ok (.change old new) ∧
      effect = .change (old.map (· ++ ['\r'])) (new.map (· ++ ['\r'])) := by
  unfold readChangeLine at h ⊢
  split at h
  · rename_i hnil
    simp at hnil
  · rename_i text hl
    rcases l with _ | ⟨c, l⟩
    · simp at hl
    · cases hl
      cases h
      exact ⟨[l], [l], rfl, rfl⟩
  · rename_i text hl
    rcases l with _ | ⟨c, l⟩
    · simp at hl
    · cases hl
      cases h
      exact ⟨[], [l], rfl, rfl⟩
  · rename_i text hl
    rcases l with _ | ⟨c, l⟩
    · simp at hl
    · cases hl
      cases h
      exact ⟨[l], [], rfl, rfl⟩
  · split_ifs at h

/-- The effect of a line read with one carriage return more. -/
def UpdateLine.addCr : UpdateLine → UpdateLine
  | .change old new => .change (old.map (· ++ ['\r'])) (new.map (· ++ ['\r']))
  | effect => effect

/-- What is left of a line after `trim_end` decides how it is read: as a marker, which adds no
lines, as an error, or as a change line. -/
theorem readUpdateLine_of_trimEnd (n : ℕ) (movePath : Option PathBuf)
    (last : Option UpdateFileChunk) (u : Text) :
    (∃ effect : UpdateLine, effect.content = [] ∧ effect.addCr = effect ∧
      ∀ l, trimEnd l = u → readUpdateLine n movePath last l = .ok effect) ∨
    (∀ l, trimEnd l = u → ∃ e, readUpdateLine n movePath last l = .error e) ∨
    (∀ l, trimEnd l = u → readUpdateLine n movePath last l = readChangeLine n last l) := by
  unfold readUpdateLine
  by_cases h1 : (last.any (·.isEndOfFile) && u.isEmpty) = true
  · refine .inl ⟨.ignored, rfl, rfl, ?_⟩
    rintro l rfl
    rw [if_pos h1]
  by_cases h2 : (last.any (·.isEndOfFile) && !isChangeContext u) = true
  · refine .inr (.inl ?_)
    rintro l rfl
    exact ⟨_, by rw [if_neg h1, if_pos h2]⟩
  rcases h3 : (if last.isNone && movePath.isNone then stripPrefix moveToMarker u else none) with
    _ | path
  swap
  · refine .inl ⟨.moveTo path, rfl, rfl, ?_⟩
    rintro l rfl
    rw [if_neg h1, if_neg h2, h3]
  by_cases h4 : (isChangeContext u && last.any (·.hasNoLines)) = true
  · refine .inr (.inl ?_)
    rintro l rfl
    exact ⟨_, by rw [if_neg h1, if_neg h2, h3]; exact if_pos h4⟩
  by_cases h5 : u = emptyChangeContextMarker
  · refine .inl ⟨.openChunk none, rfl, rfl, ?_⟩
    rintro l rfl
    simp only [h1, h2, h3, h4, if_false, if_pos h5, Bool.false_eq_true]
  rcases h6 : stripPrefix changeContextMarker u with _ | context
  swap
  · refine .inl ⟨.openChunk (some context), rfl, rfl, ?_⟩
    rintro l rfl
    simp only [h1, h2, h3, h4, h5, h6, if_false, Bool.false_eq_true]
  by_cases h7 : u = eofMarker
  · by_cases h8 : last.any (·.hasNoLines) = true
    · refine .inr (.inl ?_)
      rintro l rfl
      refine ⟨.invalidHunkError noLinesMessage n, ?_⟩
      simp only [h1, h2, h3, h4, h5, h6, if_false, if_pos h7, Bool.false_eq_true]
      exact if_pos h8
    · refine .inl ⟨.endOfFile, rfl, rfl, ?_⟩
      rintro l rfl
      simp only [h1, h2, h3, h4, h5, h6, if_false, if_pos h7, Bool.false_eq_true]
      exact if_neg h8
  · refine .inr (.inr ?_)
    rintro l rfl
    simp only [h1, h2, h3, h4, h5, h6, h7, if_false, Bool.false_eq_true]

/-- A line of an update hunk that reads with the extra return reads without it; only a change line
shows the difference. -/
theorem readUpdateLine_dropCr {l : Text}
    (h : readUpdateLine n movePath last (l ++ ['\r']) = .ok effect) :
    ∃ effect', readUpdateLine n movePath last l = .ok effect' ∧ effect = effect'.addCr := by
  have htrim : trimEnd (l ++ ['\r']) = trimEnd l := trimEnd_concat (by decide) l
  rcases readUpdateLine_of_trimEnd n movePath last (trimEnd l) with
    ⟨marker, -, hcr, hread⟩ | herror | hchange
  · have heq : effect = marker := by simpa [hread _ htrim] using h.symm
    exact ⟨marker, hread l rfl, heq.trans hcr.symm⟩
  · obtain ⟨e, he⟩ := herror _ htrim
    simp [he] at h
  · rw [hchange _ htrim] at h
    obtain ⟨old, new, hr, rfl⟩ := readChangeLine_dropCr h
    exact ⟨.change old new, by rw [hchange l rfl, hr], rfl⟩

lemma readChangeLine_content {l : Text} (h : readChangeLine n last l = .ok effect) :
    effect.content ≠ [] := by
  unfold readChangeLine at h
  split at h
  · cases h
    simp [UpdateLine.content]
  · cases h
    simp [UpdateLine.content]
  · cases h
    simp [UpdateLine.content]
  · cases h
    simp [UpdateLine.content]
  · split_ifs at h

/-- Conversely, a line that is not a change line reads the same with a return more. -/
theorem readUpdateLine_addCr {l : Text} (h : readUpdateLine n movePath last l = .ok effect)
    (hc : effect.content = []) : readUpdateLine n movePath last (l ++ ['\r']) = .ok effect := by
  have htrim : trimEnd (l ++ ['\r']) = trimEnd l := trimEnd_concat (by decide) l
  rcases readUpdateLine_of_trimEnd n movePath last (trimEnd l) with
    ⟨marker, -, -, hread⟩ | herror | hchange
  · rw [hread l rfl] at h
    rw [hread _ htrim, h]
  · obtain ⟨e, he⟩ := herror l rfl
    simp [he] at h
  · rw [hchange l rfl] at h
    exact absurd hc (readChangeLine_content h)

/-! ### Two runs side by side -/

/-- An effect with its line texts erased. -/
def UpdateLine.blank : UpdateLine → UpdateLine
  | .change old new => .change (old.map fun _ => []) (new.map fun _ => [])
  | effect => effect

variable (effect)

@[simp] lemma UpdateLine.blank_addCr : effect.addCr.blank = effect.blank := by
  cases effect with
  | change old new =>
      simp only [UpdateLine.addCr, UpdateLine.blank, List.map_map, Function.comp_def]
  | _ => rfl

@[simp] lemma UpdateLine.movePath_blank (movePath : Option PathBuf) :
    effect.blank.movePath movePath = effect.movePath movePath := by
  cases effect <;> rfl

/-- The shape of the chunks after a line follows from the shapes before it. -/
theorem UpdateLine.chunks_blank (chunks : List UpdateFileChunk) :
    (effect.chunks chunks).map (·.blank) = effect.blank.chunks (chunks.map (·.blank)) := by
  cases effect with
  | ignored => rfl
  | moveTo _ => rfl
  | openChunk context => simp [UpdateLine.chunks, UpdateLine.blank, UpdateFileChunk.blank,
      UpdateFileChunk.opened]
  | endOfFile =>
    simp only [UpdateLine.chunks, UpdateLine.blank, List.getLast?_map]
    rcases chunks.getLast? with _ | chunk
    · rfl
    · simp [map_setLast, UpdateFileChunk.blank]
  | change old new =>
    simp only [UpdateLine.chunks, UpdateLine.blank, List.getLast?_map]
    rcases chunks.getLast? with _ | chunk
    · simp [UpdateFileChunk.blank, UpdateFileChunk.push, UpdateFileChunk.opened]
    · simp [map_setLast, UpdateFileChunk.blank, UpdateFileChunk.push]

lemma SameShape.handleHunkHeadersAndEndPatch (hs : SameShape p q)
    (h : p.handleHunkHeadersAndEndPatch trimmed = .ok (some p')) :
    ∃ q', q.handleHunkHeadersAndEndPatch trimmed = .ok (some q') ∧ SameShape p' q' := by
  have hcheck := hs.ensureUpdateHunkIsNotEmpty trimmed
  unfold StreamingPatchParser.handleHunkHeadersAndEndPatch
  rcases handleHunkHeadersAndEndPatch_cases h with ⟨text, hhead, henv, htext, rfl⟩ |
    ⟨hhead, he, rfl⟩ | ⟨hunk, mode, hhead, he, rfl⟩
  · refine ⟨{ q with environmentId := some (trim text) }, ?_, ⟨hs.mode, rfl, hs.lineNumber,
      hs.hunks⟩⟩
    have henv' : q.environmentId = none := by rw [← hs.environmentId, henv]
    simp [← hs.header, hhead, henv', htext]
  · refine ⟨{ q with mode := .endedPatch }, ?_, ⟨rfl, hs.environmentId, hs.lineNumber, hs.hunks⟩⟩
    simp [← hs.header, hhead, ← hcheck, he]
  · refine ⟨{ q with hunks := q.hunks ++ [hunk], mode := mode }, ?_,
      ⟨rfl, hs.environmentId, hs.lineNumber, by simp [hs.hunks]⟩⟩
    simp [← hs.header, hhead, ← hcheck, he]

/-- The lines `ts` added for `l` against the lines `ts'` added for `l'`. -/
def ContentRel (l l' : Text) (ts ts' : List Text) : Prop :=
  (l = l' ∧ ts = ts') ∨ (l = l' ++ ['\r'] ∧ ts = ts'.map (· ++ ['\r']))

lemma ContentRel.nil (hl : CrRel l l') : ContentRel l l' [] [] := by
  rcases hl with rfl | rfl
  · exact .inl ⟨rfl, rfl⟩
  · exact .inr ⟨rfl, rfl⟩

lemma content_addCr : effect.addCr.content = effect.content.map (· ++ ['\r']) := by
  cases effect <;> simp [UpdateLine.addCr, UpdateLine.content]

variable {effect}

variable (hs : SameShape p q)
include hs

variable (hl : CrRel l l')
include hl

lemma SameShape.header_eq : q.header (q.headerText l') = p.header (p.headerText l) := by
  rw [hl.headerText p, hs.headerText, hs.header]

lemma addedLine_sim (hm : p.mode = .addFile)
    (hnone : p.header (p.headerText l) = none) (h : p.AddedLine l p') :
    ∃ q', q.processLine l' = .ok q' ∧ SameShape p' q' ∧
      ContentRel l l' (p.contentOf l) (q.contentOf l') := by
  have hhead := hs.header_eq hl
  obtain ⟨text, path, contents, rfl, hlast, rfl⟩ := h
  obtain ⟨contents', hlast'⟩ := hs.last_addFile hlast
  have hmq : q.mode = .addFile := by rw [← hs.mode, hm]
  -- the extra return cannot be the `+` itself
  obtain ⟨text', rfl, htext⟩ : ∃ text', l' = '+' :: text' ∧ (text = text' ∨
      text = text' ++ ['\r']) := by
    rcases hl with rfl | hl
    · exact ⟨text, rfl, .inl rfl⟩
    · rcases l' with _ | ⟨c, l'⟩
      · simp at hl
      · cases hl
        exact ⟨l', rfl, .inr rfl⟩
  refine ⟨{ q with hunks := setLast q.hunks (.addFile path (contents' ++ text' ++ ['\n'])) },
    processLine_of_addedLine hmq (hhead.trans hnone)
      ⟨text', path, contents', rfl, hlast', rfl⟩, ⟨hs.mode, hs.environmentId, hs.lineNumber, ?_⟩,
    ?_⟩
  · simp [map_setLast, hs.hunks, Hunk.blank]
  · simp only [contentOf, hnone, hhead.trans hnone, hm, hmq, hlast, hlast']
    rcases htext with rfl | rfl
    · exact .inl ⟨rfl, rfl⟩
    · exact .inr ⟨rfl, rfl⟩

lemma updatedBy_sim (hm : p.mode = .updateFile n)
    (hnone : p.header (p.headerText l) = none) (h : p.UpdatedBy l p') :
    ∃ q', q.processLine l' = .ok q' ∧ SameShape p' q' ∧
      ContentRel l l' (p.contentOf l) (q.contentOf l') := by
  have hhead := hs.header_eq hl
  obtain ⟨path, movePath, chunks, effect, hlast, hr, rfl⟩ := h
  obtain ⟨chunks', hlast', hchunks⟩ := hs.last_updateFile hlast
  have hmq : q.mode = .updateFile n := by rw [← hs.mode, hm]
  have hread : ∀ s, readUpdateLine q.lineNumber movePath chunks'.getLast? s =
      readUpdateLine p.lineNumber movePath chunks.getLast? s := by
    intro s
    rw [← readUpdateLine_blank, ← readUpdateLine_blank p.lineNumber, ← List.getLast?_map,
      ← List.getLast?_map, hchunks, hs.lineNumber]
  -- the same effect, up to the returns of its lines
  obtain ⟨effect', hr', heffect⟩ : ∃ effect',
      readUpdateLine p.lineNumber movePath chunks.getLast? l' = .ok effect' ∧
      (l = l' ∧ effect = effect' ∨ l = l' ++ ['\r'] ∧ effect = effect'.addCr) := by
    rcases hl with rfl | rfl
    · exact ⟨effect, hr, .inl ⟨rfl, rfl⟩⟩
    · obtain ⟨effect', hr', heq⟩ := readUpdateLine_dropCr hr
      exact ⟨effect', hr', .inr ⟨rfl, heq⟩⟩
  have hblank : effect.blank = effect'.blank := by
    rcases heffect with ⟨-, rfl⟩ | ⟨-, rfl⟩ <;> simp
  refine ⟨{ q with
    hunks := setLast q.hunks
      (.updateFile path (effect'.movePath movePath) (effect'.chunks chunks')) },
    processLine_of_updatedBy hmq (hhead.trans hnone)
      ⟨path, movePath, chunks', effect', hlast', (hread l').trans hr', rfl⟩,
    ⟨hs.mode, hs.environmentId, hs.lineNumber, ?_⟩, ?_⟩
  · simp only [map_setLast, hs.hunks, Hunk.blank, UpdateLine.chunks_blank, hblank, hchunks,
      ← UpdateLine.movePath_blank effect, ← UpdateLine.movePath_blank effect']
  · have hc : p.contentOf l = effect.content := by
      simp only [contentOf, hnone, hm, hlast, hr]
      cases effect <;> rfl
    have hc' : q.contentOf l' = effect'.content := by
      simp only [contentOf, hhead.trans hnone, hmq, hlast', (hread l').trans hr']
      cases effect' <;> rfl
    rw [hc, hc']
    rcases heffect with ⟨rfl, rfl⟩ | ⟨rfl, rfl⟩
    · exact .inl ⟨rfl, rfl⟩
    · exact .inr ⟨rfl, content_addCr effect'⟩

/-- **One step.** Where the line with the extra return is accepted, so is the line without it, in
any state of the same shape. -/
theorem processLine_sim (h : p.processLine l = .ok p') :
    ∃ q', q.processLine l' = .ok q' ∧ SameShape p' q' ∧
      ContentRel l l' (p.contentOf l) (q.contentOf l') := by
  rcases processLine_cases h with ⟨hm, ht, rfl⟩ | ⟨hn, he, hh⟩ | ⟨hm, hnone, hadded⟩ |
    ⟨⟨n, hm⟩, hnone, hupdated⟩ | ⟨hm, ht, rfl⟩
  · have hmq : q.mode = .notStarted := by rw [← hs.mode, hm]
    refine ⟨{ q with mode := .startedPatch }, ?_,
      ⟨rfl, hs.environmentId, hs.lineNumber, hs.hunks⟩, ?_⟩
    · rw [hl.trim_eq] at ht
      simp [processLine, hmq, ht]
    · rw [contentOf_of_mode (by simp [hm]) (by simp [hm]),
        contentOf_of_mode (by simp [hmq]) (by simp [hmq])]
      exact .nil hl
  · obtain ⟨q', hq', hs'⟩ := hs.handleHunkHeadersAndEndPatch hh
    refine ⟨q', processLine_of_header (hs.mode ▸ hn) (hs.mode ▸ he) ?_, hs', ?_⟩
    · rwa [← hs.headerText, ← hl.headerText]
    · rcases hp : p.header (p.headerText l) with _ | header
      · simp [← handleHunkHeadersAndEndPatch_eq_none, hh] at hp
      · rw [contentOf_of_header hp, contentOf_of_header ((hs.header_eq hl).trans hp)]
        exact .nil hl
  · exact addedLine_sim hs hl hm hnone hadded
  · exact updatedBy_sim hs hl hm hnone hupdated
  · have hmq : q.mode = .endedPatch := by rw [← hs.mode, hm]
    refine ⟨q, ?_, hs, ?_⟩
    · rw [hl.trim_eq] at ht
      simp [processLine, hmq, ht]
    · rw [contentOf_of_mode (by simp [hm]) (by simp [hm]),
        contentOf_of_mode (by simp [hmq]) (by simp [hmq])]
      exact .nil hl

omit hl

omit hs

/-- A line that is not content is read the same with one return more. -/
theorem processLine_addCr {l : Text} (h : p.processLine l = .ok p') (hc : p.contentOf l = []) :
    p.processLine (l ++ ['\r']) = .ok p' := by
  have hl : CrRel (l ++ ['\r']) l := .inr rfl
  have hhead : p.headerText (l ++ ['\r']) = p.headerText l := hl.headerText p
  rcases processLine_cases h with ⟨hm, ht, rfl⟩ | ⟨hn, he, hh⟩ | ⟨hm, hnone, text, path, contents,
    rfl, hlast, rfl⟩ | ⟨⟨n, hm⟩, hnone, path, movePath, chunks, effect, hlast, hr, rfl⟩ |
    ⟨hm, ht, hp'⟩
  · rw [← hl.trim_eq] at ht
    simp [processLine, hm, ht]
  · exact processLine_of_header hn he (by rwa [hhead])
  · simp [contentOf, hnone, hm, hlast] at hc
  · have hcontent : effect.content = [] := by
      simp only [contentOf, hnone, hm, hlast, hr] at hc
      cases effect with
      | change old new => exact hc
      | _ => rfl
    exact processLine_of_updatedBy hm (by rwa [hhead])
      ⟨path, movePath, chunks, effect, hlast, readUpdateLine_addCr hr hcontent, rfl⟩
  · rw [← hl.trim_eq] at ht
    simp [processLine, hm, ht, hp']

end StreamingPatchParser

end Codex.ApplyPatch
