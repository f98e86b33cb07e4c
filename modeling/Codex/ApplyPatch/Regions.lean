import Codex.ApplyPatch.SeekSequence
import Codex.Lib.Splice

/-!
# The regions of an update

`compute_replacements` gives one region of the file for each chunk, and `apply_replacements` edits
in place from the last region to the first.

* `applyReplacements_eq_splice`: **regions that follow one another are spliced from left to right**,
  and no index of an accepted update is out of range;
* `nothingLost_iff`: **no chunk of an accepted update is lost exactly where the branches that ignore
  the cursor keep clear of the earlier chunks**;
* `nothingLost_fails`: a chunk at the end of the file is put into the region of an earlier one.
-/

namespace Codex.ApplyPatch

open Codex.Lib

variable {ls : List Text} {path : Text}

/-! ### Editing in place -/

variable (r : Replacement)

/-- A replacement as an edit of the lines. -/
def Replacement.edit : Edit Text := ⟨r.startIndex, r.oldLen, r.newLines⟩

/-- The end of the region. -/
def Replacement.stop : ℕ := r.startIndex + r.oldLen

lemma removeLines_eq (startIdx n : ℕ) (ls : List Text) :
    removeLines startIdx n ls = ls.take startIdx ++ ls.drop (startIdx + n) := by
  induction n generalizing ls with
  | zero => simp [removeLines]
  | succ n ih =>
    rw [removeLines, ih]
    by_cases h : startIdx < ls.length
    · have hlength : (ls.take startIdx).length = startIdx := by simpa using h.le
      rw [if_pos h, List.eraseIdx_eq_take_drop_succ, List.take_left' hlength,
        List.drop_append, hlength, Nat.add_sub_cancel_left, List.drop_drop,
        List.drop_of_length_le (by omega), List.nil_append]
      congr 2
      omega
    · rw [if_neg h, List.drop_of_length_le (by omega), List.drop_of_length_le (by omega)]

lemma insertIdx_eq_append {idx : ℕ} (hidx : idx ≤ ls.length) (line : Text) :
    ls.insertIdx idx line = ls.take idx ++ line :: ls.drop idx := by
  induction ls generalizing idx with
  | nil =>
    obtain rfl : idx = 0 := by simpa using hidx
    rfl
  | cons first ls ih =>
    cases idx with
    | zero => rfl
    | succ idx => simp [ih (by simpa using hidx)]

lemma insertLines_eq (newLines : List Text) {idx : ℕ} (hidx : idx ≤ ls.length) :
    insertLines idx newLines ls = ls.take idx ++ newLines ++ ls.drop idx := by
  induction newLines generalizing idx ls with
  | nil => simp [insertLines]
  | cons newLine rest ih =>
    have hlength : (ls.take idx ++ [newLine]).length = idx + 1 := by simpa using hidx
    have hinsert : ls.insertIdx idx newLine = (ls.take idx ++ [newLine]) ++ ls.drop idx := by
      rw [insertIdx_eq_append hidx, List.append_assoc]
      rfl
    have hle : idx + 1 ≤ (ls.insertIdx idx newLine).length := by
      rw [List.length_insertIdx_of_le_length hidx]
      omega
    rw [insertLines, ih hle, hinsert, List.take_left' hlength, List.drop_left' hlength]
    simp

/-- One turn of the loop is the edit, where its start is in range. -/
theorem replace_eq_apply (hstart : r.startIndex ≤ ls.length) :
    insertLines r.startIndex r.newLines (removeLines r.startIndex r.oldLen ls) =
      r.edit.apply ls := by
  have hlength : (ls.take r.startIndex).length = r.startIndex := by simpa using hstart
  rw [insertLines_eq _ (by rw [removeLines_eq]; simp; omega), removeLines_eq,
    List.take_left' hlength, List.drop_left' hlength]
  rfl

/-! ### Indices -/

/-- `Vec::remove`; `none` where it panics. -/
def vecRemove (ls : List Text) (idx : ℕ) : Option (List Text) :=
  if idx < ls.length then some (ls.eraseIdx idx) else none

/-- `Vec::insert`; `none` where it panics. -/
def vecInsert (ls : List Text) (idx : ℕ) (line : Text) : Option (List Text) :=
  if idx ≤ ls.length then some (ls.insertIdx idx line) else none

/-- `removeLines` with its panics. -/
def removeLines? (startIdx : ℕ) : ℕ → List Text → Option (List Text)
  | 0, ls => some ls
  | n + 1, ls => do
      let ls ← if startIdx < ls.length then vecRemove ls startIdx else some ls
      removeLines? startIdx n ls

/-- `insertLines` with its panics. -/
def insertLines? : ℕ → List Text → List Text → Option (List Text)
  | _, [], ls => some ls
  | idx, newLine :: rest, ls => do
      let ls ← vecInsert ls idx newLine
      insertLines? (idx + 1) rest ls

/-- `applyReplacements` with its panics. -/
def applyReplacements? (ls : List Text) (replacements : List Replacement) : Option (List Text) :=
  replacements.reverse.foldlM
    (fun ls r =>
      (removeLines? r.startIndex r.oldLen ls).bind (insertLines? r.startIndex r.newLines))
    ls

lemma removeLines?_eq (startIdx n : ℕ) (ls : List Text) :
    removeLines? startIdx n ls = some (removeLines startIdx n ls) := by
  induction n generalizing ls with
  | zero => rfl
  | succ n ih =>
    rw [removeLines?, removeLines, vecRemove]
    by_cases h : startIdx < ls.length
    · simp only [if_pos h, Option.bind_eq_bind, Option.bind_some, ih]
    · simp only [if_neg h, Option.bind_eq_bind, Option.bind_some, ih]

lemma insertLines?_eq (newLines : List Text) {idx : ℕ} (hidx : idx ≤ ls.length) :
    insertLines? idx newLines ls = some (insertLines idx newLines ls) := by
  induction newLines generalizing idx ls with
  | nil => rfl
  | cons newLine rest ih =>
    have hlength : idx + 1 ≤ (ls.insertIdx idx newLine).length := by
      rw [List.length_insertIdx_of_le_length hidx]
      omega
    rw [insertLines?, insertLines, vecInsert, if_pos hidx]
    exact ih hlength

/-- One turn of the loop does not panic, where the start is in range. -/
theorem replace?_eq (hstart : r.startIndex ≤ ls.length) :
    (removeLines? r.startIndex r.oldLen ls).bind (insertLines? r.startIndex r.newLines) =
      some (r.edit.apply ls) := by
  have hle : r.startIndex ≤ (removeLines r.startIndex r.oldLen ls).length := by
    rw [removeLines_eq]
    simp
    omega
  rw [removeLines?_eq, Option.bind_some, insertLines?_eq _ hle, replace_eq_apply r hstart]

variable {rs : List Replacement}

/-- The loop edits from the last replacement to the first and never panics, where the replacements
are sorted by start and start within the lines. -/
theorem applyReplacements?_eq (hsorted : rs.Pairwise fun a b => a.startIndex ≤ b.startIndex)
    (hstart : ∀ r ∈ rs, r.startIndex ≤ ls.length) :
    applyReplacements ls rs = applyAll (rs.map Replacement.edit) ls ∧
      applyReplacements? ls rs = some (applyReplacements ls rs) ∧
      ∀ n ≤ ls.length, (∀ r ∈ rs, n ≤ r.startIndex) → n ≤ (applyReplacements ls rs).length := by
  induction rs with
  | nil => exact ⟨rfl, rfl, fun n hn _ => hn⟩
  | cons r rs ih =>
    obtain ⟨hfirst, hrest⟩ := List.pairwise_cons.mp hsorted
    have hr : r.startIndex ≤ ls.length := hstart r List.mem_cons_self
    obtain ⟨hall, hsome, hkept⟩ := ih hrest fun b hb => hstart b (List.mem_cons_of_mem _ hb)
    have hle : r.startIndex ≤ (applyReplacements ls rs).length := hkept _ hr hfirst
    have hcons : applyReplacements ls (r :: rs) = r.edit.apply (applyReplacements ls rs) := by
      rw [← replace_eq_apply r hle]
      simp [applyReplacements]
    refine ⟨?_, ?_, ?_⟩
    · rw [hcons, hall]
      rfl
    · rw [hcons, ← replace?_eq r hle]
      simp only [applyReplacements?, List.reverse_cons, List.foldlM_append] at hsome ⊢
      rw [hsome]
      simp
    · intro n _ hn
      have hnr : n ≤ r.startIndex := hn r List.mem_cons_self
      rw [hcons, Edit.apply]
      simp [Replacement.edit]
      omega

/-! ### Where a chunk is put -/

def insertionIdx (ls : List Text) : ℕ := if endsWithEmptyLine ls then ls.length - 1 else ls.length

lemma insertionIdx_le : insertionIdx ls ≤ ls.length := by
  unfold insertionIdx
  split <;> omega

lemma length_le_insertionIdx_succ : ls.length ≤ insertionIdx ls + 1 := by
  unfold insertionIdx
  split <;> omega

variable (chunk : UpdateFileChunk)

/-- A chunk without old lines. -/
def UpdateFileChunk.isAddition : Bool := chunk.oldLines.isEmpty

/-- The old and new lines that are looked for and written: those of the chunk, or both without the
empty line at the end that stands for the final newline. -/
def UpdateFileChunk.Writes (pattern written : List Text) : Prop :=
  (pattern = chunk.oldLines ∧ written = chunk.newLines) ∨
    (endsWithEmptyLine chunk.oldLines = true ∧ pattern = chunk.oldLines.dropLast ∧
      written = if endsWithEmptyLine chunk.newLines then chunk.newLines.dropLast
        else chunk.newLines)

/-- What `seekSequence` finds lies between the start and the end of the lines; only a pattern with
lines and `eof` is put before the start, at the end of the lines. -/
theorem seekSequence_bounded {pattern : List Text} {start i : ℕ} {eof : Bool}
    (h : seekSequence ls pattern start eof = some i) (hstart : start ≤ ls.length) :
    i + pattern.length ≤ ls.length ∧ (pattern = [] → i = start) ∧ (eof = false → start ≤ i) ∧
      (pattern ≠ [] → eof = true → i + pattern.length = ls.length) := by
  by_cases hne : pattern = []
  · subst hne
    obtain rfl : start = i := by simpa [seekSequence] using h
    simpa using hstart
  · have hspec : FoundFrom seekViews ls pattern (if eof then ls.length - pattern.length else start)
        (seekSequence ls pattern start eof) := seekSequence_spec hne eof
    rw [h] at hspec
    obtain ⟨-, view, -, -, -, ⟨hi, hmatch⟩, -⟩ := hspec
    have hbound := hmatch.bounded hne
    refine ⟨hbound, fun hnil => absurd hnil hne, ?_, ?_⟩
    · rintro rfl
      simpa using hi
    · rintro - rfl
      simp only [if_true] at hi
      omega

variable {chunk : UpdateFileChunk}

lemma seekContext_bounded {lineIndex cursor : ℕ}
    (h : seekContext ls path chunk lineIndex = .ok cursor) (hline : lineIndex ≤ ls.length) :
    lineIndex ≤ cursor ∧ cursor ≤ ls.length := by
  unfold seekContext at h
  split at h
  · obtain rfl : lineIndex = cursor := by simpa using h
    exact ⟨le_rfl, hline⟩
  · split at h
    · rename_i context _ idx hidx
      obtain rfl : idx + 1 = cursor := by simpa using h
      obtain ⟨hbound, -, hafter, -⟩ := seekSequence_bounded hidx hline
      have hstart := hafter rfl
      simp only [List.length_singleton] at hbound
      omega
    · simp at h

/-- Where the search for lines starts: at the cursor, or where they would end the file.
Source: `search_start` of `seek_sequence` -/
def searchStart (ls pattern : List Text) (cursor : ℕ) (eof : Bool) : ℕ :=
  if eof then ls.length - pattern.length else cursor

/-- The lines a chunk looks for from the cursor on: its old lines, and where no pass finds them the
same without an empty line at the end. -/
def UpdateFileChunk.LooksFor (ls : List Text) (chunk : UpdateFileChunk) (cursor : ℕ)
    (pattern : List Text) : Prop :=
  pattern = chunk.oldLines ∨
    FoundFrom seekViews ls chunk.oldLines
        (searchStart ls chunk.oldLines cursor chunk.isEndOfFile) none ∧
      endsWithEmptyLine chunk.oldLines = true ∧ pattern = chunk.oldLines.dropLast

/-- A region that was found for the lines `pattern`, from the cursor `cursor` on: where it lies and
the cursor after it. -/
structure FoundRegion (ls : List Text) (chunk : UpdateFileChunk) (cursor : ℕ)
    (pattern : List Text) (r : Replacement) (next : ℕ) : Prop where
  writes : chunk.Writes pattern r.newLines
  looksFor : chunk.LooksFor ls cursor pattern
  found : pattern ≠ [] → FoundFrom seekViews ls pattern
    (searchStart ls pattern cursor chunk.isEndOfFile) (some r.startIndex)
  oldLen_eq : r.oldLen = pattern.length
  next_eq : next = r.stop
  bounded : r.stop ≤ ls.length
  unmoved : r.oldLen = 0 → r.startIndex = cursor
  forward : chunk.isEndOfFile = false → cursor ≤ r.startIndex
  atEnd : r.oldLen ≠ 0 → chunk.isEndOfFile = true → r.stop = ls.length

lemma foundRegion_of_seek {pattern written : List Text} {cursor startIdx : ℕ}
    (hcursor : cursor ≤ ls.length) (hwrites : chunk.Writes pattern written)
    (hlooks : chunk.LooksFor ls cursor pattern)
    (h : seekSequence ls pattern cursor chunk.isEndOfFile = some startIdx) :
    FoundRegion ls chunk cursor pattern ⟨startIdx, pattern.length, written⟩
      (startIdx + pattern.length) := by
  obtain ⟨hbound, hunmoved, hforward, hend⟩ := seekSequence_bounded h hcursor
  refine ⟨hwrites, hlooks, ?_, rfl, rfl, hbound, ?_, hforward, ?_⟩
  · intro hne
    have hspec : FoundFrom seekViews ls pattern (searchStart ls pattern cursor chunk.isEndOfFile)
        (seekSequence ls pattern cursor chunk.isEndOfFile) := seekSequence_spec hne _
    rwa [h] at hspec
  · intro hzero
    exact hunmoved (List.length_eq_zero_iff.mp hzero)
  · intro hne heof
    exact hend (fun hnil => hne (by simp [hnil])) heof

/-- **Where a chunk is put**: an addition at the end of the file, with the cursor where the context
leaves it; else a region that was found. -/
theorem chunkReplacement_cases {lineIndex next : ℕ} {r : Replacement}
    (h : chunkReplacement ls path chunk lineIndex = .ok (r, next)) (hline : lineIndex ≤ ls.length) :
    ∃ cursor, seekContext ls path chunk lineIndex = .ok cursor ∧ lineIndex ≤ cursor ∧
      cursor ≤ ls.length ∧
      ((chunk.isAddition = true ∧ r = ⟨insertionIdx ls, 0, chunk.newLines⟩ ∧ next = cursor) ∨
        chunk.isAddition = false ∧ ∃ pattern, FoundRegion ls chunk cursor pattern r next) := by
  unfold chunkReplacement at h
  obtain ⟨cursor, hcontext, h⟩ := bind_eq_ok.mp h
  obtain ⟨hle, hcursor⟩ := seekContext_bounded hcontext hline
  refine ⟨cursor, hcontext, hle, hcursor, ?_⟩
  by_cases hadd : chunk.oldLines.isEmpty = true
  · rw [if_pos hadd] at h
    obtain ⟨rfl, rfl⟩ : (⟨insertionIdx ls, 0, chunk.newLines⟩ : Replacement) = r ∧
      cursor = next := by
      simpa [insertionIdx, Pure.pure, Except.pure] using h
    exact .inl ⟨hadd, rfl, rfl⟩
  · refine .inr ⟨by simpa [UpdateFileChunk.isAddition] using hadd, ?_⟩
    rw [if_neg hadd] at h
    split at h
    · rename_i startIdx hseek
      obtain ⟨rfl, rfl⟩ : (⟨startIdx, chunk.oldLines.length, chunk.newLines⟩ : Replacement) = r ∧
          startIdx + chunk.oldLines.length = next := by simpa [Pure.pure, Except.pure] using h
      exact ⟨_, foundRegion_of_seek hcursor (.inl ⟨rfl, rfl⟩) (.inl rfl) hseek⟩
    · rename_i hnone
      by_cases hempty : endsWithEmptyLine chunk.oldLines = true
      · simp only [if_pos hempty] at h
        have hnot : FoundFrom seekViews ls chunk.oldLines
            (searchStart ls chunk.oldLines cursor chunk.isEndOfFile)
            (seekSequence ls chunk.oldLines cursor chunk.isEndOfFile) :=
          seekSequence_spec (by simpa using hadd) _
        rw [hnone] at hnot
        cases hseek : seekSequence ls chunk.oldLines.dropLast cursor chunk.isEndOfFile with
        | none => simp [hseek] at h
        | some startIdx =>
          simp only [hseek, Pure.pure, Except.pure, Except.ok.injEq, Prod.mk.injEq] at h
          obtain ⟨rfl, rfl⟩ := h
          exact ⟨_, foundRegion_of_seek hcursor (.inr ⟨hempty, rfl, rfl⟩)
            (.inr ⟨hnot, hempty, rfl⟩) hseek⟩
      · simp [hempty] at h

/-! ### What an accepted update keeps -/

/-- The lines that a chunk writes are in the new lines of the file. -/
def UpdateFileChunk.KeptIn (chunk : UpdateFileChunk) (newLines : List Text) : Prop :=
  ∃ pattern written, chunk.Writes pattern written ∧ written <:+: newLines

/-- The regions lie within the file, sorted by start, none starts before the one before it ends, and
what each chunk writes is in the result. -/
structure NothingLost (ls : List Text) (chunks : List UpdateFileChunk) (rs : List Replacement) :
    Prop where
  bounded : ∀ r ∈ rs, r.stop ≤ ls.length
  sorted : rs.Pairwise fun a b => a.startIndex ≤ b.startIndex
  disjoint : rs.Pairwise fun a b => a.stop ≤ b.startIndex
  kept : ∀ chunk ∈ chunks, chunk.KeptIn (applyReplacements ls rs)

/-- The chunk takes the last lines of the file, as many as `pattern` has: an end-of-file chunk where
they match there, another one where the first match from the cursor on is there. -/
def UpdateFileChunk.TakesLast (ls : List Text) (chunk : UpdateFileChunk) (cursor : ℕ)
    (pattern : List Text) : Prop :=
  chunk.LooksFor ls cursor pattern ∧
    FoundFrom seekViews ls pattern (searchStart ls pattern cursor chunk.isEndOfFile)
      (some (ls.length - pattern.length))

/-- There is room for the chunk after the regions of the earlier ones. An addition goes to its place
before an empty last line, so no earlier chunk may replace that line. A chunk that takes the last
lines of the file needs as many lines there: the earlier regions end before them, or only add lines
at the very end. -/
def UpdateFileChunk.HasRoom (ls : List Text) (chunk : UpdateFileChunk) (cursor : ℕ)
    (earlier : List Replacement) : Prop :=
  if chunk.isAddition then ∀ a ∈ earlier, a.oldLen ≠ 0 → a.stop ≤ insertionIdx ls
  else ∀ pattern, chunk.TakesLast ls cursor pattern → ∀ a ∈ earlier,
    a.stop ≤ ls.length - pattern.length ∨ a.oldLen = 0 ∧ a.startIndex = ls.length

/-- Every chunk has room in the state of the loop before it: the cursor, moved behind the chunk's
context line, and the regions of the earlier chunks. -/
def RoomForAll (ls : List Text) (path : Text) :
    List UpdateFileChunk → ℕ → List Replacement → Prop
  | [], _, _ => True
  | chunk :: chunks, lineIndex, earlier =>
    (∀ cursor, seekContext ls path chunk lineIndex = .ok cursor →
        chunk.HasRoom ls cursor earlier) ∧
      ∀ r next, chunkReplacement ls path chunk lineIndex = .ok (r, next) →
        RoomForAll ls path chunks next (earlier ++ [r])

lemma roomForAll_cons {chunks : List UpdateFileChunk} {lineIndex next : ℕ} {r : Replacement}
    {earlier : List Replacement} (h : chunkReplacement ls path chunk lineIndex = .ok (r, next)) :
    RoomForAll ls path (chunk :: chunks) lineIndex earlier ↔
      (∀ cursor, seekContext ls path chunk lineIndex = .ok cursor →
        chunk.HasRoom ls cursor earlier) ∧ RoomForAll ls path chunks next (earlier ++ [r]) := by
  rw [RoomForAll]
  refine and_congr_right fun _ => ?_
  constructor
  · intro hrest
    exact hrest r next h
  · intro hrest r' next' h'
    obtain ⟨rfl, rfl⟩ := Prod.mk.inj (Except.ok.inj (h.symm.trans h'))
    exact hrest

/-- What the loop knows of the earlier regions: they lie in the file and end at or before the
cursor, those of additions apart. -/
structure Placed (ls : List Text) (lineIndex : ℕ) (earlier : List Replacement) : Prop where
  cursor : lineIndex ≤ ls.length
  bounded : ∀ a ∈ earlier, a.stop ≤ ls.length
  behind : ∀ a ∈ earlier, a.stop ≤ lineIndex ∨ a.oldLen = 0 ∧ a.startIndex = insertionIdx ls

lemma Placed.nil : Placed ls 0 [] := ⟨Nat.zero_le _, by simp, by simp⟩

variable {chunks : List UpdateFileChunk} {lineIndex : ℕ} {chunk : UpdateFileChunk}
  {earlier placed : List Replacement}

lemma Placed.step {lineIndex next : ℕ} {r : Replacement} {earlier : List Replacement}
    (hplaced : Placed ls lineIndex earlier)
    (h : chunkReplacement ls path chunk lineIndex = .ok (r, next)) :
    Placed ls next (earlier ++ [r]) := by
  obtain ⟨cursor, -, hle, hcursor, hcase⟩ := chunkReplacement_cases h hplaced.cursor
  obtain ⟨hr, hnext, hlenext, hrnext⟩ : r.stop ≤ ls.length ∧ next ≤ ls.length ∧
      lineIndex ≤ next ∧ (r.stop ≤ next ∨ r.oldLen = 0 ∧ r.startIndex = insertionIdx ls) := by
    rcases hcase with ⟨-, rfl, rfl⟩ | ⟨-, pattern, hfound⟩
    · exact ⟨insertionIdx_le, hcursor, hle, .inr ⟨rfl, rfl⟩⟩
    · refine ⟨hfound.bounded, hfound.next_eq ▸ hfound.bounded, ?_, .inl hfound.next_eq.ge⟩
      have hline := hplaced.cursor
      have hforward := hfound.forward
      have hunmoved := hfound.unmoved
      have hend := hfound.atEnd
      rw [hfound.next_eq]
      unfold Replacement.stop at hend ⊢
      cases heof : chunk.isEndOfFile with
      | false =>
        have := hforward heof
        omega
      | true =>
        simp only [heof, forall_true_left] at hend
        omega
  refine ⟨hnext, ?_, ?_⟩
  · exact List.forall_mem_append.mpr ⟨hplaced.bounded, List.forall_mem_singleton.mpr hr⟩
  · intro a ha
    rcases List.mem_append.mp ha with ha | ha
    · exact (hplaced.behind a ha).imp_left hlenext.trans'
    · rw [List.mem_singleton.mp ha]
      exact hrnext

/-- A chunk that takes the last lines of the file has its region there. -/
theorem FoundRegion.of_takesLast {cursor next : ℕ} {pattern last : List Text} {r : Replacement}
    (hfound : FoundRegion ls chunk cursor pattern r next) (hadd : chunk.isAddition = false)
    (h : chunk.TakesLast ls cursor last) (hlast : last ≠ []) :
    pattern = last ∧ r.startIndex = ls.length - last.length := by
  obtain ⟨hlooks, hat⟩ := h
  have hold : chunk.oldLines ≠ [] := by simpa [UpdateFileChunk.isAddition] using hadd
  have hpattern : pattern = last := by
    rcases hfound.looksFor with rfl | ⟨hnone, -, rfl⟩
    · rcases hlooks with rfl | ⟨hnone, -, -⟩
      · rfl
      · cases (hfound.found hold).unique hnone
    · rcases hlooks with rfl | ⟨-, -, rfl⟩
      · cases hat.unique hnone
      · rfl
  subst hpattern
  exact ⟨rfl, Option.some.inj ((hfound.found hlast).unique hat)⟩

/-- **One turn of the loop**: the region of a chunk is apart from the earlier ones exactly where
there was room for the chunk; the cursor does the rest. -/
theorem apart_iff_hasRoom {lineIndex next : ℕ} {r : Replacement} {earlier : List Replacement}
    (hplaced : Placed ls lineIndex earlier)
    (h : chunkReplacement ls path chunk lineIndex = .ok (r, next)) :
    (∀ a ∈ earlier, a.edit.Apart r.edit) ↔
      ∀ cursor, seekContext ls path chunk lineIndex = .ok cursor →
        chunk.HasRoom ls cursor earlier := by
  obtain ⟨cursor, hcontext, hle, hcursor, hcase⟩ := chunkReplacement_cases h hplaced.cursor
  have hsucc : ls.length ≤ insertionIdx ls + 1 := length_le_insertionIdx_succ
  have hroom : (∀ cursor, seekContext ls path chunk lineIndex = .ok cursor →
      chunk.HasRoom ls cursor earlier) ↔ chunk.HasRoom ls cursor earlier := by
    simp only [hcontext, Except.ok.injEq, forall_eq']
  rw [hroom]
  unfold UpdateFileChunk.HasRoom
  simp only [Edit.Apart, Edit.Before, Edit.stop, Replacement.edit, Replacement.stop]
  rcases hcase with ⟨hadd, rfl, rfl⟩ | ⟨hadd, pattern, hfound⟩
  · rw [if_pos hadd]
    refine forall₂_congr fun a ha => ?_
    have hbound := hplaced.bounded a ha
    simp only [Replacement.stop] at hbound
    dsimp only
    omega
  · simp only [hadd, Bool.false_eq_true, if_false]
    have hstop := hfound.bounded
    have hlen := hfound.oldLen_eq
    simp only [Replacement.stop] at hstop
    constructor
    · -- the region is at the end, so the earlier ones end before it
      intro hapart last hlast a ha
      have hbound := hplaced.bounded a ha
      have hfar := hapart a ha
      simp only [Replacement.stop] at hbound
      by_cases hnil : last = []
      · subst hnil
        exact .inl hbound
      · obtain ⟨rfl, hstart⟩ := hfound.of_takesLast hadd hlast hnil
        have hpos := List.length_pos_iff.mpr hnil
        omega
    · intro hclear a ha
      have hbound := hplaced.bounded a ha
      have hbehind := hplaced.behind a ha
      have hforward := hfound.forward
      have hunmoved := hfound.unmoved
      have hend := hfound.atEnd
      simp only [Replacement.stop] at hbound hbehind hend
      by_cases hzero : r.oldLen = 0
      · have := hunmoved hzero
        omega
      · by_cases hlast : r.startIndex + r.oldLen = ls.length
        · -- the chunk takes the last lines of the file
          have hne : pattern ≠ [] := fun hnil => hzero (by rw [hlen, hnil]; rfl)
          have hat := hfound.found hne
          have hindex : r.startIndex = ls.length - pattern.length := by omega
          rw [hindex] at hat
          have := hclear pattern ⟨hfound.looksFor, hat⟩ a ha
          omega
        · -- the cursor keeps the region behind the earlier ones
          have := hforward (by simpa using fun heof => hlast (hend hzero heof))
          omega

lemma chunkReplacements_cons_ok {placed : List Replacement}
    (h : chunkReplacements ls path (chunk :: chunks) lineIndex = .ok placed) :
    ∃ r next rest, chunkReplacement ls path chunk lineIndex = .ok (r, next) ∧
      chunkReplacements ls path chunks next = .ok rest ∧ placed = r :: rest := by
  rw [chunkReplacements] at h
  obtain ⟨⟨r, next⟩, hfirst, h⟩ := bind_eq_ok.mp h
  obtain ⟨rest, hrest, h⟩ := bind_eq_ok.mp h
  obtain rfl : r :: rest = placed := by simpa [Pure.pure, Except.pure] using h
  exact ⟨r, next, rest, hfirst, hrest, rfl⟩

variable (hplaced : Placed ls lineIndex earlier)
include hplaced

variable (h : chunkReplacements ls path chunks lineIndex = .ok placed)
include h

/-- **The loop**: the regions are pairwise apart, and apart from the earlier ones, exactly where
there is room for all chunks. -/
theorem chunkReplacements_apart_iff
    :
    ((∀ r ∈ placed, ∀ a ∈ earlier, a.edit.Apart r.edit) ∧
        placed.Pairwise fun a b => a.edit.Apart b.edit) ↔
      RoomForAll ls path chunks lineIndex earlier := by
  induction chunks generalizing lineIndex earlier placed with
  | nil =>
    obtain rfl : placed = [] := by simpa [chunkReplacements, eq_comm] using h
    simp [RoomForAll]
  | cons chunk chunks ih =>
    obtain ⟨r, next, rest, hfirst, hrest, rfl⟩ := chunkReplacements_cons_ok h
    have hih := ih (hplaced.step hfirst) hrest
    rw [roomForAll_cons hfirst, ← apart_iff_hasRoom hplaced hfirst, ← hih, List.pairwise_cons,
      List.forall_mem_cons]
    simp only [List.mem_append, List.mem_singleton, or_imp, forall_and, forall_eq]
    tauto

/-- **The loop**: every region lies in the file. -/
theorem chunkReplacements_bounded : ∀ r ∈ placed, r.stop ≤ ls.length := by
  induction chunks generalizing lineIndex earlier placed with
  | nil =>
    obtain rfl : placed = [] := by simpa [chunkReplacements, eq_comm] using h
    simp
  | cons chunk chunks ih =>
    obtain ⟨r, next, rest, hfirst, hrest, rfl⟩ := chunkReplacements_cons_ok h
    have hstep := hplaced.step hfirst
    intro a ha
    rcases List.mem_cons.mp ha with rfl | ha
    · exact hstep.bounded a (by simp)
    · exact ih hstep hrest a ha

/-- **The loop**: every chunk has a region that writes its lines. -/
theorem chunkReplacements_writes
    :
    ∀ chunk ∈ chunks, ∃ r ∈ placed, ∃ pattern, chunk.Writes pattern r.newLines := by
  induction chunks generalizing lineIndex earlier placed with
  | nil => simp
  | cons chunk chunks ih =>
    obtain ⟨r, next, rest, hfirst, hrest, rfl⟩ := chunkReplacements_cons_ok h
    have hwrites : ∃ pattern, chunk.Writes pattern r.newLines := by
      obtain ⟨_, _, _, _, hcase⟩ := chunkReplacement_cases hfirst hplaced.cursor
      rcases hcase with ⟨_, rfl, _⟩ | ⟨_, pattern, hfound⟩
      · exact ⟨_, .inl ⟨rfl, rfl⟩⟩
      · exact ⟨pattern, hfound.writes⟩
    intro c hc
    rcases List.mem_cons.mp hc with rfl | hc
    · exact ⟨r, List.mem_cons_self, hwrites⟩
    · obtain ⟨a, ha, hwrites⟩ := ih (hplaced.step hfirst) hrest c hc
      exact ⟨a, List.mem_cons_of_mem _ ha, hwrites⟩

omit h

omit hplaced

/-- The replacements are the regions of the chunks, sorted by start. -/
theorem computeReplacements_ok (h : computeReplacements ls path chunks = .ok rs) :
    ∃ placed, chunkReplacements ls path chunks 0 = .ok placed ∧
      rs = placed.insertionSort (·.startIndex ≤ ·.startIndex) := by
  obtain ⟨placed, hplaced, h⟩ := bind_eq_ok.mp h
  exact ⟨placed, hplaced, by simpa [Pure.pure, Except.pure, eq_comm] using h⟩

lemma computeReplacements_sorted (h : computeReplacements ls path chunks = .ok rs) :
    rs.Pairwise fun a b => a.startIndex ≤ b.startIndex := by
  obtain ⟨placed, -, rfl⟩ := computeReplacements_ok h
  have htotal : Std.Total fun a b : Replacement => a.startIndex ≤ b.startIndex :=
    ⟨fun a b => le_total a.startIndex b.startIndex⟩
  have htrans : IsTrans Replacement fun a b => a.startIndex ≤ b.startIndex :=
    ⟨fun _ _ _ => le_trans⟩
  exact List.pairwise_insertionSort _ _

lemma computeReplacements_bounded
    (h : computeReplacements ls path chunks = .ok rs) : ∀ r ∈ rs, r.stop ≤ ls.length := by
  obtain ⟨placed, hplaced, rfl⟩ := computeReplacements_ok h
  intro r hr
  exact chunkReplacements_bounded Placed.nil hplaced r ((List.mem_insertionSort _).mp hr)

/-! ### Main results -/

/-- **Editing in place is splicing from left to right**, where the replacements lie within the lines
and none starts before the one before it ends; and for the replacements of an accepted update no
index is out of range. -/
theorem applyReplacements_eq_splice :
    (∀ (ls : List Text) (rs : List Replacement),
        (rs.Pairwise fun a b => a.stop ≤ b.startIndex) → (∀ r ∈ rs, r.stop ≤ ls.length) →
          applyReplacements ls rs = leftToRight (rs.map Replacement.edit) ls) ∧
      ∀ (ls : List Text) (path : Text) (chunks : List UpdateFileChunk) (rs : List Replacement),
        computeReplacements ls path chunks = .ok rs →
          applyReplacements? ls rs = some (applyReplacements ls rs) := by
  refine ⟨?_, ?_⟩
  · intro ls rs hbefore hbound
    have hle : ∀ r : Replacement, r.startIndex ≤ r.stop := fun r => Nat.le_add_right _ _
    have hsorted : rs.Pairwise fun a b => a.startIndex ≤ b.startIndex :=
      hbefore.imp fun {a _} hab => (hle a).trans hab
    rw [(applyReplacements?_eq hsorted fun r hr => (hle r).trans (hbound r hr)).1]
    apply applyAll_eq_leftToRight
    · exact List.pairwise_map.mpr hbefore
    · intro e he
      obtain ⟨r, hr, rfl⟩ := List.mem_map.mp he
      exact hbound r hr
  · intro ls path chunks rs h
    have hbound := computeReplacements_bounded h
    refine (applyReplacements?_eq (computeReplacements_sorted h) ?_).2.1
    intro r hr
    exact (Nat.le_add_right _ _).trans (hbound r hr)

theorem applyReplacements_eq_splice_two :
    applyReplacements ["a".toList, "b".toList] [⟨0, 1, ["x".toList]⟩, ⟨1, 1, ["y".toList]⟩] =
        leftToRight ([(⟨0, 1, ["x".toList]⟩ : Replacement), ⟨1, 1, ["y".toList]⟩].map
          Replacement.edit) ["a".toList, "b".toList] ∧
      applyReplacements? ["a".toList, "b".toList]
          [⟨0, 2, ["x".toList]⟩, ⟨1, 1, ["y".toList]⟩] =
        some (applyReplacements ["a".toList, "b".toList]
          [⟨0, 2, ["x".toList]⟩, ⟨1, 1, ["y".toList]⟩]) :=
  ⟨applyReplacements_eq_splice.1 _ _ (by decide) (by decide),
    applyReplacements_eq_splice.2 _ "f".toList
      [⟨none, ["a".toList, "b".toList], ["x".toList], false⟩,
        ⟨none, ["b".toList], ["y".toList], true⟩] _ (by decide)⟩

/-- **No chunk of an accepted update is lost exactly where there is room for every chunk** in the
state of the loop before it. -/
theorem nothingLost_iff (ls : List Text) (path : Text) (chunks : List UpdateFileChunk)
    (rs : List Replacement) (h : computeReplacements ls path chunks = .ok rs) :
    NothingLost ls chunks rs ↔ RoomForAll ls path chunks 0 [] := by
  obtain ⟨placed, hplaced, hrs⟩ := computeReplacements_ok h
  have hapart := chunkReplacements_apart_iff Placed.nil hplaced
  have hedits : rs.map Replacement.edit =
      (placed.map Replacement.edit).insertionSort fun a b => a.start ≤ b.start := by
    rw [hrs]
    exact List.map_insertionSort _ _ _ _ fun _ _ _ _ => Iff.rfl
  have hdisjoint : (rs.Pairwise fun a b => a.stop ≤ b.startIndex) ↔
      RoomForAll ls path chunks 0 [] := by
    rw [← hapart]
    have hmap : (rs.Pairwise fun a b => a.stop ≤ b.startIndex) ↔
        (rs.map Replacement.edit).Pairwise Edit.Before := by
      rw [List.pairwise_map]
      rfl
    rw [hmap, hedits, pairwise_before_insertionSort, List.pairwise_map]
    simp
  have hbound := computeReplacements_bounded h
  constructor
  · intro hlost
    exact hdisjoint.mp hlost.disjoint
  · intro hclear
    have hbefore := hdisjoint.mpr hclear
    refine ⟨hbound, computeReplacements_sorted h, hbefore, ?_⟩
    intro chunk hchunk
    obtain ⟨r, hr, pattern, hwrites⟩ := chunkReplacements_writes Placed.nil hplaced chunk hchunk
    have hmem : r.edit ∈ rs.map Replacement.edit := by
      rw [hrs]
      exact List.mem_map_of_mem ((List.mem_insertionSort _).mpr hr)
    refine ⟨pattern, r.newLines, hwrites, ?_⟩
    rw [(applyReplacements?_eq (computeReplacements_sorted h)
        fun a ha => (Nat.le_add_right _ _).trans (hbound a ha)).1,
      applyAll_eq_leftToRight (List.pairwise_map.mpr hbefore) ?_]
    · exact inserted_infix_spliceFrom hmem 0 ls
    · intro e he
      obtain ⟨a, ha, rfl⟩ := List.mem_map.mp he
      exact hbound a ha

theorem nothingLost_two :
    NothingLost ["a".toList, "b".toList]
      [⟨none, ["a".toList], ["x".toList], false⟩, ⟨none, ["b".toList], ["y".toList], true⟩]
      [⟨0, 1, ["x".toList]⟩, ⟨1, 1, ["y".toList]⟩] := by
  refine (nothingLost_iff _ "f".toList _ _ (by decide)).mpr ?_
  have hfirst : chunkReplacement ["a".toList, "b".toList] "f".toList
      ⟨none, ["a".toList], ["x".toList], false⟩ 0 = .ok (⟨0, 1, ["x".toList]⟩, 1) := by decide
  have hsecond : chunkReplacement ["a".toList, "b".toList] "f".toList
      ⟨none, ["b".toList], ["y".toList], true⟩ 1 = .ok (⟨1, 1, ["y".toList]⟩, 2) := by decide
  refine (roomForAll_cons hfirst).mpr ⟨?_, (roomForAll_cons hsecond).mpr ⟨?_, trivial⟩⟩
  · intro cursor _
    simp [UpdateFileChunk.HasRoom]
  · -- one line is left at the end, and the chunk takes one
    intro cursor _ pattern hlast a ha
    obtain rfl : a = ⟨0, 1, ["x".toList]⟩ := by simpa using ha
    rcases hlast.1 with rfl | ⟨-, hempty, -⟩
    · exact .inl (by decide)
    · cases hempty

/-- A chunk at the end of the file is put into the region of an earlier one, whose edit then takes
its lines away. -/
theorem nothingLost_fails :
    let ls := ["a".toList, "b".toList]
    let chunks : List UpdateFileChunk :=
      [⟨none, ["a".toList, "b".toList], ["x".toList], false⟩,
        ⟨none, ["b".toList], ["y".toList], true⟩]
    let rs : List Replacement := [⟨0, 2, ["x".toList]⟩, ⟨1, 1, ["y".toList]⟩]
    computeReplacements ls "f".toList chunks = .ok rs ∧
      applyReplacements ls rs = ["x".toList] ∧ ¬ NothingLost ls chunks rs := by
  refine ⟨by decide, by decide, ?_⟩
  intro h
  exact absurd h.disjoint (by decide)

end Codex.ApplyPatch
