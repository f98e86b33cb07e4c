import Codex.ApplyPatch.Parser
import Codex.Lib.Growth

/-!
# Streaming progress

Every `push_delta` returns the hunks read so far, the last one under construction. What was shown
once stays.

* `processLine_grows`, `feed_grows`: one line and one delta;
* `pushResults_grow`: **each returned list of hunks extends the ones before it**.
-/

namespace Codex.ApplyPatch

open Codex.Lib

/-! ### Growth -/

/-- A chunk keeps its context, its lines are only appended to and the end-of-file flag is only
set. -/
structure UpdateFileChunk.Grows (chunk chunk' : UpdateFileChunk) : Prop where
  changeContext : chunk'.changeContext = chunk.changeContext
  oldLines : chunk.oldLines <+: chunk'.oldLines
  newLines : chunk.newLines <+: chunk'.newLines
  isEndOfFile : chunk.isEndOfFile = true → chunk'.isEndOfFile = true

/-- A hunk keeps its kind and its path; contents and chunks only grow, and a move target that is set
stays. -/
def Hunk.Grows : Hunk → Hunk → Prop
  | .addFile path contents, hunk' => ∃ more, hunk' = .addFile path (contents ++ more)
  | .deleteFile path, hunk' => hunk' = .deleteFile path
  | .updateFile path movePath chunks, hunk' =>
    ∃ movePath' chunks', hunk' = .updateFile path movePath' chunks' ∧
      (∀ target ∈ movePath, target ∈ movePath') ∧
      GrowsBy UpdateFileChunk.Grows chunks chunks'

/-- The hunks of one result extended to those of a later one. -/
def Extends (hunks hunks' : List Hunk) : Prop := GrowsBy Hunk.Grows hunks hunks'

variable (chunk : UpdateFileChunk)

lemma UpdateFileChunk.Grows.refl : chunk.Grows chunk :=
  ⟨rfl, List.prefix_rfl, List.prefix_rfl, id⟩

lemma UpdateFileChunk.Grows.trans {a b c : UpdateFileChunk} (h : a.Grows b) (h' : b.Grows c) :
    a.Grows c :=
  ⟨h'.changeContext.trans h.changeContext, h.oldLines.trans h'.oldLines,
    h.newLines.trans h'.newLines, fun hend => h'.isEndOfFile (h.isEndOfFile hend)⟩

lemma UpdateFileChunk.grows_push (old new : List Text) : chunk.Grows (chunk.push old new) :=
  ⟨rfl, List.prefix_append _ _, List.prefix_append _ _, id⟩

lemma Hunk.Grows.refl (hunk : Hunk) : hunk.Grows hunk := by
  cases hunk with
  | addFile path contents => exact ⟨[], by simp⟩
  | deleteFile path => rfl
  | updateFile path movePath chunks =>
    exact ⟨movePath, chunks, rfl, fun _ h => h, GrowsBy.refl UpdateFileChunk.Grows.refl _⟩

lemma Hunk.Grows.trans {a b c : Hunk} (h : a.Grows b) (h' : b.Grows c) : a.Grows c := by
  cases a with
  | addFile path contents =>
    obtain ⟨more, rfl⟩ := h
    obtain ⟨more', rfl⟩ := h'
    exact ⟨more ++ more', by simp⟩
  | deleteFile path =>
    obtain rfl : b = .deleteFile path := h
    exact h'
  | updateFile path movePath chunks =>
    obtain ⟨movePath₁, chunks₁, rfl, hmove, hchunks⟩ := h
    obtain ⟨movePath₂, chunks₂, rfl, hmove', hchunks'⟩ := h'
    exact ⟨movePath₂, chunks₂, rfl, fun target ht => hmove' target (hmove target ht),
      hchunks.trans (fun _ _ _ => UpdateFileChunk.Grows.trans) hchunks'⟩

lemma Extends.refl (hunks : List Hunk) : Extends hunks hunks := GrowsBy.refl Hunk.Grows.refl hunks

lemma Extends.trans {a b c : List Hunk} (h : Extends a b) (h' : Extends b c) : Extends a c :=
  GrowsBy.trans (fun _ _ _ => Hunk.Grows.trans) h h'

/-! ### One line -/

namespace StreamingPatchParser

variable {p p' : StreamingPatchParser} {line : Text}

/-- What a line does to the chunks only extends them. -/
theorem UpdateLine.chunks_grow (effect : UpdateLine) (chunks : List UpdateFileChunk) :
    GrowsBy UpdateFileChunk.Grows chunks (effect.chunks chunks) := by
  have hsame : GrowsBy UpdateFileChunk.Grows chunks chunks :=
    GrowsBy.refl UpdateFileChunk.Grows.refl _
  cases effect with
  | ignored => exact hsame
  | moveTo path => exact hsame
  | openChunk context => exact growsBy_append UpdateFileChunk.Grows.refl _ _
  | endOfFile =>
    simp only [UpdateLine.chunks]
    split
    · rename_i chunk hlast
      exact growsBy_setLast hlast ⟨rfl, List.prefix_rfl, List.prefix_rfl, fun _ => rfl⟩
    · exact hsame
  | change old new =>
    simp only [UpdateLine.chunks]
    split
    · rename_i chunk hlast
      exact growsBy_setLast hlast (chunk.grows_push old new)
    · rename_i hnone
      exact .inl (List.getLast?_eq_none_iff.mp hnone)

variable {last : Option UpdateFileChunk}

/-- A move target is read only where there is none yet. -/
theorem readUpdateLine_moveTo {n : ℕ} {movePath : Option PathBuf}
    {path : PathBuf} (h : readUpdateLine n movePath last line = .ok (.moveTo path)) :
    movePath = none := by
  unfold readUpdateLine at h
  simp only at h
  split at h
  · cases h
  split at h
  · cases h
  split at h
  · rename_i hmove
    split at hmove
    · rename_i hnone
      simpa using (Bool.and_eq_true_iff.mp hnone).2
    · cases hmove
  · split at h
    · cases h
    split at h
    · cases h
    split at h
    · cases h
    split at h
    · split at h <;> cases h
    · unfold readChangeLine at h
      split at h
      all_goals try cases h
      split at h <;> cases h

lemma movePath_kept {n : ℕ} {movePath : Option PathBuf}
    {effect : UpdateLine} (h : readUpdateLine n movePath last line = .ok effect) :
    ∀ target ∈ movePath, target ∈ effect.movePath movePath := by
  intro target htarget
  cases effect with
  | moveTo path =>
    simp [readUpdateLine_moveTo h] at htarget
  | _ => exact htarget

/-- **One line** extends the hunks. -/
theorem processLine_grows (h : p.processLine line = .ok p') : Extends p.hunks p'.hunks := by
  rcases processLine_cases h with ⟨-, -, rfl⟩ | ⟨-, -, hheader⟩ | ⟨-, -, hadded⟩ |
    ⟨-, -, hupdated⟩ | ⟨-, -, rfl⟩
  · exact Extends.refl _
  · rcases handleHunkHeadersAndEndPatch_cases hheader with ⟨_, -, -, -, rfl⟩ | ⟨-, -, rfl⟩ |
      ⟨hunk, _, -, -, rfl⟩
    · exact Extends.refl _
    · exact Extends.refl _
    · exact growsBy_append Hunk.Grows.refl _ _
  · obtain ⟨text, path, contents, -, hlast, rfl⟩ := hadded
    exact growsBy_setLast hlast ⟨text ++ ['\n'], by simp⟩
  · obtain ⟨path, movePath, chunks, effect, hlast, hread, rfl⟩ := hupdated
    exact growsBy_setLast hlast ⟨_, _, rfl, movePath_kept hread, effect.chunks_grow chunks⟩
  · exact Extends.refl _

/-- **One delta** extends the hunks. -/
theorem feed_grows {delta : Text} (h : p.feed delta = .ok p') : Extends p.hunks p'.hunks := by
  induction delta generalizing p with
  | nil =>
    obtain rfl : p = p' := by simpa [feed] using h
    exact Extends.refl _
  | cons c delta ih =>
    by_cases hc : c = '\n'
    · subst hc
      rw [feed] at h
      obtain ⟨p₁, hstep, hrest⟩ := bind_eq_ok.mp h
      exact (processLine_grows hstep).trans (ih hrest)
    · rw [feed] at h
      · have hgrows := ih h
        exact hgrows
      · exact hc

/-! ### Results of a stream -/

/-- What the calls of `push_delta` return, one after the other. -/
def pushResults (p : StreamingPatchParser) : List Text → Except ParseError (List (List Hunk))
  | [] => .ok []
  | delta :: deltas => do
      let (hunks, p') ← p.pushDelta delta
      let rest ← pushResults p' deltas
      return hunks :: rest

lemma pushResults_cons_ok {delta : Text} {deltas : List Text} {results : List (List Hunk)}
    (h : p.pushResults (delta :: deltas) = .ok results) :
    ∃ p₁ rest, p.feed delta = .ok p₁ ∧ p₁.pushResults deltas = .ok rest ∧
      results = p₁.hunks :: rest := by
  rw [pushResults] at h
  obtain ⟨⟨hunks, p₁⟩, hpush, htail⟩ := bind_eq_ok.mp h
  obtain ⟨rest, hrest, hresults⟩ := bind_eq_ok.mp htail
  obtain ⟨p₂, hfeed, hpair⟩ := bind_eq_ok.mp hpush
  obtain ⟨rfl, rfl⟩ : p₂.hunks = hunks ∧ p₂ = p₁ := by simpa [Pure.pure, Except.pure] using hpair
  exact ⟨p₂, rest, hfeed, hrest, (Except.ok.inj hresults).symm⟩

lemma pushResults_extend {deltas : List Text} {results : List (List Hunk)}
    (h : p.pushResults deltas = .ok results) : ∀ hunks ∈ results, Extends p.hunks hunks := by
  induction deltas generalizing p results with
  | nil =>
    obtain rfl : results = [] := by simpa [pushResults, eq_comm] using h
    simp
  | cons delta deltas ih =>
    obtain ⟨p₁, rest, hfeed, hrest, rfl⟩ := pushResults_cons_ok h
    have hfirst := feed_grows hfeed
    intro hunks hmem
    rcases List.mem_cons.mp hmem with rfl | hmem
    · exact hfirst
    · exact hfirst.trans (ih hrest hunks hmem)

/-- **Each returned list of hunks extends the ones before it**: all hunks but the last are
unchanged, and the last one only grows. -/
theorem pushResults_grow (deltas : List Text) (results : List (List Hunk))
    (h : ({} : StreamingPatchParser).pushResults deltas = .ok results) :
    results.Pairwise Extends := by
  generalize ({} : StreamingPatchParser) = p at h
  induction deltas generalizing p results with
  | nil =>
    obtain rfl : results = [] := by simpa [pushResults, eq_comm] using h
    exact List.Pairwise.nil
  | cons delta deltas ih =>
    obtain ⟨p₁, rest, -, hrest, rfl⟩ := pushResults_cons_ok h
    exact List.pairwise_cons.mpr ⟨pushResults_extend hrest, ih rest p₁ hrest⟩

theorem pushResults_grow_addFile :
    [[.addFile "a".toList []], [Hunk.addFile "a".toList "x\ny\n".toList]].Pairwise Extends :=
  pushResults_grow ["*** Begin Patch\n*** Add File: a\n+x".toList, "\n+y\n".toList] _
    (by decide +kernel)

end StreamingPatchParser

end Codex.ApplyPatch
