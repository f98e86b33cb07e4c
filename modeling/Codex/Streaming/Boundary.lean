import Codex.Streaming.StreamCore

/-!
# The holdback boundary

How many rendered lines of a committed source stand before its holdback. `KeepsStableLines` says
that the renderer of markdown leaves these alone when more lines are appended; raw lines always
stay. Under this law the boundary never moves back while source is appended.
-/

namespace Codex.Streaming

open Codex.Lib

variable {Line : Type} (env : StreamEnv Line) (renderMode : HistoryRenderMode)

/-- What the stream shows of a source: nothing is rendered before the first line is committed. -/
def renderedSource (width : Option ℕ) (source : Text) : List Line :=
  if source = [] then [] else renderSource env renderMode width source

/-- The number of rendered lines before the holdback. -/
def stableBoundary (width : Option ℕ) (source : Text) : ℕ :=
  let rendered := (renderedSource env renderMode width source).length
  match renderMode, (scanSource source).holdbackStart with
  | .raw, _ | .rich, none => rendered
  | .rich, some start =>
    if start = 0 then 0
    else min rendered (env.renderMarkdown (source.take start) width).length

/-- The renderer keeps the lines before the holdback when lines are appended to a source. -/
def KeepsStableLines : Prop :=
  ∀ (width : Option ℕ) (source chunk : Text), source ≠ [] → Terminated '\n' source →
    Terminated '\n' chunk →
    (env.renderMarkdown (source ++ chunk) width).take (stableBoundary env .rich width source) =
      (env.renderMarkdown source width).take (stableBoundary env .rich width source)

/-! ### Raw lines -/

lemma endsWith_singleton (s : Text) (c : Char) : endsWith s [c] = decide (s.getLast? = some c) := by
  rw [endsWith, Bool.eq_iff_iff, List.isSuffixOf_iff_suffix, decide_eq_true_iff,
    List.singleton_suffix_iff_getLast?_eq_some]

lemma rawLinesFromSource_terminated (before : Text) :
    rawLinesFromSource (before ++ ['\n']) = before.splitOn '\n' := by
  have hne : before ++ ['\n'] ≠ [] := List.append_ne_nil_of_right_ne_nil _ (List.cons_ne_nil _ _)
  rw [rawLinesFromSource, if_neg hne, endsWith_singleton, List.getLast?_concat]
  dsimp only
  rw [if_pos (decide_eq_true rfl), List.splitOn_append_cons_self, List.splitOn_nil,
    List.dropLast_concat]

variable {source : Text}

lemma rawLinesFromSource_append (h : Terminated '\n' source) (chunk : Text) :
    rawLinesFromSource (source ++ chunk) =
      rawLinesFromSource source ++ rawLinesFromSource chunk := by
  rcases List.eq_nil_or_concat' source with rfl | ⟨before, last, rfl⟩
  · rfl
  · obtain rfl : last = '\n' := h last (by rw [List.getLast?_concat]; rfl)
    by_cases hchunk : chunk = []
    · rw [hchunk, List.append_nil]
      exact (List.append_nil _).symm
    · have hne : before ++ ['\n'] ++ chunk ≠ [] := List.append_ne_nil_of_right_ne_nil _ hchunk
      rw [rawLinesFromSource_terminated, rawLinesFromSource, if_neg hne, rawLinesFromSource,
        if_neg hchunk, endsWith_singleton, endsWith_singleton,
        List.getLast?_append_of_ne_nil _ hchunk, List.append_assoc, List.singleton_append,
        List.splitOn_append_cons_self]
      dsimp only
      split_ifs
      · exact List.dropLast_append_of_ne_nil (List.splitOn_ne_nil _ _)
      · rfl

/-! ### The boundary under appends -/

variable (renderMode : HistoryRenderMode)

lemma stableBoundary_le (width : Option ℕ) (source : Text) :
    stableBoundary env renderMode width source ≤
      (renderedSource env renderMode width source).length := by
  unfold stableBoundary
  split
  · exact le_refl _
  · exact le_refl _
  · split_ifs
    · exact Nat.zero_le _
    · exact Nat.min_le_left _ _

lemma stableBoundary_of_none {width : Option ℕ} (h : (scanSource source).holdbackStart = none) :
    stableBoundary env .rich width source = (renderedSource env .rich width source).length := by
  simp only [stableBoundary, h]

lemma stableBoundary_of_some {width : Option ℕ} {start : ℕ}
    (h : (scanSource source).holdbackStart = some start) :
    stableBoundary env .rich width source =
      if start = 0 then 0
      else min (renderedSource env .rich width source).length
        (env.renderMarkdown (source.take start) width).length := by
  simp only [stableBoundary, h]

lemma stableBoundary_nil (width : Option ℕ) : stableBoundary env renderMode width [] = 0 :=
  Nat.le_zero.mp (stableBoundary_le env renderMode width [])

variable {env}

variable (hkeeps : KeepsStableLines env)
include hkeeps

variable {source chunk : Text} (renderMode : HistoryRenderMode) (width : Option ℕ)

lemma renderedSource_kept (hsource : Terminated '\n' source) (hchunk : Terminated '\n' chunk) :
    (renderedSource env renderMode width (source ++ chunk)).take
        (stableBoundary env renderMode width source) =
      (renderedSource env renderMode width source).take
        (stableBoundary env renderMode width source) := by
  by_cases hnil : source = []
  · rw [hnil, stableBoundary_nil, List.take_zero, List.take_zero]
  · have happend : source ++ chunk ≠ [] := List.append_ne_nil_of_left_ne_nil hnil _
    rw [renderedSource, if_neg happend, renderedSource, if_neg hnil]
    cases renderMode with
    | rich => exact hkeeps width source chunk hnil hsource hchunk
    | raw =>
      have hle : stableBoundary env .raw width source ≤
          (renderSource env .raw width source).length := by
        have h := stableBoundary_le env .raw width source
        rwa [renderedSource, if_neg hnil] at h
      have hraw : renderSource env .raw width (source ++ chunk) =
          renderSource env .raw width source ++ renderSource env .raw width chunk := by
        rw [renderSource, rawLinesFromSource_append hsource, List.map_append]
        rfl
      rw [hraw, List.take_append_of_le_length hle]

/-- So the lines before the boundary are still there after an append. -/
theorem stableBoundary_le_append (hsource : Terminated '\n' source)
    (hchunk : Terminated '\n' chunk) :
    stableBoundary env renderMode width source ≤
      (renderedSource env renderMode width (source ++ chunk)).length := by
  have hkept := congrArg List.length (renderedSource_kept hkeeps renderMode width hsource hchunk)
  rw [List.length_take_of_le (stableBoundary_le env renderMode width source),
    List.length_take] at hkept
  omega

/-- **Appending lines moves the boundary forward only.** -/
theorem stableBoundary_mono (hsource : Terminated '\n' source) (hchunk : Terminated '\n' chunk) :
    stableBoundary env renderMode width source ≤
      stableBoundary env renderMode width (source ++ chunk) := by
  by_cases hnil : source = []
  · rw [hnil, stableBoundary_nil]
    exact Nat.zero_le _
  have hrendered := stableBoundary_le_append hkeeps renderMode width hsource hchunk
  cases renderMode with
  | raw => exact hrendered
  | rich =>
    cases hstart : (scanSource (source ++ chunk)).holdbackStart with
    | none =>
      rw [stableBoundary_of_none env hstart]
      exact hrendered
    | some start =>
      rw [stableBoundary_of_some env hstart]
      rcases holdbackStart_scanSource hsource hchunk hstart with hsame | hnew
      · -- The holdback stays where it was, and the lines before it are rendered as before.
        obtain ⟨before, after, hbefore, -, rfl⟩ := exists_of_holdbackStart hsource hsame
        have htake : (source ++ chunk).take before.length = source.take before.length := by
          rw [hbefore, List.append_assoc, List.take_left, List.take_left]
        rw [stableBoundary_of_some env hsame, htake] at *
        split_ifs at hrendered ⊢
        · exact le_refl _
        · exact le_min hrendered (Nat.min_le_right _ _)
      · -- The holdback moves to an appended line: what stands before it was appended too.
        obtain ⟨before, after, hbefore, hterminated, rfl⟩ := hnew
        have htake : (source ++ chunk).take (source ++ before).length = source ++ before := by
          rw [hbefore, ← List.append_assoc, List.take_left]
        have hpos : (source ++ before).length ≠ 0 := by
          have := List.length_pos_of_ne_nil hnil
          rw [List.length_append]
          omega
        have hbefore := stableBoundary_le_append hkeeps .rich width hsource hterminated
        rw [renderedSource, if_neg (List.append_ne_nil_of_left_ne_nil hnil _)] at hbefore
        rw [if_neg hpos, htake]
        exact le_min hrendered hbefore

end Codex.Streaming
