import Mathlib.Data.List.Basic

/-!
# Scanning from the end

A list is read from its end, element by element: what stands between two separators is gathered and
visited, unless it is empty. A visit may stop the scan.
-/

namespace Codex.Lib

variable {α σ ε : Type} {visit : σ → List α → Except ε σ}

variable (visit)

/-- A piece that is not empty is visited. -/
def visitPiece (state : σ) (piece : List α) : Except ε σ :=
  if piece = [] then .ok state else visit state piece

/-- The pieces from the last to the first. -/
def visitPieces (state : σ) (pieces : List (List α)) : Except ε σ :=
  pieces.reverse.foldlM (visitPiece visit) state

variable {visit}

lemma visitPieces_cons (state : σ) (piece : List α) (pieces : List (List α)) :
    visitPieces visit state (piece :: pieces) =
      (visitPieces visit state pieces).bind fun state => visitPiece visit state piece := by
  rw [visitPieces, List.reverse_cons, List.foldlM_append]
  show (visitPieces visit state pieces).bind _ = _
  cases visitPieces visit state pieces with
  | error e => rfl
  | ok state =>
    show (visitPiece visit state piece >>= pure) = _
    rw [bind_pure]
    rfl

lemma foldlM_chunks {τ : Type} (step : τ → α → Except ε τ) (state : τ) {l : List α} {n m : ℕ}
    (h : n ≤ m) :
    ((((l.drop n).take (m - n)).reverse.foldlM step state).bind fun state =>
      (l.take n).reverse.foldlM step state) = (l.take m).reverse.foldlM step state := by
  have htake : l.take m = l.take n ++ (l.drop n).take (m - n) := by
    rw [← List.take_add, Nat.add_sub_cancel' h]
  rw [htake, List.reverse_append, List.foldlM_append]
  rfl

variable [DecidableEq α] {sep : α}

/-- One more element from the end. -/
def scanStep (sep : α) (visit : σ → List α → Except ε σ) (state : List α × σ) (x : α) :
    Except ε (List α × σ) :=
  if x = sep then (visitPiece visit state.2 state.1).map ([], ·) else .ok (x :: state.1, state.2)

/-- What was scanned: the first piece is still gathered, the others were visited. -/
theorem foldlM_scanStep (state : σ) (l : List α) :
    ∃ piece pieces, l.splitOn sep = piece :: pieces ∧
      l.reverse.foldlM (scanStep sep visit) ([], state) =
        (visitPieces visit state pieces).map (piece, ·) := by
  induction l with
  | nil => exact ⟨[], [], List.splitOn_nil sep, rfl⟩
  | cons x l ih =>
    obtain ⟨piece, pieces, hsplit, hscan⟩ := ih
    rw [List.splitOn_cons_eq_if_modifyHead, List.reverse_cons, List.foldlM_append, hscan, hsplit]
    by_cases hx : x = sep
    · refine ⟨[], piece :: pieces, if_pos (beq_iff_eq.mpr hx), ?_⟩
      rw [visitPieces_cons]
      cases visitPieces visit state pieces with
      | error e => rfl
      | ok state =>
        show (scanStep sep visit (piece, state) x >>= pure) = _
        rw [bind_pure, scanStep, if_pos hx]
        rfl
    · refine ⟨x :: piece, pieces, if_neg (by simpa using hx), ?_⟩
      cases visitPieces visit state pieces with
      | error e => rfl
      | ok state =>
        show (scanStep sep visit (piece, state) x >>= pure) = _
        rw [bind_pure, scanStep, if_neg hx]
        rfl

/-- **The pieces are visited from the last to the first.** -/
theorem scanReversed_eq (state : σ) (l : List α) :
    ((l.reverse.foldlM (scanStep sep visit) ([], state)).bind fun (piece, state) =>
      visitPiece visit state piece) = visitPieces visit state (l.splitOn sep) := by
  obtain ⟨piece, pieces, hsplit, hscan⟩ := @foldlM_scanStep α σ ε visit _ sep state l
  rw [hscan, hsplit, visitPieces_cons]
  cases visitPieces visit state pieces <;> rfl

end Codex.Lib
