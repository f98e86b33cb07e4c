import Mathlib.Data.List.Basic
import Mathlib.Tactic.Linarith

/-!
# Numbered logs

The items of a log are numbered from 1. `At log seq a` says that `a` is the item with this number;
a reader that has seen a prefix of the log sees the next prefix when it gets the item after it. The
last section is about which numbers of a range are there.
-/

namespace Codex.Lib

variable {α : Type} {log : List α} {seq : ℕ} {a b : α}

/-- The item with this number. -/
def At (log : List α) (seq : ℕ) (a : α) : Prop := 0 < seq ∧ log[seq - 1]? = some a

lemma At.append (h : At log seq a) (rest : List α) : At (log ++ rest) seq a := by
  obtain ⟨hpos, hget⟩ := h
  obtain ⟨hlt, -⟩ := List.getElem?_eq_some_iff.mp hget
  exact ⟨hpos, by rw [List.getElem?_append_left hlt, hget]⟩

lemma At.unique (ha : At log seq a) (hb : At log seq b) : a = b :=
  Option.some.inj (ha.2.symm.trans hb.2)

lemma At.le_length (h : At log seq a) : seq ≤ log.length := by
  obtain ⟨hpos, hget⟩ := h
  obtain ⟨hlt, -⟩ := List.getElem?_eq_some_iff.mp hget
  omega

lemma At.last (log : List α) (a : α) : At (log ++ [a]) (log.length + 1) a :=
  ⟨Nat.succ_pos _, by simp⟩

lemma at_of_append_singleton (h : At (log ++ [b]) seq a) :
    At log seq a ∨ seq = log.length + 1 ∧ a = b := by
  rcases Nat.lt_or_ge (seq - 1) log.length with hlt | hge
  · have hget := h.2
    rw [List.getElem?_append_left hlt] at hget
    exact .inl ⟨h.1, hget⟩
  · have hle := h.le_length
    rw [List.length_append, List.length_singleton] at hle
    have hpos := h.1
    have hseq : seq = log.length + 1 := by omega
    subst hseq
    exact .inr ⟨rfl, h.unique (At.last log b)⟩

lemma exists_at (hpos : 0 < seq) (hle : seq ≤ log.length) : ∃ a, At log seq a := by
  have hlt : seq - 1 < log.length := by omega
  exact ⟨log[seq - 1], hpos, List.getElem?_eq_getElem hlt⟩

lemma take_succ_of_at (h : At log (seq + 1) a) : log.take (seq + 1) = log.take seq ++ [a] := by
  have hget : log[seq]? = some a := h.2
  rw [List.take_add_one, hget]
  rfl

/-! ### The numbers of a range -/

section range

variable {lo n e : ℕ} {p : ℕ → Bool}

lemma all_of_length_filter (h : ((List.range' lo n).filter p).length = n) :
    ∀ i, lo ≤ i → i < lo + n → p i = true := by
  have hlength : ((List.range' lo n).filter p).length = (List.range' lo n).length := by
    rw [h, List.length_range']
  have hall := List.length_filter_eq_length_iff.mp hlength
  intro i hlo hi
  apply hall
  rw [List.mem_range'_1]
  exact ⟨hlo, hi⟩

/-- One less than the range has, and one that is known not to be there: all others. -/
theorem all_but_of_length_filter (h : ((List.range' lo n).filter p).length + 1 = n) (hlo : lo ≤ e)
    (he : e < lo + n) (hnot : p e = false) : ∀ i, lo ≤ i → i < lo + n → i ≠ e → p i = true := by
  have hsplit : (List.range' lo n).length = _ := List.length_eq_length_filter_add p
  rw [List.length_range'] at hsplit
  have hone : ((List.range' lo n).filter fun i => !p i).length = 1 := by omega
  have hmem : e ∈ (List.range' lo n).filter fun i => !p i := by
    rw [List.mem_filter, List.mem_range'_1]
    exact ⟨⟨hlo, he⟩, by simp [hnot]⟩
  obtain ⟨only, honly⟩ := List.length_eq_one_iff.mp hone
  intro i hlo' hi hne
  by_contra hmissing
  rw [Bool.not_eq_true] at hmissing
  have hmem' : i ∈ (List.range' lo n).filter fun i => !p i := by
    rw [List.mem_filter, List.mem_range'_1]
    exact ⟨⟨hlo', hi⟩, by simp [hmissing]⟩
  rw [honly, List.mem_singleton] at hmem hmem'
  exact hne (hmem'.trans hmem.symm)

end range

end Codex.Lib
