import Mathlib.Data.List.Induction
import Mathlib.Data.List.Nodup
import Mathlib.Order.Nat

/-!
# The last writer of each key

The entries of a log name a key each and give a verdict on it, or none. The last entry that gives a
verdict on a key decides it. `record` keeps the list of the keys with one verdict: a verdict takes
its key out of every list and appends it to its own.
-/

namespace Codex.Lib

variable {α β κ : Type} {key : α → κ} {verdict : α → Option β} {log : List α} {k l : κ} {i j : ℕ}
  {b c : β} {x : α}

/-- The entry at place `i` gives a verdict on the key, and none after it does. -/
def Decides (key : α → κ) (verdict : α → Option β) (log : List α) (k : κ) (i : ℕ) (b : β) : Prop :=
  (∃ x, log[i]? = some x ∧ key x = k ∧ verdict x = some b) ∧
    ∀ j x, i < j → log[j]? = some x → key x = k → verdict x = none

lemma Decides.lt_length (h : Decides key verdict log k i b) : i < log.length := by
  obtain ⟨⟨x, hx, -⟩, -⟩ := h
  exact (List.getElem?_eq_some_iff.mp hx).1

lemma Decides.unique (h : Decides key verdict log k i b) (h' : Decides key verdict log k j c) :
    i = j ∧ b = c := by
  obtain ⟨⟨x, hx, hkey, hverdict⟩, hlast⟩ := h
  obtain ⟨⟨y, hy, hkey', hverdict'⟩, hlast'⟩ := h'
  rcases lt_trichotomy i j with hlt | rfl | hlt
  · simp [hlast j y hlt hy hkey'] at hverdict'
  · obtain rfl : x = y := Option.some_inj.mp (hx.symm.trans hy)
    exact ⟨rfl, Option.some_inj.mp (hverdict.symm.trans hverdict')⟩
  · simp [hlast' i x hlt hx hkey] at hverdict

/-- One more entry decides its own key, if it gives a verdict, and leaves the others. -/
theorem decides_concat :
    Decides key verdict (log ++ [x]) k i b ↔ (i = log.length ∧ key x = k ∧ verdict x = some b) ∨
        (Decides key verdict log k i b ∧ (key x = k → verdict x = none)) := by
  constructor
  · rintro ⟨⟨y, hy, hkey, hverdict⟩, hlast⟩
    rcases lt_or_ge i log.length with hlt | hge
    · refine .inr ⟨⟨⟨y, ?_, hkey, hverdict⟩, ?_⟩, ?_⟩
      · rwa [List.getElem?_append_left hlt] at hy
      · intro j z hij hz
        refine hlast j z hij ?_
        rwa [List.getElem?_append_left (List.getElem?_eq_some_iff.mp hz).1]
      · exact hlast log.length x hlt (by simp)
    · rw [List.getElem?_append_right hge, List.getElem?_singleton] at hy
      split at hy
      · have hi : i = log.length := by omega
        obtain rfl : x = y := Option.some_inj.mp hy
        exact .inl ⟨hi, hkey, hverdict⟩
      · cases hy
  · rintro (⟨rfl, hkey, hverdict⟩ | ⟨hdecides, hx⟩)
    · refine ⟨⟨x, by simp, hkey, hverdict⟩, fun j y hj hy => ?_⟩
      have hlen := (List.getElem?_eq_some_iff.mp hy).1
      rw [List.length_append, List.length_singleton] at hlen
      omega
    · have hi := hdecides.lt_length
      obtain ⟨⟨y, hy, hkey, hverdict⟩, hlast⟩ := hdecides
      refine ⟨⟨y, by rwa [List.getElem?_append_left hi], hkey, hverdict⟩, fun j z hij hz => ?_⟩
      rcases lt_or_ge j log.length with hlt | hge
      · exact hlast j z hij (by rwa [List.getElem?_append_left hlt] at hz)
      · rw [List.getElem?_append_right hge, List.getElem?_singleton] at hz
        split at hz
        · exact Option.some_inj.mp hz ▸ hx
        · cases hz

/-! ### The lists of keys -/

/-- The list holds the keys that the log decides with the verdict `b`, in the order of the deciding
entries. -/
structure Registers (key : α → κ) (verdict : α → Option β) (log : List α) (b : β)
    (keys : List κ) : Prop where
  mem_iff : ∀ k, k ∈ keys ↔ ∃ i, Decides key verdict log k i b
  ordered : keys.Pairwise fun k l =>
    ∃ i j, i < j ∧ Decides key verdict log k i b ∧ Decides key verdict log l j b

variable {keys keys' : List κ}

lemma registers_nil : Registers key verdict [] b [] := by
  refine ⟨fun k => ?_, List.Pairwise.nil⟩
  refine iff_of_false List.not_mem_nil ?_
  rintro ⟨i, hi⟩
  exact absurd hi.lt_length (Nat.not_lt_zero i)

lemma Registers.nodup (h : Registers key verdict log b keys) : keys.Nodup := by
  refine h.ordered.imp ?_
  rintro k _ ⟨i, j, hlt, hi, hj⟩ rfl
  exact absurd (hi.unique hj).1 hlt.ne

lemma Registers.disjoint (h : Registers key verdict log b keys)
    (h' : Registers key verdict log c keys') (hne : b ≠ c) : ∀ k ∈ keys, k ∉ keys' := by
  intro k hk hk'
  obtain ⟨i, hi⟩ := (h.mem_iff k).mp hk
  obtain ⟨j, hj⟩ := (h'.mem_iff k).mp hk'
  exact hne (hi.unique hj).2

variable [DecidableEq κ]

/-- The list of the keys with the verdict `b`, after one more entry. -/
def record [DecidableEq β] (key : α → κ) (verdict : α → Option β) (b : β) (keys : List κ) (x : α) :
    List κ :=
  match verdict x with
  | none => keys
  | some c =>
    if c = b then keys.filter (· ≠ key x) ++ [key x] else keys.filter (· ≠ key x)

/-- Without the key of the new entry, the keys keep their deciding entries. -/
theorem Registers.filter (h : Registers key verdict log b keys) (x : α) :
    (∀ k, k ∈ keys.filter (· ≠ key x) ↔ k ≠ key x ∧ ∃ i, Decides key verdict log k i b) ∧
      (keys.filter (· ≠ key x)).Pairwise fun k l =>
        ∃ i j, i < j ∧ Decides key verdict (log ++ [x]) k i b ∧
          Decides key verdict (log ++ [x]) l j b := by
  constructor
  · intro k
    rw [List.mem_filter, h.mem_iff k, decide_eq_true_iff, and_comm]
  · refine (h.ordered.filter _).imp_of_mem ?_
    rintro k l hk hl ⟨i, j, hlt, hi, hj⟩
    have hne : ∀ k ∈ keys.filter (· ≠ key x), key x ≠ k := by
      intro k hk
      have hne := (List.mem_filter.mp hk).2
      exact fun heq => by simp [heq] at hne
    exact ⟨i, j, hlt, decides_concat.mpr (.inr ⟨hi, fun heq => absurd heq (hne k hk)⟩),
      decides_concat.mpr (.inr ⟨hj, fun heq => absurd heq (hne l hl)⟩)⟩

variable [DecidableEq β]

/-- One more entry moves its key to the end of the list of its verdict. -/
theorem Registers.record (h : Registers key verdict log b keys) (x : α) :
    Registers key verdict (log ++ [x]) b (record key verdict b keys x) := by
  obtain ⟨hmem, hordered⟩ := h.filter x
  unfold Lib.record
  cases hverdict : verdict x with
  | none =>
    have hsame : ∀ k i, Decides key verdict (log ++ [x]) k i b ↔ Decides key verdict log k i b := by
      intro k i
      rw [decides_concat, hverdict]
      simp
    refine ⟨fun k => ?_, ?_⟩
    · rw [h.mem_iff]
      simp only [hsame]
    · simpa only [hsame] using h.ordered
  | some c =>
    have hdecides : ∀ k, (∃ i, Decides key verdict (log ++ [x]) k i b) ↔
        (key x = k ∧ c = b) ∨ k ≠ key x ∧ ∃ i, Decides key verdict log k i b := by
      intro k
      simp only [decides_concat, hverdict, Option.some_inj, exists_or, exists_eq_left,
        reduceCtorEq, imp_false, exists_and_right]
      rw [and_comm (a := ∃ i, Decides key verdict log k i b), ne_comm]
    by_cases hc : c = b
    · subst hc
      simp only [if_true]
      refine ⟨fun k => ?_, ?_⟩
      · rw [hdecides, List.mem_append, hmem, List.mem_singleton, eq_comm (a := k)]
        simp only [and_true]
        exact or_comm
      · refine List.pairwise_append.mpr ⟨hordered, List.pairwise_singleton _ _, ?_⟩
        intro k hk l hl
        obtain rfl := List.mem_singleton.mp hl
        obtain ⟨hne, i, hi⟩ := (hmem k).mp hk
        exact ⟨i, log.length, hi.lt_length,
          decides_concat.mpr (.inr ⟨hi, fun heq => absurd heq hne.symm⟩),
          decides_concat.mpr (.inl ⟨rfl, rfl, hverdict⟩)⟩
    · simp only [if_neg hc]
      refine ⟨fun k => ?_, hordered⟩
      rw [hdecides, hmem]
      simp [hc]

/-- **The last writer decides**: after a whole log the list holds the keys decided with its
verdict. -/
theorem registers_foldl (log : List α) :
    Registers key verdict log b (log.foldl (record key verdict b) []) := by
  induction log using List.reverseRecOn with
  | nil => exact registers_nil
  | append_singleton log x ih =>
    rw [List.foldl_append]
    exact ih.record x

end Codex.Lib
