import Mathlib.Data.List.Basic
import Mathlib.Data.List.Flatten
import Mathlib.Data.List.ProdSigma

/-!
# Pairing calls with their outputs

A list of items in which some items are calls and some are outputs, both named by a key. `ensure`
puts a made-up output behind every call whose key no output of the list has; `prune` drops every
output whose key no call of the list has, apart from exempt ones.
-/

namespace Codex.Lib

variable {α κ : Type}

/-! ### Insertion by recorded index -/

/-- Insert each recorded item behind its index, the last record first, so that no insertion moves
the index of a later one. -/
def insertAfter (items : List α) (records : List (ℕ × α)) : List α :=
  records.reverse.foldl (fun acc r => acc.insertIdx (r.1 + 1) r.2) items

variable (f : α → Option α) (items : List α)

/-- The records a pass over `items` makes, the first item having index `n`. -/
def recordsFrom (n : ℕ) : List (ℕ × α) :=
  (items.zipIdx n).filterMap fun p => (f p.1).map (p.2, ·)

lemma recordsFrom_cons (x : α) (items : List α) (n : ℕ) :
    recordsFrom f (x :: items) n = ((f x).map (n, ·)).toList ++ recordsFrom f items (n + 1) := by
  unfold recordsFrom
  rw [List.zipIdx_cons, List.filterMap_cons]
  cases h : f x <;> simp

lemma insertAfter_append (rs rs' : List (ℕ × α)) :
    insertAfter items (rs ++ rs') = insertAfter (insertAfter items rs') rs := by
  simp [insertAfter]

lemma insertIdx_length_append (pre l : List α) (x : α) :
    (pre ++ l).insertIdx pre.length x = pre ++ x :: l := by
  induction pre with
  | nil => simp
  | cons y pre ih => simp [ih]

private theorem insertAfter_prefix (items pre : List α) :
    insertAfter (pre ++ items) (recordsFrom f items pre.length) =
      pre ++ items.flatMap fun x => x :: (f x).toList := by
  induction items generalizing pre with
  | nil => simp [recordsFrom, insertAfter]
  | cons x items ih =>
    have hrest := ih (pre ++ [x])
    rw [List.length_append, List.length_singleton, List.append_assoc, List.singleton_append]
      at hrest
    rw [recordsFrom_cons, insertAfter_append, hrest, List.flatMap_cons]
    cases hf : f x with
    | none => simp [insertAfter]
    | some y =>
      have hlen : pre.length + 1 = (pre ++ [x]).length := by simp
      simp only [insertAfter, Option.map_some, Option.toList_some, List.reverse_singleton,
        List.foldl_cons, List.foldl_nil]
      rw [hlen, List.append_cons, insertIdx_length_append]
      simp

/-- Insertion by recorded index is insertion in place. -/
theorem insertAfter_eq_flatMap :
    insertAfter items (recordsFrom f items 0) = items.flatMap fun x => x :: (f x).toList :=
  insertAfter_prefix f items []

/-- Pushing the kept items one by one is filtering. -/
theorem filter_eq_flatMap (keep : α → Bool) (items : List α) :
    items.filter keep = items.flatMap fun x => if keep x then [x] else [] := by
  induction items with
  | nil => rfl
  | cons x items ih =>
    rw [List.filter_cons, List.flatMap_cons, ih]
    split <;> simp

/-! ### Pairings -/

/-- Which items are calls and which are outputs, by key; which outputs need no call; and the output
made up for a key. -/
structure Pairing (α κ : Type) where
  callKey : α → Option κ
  outputKey : α → Option κ
  exempt : α → Bool
  synth : κ → α
  outputKey_synth : ∀ k, outputKey (synth k) = some k
  callKey_synth : ∀ k, callKey (synth k) = none
  outputKey_of_call : ∀ x k, callKey x = some k → outputKey x = none

namespace Pairing

variable [DecidableEq κ] (p : Pairing α κ) (l : List α)

/-- Every call of the list has an output in it. -/
def CallsMatched : Prop :=
  ∀ x ∈ l, ∀ k, p.callKey x = some k → k ∈ l.filterMap p.outputKey

/-- Every output of the list that is not exempt has a call in it. -/
def OutputsMatched : Prop :=
  ∀ x ∈ l, p.exempt x = false → ∀ k, p.outputKey x = some k → k ∈ l.filterMap p.callKey

/-- The output missing behind `x` when `outputs` are the keys of the outputs there are. -/
def missing (outputs : List κ) (x : α) : Option α :=
  ((p.callKey x).filter fun k => k ∉ outputs).map p.synth

/-- An output that is not exempt and whose key is none of `calls`. -/
def orphan (calls : List κ) (x : α) : Bool := !p.exempt x && (p.outputKey x).any fun k => k ∉ calls

/-- Put the missing output behind every call. -/
def ensure : List α :=
  l.flatMap fun x => x :: (p.missing (l.filterMap p.outputKey) x).toList

/-- Drop the orphans. -/
def prune : List α := l.filter fun x => !p.orphan (l.filterMap p.callKey) x

variable {p} {l : List α} {calls outputs : List κ} {x y : α}

lemma missing_eq_some_iff :
    p.missing outputs x = some y ↔ ∃ k, p.callKey x = some k ∧ k ∉ outputs ∧ y = p.synth k := by
  unfold missing
  constructor
  · intro h
    obtain ⟨k, hk, rfl⟩ := Option.map_eq_some_iff.mp h
    obtain ⟨hcall, hnot⟩ := Option.filter_eq_some_iff.mp hk
    exact ⟨k, hcall, by simpa using hnot, rfl⟩
  · rintro ⟨k, hk, hnot, rfl⟩
    simp [hk, Option.filter, hnot]

lemma callKey_of_missing (h : p.missing outputs x = some y) : p.callKey y = none := by
  obtain ⟨k, -, -, rfl⟩ := missing_eq_some_iff.mp h
  exact p.callKey_synth k

lemma orphan_eq_true_iff :
    p.orphan calls x = true ↔ p.exempt x = false ∧ ∃ k, p.outputKey x = some k ∧ k ∉ calls := by
  unfold orphan
  cases p.outputKey x <;> simp

lemma orphan_of_call {k : κ} (h : p.callKey x = some k) : p.orphan calls x = false := by
  simp [orphan, p.outputKey_of_call x k h]

/-- The output made up for a call of the list is not an orphan. -/
theorem orphan_of_missing (hx : x ∈ l) (h : p.missing outputs x = some y) :
    p.orphan (l.filterMap p.callKey) y = false := by
  obtain ⟨k, hk, -, rfl⟩ := missing_eq_some_iff.mp h
  have hmem : k ∈ l.filterMap p.callKey := List.mem_filterMap.mpr ⟨x, hx, hk⟩
  rw [← Bool.not_eq_true, orphan_eq_true_iff]
  rintro ⟨-, k', hk', hnot⟩
  rw [p.outputKey_synth k, Option.some_inj] at hk'
  exact hnot (hk' ▸ hmem)

lemma mem_ensure_iff :
    y ∈ p.ensure l ↔ y ∈ l ∨ ∃ x ∈ l, p.missing (l.filterMap p.outputKey) x = some y := by
  unfold ensure
  rw [List.mem_flatMap]
  constructor
  · rintro ⟨x, hx, hy⟩
    rcases List.mem_cons.mp hy with rfl | hy
    · exact .inl hx
    · exact .inr ⟨x, hx, by simpa using hy⟩
  · rintro (hy | ⟨x, hx, hy⟩)
    · exact ⟨y, hy, List.mem_cons_self⟩
    · exact ⟨x, hx, List.mem_cons_of_mem _ (by simpa using hy)⟩

/-! ### What the passes do -/

lemma callKeys_ensure : (p.ensure l).filterMap p.callKey = l.filterMap p.callKey := by
  unfold ensure
  rw [List.filterMap_flatMap]
  have hblock : ∀ x, (x :: (p.missing (l.filterMap p.outputKey) x).toList).filterMap p.callKey =
      (p.callKey x).toList := by
    intro x
    cases hmiss : p.missing (l.filterMap p.outputKey) x with
    | none => cases h : p.callKey x <;> simp [h]
    | some y => cases h : p.callKey x <;> simp [h, callKey_of_missing hmiss]
  simp only [hblock]
  exact (List.filterMap_eq_flatMap_toList p.callKey l).symm

/-- Orphans are no calls, so dropping them keeps the call keys. -/
theorem callKeys_prune : (p.prune l).filterMap p.callKey = l.filterMap p.callKey := by
  unfold prune
  rw [List.filterMap_filter]
  apply List.filterMap_congr
  intro x _
  cases h : p.callKey x with
  | none => simp
  | some k => simp [orphan_of_call h]

/-- **Both passes.** The orphans of the list go, every other item stays in its place, and each call
without an output is followed by the output made up for it. -/
theorem prune_ensure_eq :
    p.prune (p.ensure l) = (l.filter fun x => !p.orphan (l.filterMap p.callKey) x).flatMap fun x =>
        x :: (p.missing (l.filterMap p.outputKey) x).toList := by
  have hblock : ∀ l' : List α, (∀ x ∈ l', x ∈ l) →
      (l'.flatMap fun x => x :: (p.missing (l.filterMap p.outputKey) x).toList).filter
          (fun x => !p.orphan (l.filterMap p.callKey) x) =
        (l'.filter fun x => !p.orphan (l.filterMap p.callKey) x).flatMap fun x =>
          x :: (p.missing (l.filterMap p.outputKey) x).toList := by
    intro l' hsub
    induction l' with
    | nil => rfl
    | cons x l' ih =>
      have hrest := ih fun y hy => hsub y (List.mem_cons_of_mem _ hy)
      rw [List.flatMap_cons, List.filter_append, hrest]
      cases hmiss : p.missing (l.filterMap p.outputKey) x with
      | none =>
        cases horphan : p.orphan (l.filterMap p.callKey) x <;> simp [horphan, hmiss]
      | some y =>
        have hy := orphan_of_missing (hsub x List.mem_cons_self) hmiss
        obtain ⟨k, hk, -, -⟩ := missing_eq_some_iff.mp hmiss
        have hx : p.orphan (l.filterMap p.callKey) x = false := orphan_of_call hk
        simp [hx, hy, hmiss]
  have hkeys := callKeys_ensure (p := p) (l := l)
  unfold prune
  rw [hkeys]
  exact hblock l fun x hx => hx

lemma callsMatched_prune_ensure : p.CallsMatched (p.prune (p.ensure l)) := by
  intro x hx k hk
  have hkmem : k ∈ (p.ensure l).filterMap p.callKey := by
    rw [← callKeys_prune]
    exact List.mem_filterMap.mpr ⟨x, hx, hk⟩
  obtain ⟨c, hc, hck⟩ := List.mem_filterMap.mp (callKeys_ensure (p := p) ▸ hkmem)
  -- the output of `k` that the first pass leaves, an old one or the one made up
  obtain ⟨o, ho, hok⟩ : ∃ o ∈ p.ensure l, p.outputKey o = some k := by
    by_cases hold : k ∈ l.filterMap p.outputKey
    · obtain ⟨o, ho, hok⟩ := List.mem_filterMap.mp hold
      exact ⟨o, mem_ensure_iff.mpr (.inl ho), hok⟩
    · have hmiss := missing_eq_some_iff.mpr ⟨k, hck, hold, rfl⟩
      exact ⟨p.synth k, mem_ensure_iff.mpr (.inr ⟨c, hc, hmiss⟩), p.outputKey_synth k⟩
  refine List.mem_filterMap.mpr ⟨o, List.mem_filter.mpr ⟨ho, ?_⟩, hok⟩
  rw [Bool.not_eq_true', ← Bool.not_eq_true, orphan_eq_true_iff]
  rintro ⟨-, k', hk', hnot⟩
  rw [hok, Option.some_inj] at hk'
  exact hnot (hk' ▸ hkmem)

lemma outputsMatched_prune : p.OutputsMatched (p.prune l) := by
  intro x hx hexempt k hk
  rw [callKeys_prune]
  have hkeep := (List.mem_filter.mp hx).2
  by_contra hnot
  have horphan := orphan_eq_true_iff.mpr ⟨hexempt, k, hk, hnot⟩
  simp [horphan] at hkeep

/-! ### Fixed points -/

lemma ensure_of_matched (h : p.CallsMatched l) : p.ensure l = l := by
  have hnone : ∀ x ∈ l, p.missing (l.filterMap p.outputKey) x = none := by
    intro x hx
    by_contra hne
    obtain ⟨y, hy⟩ := Option.ne_none_iff_exists'.mp hne
    obtain ⟨k, hk, hnot, -⟩ := missing_eq_some_iff.mp hy
    exact hnot (h x hx k hk)
  unfold ensure
  calc l.flatMap (fun x => x :: (p.missing (l.filterMap p.outputKey) x).toList)
      = l.flatMap (fun x => [x]) := by
        apply List.flatMap_congr
        intro x hx
        rw [hnone x hx, Option.toList_none]
    _ = l := List.flatMap_singleton' l

lemma prune_of_matched (h : p.OutputsMatched l) : p.prune l = l := by
  unfold prune
  rw [List.filter_eq_self]
  intro x hx
  by_contra hkeep
  have horphan : p.orphan (l.filterMap p.callKey) x = true := by simpa using hkeep
  obtain ⟨hexempt, k, hk, hnot⟩ := orphan_eq_true_iff.mp horphan
  exact hnot (h x hx hexempt k hk)

lemma prune_ensure_of_matched (hc : p.CallsMatched l) (ho : p.OutputsMatched l) :
    p.prune (p.ensure l) = l := by
  rw [ensure_of_matched hc, prune_of_matched ho]

/-! ### Changing items in place -/

section map

omit [DecidableEq κ]

variable {f : α → α} (hcall : ∀ x, p.callKey (f x) = p.callKey x)
include hcall

variable (hout : ∀ x, p.outputKey (f x) = p.outputKey x)
include hout

/-- A change that touches no key and no exemption keeps a list paired. -/
theorem CallsMatched.map (h : p.CallsMatched l) : p.CallsMatched (l.map f) := by
  intro x hx k hk
  obtain ⟨x, hxl, rfl⟩ := List.mem_map.mp hx
  rw [List.filterMap_map]
  have := h x hxl k ((hcall x).symm.trans hk)
  rwa [show p.outputKey ∘ f = p.outputKey from funext hout]

lemma OutputsMatched.map

    (hexempt : ∀ x, p.exempt (f x) = p.exempt x) (h : p.OutputsMatched l) :
    p.OutputsMatched (l.map f) := by
  intro x hx hex k hk
  obtain ⟨x, hxl, rfl⟩ := List.mem_map.mp hx
  rw [List.filterMap_map]
  have := h x hxl ((hexempt x).symm.trans hex) k ((hout x).symm.trans hk)
  rwa [show p.callKey ∘ f = p.callKey from funext hcall]

end map

/-! ### Dropping a pair -/

section erase

variable {f g : α → Option κ} {k : κ}

lemma filterMap_eraseP_self (l : List α) :
    (l.eraseP fun x => f x = some k).filterMap f = (l.filterMap f).erase k := by
  induction l with
  | nil => rfl
  | cons x l ih =>
    by_cases hx : f x = some k
    · rw [List.eraseP_cons_of_pos (by simpa using hx), List.filterMap_cons_some hx,
        List.erase_cons_head]
    · rw [List.eraseP_cons_of_neg (by simpa using hx)]
      cases hkey : f x with
      | none => rw [List.filterMap_cons_none hkey, List.filterMap_cons_none hkey, ih]
      | some k' =>
        have hne : ¬ k' = k := by
          rintro rfl
          exact hx hkey
        rw [List.filterMap_cons_some hkey, List.filterMap_cons_some hkey, ih,
          List.erase_cons_tail (by simpa using hne)]

lemma filterMap_eraseP_of_none (hg : ∀ x, f x = some k → g x = none) (l : List α) :
    (l.eraseP fun x => f x = some k).filterMap g = l.filterMap g := by
  induction l with
  | nil => rfl
  | cons x l ih =>
    by_cases hx : f x = some k
    · rw [List.eraseP_cons_of_pos (by simpa using hx), List.filterMap_cons_none (hg x hx)]
    · rw [List.eraseP_cons_of_neg (by simpa using hx), List.filterMap_cons, List.filterMap_cons, ih]

end erase

/-- Every call key is that of one call, and the outputs answer exactly the calls. -/
structure Exact (p : Pairing α κ) (l : List α) : Prop where
  nodup : (l.filterMap p.callKey).Nodup
  outputs : (l.filterMap p.outputKey).Perm (l.filterMap p.callKey)

/-- What is left of `l` when the counterpart of `x` goes. -/
def removeMate (p : Pairing α κ) (l : List α) (x : α) : List α :=
  match p.callKey x with
  | some k => l.eraseP fun y => p.outputKey y = some k
  | none =>
    match p.outputKey x with
    | some k => l.eraseP fun y => p.callKey y = some k
    | none => l

omit [DecidableEq κ] in
lemma Exact.callsMatched (h : p.Exact l) : p.CallsMatched l := by
  intro x hx k hk
  exact h.outputs.mem_iff.mpr (List.mem_filterMap.mpr ⟨x, hx, hk⟩)

omit [DecidableEq κ] in
lemma Exact.outputsMatched (h : p.Exact l) : p.OutputsMatched l := by
  intro x hx _ k hk
  exact h.outputs.mem_iff.mp (List.mem_filterMap.mpr ⟨x, hx, hk⟩)

/-- The calls that are left are some of those there were. -/
theorem callKeys_removeMate_sublist (p : Pairing α κ) (l : List α) (x : α) :
    ((p.removeMate l x).filterMap p.callKey).Sublist ((x :: l).filterMap p.callKey) := by
  refine List.Sublist.filterMap _ (List.Sublist.trans ?_ (List.sublist_cons_self x l))
  unfold removeMate
  split
  · exact List.eraseP_sublist
  · split
    · exact List.eraseP_sublist
    · exact List.Sublist.refl l

/-- The first item and its counterpart go together: the list stays paired one to one. -/
theorem Exact.removeMate (h : p.Exact (x :: l)) : p.Exact (p.removeMate l x) := by
  refine ⟨h.nodup.sublist (p.callKeys_removeMate_sublist l x), ?_⟩
  have houtputs := h.outputs
  unfold Pairing.removeMate
  cases hcall : p.callKey x with
  | some k =>
    have hnone : p.outputKey x = none := p.outputKey_of_call x k hcall
    rw [List.filterMap_cons_none hnone, List.filterMap_cons_some hcall] at houtputs
    have herase := houtputs.erase k
    rw [List.erase_cons_head] at herase
    have hcalls := filterMap_eraseP_of_none (f := p.outputKey) (g := p.callKey) (k := k) ?_ l
    · simp only
      rw [filterMap_eraseP_self, hcalls]
      exact herase
    · intro y hy
      by_contra hne
      obtain ⟨k', hk'⟩ := Option.ne_none_iff_exists'.mp hne
      simp [p.outputKey_of_call y k' hk'] at hy
  | none =>
    cases hout : p.outputKey x with
    | some k =>
      rw [List.filterMap_cons_some hout, List.filterMap_cons_none hcall] at houtputs
      have herase := houtputs.erase k
      rw [List.erase_cons_head] at herase
      simp only
      rw [filterMap_eraseP_self, filterMap_eraseP_of_none (fun y => p.outputKey_of_call y k)]
      exact herase
    | none =>
      rw [List.filterMap_cons_none hout, List.filterMap_cons_none hcall] at houtputs
      exact houtputs

end Pairing

end Codex.Lib
