import Mathlib.Data.Finset.Card

/-!
# What came last

A bounded memory holds the last elements of a history, without repetition. An element is added to
the history only if the memory does not hold it; so between two occurrences of an element there are
as many others as the memory has places.
-/

namespace Codex.Lib

variable {α : Type} {n : ℕ} {recent history : List α} {a : α}

/-- The memory of a history. -/
structure Recent (n : ℕ) (recent history : List α) : Prop where
  nodup : recent.Nodup
  suffix : recent <:+ history
  length_le : recent.length ≤ n
  full : recent = history ∨ recent.length = n

lemma Recent.nil (n : ℕ) : Recent n ([] : List α) [] :=
  ⟨List.nodup_nil, List.suffix_refl _, Nat.zero_le _, .inl rfl⟩

lemma Recent.push_of_lt (h : Recent n recent history) (ha : a ∉ recent)
    (hroom : recent.length < n) : Recent n (recent ++ [a]) (history ++ [a]) where
  nodup := by
    rw [List.nodup_append]
    refine ⟨h.nodup, List.nodup_singleton a, ?_⟩
    rintro b hb c hc rfl
    rw [List.mem_singleton.mp hc] at hb
    exact ha hb
  suffix := List.suffix_append_inj_of_length_eq rfl |>.mpr ⟨h.suffix, rfl⟩
  length_le := by
    rw [List.length_append, List.length_singleton]
    exact hroom
  full := by
    rcases h.full with rfl | hfull
    · exact .inl rfl
    · exact absurd hfull hroom.ne

lemma Recent.push_of_eq {b : α} (h : Recent n (b :: recent) history) (ha : a ∉ b :: recent)
    (hfull : (b :: recent).length = n) : Recent n (recent ++ [a]) (history ++ [a]) where
  nodup := by
    obtain ⟨-, hnodup⟩ := List.nodup_cons.mp h.nodup
    rw [List.nodup_append]
    refine ⟨hnodup, List.nodup_singleton a, ?_⟩
    rintro c hc d hd rfl
    rw [List.mem_singleton.mp hd] at hc
    exact ha (List.mem_cons_of_mem b hc)
  suffix := by
    obtain ⟨older, rfl⟩ := h.suffix
    exact ⟨older ++ [b], by simp⟩
  length_le := by
    rw [List.length_append, List.length_singleton, ← hfull, List.length_cons]
  full := by
    right
    rw [List.length_append, List.length_singleton, ← hfull, List.length_cons]

/-! ### Repetitions -/

variable [DecidableEq α]

/-- Between two occurrences of an element there are so many others. -/
def Spaced (n : ℕ) (history : List α) : Prop :=
  ∀ u a v z, history = u ++ a :: (v ++ a :: z) → n ≤ (v.toFinset.erase a).card

lemma Spaced.nil (n : ℕ) : Spaced n ([] : List α) := by
  intro u a v z h
  exact absurd h (by simp)

lemma Recent.le_card {u v : List α} (h : Recent n recent (u ++ a :: v)) (ha : a ∉ recent) :
    n ≤ (v.toFinset.erase a).card := by
  have hmem : a ∈ u ++ a :: v := List.mem_append_right _ List.mem_cons_self
  have hlength : recent.length = n := by
    rcases h.full with rfl | hfull
    · exact absurd hmem ha
    · exact hfull
  -- the memory lies behind the earlier occurrence
  have hbehind : recent <:+ v := by
    obtain ⟨older, hsplit⟩ := h.suffix
    rcases List.append_eq_append_iff.mp hsplit with ⟨s, -, hrecent⟩ | ⟨s, -, hrest⟩
    · rw [hrecent] at ha
      exact absurd (List.mem_append_right _ List.mem_cons_self) ha
    · rcases List.cons_eq_append_iff.mp hrest with ⟨-, hrecent⟩ | ⟨s, -, hv⟩
      · rw [hrecent] at ha
        exact absurd List.mem_cons_self ha
      · exact ⟨s, hv.symm⟩
  have hsub : recent.toFinset ⊆ v.toFinset.erase a := by
    intro b hb
    rw [List.mem_toFinset] at hb
    rw [Finset.mem_erase, List.mem_toFinset]
    exact ⟨fun hba => ha (hba ▸ hb), hbehind.subset hb⟩
  calc n = recent.toFinset.card := by rw [List.toFinset_card_of_nodup h.nodup, hlength]
    _ ≤ (v.toFinset.erase a).card := Finset.card_le_card hsub

/-- **What is not remembered came long ago.** -/
theorem Spaced.push (h : Spaced n history) (hrecent : Recent n recent history) (ha : a ∉ recent) :
    Spaced n (history ++ [a]) := by
  intro u b v z hsplit
  rcases List.eq_nil_or_concat' z with rfl | ⟨z, c, rfl⟩
  · rw [← List.cons_append, ← List.append_assoc] at hsplit
    obtain ⟨rfl, hab⟩ := List.append_inj' hsplit rfl
    obtain rfl := List.singleton_inj.mp hab
    exact hrecent.le_card ha
  · have hinner : u ++ b :: (v ++ b :: (z ++ [c])) = (u ++ b :: (v ++ b :: z)) ++ [c] := by simp
    rw [hinner] at hsplit
    exact h u b v z (List.append_inj' hsplit rfl).1

lemma Spaced.count_le_one [BEq α] [LawfulBEq α] (h : Spaced n history)
    (hfew : ∀ u v, history = u ++ a :: v → (v.toFinset.erase a).card < n) :
    history.count a ≤ 1 := by
  by_contra hmany
  have hmem : a ∈ history := List.count_pos_iff.mp (by omega)
  obtain ⟨u, rest, rfl, hu⟩ := List.eq_append_cons_of_mem hmem
  rw [List.count_append, List.count_cons_self, List.count_eq_zero_of_not_mem hu] at hmany
  obtain ⟨v, z, rfl⟩ := List.append_of_mem (List.count_pos_iff.mp (by omega : 0 < rest.count a))
  have hfar := h u a v z rfl
  have hnear := hfew u (v ++ a :: z) rfl
  have hsub : v.toFinset.erase a ⊆ (v ++ a :: z).toFinset.erase a := by
    rw [List.toFinset_append]
    exact Finset.erase_subset_erase a Finset.subset_union_left
  exact absurd (hfar.trans (Finset.card_le_card hsub)) (not_le.mpr hnear)

end Codex.Lib
