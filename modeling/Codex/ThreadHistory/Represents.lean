import Codex.ThreadHistory.Changes

/-!
# Mirrors of turns

What a mirror that has the turns of a thread has after each kind of change, and which turns a replay
can build.
-/

namespace Codex.ThreadHistory

open Codex.Lib

variable {Value : Type}

/-! ### The tables and the turns -/

/-- The mirror has the turns: their rows in order, and the items of each. -/
structure Represents (mirror : Mirror Value) (turns : List (Turn Value)) : Prop where
  turns_eq : mirror.turns = turns.map .fromTurn
  items_eq : ∀ turn ∈ turns,
    (mirror.items.filter fun change => change.turnId = turn.id).map (·.item) = turn.items
  known : ∀ change ∈ mirror.items, change.turnId ∈ turns.map Turn.id

namespace Represents

variable {mirror : Mirror Value} {turns before after : List (Turn Value)} {turn : Turn Value}

lemma empty : Represents (Mirror.empty : Mirror Value) [] where
  turns_eq := rfl
  items_eq _ hturn := absurd hturn List.not_mem_nil
  known _ hchange := absurd hchange List.not_mem_nil

variable (h : Represents mirror turns)
include h

lemma view_eq : mirror.view = turns := by
  rw [Mirror.view, h.turns_eq, List.map_map]
  refine (List.map_congr_left fun turn hturn => ?_).trans (List.map_id _)
  have hitems := h.items_eq turn hturn
  change ({ turn with
    items := (mirror.items.filter fun change => change.turnId = turn.id).map (·.item) } :
      Turn Value) = turn
  rw [hitems]

lemma keys_eq : mirror.turns.map TurnChange.turnId = turns.map Turn.id := by
  rw [h.turns_eq, List.map_map]
  rfl

lemma addTurn (hnew : turn.id ∉ turns.map Turn.id) (hitems : turn.items = []) :
    Represents (mirror.apply ⟨[], [.fromTurn turn], []⟩) (turns ++ [turn]) := by
  have hkey : (TurnChange.fromTurn turn).turnId ∉ mirror.turns.map TurnChange.turnId := by
    rw [h.keys_eq]
    exact hnew
  rw [Mirror.apply_turns, upsertAll_cons, upsertAll_nil, upsert_of_notMem hkey]
  refine ⟨?_, ?_, ?_⟩
  · rw [h.turns_eq, List.map_append]
    rfl
  · intro other hother
    rcases List.mem_append.mp hother with hother | hother
    · exact h.items_eq other hother
    · rw [List.mem_singleton.mp hother, hitems, List.map_eq_nil_iff, List.filter_eq_nil_iff]
      intro change hchange heq
      rw [decide_eq_true_eq] at heq
      exact hnew (heq ▸ h.known change hchange)
  · intro change hchange
    rw [List.map_append]
    exact List.mem_append_left _ (h.known change hchange)

omit h

lemma setTurn {turn' : Turn Value} (h : Represents mirror (before ++ turn :: after))
    (hnodup : ((before ++ turn :: after).map Turn.id).Nodup) (hid : turn'.id = turn.id)
    (hitems : turn'.items = turn.items) :
    Represents (mirror.apply ⟨[], [.fromTurn turn'], []⟩) (before ++ turn' :: after) := by
  have hbefore : (TurnChange.fromTurn turn').turnId ∉
      (before.map TurnChange.fromTurn).map TurnChange.turnId := by
    rw [List.map_append, List.map_cons] at hnodup
    have hdisjoint := (List.nodup_append.mp hnodup).2.2
    intro hmem
    rw [List.map_map] at hmem
    exact hdisjoint _ hmem _ List.mem_cons_self hid
  rw [Mirror.apply_turns, upsertAll_cons, upsertAll_nil, h.turns_eq, List.map_append, List.map_cons,
    upsert_append_cons hbefore hid.symm]
  refine ⟨?_, ?_, ?_⟩
  · rw [List.map_append, List.map_cons]
  · intro other hother
    rcases List.mem_append.mp hother with hother | hother
    · exact h.items_eq other (List.mem_append_left _ hother)
    · rcases List.mem_cons.mp hother with rfl | hother
      · rw [hitems, hid]
        exact h.items_eq turn (List.mem_append_right _ List.mem_cons_self)
      · exact h.items_eq other (List.mem_append_right _ (List.mem_cons_of_mem _ hother))
  · intro change hchange
    have hknown := h.known change hchange
    rwa [List.map_append, List.map_cons, hid, ← List.map_cons, ← List.map_append]

/-- An item of a turn that changes, or that is new. -/
theorem setItem (h : Represents mirror (before ++ turn :: after))
    (hnodup : ((before ++ turn :: after).map Turn.id).Nodup) (item : ThreadItem Value) :
    Represents (mirror.apply ⟨[⟨turn.id, item⟩], [], []⟩)
      (before ++ { turn with items := upsert ThreadItem.id item turn.items } :: after) := by
  have hother : ∀ other ∈ before ++ after, turn.id ≠ other.id := by
    intro other hother heq
    have hperm : (before ++ turn :: after).Perm (turn :: (before ++ after)) := List.perm_middle
    have hnotMem := (List.nodup_cons.mp ((hperm.map Turn.id).nodup_iff.mp hnodup)).1
    exact hnotMem (heq ▸ List.mem_map_of_mem hother)
  have hkept : ∀ other ∈ before ++ after,
      ((upsert ItemChange.key ⟨turn.id, item⟩ mirror.items).filter
        fun change => change.turnId = other.id).map (·.item) = other.items := by
    intro other hmem
    rw [filter_upsert_of_neg]
    · apply h.items_eq other
      rw [List.mem_append] at hmem ⊢
      exact hmem.imp_right (List.mem_cons_of_mem _)
    · intro a b hkey
      have hturn : a.turnId = b.turnId := congrArg Prod.fst hkey
      rw [hturn]
    · exact decide_eq_false (hother other hmem)
  rw [Mirror.apply_items, upsertAll_cons, upsertAll_nil]
  refine ⟨?_, ?_, ?_⟩
  · rw [h.turns_eq, List.map_append, List.map_append, List.map_cons, List.map_cons]
    rfl
  · intro other hmem
    rcases List.mem_append.mp hmem with hmem | hmem
    · exact hkept other (List.mem_append_left _ hmem)
    · rcases List.mem_cons.mp hmem with rfl | hmem
      · have hmap : (upsert ItemChange.key ⟨turn.id, item⟩
            (mirror.items.filter fun change => change.turnId = turn.id)).map (·.item) =
            upsert ThreadItem.id item
              ((mirror.items.filter fun change => change.turnId = turn.id).map (·.item)) := by
          apply map_upsert
          intro change hchange
          have hturn : change.turnId = turn.id := of_decide_eq_true (List.mem_filter.mp hchange).2
          rw [ItemChange.key, ItemChange.key, Prod.mk.injEq]
          exact ⟨And.right, fun hid => ⟨hturn, hid⟩⟩
        rw [filter_upsert_of_pos, hmap, h.items_eq turn
          (List.mem_append_right _ List.mem_cons_self)]
        · intro a b hkey
          have hturn : a.turnId = b.turnId := congrArg Prod.fst hkey
          rw [hturn]
        · exact decide_eq_true rfl
      · exact hkept other (List.mem_append_right _ hmem)
  · intro change hchange
    have hids : (before ++ { turn with items := upsert ThreadItem.id item turn.items } ::
        after).map Turn.id = (before ++ turn :: after).map Turn.id := by
      rw [List.map_append, List.map_append, List.map_cons, List.map_cons]
    rw [hids]
    rcases mem_upsert hchange with rfl | hchange
    · exact List.mem_map_of_mem (List.mem_append_right _ List.mem_cons_self)
    · exact h.known change hchange

lemma removeTurns (h : Represents mirror (before ++ after))
    (hnodup : ((before ++ after).map Turn.id).Nodup) :
    Represents (mirror.apply ⟨[], [], after.map Turn.id⟩) before := by
  have hdisjoint : ∀ turn ∈ before, turn.id ∉ after.map Turn.id := by
    intro turn hturn hmem
    rw [List.map_append] at hnodup
    exact (List.nodup_append.mp hnodup).2.2 _ (List.mem_map_of_mem hturn) _ hmem rfl
  rw [Mirror.apply, upsertAll_nil, upsertAll_nil]
  refine ⟨?_, ?_, ?_⟩
  · rw [h.turns_eq, List.map_append, List.filter_append]
    have hbefore : (before.map TurnChange.fromTurn).filter
        (fun turn => turn.turnId ∉ after.map Turn.id) = before.map TurnChange.fromTurn := by
      apply List.filter_eq_self.mpr
      intro change hchange
      obtain ⟨turn, hturn, rfl⟩ := List.mem_map.mp hchange
      exact decide_eq_true (hdisjoint turn hturn)
    have hafter : (after.map TurnChange.fromTurn).filter
        (fun turn => turn.turnId ∉ after.map Turn.id) = [] := by
      apply List.filter_eq_nil_iff.mpr
      intro change hchange
      obtain ⟨turn, hturn, rfl⟩ := List.mem_map.mp hchange
      rw [decide_eq_true_eq, not_not]
      exact List.mem_map_of_mem hturn
    rw [hbefore, hafter, List.append_nil]
  · intro turn hturn
    rw [List.filter_filter, ← h.items_eq turn (List.mem_append_left _ hturn)]
    congr 1
    apply List.filter_congr
    intro change _
    rw [← Bool.decide_and, decide_eq_decide]
    refine ⟨And.left, fun heq => ⟨heq, ?_⟩⟩
    rw [heq]
    exact hdisjoint turn hturn
  · intro change hchange
    obtain ⟨hmem, hkept⟩ := List.mem_filter.mp hchange
    have hknown := h.known change hmem
    rw [List.map_append, List.mem_append] at hknown
    exact hknown.resolve_right (of_decide_eq_true hkept)

end Represents

/-! ### Turns of a replay -/

/-- The ids of the turns are those of the records that started them, or are generated from indexes
below the bound; no id is there twice. -/
structure WellFormed (started : List Text) (bound : ℕ) (turns : List (Turn Value)) : Prop where
  turnIds : (turns.map Turn.id).Nodup
  itemIds : ∀ turn ∈ turns, (turn.items.map ThreadItem.id).Nodup
  origin : ∀ turn ∈ turns,
    turn.id ∈ started ∨ ∃ index < bound, turn.id = Builder.rolloutTurnId index

namespace WellFormed

variable {started : List Text} {bound : ℕ} {turns before after : List (Turn Value)}
  {turn turn' : Turn Value}

lemma mono {bound' : ℕ} (h : WellFormed started bound turns) (hle : bound ≤ bound') :
    WellFormed started bound' turns where
  turnIds := h.turnIds
  itemIds := h.itemIds
  origin turn hturn := (h.origin turn hturn).imp_right fun ⟨index, hlt, hid⟩ =>
    ⟨index, hlt.trans_le hle, hid⟩

lemma start (h : WellFormed started bound turns) (id : Text) :
    WellFormed (started ++ [id]) bound turns where
  turnIds := h.turnIds
  itemIds := h.itemIds
  origin turn hturn := (h.origin turn hturn).imp_left (List.mem_append_left _)

lemma set (h : WellFormed started bound (before ++ turn :: after)) (hid : turn'.id = turn.id)
    (hitems : (turn'.items.map ThreadItem.id).Nodup) :
    WellFormed started bound (before ++ turn' :: after) := by
  have hmem : ∀ other ∈ before ++ turn' :: after,
      other = turn' ∨ other ∈ before ++ turn :: after := by
    intro other hother
    rw [List.mem_append, List.mem_cons] at hother ⊢
    rcases hother with hother | hother | hother
    · exact .inr (.inl hother)
    · exact .inl hother
    · exact .inr (.inr (.inr hother))
  refine ⟨?_, ?_, ?_⟩
  · have hids := h.turnIds
    rwa [List.map_append, List.map_cons, ← hid, ← List.map_cons, ← List.map_append] at hids
  · intro other hother
    rcases hmem other hother with rfl | hother
    · exact hitems
    · exact h.itemIds other hother
  · intro other hother
    rcases hmem other hother with rfl | hother
    · rw [hid]
      exact h.origin turn (List.mem_append_right _ List.mem_cons_self)
    · exact h.origin other hother

lemma add (h : WellFormed started bound turns) (hnew : turn.id ∉ turns.map Turn.id)
    (hitems : turn.items = [])
    (horigin : turn.id ∈ started ∨ ∃ index < bound, turn.id = Builder.rolloutTurnId index) :
    WellFormed started bound (turns ++ [turn]) := by
  refine ⟨?_, ?_, ?_⟩
  · rw [List.map_append, List.map_singleton, ← List.concat_eq_append]
    exact h.turnIds.concat hnew
  · intro other hother
    rcases List.mem_append.mp hother with hother | hother
    · exact h.itemIds other hother
    · rw [List.mem_singleton.mp hother, hitems]
      exact List.nodup_nil
  · exact List.forall_mem_append.mpr ⟨h.origin, List.forall_mem_singleton.mpr horigin⟩

lemma of_append (h : WellFormed started bound (before ++ after)) :
    WellFormed started bound before where
  turnIds := by
    have hids := h.turnIds
    rw [List.map_append] at hids
    exact hids.of_append_left
  itemIds turn hturn := h.itemIds turn (List.mem_append_left _ hturn)
  origin turn hturn := h.origin turn (List.mem_append_left _ hturn)

end WellFormed

lemma rolloutTurnId_injective {m n : ℕ}
    (h : Builder.rolloutTurnId m = Builder.rolloutTurnId n) : m = n :=
  toDigits_injective (List.append_cancel_left h)

lemma itemId_injective {m n : ℕ} (h : Builder.itemId m = Builder.itemId n) : m = n :=
  toDigits_injective (List.append_cancel_left h)

end Codex.ThreadHistory
