import Codex.ContextManager.History
import Codex.ContextManager.Normalize
import Mathlib.Data.List.Nodup
import Mathlib.Logic.Function.Iterate

/-!
# Trimming the history from the front

`ContextManager::remove_first_item` and `normalize::remove_corresponding_for`: a history that is too
long loses its oldest item, and with it the counterpart of that item, so that no normalisation is
needed afterwards.

* `removeCorrespondingFor_eq`: the table of counterparts is that of the pairing by kind and id;
* `removeFirstItem_callsPaired`: calls and outputs stay paired however much is trimmed.
-/

namespace Codex.ContextManager

open Codex.Lib Codex.Protocol

variable {Value Ctx Snapshot : Type}

/-! ### The counterpart of an item -/

def removeFirstMatching (items : List (ResponseItem Value))
    (predicate : ResponseItem Value → Bool) : List (ResponseItem Value) :=
  items.eraseP predicate

variable (callId : Text)

def isFunctionCallFor : ResponseItem Value → Bool
  | .functionCall _ _ _ _ existing _ => existing = callId
  | _ => false

def isLocalShellCallFor : ResponseItem Value → Bool
  | .localShellCall _ (some existing) _ _ _ => existing = callId
  | _ => false

def isFunctionCallOutputFor : ResponseItem Value → Bool
  | .functionCallOutput _ existing _ _ => existing = callId
  | _ => false

def isToolSearchCallFor : ResponseItem Value → Bool
  | .toolSearchCall _ (some existing) _ _ _ _ => existing = callId
  | _ => false

def isToolSearchOutputFor : ResponseItem Value → Bool
  | .toolSearchOutput _ (some existing) _ _ _ _ => existing = callId
  | _ => false

def isCustomToolCallFor : ResponseItem Value → Bool
  | .customToolCall _ _ existing _ _ _ => existing = callId
  | _ => false

def isCustomToolCallOutputFor : ResponseItem Value → Bool
  | .customToolCallOutput _ existing _ _ _ => existing = callId
  | _ => false

def removeCorrespondingFor (items : List (ResponseItem Value)) :
    ResponseItem Value → List (ResponseItem Value)
  | .functionCall _ _ _ _ callId _ => removeFirstMatching items (isFunctionCallOutputFor callId)
  | .functionCallOutput _ callId _ _ =>
    if items.any (isFunctionCallFor callId) then
      removeFirstMatching items (isFunctionCallFor callId)
    else removeFirstMatching items (isLocalShellCallFor callId)
  | .toolSearchCall _ (some callId) _ _ _ _ =>
    removeFirstMatching items (isToolSearchOutputFor callId)
  | .toolSearchOutput _ (some callId) _ _ _ _ =>
    removeFirstMatching items (isToolSearchCallFor callId)
  | .customToolCall _ _ callId _ _ _ =>
    removeFirstMatching items (isCustomToolCallOutputFor callId)
  | .customToolCallOutput _ callId _ _ _ =>
    removeFirstMatching items (isCustomToolCallFor callId)
  | .localShellCall _ (some callId) _ _ _ =>
    removeFirstMatching items (isFunctionCallOutputFor callId)
  | _ => items

def removeFirstItem (history : ContextManager Value Ctx Snapshot) :
    ContextManager Value Ctx Snapshot :=
  match history.items with
  | [] => history
  | removed :: items =>
    { history with
      items := removeCorrespondingFor items removed
      worldStateBaseline := none }

/-! ### The table of counterparts -/

variable {items : List (ResponseItem Value)} {x : ResponseItem Value} {callId : Text}

variable (callId)

lemma isFunctionCallOutputFor_eq (x : ResponseItem Value) :
    isFunctionCallOutputFor callId x = decide (outputKey x = some (.function, callId)) := by
  cases x with
  | toolSearchOutput _ existing => cases existing <;> simp [isFunctionCallOutputFor, outputKey]
  | _ => simp [isFunctionCallOutputFor, outputKey]

lemma isToolSearchOutputFor_eq (x : ResponseItem Value) :
    isToolSearchOutputFor callId x = decide (outputKey x = some (.toolSearch, callId)) := by
  cases x with
  | toolSearchOutput _ existing => cases existing <;> simp [isToolSearchOutputFor, outputKey]
  | _ => simp [isToolSearchOutputFor, outputKey]

lemma isCustomToolCallOutputFor_eq (x : ResponseItem Value) :
    isCustomToolCallOutputFor callId x = decide (outputKey x = some (.customTool, callId)) := by
  cases x with
  | toolSearchOutput _ existing => cases existing <;> simp [isCustomToolCallOutputFor, outputKey]
  | _ => simp [isCustomToolCallOutputFor, outputKey]

/-- Two kinds of calls are answered by a function output. -/
theorem isCallFor_eq (x : ResponseItem Value) :
    (isFunctionCallFor callId x || isLocalShellCallFor callId x) =
        decide (callKey x = some (.function, callId)) ∧
      isToolSearchCallFor callId x = decide (callKey x = some (.toolSearch, callId)) ∧
      isCustomToolCallFor callId x = decide (callKey x = some (.customTool, callId)) := by
  unfold isFunctionCallFor isLocalShellCallFor isToolSearchCallFor isCustomToolCallFor
  cases x with
  | toolSearchCall _ existing => cases existing <;> simp [callKey]
  | localShellCall _ existing => cases existing <;> simp [callKey]
  | _ => simp [callKey]

variable {callId}

/-- The source looks for a function call first and then for a shell call: of one id there is one. -/
theorem removeFirstMatching_functionCall
    (hnodup : (items.filterMap callKey).Nodup) (callId : Text) :
    (if items.any (isFunctionCallFor callId) then
      removeFirstMatching items (isFunctionCallFor callId)
      else removeFirstMatching items (isLocalShellCallFor callId)) =
      items.eraseP fun y => callKey y = some (.function, callId) := by
  have hor : (fun y : ResponseItem Value => decide (callKey y = some (.function, callId))) =
      fun y => isFunctionCallFor callId y || isLocalShellCallFor callId y :=
    funext fun y => (isCallFor_eq callId y).1.symm
  rw [hor]
  unfold removeFirstMatching
  induction items with
  | nil => rfl
  | cons y items ih =>
    have htail : (items.filterMap callKey).Nodup :=
      hnodup.sublist ((List.sublist_cons_self y items).filterMap _)
    have ih := ih htail
    by_cases hcall : isFunctionCallFor callId y = true
    · simp [hcall]
    · by_cases hshell : isLocalShellCallFor callId y = true
      · -- the shell call has the id, so no function call further on does
        have hkey : callKey y = some (.function, callId) := by
          have := (isCallFor_eq callId y).1
          rw [hshell, Bool.or_true] at this
          exact of_decide_eq_true this.symm
        rw [List.filterMap_cons_some hkey, List.nodup_cons] at hnodup
        have hnone : items.any (isFunctionCallFor callId) = false := by
          rw [List.any_eq_false]
          intro z hz hzcall
          have := (isCallFor_eq callId z).1
          rw [hzcall, Bool.true_or] at this
          exact hnodup.1 (List.mem_filterMap.mpr ⟨z, hz, of_decide_eq_true this.symm⟩)
        simp [hcall, hshell, hnone]
      · rw [List.any_cons, List.eraseP_cons_of_neg hcall, List.eraseP_cons_of_neg hshell,
          List.eraseP_cons_of_neg (by simp [hcall, hshell]), ← ih]
        simp only [hcall, Bool.false_or]
        split <;> rfl

/-- **The table of counterparts** is the pairing's, where no two calls have one id. -/
theorem removeCorrespondingFor_eq (hnodup : (items.filterMap callKey).Nodup)
    (x : ResponseItem Value) :
    removeCorrespondingFor items x = (callPairing Value).removeMate items x := by
  cases x with
  | functionCallOutput _ callId => exact removeFirstMatching_functionCall hnodup callId
  | functionCall _ _ _ _ callId =>
    exact congrArg items.eraseP (funext (isFunctionCallOutputFor_eq callId))
  | customToolCall _ _ callId =>
    exact congrArg items.eraseP (funext (isCustomToolCallOutputFor_eq callId))
  | customToolCallOutput _ callId =>
    exact congrArg items.eraseP (funext fun y => (isCallFor_eq callId y).2.2)
  | toolSearchCall _ callId =>
    cases callId with
    | none => rfl
    | some callId => exact congrArg items.eraseP (funext (isToolSearchOutputFor_eq callId))
  | toolSearchOutput _ callId =>
    cases callId with
    | none => rfl
    | some callId => exact congrArg items.eraseP (funext fun y => (isCallFor_eq callId y).2.1)
  | localShellCall _ callId =>
    cases callId with
    | none => rfl
    | some callId => exact congrArg items.eraseP (funext (isFunctionCallOutputFor_eq callId))
  | _ => rfl

/-! ### Trimming a paired history -/

/-- Every call id occurs in one call and in one output of the matching kind, and no output is
without its call. -/
structure CallsPaired (items : List (ResponseItem Value)) : Prop where
  nodup : ((items.filterMap callKey).map Prod.snd).Nodup
  outputs : (items.filterMap outputKey).Perm (items.filterMap callKey)

lemma CallsPaired.exact (h : CallsPaired items) : (callPairing Value).Exact items :=
  ⟨List.Nodup.of_map _ h.nodup, h.outputs⟩

/-- The first item and its counterpart go together. -/
theorem CallsPaired.removeFirstItem {history : ContextManager Value Ctx Snapshot}
    (h : CallsPaired history.items) : CallsPaired history.removeFirstItem.items := by
  unfold ContextManager.removeFirstItem
  cases hitems : history.items with
  | nil => exact h
  | cons x items =>
    rw [hitems] at h
    have hnodup : (items.filterMap callKey).Nodup :=
      h.exact.nodup.sublist ((List.sublist_cons_self x items).filterMap _)
    simp only
    rw [removeCorrespondingFor_eq hnodup]
    refine ⟨?_, h.exact.removeMate.outputs⟩
    have hsub := (callPairing Value).callKeys_removeMate_sublist items x
    exact h.nodup.sublist (hsub.map Prod.snd)

lemma ensureCallOutputsPresent_of_matched (debugAssertions : Bool)
    (h : (callPairing Value).CallsMatched items) :
    ensureCallOutputsPresent debugAssertions items = .ok items := by
  have hspec := ensureCallOutputsPresent_spec debugAssertions items
  rw [Pairing.ensure_of_matched h] at hspec
  refine hspec.eq_ok ?_
  rintro ⟨-, x, hx, hmiss⟩
  obtain ⟨y, hy⟩ := Option.ne_none_iff_exists'.mp hmiss
  obtain ⟨k, hk, hnot, -⟩ := Pairing.missing_eq_some_iff.mp hy
  exact hnot (h x hx k hk)

lemma removeOrphanOutputs_of_matched (debugAssertions : Bool)
    (h : (callPairing Value).OutputsMatched items) :
    removeOrphanOutputs debugAssertions items = .ok items := by
  have hspec := removeOrphanOutputs_spec debugAssertions items
  rw [Pairing.prune_of_matched h] at hspec
  refine hspec.eq_ok ?_
  rintro ⟨-, x, hx, horphan⟩
  obtain ⟨hexempt, k, hk, hnot⟩ := Pairing.orphan_eq_true_iff.mp horphan
  exact hnot (h x hx hexempt k hk)

/-- **Trimming keeps the pairing.** However often the first item is removed from a history whose
calls and outputs are paired, they stay paired, and both normalisation passes leave what remains as
it is. -/
theorem removeFirstItem_callsPaired (history : ContextManager Value Ctx Snapshot)
    (h : CallsPaired history.items) (n : ℕ) (debugAssertions : Bool) :
    CallsPaired (removeFirstItem^[n] history).items ∧
      ensureCallOutputsPresent debugAssertions (removeFirstItem^[n] history).items =
        .ok (removeFirstItem^[n] history).items ∧
      removeOrphanOutputs debugAssertions (removeFirstItem^[n] history).items =
        .ok (removeFirstItem^[n] history).items := by
  have hpaired : CallsPaired (removeFirstItem^[n] history).items := by
    induction n with
    | zero => exact h
    | succ n ih =>
      rw [Function.iterate_succ_apply']
      exact ih.removeFirstItem
  exact ⟨hpaired, ensureCallOutputsPresent_of_matched debugAssertions hpaired.exact.callsMatched,
    removeOrphanOutputs_of_matched debugAssertions hpaired.exact.outputsMatched⟩

/-- A shell call answered after a tool search whose output came first, trimmed twice. -/
def pairedHistory : ContextManager Unit Unit Unit where
  items :=
    [.toolSearchOutput none (some ['s']) [] "client".toList [] none,
      .localShellCall none (some ['c']) .completed () none,
      .toolSearchCall none (some ['s']) none [] () none,
      .functionCallOutput none ['c'] (.fromText []) none]

theorem removeFirstItem_callsPaired_pairedHistory :
    CallsPaired (removeFirstItem^[2] pairedHistory).items ∧
      ensureCallOutputsPresent true (removeFirstItem^[2] pairedHistory).items =
        .ok (removeFirstItem^[2] pairedHistory).items ∧
      removeOrphanOutputs true (removeFirstItem^[2] pairedHistory).items =
        .ok (removeFirstItem^[2] pairedHistory).items :=
  removeFirstItem_callsPaired pairedHistory ⟨by decide, by decide⟩ 2 true

end Codex.ContextManager
