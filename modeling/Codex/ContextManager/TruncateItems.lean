import Codex.ContextManager.TruncateText

/-!
# Truncating the items of a tool's output

`truncate_function_output_items_with_policy` of `utils/output-truncation/src/lib.rs`: the texts
among the items share one budget, in bytes or in tokens; the other items are free.

* `foldl_step`: the loop keeps the first texts, the last of them possibly cut;
* `truncateFunctionOutputItemsWithPolicy_accounts`: every text is emitted or counted as omitted.
-/

namespace Codex.ContextManager

open Codex.Lib Codex.Protocol
open String (utf8Len)

namespace TruncationPolicy

/-- `byte_budget` for a policy in bytes, `token_budget` for one in tokens -/
def budget : TruncationPolicy → ℕ
  | .bytes budget => budget
  | .tokens budget => budget

/-- The `cost` of a text, in the unit of the policy -/
def cost : TruncationPolicy → Text → ℕ
  | .bytes _, text => utf8Len text
  | .tokens _, text => approxTokenCount text

/-- The `snippet_policy`: the policy's unit and what remains of its budget -/
def snippetPolicy : TruncationPolicy → ℕ → TruncationPolicy
  | .bytes _, remaining => .bytes remaining
  | .tokens _, remaining => .tokens remaining

end TruncationPolicy

/-- The variables of the loop of `truncate_function_output_items_with_policy` -/
structure ItemTruncation where
  out : List FunctionCallOutputContentItem
  remainingBudget : ℕ
  omittedTextItems : ℕ

variable (policy : TruncationPolicy)

/-- The body of the loop of `truncate_function_output_items_with_policy` -/
def ItemTruncation.step (state : ItemTruncation) : FunctionCallOutputContentItem → ItemTruncation
  | .inputText text =>
    if state.remainingBudget = 0 then
      { state with omittedTextItems := state.omittedTextItems + 1 }
    else if policy.cost text ≤ state.remainingBudget then
      { state with
        out := state.out ++ [.inputText text]
        remainingBudget := state.remainingBudget - policy.cost text }
    else
      let snippet := truncateText text (policy.snippetPolicy state.remainingBudget)
      if snippet.isEmpty then
        { state with remainingBudget := 0, omittedTextItems := state.omittedTextItems + 1 }
      else { state with out := state.out ++ [.inputText snippet], remainingBudget := 0 }
  | item => { state with out := state.out ++ [item] }

/-- The item that reports the omitted texts, when there are any -/
def omittedReport (omittedTextItems : ℕ) : List FunctionCallOutputContentItem :=
  if 0 < omittedTextItems then
    [.inputText ("[omitted ".toList ++ Nat.toDigits 10 omittedTextItems ++
      " text items ...]".toList)]
  else []

def truncateFunctionOutputItemsWithPolicy (items : List FunctionCallOutputContentItem) :
    List FunctionCallOutputContentItem :=
  let state := items.foldl (ItemTruncation.step policy) ⟨[], policy.budget, 0⟩
  state.out ++ omittedReport state.omittedTextItems

/-! ### The texts among the items -/

/-- The texts of the items. -/
def itemTexts : List FunctionCallOutputContentItem → List Text
  | [] => []
  | .inputText text :: items => text :: itemTexts items
  | _ :: items => itemTexts items

/-- The items that are no texts. -/
def otherItems : List FunctionCallOutputContentItem → List FunctionCallOutputContentItem
  | [] => []
  | .inputText _ :: items => otherItems items
  | item :: items => item :: otherItems items

/-- The items with their first texts replaced by the texts given, and without the others. -/
def placeTexts : List FunctionCallOutputContentItem → List Text → List FunctionCallOutputContentItem
  | [], _ => []
  | .inputText _ :: items, [] => placeTexts items []
  | .inputText _ :: items, text :: texts => .inputText text :: placeTexts items texts
  | item :: items, texts => item :: placeTexts items texts

variable (items : List FunctionCallOutputContentItem)

lemma otherItems_placeTexts (texts : List Text) :
    otherItems (placeTexts items texts) = otherItems items := by
  induction items generalizing texts with
  | nil => rfl
  | cons item items ih => cases item <;> cases texts <;> simp [placeTexts, otherItems, ih]

lemma itemTexts_placeTexts {items : List FunctionCallOutputContentItem} {texts : List Text}
    (h : texts.length ≤ (itemTexts items).length) : itemTexts (placeTexts items texts) = texts := by
  induction items generalizing texts with
  | nil => exact (List.length_eq_zero_iff.mp (Nat.le_zero.mp h)).symm
  | cons item items ih => cases item <;> cases texts <;> simp_all [placeTexts, itemTexts]

lemma placeTexts_itemTexts : placeTexts items (itemTexts items) = items := by
  induction items with
  | nil => rfl
  | cons item items ih => cases item <;> simp [placeTexts, itemTexts, ih]

/-- What is kept of the texts, within what remains of the budget. -/
def keptTexts (remaining : ℕ) : List Text → List Text
  | [] => []
  | text :: texts =>
    if remaining = 0 then []
    else if policy.cost text ≤ remaining then
      text :: keptTexts (remaining - policy.cost text) texts
    else [truncateText text (policy.snippetPolicy remaining)]

lemma keptTexts_zero (texts : List Text) : keptTexts policy 0 texts = [] := by
  cases texts <;> rfl

/-- The text is cut to a beginning and an end that fit, with a marker between them. -/
def CutTo (text : Text) (remaining : ℕ) (cut : Text) : Prop :=
  ∃ before removed after useTokens count, text = before ++ removed ++ after ∧
    policy.cost (before ++ after) ≤ remaining ∧
    cut = before ++ formatTruncationMarker useTokens count ++ after

/-- The texts kept are the first ones as far as the budget goes; the text that goes beyond it may be
cut to what remains. -/
def KeptWithin (texts kept : List Text) (budget : ℕ) : Prop :=
  ∃ whole rest, texts = whole ++ rest ∧ (whole.map policy.cost).sum ≤ budget ∧
    (kept = whole ∨ ∃ text later cut, rest = text :: later ∧
      CutTo policy text (budget - (whole.map policy.cost).sum) cut ∧ kept = whole ++ [cut])

variable {policy}

lemma truncateText_cutTo {text : Text} {remaining : ℕ} (hpos : remaining ≠ 0)
    (hlarge : ¬policy.cost text ≤ remaining) :
    CutTo policy text remaining (truncateText text (policy.snippetPolicy remaining)) := by
  cases policy with
  | bytes bytes =>
    have hspec := truncateMiddleChars_spec text remaining
    obtain ⟨before, removed, after, hends, heq⟩ := (if_neg hlarge).mp hspec
    have hleft := hends.left_le
    have hright := hends.right_le
    refine ⟨before, removed, after, false, _, hends.split, ?_, heq⟩
    rw [TruncationPolicy.cost, String.utf8Len_append]
    omega
  | tokens tokens =>
    obtain ⟨before, after, count, heq, ⟨removed, hcut⟩, hfits, -⟩ :=
      truncateText_spec (Nat.pos_of_ne_zero hpos) (Nat.not_le.mp hlarge)
    exact ⟨before, removed, after, true, count, hcut, hfits, heq⟩

lemma truncateText_snippetPolicy_isEmpty {text : Text} {remaining : ℕ} (hpos : remaining ≠ 0)
    (hlarge : ¬policy.cost text ≤ remaining) :
    (truncateText text (policy.snippetPolicy remaining)).isEmpty = false := by
  obtain ⟨before, removed, after, useTokens, count, -, -, heq⟩ := truncateText_cutTo hpos hlarge
  rw [heq, formatTruncationMarker]
  cases useTokens <;> simp

/-- The loop keeps the first texts, the last of them possibly cut, and counts the others. -/
theorem foldl_step (items : List FunctionCallOutputContentItem) (state : ItemTruncation) :
    let final := items.foldl (ItemTruncation.step policy) state
    let kept := keptTexts policy state.remainingBudget (itemTexts items)
    final.out = state.out ++ placeTexts items kept ∧ final.omittedTextItems + kept.length =
        state.omittedTextItems + (itemTexts items).length := by
  induction items generalizing state with
  | nil => exact ⟨(List.append_nil _).symm, rfl⟩
  | cons item items ih =>
    dsimp only at ih ⊢
    rw [List.foldl_cons]
    obtain ⟨hout, homitted⟩ := ih (state.step policy item)
    rw [hout]
    clear hout
    cases item with
    | inputText text =>
      rw [itemTexts, keptTexts]
      by_cases hzero : state.remainingBudget = 0
      · simp only [ItemTruncation.step, hzero, if_true, keptTexts_zero] at homitted ⊢
        refine ⟨rfl, ?_⟩
        simp only [List.length_nil, List.length_cons] at homitted ⊢
        omega
      · by_cases hfits : policy.cost text ≤ state.remainingBudget
        · simp only [ItemTruncation.step, if_neg hzero, if_pos hfits] at homitted ⊢
          refine ⟨by rw [placeTexts, List.append_assoc]; rfl, ?_⟩
          simp only [List.length_cons]
          omega
        · simp only [ItemTruncation.step, if_neg hzero, if_neg hfits,
            truncateText_snippetPolicy_isEmpty hzero hfits, Bool.false_eq_true, if_false,
            keptTexts_zero] at homitted ⊢
          refine ⟨by rw [placeTexts, List.append_assoc]; rfl, ?_⟩
          simp only [List.length_cons, List.length_nil] at homitted ⊢
          omega
    | inputImage imageUrl detail => exact ⟨List.append_assoc .., homitted⟩
    | encryptedContent encryptedContent => exact ⟨List.append_assoc .., homitted⟩

lemma keptWithin_keptTexts (texts : List Text) (budget : ℕ) :
    KeptWithin policy texts (keptTexts policy budget texts) budget := by
  induction texts generalizing budget with
  | nil => exact ⟨[], [], rfl, Nat.zero_le _, .inl rfl⟩
  | cons text texts ih =>
    rw [keptTexts]
    split_ifs with hzero hfits
    · exact ⟨[], _, rfl, Nat.zero_le _, .inl rfl⟩
    · obtain ⟨whole, rest, hsplit, hsum, hkept⟩ := ih (budget - policy.cost text)
      refine ⟨text :: whole, rest, by rw [hsplit]; rfl, ?_, ?_⟩
      · rw [List.map_cons, List.sum_cons]
        omega
      · rw [List.map_cons, List.sum_cons, Nat.add_comm, Nat.sub_add_eq, Nat.sub_right_comm]
        refine hkept.imp (congrArg _) ?_
        rintro ⟨cut, later, short, hrest, hcut, hkept⟩
        exact ⟨cut, later, short, hrest, hcut, by rw [hkept]; rfl⟩
    · exact ⟨[], text :: texts, rfl, Nat.zero_le _,
        .inr ⟨text, texts, _, rfl, truncateText_cutTo hzero hfits, rfl⟩⟩

/-- Texts that fit are all kept, when none of them comes after the budget is used up. -/
lemma keptTexts_eq_self {texts : List Text} {budget : ℕ}
    (hfits : (texts.map policy.cost).sum ≤ budget)
    (hbefore : ∀ before text after, texts = before ++ text :: after →
      (before.map policy.cost).sum < budget) : keptTexts policy budget texts = texts := by
  induction texts generalizing budget with
  | nil => rfl
  | cons text texts ih =>
    have hpos := hbefore [] text texts rfl
    rw [List.map_cons, List.sum_cons] at hfits
    rw [keptTexts, if_neg (by simpa using Nat.ne_of_gt hpos), if_pos (by omega), ih (by omega)]
    intro before next after hsplit
    have := hbefore (text :: before) next after (by rw [hsplit]; rfl)
    rw [List.map_cons, List.sum_cons] at this
    omega

/-- **Truncation accounts for every item.** The items that are no texts stay, in order; the texts
kept are the first ones, within the budget and at most one of them cut; the others are counted. A
list that is within the budget is unchanged, unless a text comes where the budget is already used
up. -/
theorem truncateFunctionOutputItemsWithPolicy_accounts
    (items : List FunctionCallOutputContentItem) (policy : TruncationPolicy) :
    ∃ emitted omitted,
      truncateFunctionOutputItemsWithPolicy policy items = emitted ++ omittedReport omitted ∧
      emitted = placeTexts items (itemTexts emitted) ∧ otherItems emitted = otherItems items ∧
      KeptWithin policy (itemTexts items) (itemTexts emitted) policy.budget ∧
      omitted + (itemTexts emitted).length = (itemTexts items).length ∧
      (((itemTexts items).map policy.cost).sum ≤ policy.budget →
        (∀ before text after, itemTexts items = before ++ text :: after →
          (before.map policy.cost).sum < policy.budget) →
        truncateFunctionOutputItemsWithPolicy policy items = items) := by
  obtain ⟨hout, homitted⟩ := @foldl_step policy items ⟨[], policy.budget, 0⟩
  dsimp only at hout homitted
  rw [List.nil_append] at hout
  rw [Nat.zero_add] at homitted
  have htexts := itemTexts_placeTexts (homitted ▸ Nat.le_add_left _ _)
  refine ⟨_, _, congrArg (· ++ _) hout, ?_, otherItems_placeTexts _ _, ?_, ?_, ?_⟩
  · rw [htexts]
  · rw [htexts]
    exact keptWithin_keptTexts _ _
  · rw [htexts]
    exact homitted
  · intro hfits hbefore
    rw [keptTexts_eq_self hfits hbefore] at hout homitted
    rw [placeTexts_itemTexts] at hout
    rw [truncateFunctionOutputItemsWithPolicy, hout, Nat.add_eq_right.mp homitted]
    exact List.append_nil _

/-- An empty text within a budget of nothing is reported as omitted. -/
theorem truncateFunctionOutputItemsWithPolicy_empty_text :
    ((itemTexts [.inputText []]).map (TruncationPolicy.bytes 0).cost).sum ≤
        (TruncationPolicy.bytes 0).budget ∧
      truncateFunctionOutputItemsWithPolicy (.bytes 0) [.inputText []] =
        [.inputText "[omitted 1 text items ...]".toList] :=
  ⟨by decide, by decide +kernel⟩

end Codex.ContextManager
