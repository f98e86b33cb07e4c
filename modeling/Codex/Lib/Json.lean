import Codex.Lib.SortedFields
import Codex.Lib.Text
import Mathlib.Data.Char
import Mathlib.Data.List.Lex

/-!
# JSON values

An object is the list of its fields in the order of their keys, so that values are equal when they
have the same fields, whatever the order in which these were written. Numbers are any type whose
equality is that of numbers.
-/

namespace Codex.Lib

inductive Json (Number : Type) where
  | null
  | bool (value : Bool)
  | number (value : Number)
  | string (value : Text)
  | array (items : List (Json Number))
  | object (fields : List (Text × Json Number))

variable {Number : Type}

namespace Json

section ind

variable {motive : Json Number → Prop} (null : motive .null)
  (bool : ∀ value, motive (.bool value)) (number : ∀ value, motive (.number value))
  (string : ∀ value, motive (.string value))
  (array : ∀ items, (∀ item ∈ items, motive item) → motive (.array items))
  (object : ∀ fields, (∀ field ∈ fields, motive field.2) → motive (.object fields))

include null bool number string array object

lemma ind (json : Json Number) : motive json := by
  refine @Json.rec Number motive (fun items => ∀ item ∈ items, motive item)
    (fun fields => ∀ field ∈ fields, motive field.2) (fun field => motive field.2)
    null bool number string array object ?_ ?_ ?_ ?_ ?_ json
  · exact fun _ h => absurd h List.not_mem_nil
  · exact fun item items hitem hitems => List.forall_mem_cons.mpr ⟨hitem, hitems⟩
  · exact fun _ h => absurd h List.not_mem_nil
  · exact fun field fields hfield hfields => List.forall_mem_cons.mpr ⟨hfield, hfields⟩
  · exact fun _ _ h => h

end ind

/-! ### Equality -/

section eq

variable [DecidableEq Number]

mutual
def beq : Json Number → Json Number → Bool
  | .null, .null => true
  | .bool a, .bool b => a = b
  | .number a, .number b => a = b
  | .string a, .string b => a = b
  | .array a, .array b => beqItems a b
  | .object a, .object b => beqFields a b
  | _, _ => false

def beqItems : List (Json Number) → List (Json Number) → Bool
  | [], [] => true
  | a :: as, b :: bs => beq a b && beqItems as bs
  | _, _ => false

def beqFields : List (Text × Json Number) → List (Text × Json Number) → Bool
  | [], [] => true
  | (key, a) :: as, (key', b) :: bs => key = key' && (beq a b && beqFields as bs)
  | _, _ => false
end

lemma beqItems_iff {as : List (Json Number)} (h : ∀ a ∈ as, ∀ b, beq a b = true ↔ a = b)
    (bs : List (Json Number)) : beqItems as bs = true ↔ as = bs := by
  induction as generalizing bs with
  | nil => cases bs <;> simp [beqItems]
  | cons a as ih =>
    cases bs with
    | nil => simp [beqItems]
    | cons b bs =>
      obtain ⟨ha, has⟩ := List.forall_mem_cons.mp h
      rw [beqItems, Bool.and_eq_true, ha, ih has, List.cons.injEq]

lemma beqFields_iff {as : List (Text × Json Number)}
    (h : ∀ a ∈ as, ∀ b, beq a.2 b = true ↔ a.2 = b) (bs : List (Text × Json Number)) :
    beqFields as bs = true ↔ as = bs := by
  induction as generalizing bs with
  | nil => cases bs <;> simp [beqFields]
  | cons a as ih =>
    cases bs with
    | nil => simp [beqFields]
    | cons b bs =>
      obtain ⟨ha, has⟩ := List.forall_mem_cons.mp h
      rw [beqFields, Bool.and_eq_true, Bool.and_eq_true, decide_eq_true_iff, ha, ih has,
        List.cons.injEq, Prod.ext_iff, and_assoc]

lemma beq_iff_eq (a b : Json Number) : beq a b = true ↔ a = b := by
  revert b
  induction a using ind with
  | null => intro b; cases b <;> simp [beq]
  | bool value => intro b; cases b <;> simp [beq]
  | number value => intro b; cases b <;> simp [beq]
  | string value => intro b; cases b <;> simp [beq]
  | array items ih =>
    intro b
    cases b with
    | array items' => rw [beq, beqItems_iff ih, Json.array.injEq]
    | _ => simp [beq]
  | object fields ih =>
    intro b
    cases b with
    | object fields' => rw [beq, beqFields_iff ih, Json.object.injEq]
    | _ => simp [beq]

instance : DecidableEq (Json Number) := fun a b => decidable_of_iff (beq a b = true)
    (beq_iff_eq a b)

end eq

/-! ### Well-formed values -/

/-- The keys of every object are in order. -/
inductive WellFormed : Json Number → Prop
  | null : WellFormed .null
  | bool (value : Bool) : WellFormed (.bool value)
  | number (value : Number) : WellFormed (.number value)
  | string (value : Text) : WellFormed (.string value)
  | array {items : List (Json Number)} (items_wf : ∀ item ∈ items, WellFormed item) :
      WellFormed (.array items)
  | object {fields : List (Text × Json Number)} (ascending : Ascending fields)
      (fields_wf : ∀ field ∈ fields, WellFormed field.2) : WellFormed (.object fields)

/-- No object field outside arrays is null. -/
inductive NullFree : Json Number → Prop
  | null : NullFree .null
  | bool (value : Bool) : NullFree (.bool value)
  | number (value : Number) : NullFree (.number value)
  | string (value : Text) : NullFree (.string value)
  | array (items : List (Json Number)) : NullFree (.array items)
  | object {fields : List (Text × Json Number)} (fields_ne : ∀ field ∈ fields, field.2 ≠ .null)
      (fields_free : ∀ field ∈ fields, NullFree field.2) : NullFree (.object fields)

section object

variable {fields : List (Text × Json Number)} {key : Text} {value : Json Number}

lemma WellFormed.ascending (h : (Json.object fields).WellFormed) : Ascending fields := by
  cases h with
  | object ascending => exact ascending

lemma WellFormed.field (h : (Json.object fields).WellFormed) :
    ∀ field ∈ fields, field.2.WellFormed := by
  cases h with
  | object _ fields_wf => exact fields_wf

lemma WellFormed.of_lookup (h : (Json.object fields).WellFormed)
    (hlookup : fields.lookup key = some value) : value.WellFormed :=
  h.field _ (mem_of_lookup hlookup)

lemma NullFree.of_lookup (h : (Json.object fields).NullFree)
    (hlookup : fields.lookup key = some value) : value ≠ .null ∧ value.NullFree := by
  cases h with
  | object fields_ne fields_free =>
    have hmem := mem_of_lookup hlookup
    exact ⟨fields_ne _ hmem, fields_free _ hmem⟩

lemma WellFormed.put (h : (Json.object fields).WellFormed) (key : Text)
    (hvalue : value.WellFormed) :
    (Json.object (put key value fields)).WellFormed := by
  refine .object (h.ascending.put key value) ?_
  intro field hfield
  rcases mem_put hfield with rfl | hold
  · exact hvalue
  · exact h.field field hold

lemma WellFormed.without (h : (Json.object fields).WellFormed) (key : Text) :
    (Json.object (without key fields)).WellFormed := by
  refine .object (h.ascending.without key) ?_
  intro field hfield
  exact h.field field (List.mem_filter.mp hfield).1

lemma WellFormed.empty : (Json.object [] : Json Number).WellFormed :=
  .object List.Pairwise.nil fun _ h => absurd h List.not_mem_nil

end object

end Json

end Codex.Lib
