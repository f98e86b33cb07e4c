import Codex.Lib.Json

/-!
# Traversals of JSON values

A traversal goes from an object to values in some of its fields, as `Visit` says for each key, and
from an array to its items. `Pass.rewrite` changes the objects on its way from the inside out, and
`collect` lists what it finds in them.
-/

namespace Codex.Lib

variable {Number β : Type}

/-- The values that a traversal goes to in a field. -/
inductive Visit where
  | skip
  | whole
  | unlessBool
  | table
  deriving DecidableEq

namespace Json

def isBool : Json Number → Bool
  | .bool _ => true
  | _ => false

end Json

namespace Visit

def children : Visit → Json Number → List (Json Number)
  | .skip, _ => []
  | .whole, value => [value]
  | .unlessBool, value => if value.isBool then [] else [value]
  | .table, .object fields => fields.map Prod.snd
  | .table, _ => []

def map (f : Json Number → Json Number) : Visit → Json Number → Json Number
  | .skip, value => value
  | .whole, value => f value
  | .unlessBool, value => if value.isBool then value else f value
  | .table, .object fields => .object (fields.map fun field => (field.1, f field.2))
  | .table, value => value

variable {visit : Visit} {value : Json Number} {f g : Json Number → Json Number}

lemma map_congr (h : ∀ child ∈ visit.children value, f child = g child) :
    visit.map f value = visit.map g value := by
  cases visit with
  | skip => rfl
  | whole => exact h value List.mem_cons_self
  | unlessBool =>
    rw [map, map]
    by_cases hbool : value.isBool = true
    · rw [if_pos hbool, if_pos hbool]
    · rw [if_neg hbool, if_neg hbool]
      exact h value (by simp [children, hbool])
  | table =>
    cases value with
    | object fields =>
      refine congrArg Json.object (List.map_congr_left fun field hfield => ?_)
      rw [h field.2 (List.mem_map_of_mem hfield)]
    | _ => rfl

lemma map_id (visit : Visit) (value : Json Number) : visit.map id value = value := by
  cases visit with
  | unlessBool => exact ite_self _
  | table =>
    cases value with
    | object fields => exact congrArg Json.object (List.map_id fields)
    | _ => rfl
  | _ => rfl

lemma map_eq_self (h : ∀ child ∈ visit.children value, f child = child) :
    visit.map f value = value :=
  (map_congr h).trans (visit.map_id value)

/-- The children of a rewritten field are the rewritten children. -/
theorem children_map (hf : ∀ value, (f value).isBool = true → value.isBool = true) :
    visit.children (visit.map f value) = (visit.children value).map f := by
  cases visit with
  | skip => rfl
  | whole => rfl
  | unlessBool =>
    rw [map, children, children]
    by_cases hbool : value.isBool = true
    · rw [if_pos hbool, if_pos hbool, List.map_nil]
    · rw [if_neg hbool, if_neg hbool, if_neg fun h => hbool (hf value h), List.map_singleton]
  | table =>
    cases value with
    | object fields =>
      rw [map, children, children, List.map_map, List.map_map]
      rfl
    | _ => rfl

lemma sizeOf_snd_lt (field : Text × Json Number) : sizeOf field.2 < sizeOf field := by
  obtain ⟨key, value⟩ := field
  show sizeOf value < sizeOf (key, value)
  rw [Prod.mk.sizeOf_spec]
  omega

lemma sizeOf_children {child : Json Number} (h : child ∈ visit.children value) :
    sizeOf child ≤ sizeOf value := by
  cases visit with
  | skip => cases h
  | whole => exact (List.mem_singleton.mp h) ▸ Nat.le_refl _
  | unlessBool =>
    rw [children] at h
    split_ifs at h
    · cases h
    · exact (List.mem_singleton.mp h) ▸ Nat.le_refl _
  | table =>
    cases value with
    | object fields =>
      obtain ⟨field, hfield, rfl⟩ := List.mem_map.mp h
      have hsize := List.sizeOf_lt_of_mem hfield
      have hpair := sizeOf_snd_lt field
      rw [Json.object.sizeOf_spec]
      omega
    | _ => cases h

end Visit

lemma Json.WellFormed.of_mem_children {visit : Visit} {value child : Json Number}
    (h : value.WellFormed) (hchild : child ∈ visit.children value) : child.WellFormed := by
  cases visit with
  | skip => cases hchild
  | whole => exact (List.mem_singleton.mp hchild) ▸ h
  | unlessBool =>
    rw [Visit.children] at hchild
    split_ifs at hchild
    · cases hchild
    · exact (List.mem_singleton.mp hchild) ▸ h
  | table =>
    cases value with
    | object fields =>
      obtain ⟨field, hfield, rfl⟩ := List.mem_map.mp hchild
      exact h.field field hfield
    | _ => cases hchild

/-- Induction over the values that a traversal goes to. -/
theorem Json.visitInduct (visits : Text → Visit) {motive : Json Number → Prop}
    (array : ∀ items, (∀ item ∈ items, motive item) → motive (.array items))
    (object : ∀ fields, (∀ field ∈ fields, ∀ child ∈ (visits field.1).children field.2,
      motive child) → motive (.object fields))
    (leaf : ∀ value, (∀ items, value ≠ .array items) → (∀ fields, value ≠ .object fields) →
      motive value)
    (value : Json Number) : motive value := by
  induction hsize : sizeOf value using Nat.strongRecOn generalizing value with
  | _ size ih =>
    subst hsize
    cases value with
    | array items =>
      refine array items fun item hitem => ih (sizeOf item) ?_ item rfl
      have := List.sizeOf_lt_of_mem hitem
      rw [Json.array.sizeOf_spec]
      omega
    | object fields =>
      refine object fields fun field hfield child hchild => ih (sizeOf child) ?_ child rfl
      have hvalue := Visit.sizeOf_children hchild
      have hlist := List.sizeOf_lt_of_mem hfield
      have hpair := Visit.sizeOf_snd_lt field
      rw [Json.object.sizeOf_spec]
      omega
    | _ => exact leaf _ nofun nofun

/-! ### Rewriting -/

/-- What a traversal does: an object that is cut at its depth becomes empty, another is finished
after the values in its fields. -/
structure Pass (Number : Type) where
  visits : Text → Visit
  cut : ℕ → List (Text × Json Number) → Bool := fun _ _ => false
  finish : List (Text × Json Number) → List (Text × Json Number) := id
  leaf : Json Number → Json Number := id

namespace Pass

mutual
def rewrite (pass : Pass Number) (depth : ℕ) : Json Number → Json Number
  | .array items => .array (rewriteItems pass depth items)
  | .object fields =>
    if pass.cut depth fields then .object []
    else .object (pass.finish (rewriteFields pass (depth + 1) fields))
  | value => pass.leaf value

def rewriteItems (pass : Pass Number) (depth : ℕ) : List (Json Number) → List (Json Number)
  | [] => []
  | item :: items => rewrite pass depth item :: rewriteItems pass depth items

def rewriteFields (pass : Pass Number) (depth : ℕ) :
    List (Text × Json Number) → List (Text × Json Number)
  | [] => []
  | (key, value) :: fields =>
    let value' :=
      match pass.visits key with
      | .skip => value
      | .whole => rewrite pass depth value
      | .unlessBool => if value.isBool then value else rewrite pass depth value
      | .table => rewriteTable pass depth value
    (key, value') :: rewriteFields pass depth fields

def rewriteTable (pass : Pass Number) (depth : ℕ) : Json Number → Json Number
  | .object fields => .object (rewriteValues pass depth fields)
  | value => value

def rewriteValues (pass : Pass Number) (depth : ℕ) :
    List (Text × Json Number) → List (Text × Json Number)
  | [] => []
  | (key, value) :: fields => (key, rewrite pass depth value) :: rewriteValues pass depth fields
end

/-- The fields of an object with their values rewritten. -/
def fields (pass : Pass Number) (depth : ℕ) (fields : List (Text × Json Number)) :
    List (Text × Json Number) :=
  fields.map fun field => (field.1, (pass.visits field.1).map (pass.rewrite depth) field.2)

variable {pass : Pass Number} {depth : ℕ}

lemma rewrite_array (items : List (Json Number)) :
    pass.rewrite depth (.array items) = .array (items.map (pass.rewrite depth)) := by
  rw [rewrite]
  congr 1
  induction items with
  | nil => rfl
  | cons item items ih => rw [rewriteItems, ih, List.map_cons]

variable (values : List (Text × Json Number))

lemma rewriteValues_eq :
    rewriteValues pass depth values =
      values.map fun field => (field.1, pass.rewrite depth field.2) := by
  induction values with
  | nil => rfl
  | cons field values ih =>
    obtain ⟨key, value⟩ := field
    rw [rewriteValues, ih, List.map_cons]

lemma rewriteFields_eq : rewriteFields pass depth values = pass.fields depth values := by
  induction values with
  | nil => rfl
  | cons field values ih =>
    obtain ⟨key, value⟩ := field
    rw [rewriteFields, ih, fields, fields, List.map_cons]
    cases pass.visits key with
    | table =>
      cases value with
      | object values => simp only [rewriteTable, rewriteValues_eq, Visit.map]
      | _ => rfl
    | _ => rfl

lemma rewrite_object :
    pass.rewrite depth (.object values) =
      if pass.cut depth values then .object []
      else .object (pass.finish (pass.fields (depth + 1) values)) := by
  rw [rewrite, rewriteFields_eq]

lemma rewrite_leaf {value : Json Number} (harray : ∀ items, value ≠ .array items)
    (hobject : ∀ fields, value ≠ .object fields) : pass.rewrite depth value = pass.leaf value := by
  cases value with
  | array items => exact absurd rfl (harray items)
  | object fields => exact absurd rfl (hobject fields)
  | _ => rfl

/-- A pass makes no booleans, if it makes none of other leaves. -/
theorem isBool_of_rewrite (hleaf : ∀ value, (pass.leaf value).isBool = true → value.isBool = true)
    (value : Json Number) (h : (pass.rewrite depth value).isBool = true) : value.isBool = true := by
  cases value with
  | array items => rw [rewrite_array] at h; exact h
  | object fields =>
    rw [rewrite_object] at h
    split_ifs at h <;> exact absurd h Bool.false_ne_true
  | _ => exact hleaf _ h

lemma lookup_fields (key : Text) :
    (pass.fields depth values).lookup key =
      (values.lookup key).map ((pass.visits key).map (pass.rewrite depth)) := by
  induction values with
  | nil => rfl
  | cons field values ih =>
    rw [fields, List.map_cons, List.lookup_cons, List.lookup_cons]
    by_cases hkey : key = field.1
    · rw [hkey, beq_self_eq_true]
      rfl
    · rw [beq_false_of_ne hkey]
      exact ih

lemma ascending_fields {values : List (Text × Json Number)} (h : Ascending values) :
    Ascending (pass.fields depth values) :=
  List.pairwise_map.mpr h

/-- A pass that cuts at no depth of its own does the same at every depth. -/
theorem rewrite_depth (hcut : ∀ depth depth' fields, pass.cut depth fields = pass.cut depth' fields)
    (value : Json Number) (depth depth' : ℕ) :
    pass.rewrite depth value = pass.rewrite depth' value := by
  induction value using Json.visitInduct pass.visits generalizing depth depth' with
  | array items ih =>
    rw [rewrite_array, rewrite_array]
    exact congrArg Json.array (List.map_congr_left fun item hitem => ih item hitem depth depth')
  | object values ih =>
    have hfields : pass.fields (depth + 1) values = pass.fields (depth' + 1) values := by
      refine List.map_congr_left fun field hfield => ?_
      rw [Visit.map_congr fun child hchild => ih field hfield child hchild (depth + 1) (depth' + 1)]
    rw [rewrite_object, rewrite_object, hcut depth depth', hfields]
  | leaf value harray hobject => rw [rewrite_leaf harray hobject, rewrite_leaf harray hobject]

end Pass

/-! ### Collecting -/

namespace Json

mutual
/-- What is found in the objects that a traversal goes to. -/
def collect (visits : Text → Visit) (find : List (Text × Json Number) → List β) :
    Json Number → List β
  | .array items => collectItems visits find items
  | .object fields => find fields ++ collectFields visits find fields
  | _ => []

def collectItems (visits : Text → Visit) (find : List (Text × Json Number) → List β) :
    List (Json Number) → List β
  | [] => []
  | item :: items => collect visits find item ++ collectItems visits find items

def collectFields (visits : Text → Visit) (find : List (Text × Json Number) → List β) :
    List (Text × Json Number) → List β
  | [] => []
  | (key, value) :: fields =>
    let found :=
      match visits key with
      | .skip => []
      | .whole => collect visits find value
      | .unlessBool => if value.isBool then [] else collect visits find value
      | .table => collectTable visits find value
    found ++ collectFields visits find fields

def collectTable (visits : Text → Visit) (find : List (Text × Json Number) → List β) :
    Json Number → List β
  | .object fields => collectValues visits find fields
  | _ => []

def collectValues (visits : Text → Visit) (find : List (Text × Json Number) → List β) :
    List (Text × Json Number) → List β
  | [] => []
  | (_, value) :: fields => collect visits find value ++ collectValues visits find fields
end

variable {visits : Text → Visit} {find : List (Text × Json Number) → List β}

lemma collect_array (items : List (Json Number)) :
    collect visits find (.array items) = items.flatMap (collect visits find) := by
  rw [collect]
  induction items with
  | nil => rfl
  | cons item items ih => rw [collectItems, ih, List.flatMap_cons]

variable (fields : List (Text × Json Number))

lemma collectValues_eq :
    collectValues visits find fields = (fields.map Prod.snd).flatMap (collect visits find) := by
  induction fields with
  | nil => rfl
  | cons field fields ih =>
    obtain ⟨key, value⟩ := field
    rw [collectValues, ih, List.map_cons, List.flatMap_cons]

lemma collect_object :
    collect visits find (.object fields) = find fields ++ fields.flatMap fun field =>
        ((visits field.1).children field.2).flatMap (collect visits find) := by
  rw [collect]
  congr 1
  induction fields with
  | nil => rfl
  | cons field fields ih =>
    obtain ⟨key, value⟩ := field
    rw [collectFields, ih, List.flatMap_cons]
    congr 1
    cases visits key with
    | skip => rfl
    | whole => exact (List.append_nil _).symm
    | unlessBool =>
      simp only [Visit.children]
      split_ifs
      · rfl
      · exact (List.append_nil _).symm
    | table =>
      cases value with
      | object fields => simp only [collectTable, collectValues_eq, Visit.children]
      | _ => rfl

lemma mem_collect_array {items : List (Json Number)} {x : β} :
    x ∈ collect visits find (.array items) ↔ ∃ item ∈ items, x ∈ collect visits find item := by
  rw [collect_array, List.mem_flatMap]

lemma mem_collect_object {fields : List (Text × Json Number)} {x : β} :
    x ∈ collect visits find (.object fields) ↔ x ∈ find fields ∨ ∃ field ∈ fields,
      ∃ child ∈ (visits field.1).children field.2, x ∈ collect visits find child := by
  rw [collect_object]
  simp only [List.mem_append, List.mem_flatMap]

/-- The objects that a traversal goes to, by their fields. -/
inductive Visited (visits : Text → Visit) :
    Json Number → List (Text × Json Number) → Prop
  | self (fields : List (Text × Json Number)) : Visited visits (.object fields) fields
  | item {items : List (Json Number)} {item : Json Number} {fields : List (Text × Json Number)}
      (hitem : item ∈ items) (h : Visited visits item fields) : Visited visits (.array items) fields
  | child {fields inner : List (Text × Json Number)} {field : Text × Json Number}
      {value : Json Number} (hfield : field ∈ fields)
      (hchild : value ∈ (visits field.1).children field.2) (h : Visited visits value inner) :
      Visited visits (.object fields) inner

/-- **What is collected is found in a visited object.** -/
theorem mem_collect_iff {value : Json Number} {x : β} :
    x ∈ collect visits find value ↔ ∃ fields, Visited visits value fields ∧ x ∈ find fields := by
  constructor
  · induction value using Json.visitInduct visits with
    | array items ih =>
      rw [mem_collect_array]
      rintro ⟨item, hitem, hx⟩
      obtain ⟨fields, hvisited, hfound⟩ := ih item hitem hx
      exact ⟨fields, .item hitem hvisited, hfound⟩
    | object fields ih =>
      rw [mem_collect_object]
      rintro (hx | ⟨field, hfield, child, hchild, hx⟩)
      · exact ⟨fields, .self fields, hx⟩
      · obtain ⟨inner, hvisited, hfound⟩ := ih field hfield child hchild hx
        exact ⟨inner, .child hfield hchild hvisited, hfound⟩
    | leaf value harray hobject =>
      cases value with
      | array items => exact absurd rfl (harray items)
      | object fields => exact absurd rfl (hobject fields)
      | _ => exact fun hx => absurd hx List.not_mem_nil
  · rintro ⟨fields, hvisited, hx⟩
    induction hvisited with
    | self fields => exact mem_collect_object.mpr (.inl hx)
    | item hitem _ ih => exact mem_collect_array.mpr ⟨_, hitem, ih hx⟩
    | child hfield hchild _ ih =>
      exact mem_collect_object.mpr (.inr ⟨_, hfield, _, hchild, ih hx⟩)

/-- A traversal that goes everywhere comes to what another one visits. -/
theorem Visited.whole {value : Json Number} {fields : List (Text × Json Number)}
    (h : Visited visits value fields) : Visited (fun _ => .whole) value fields := by
  induction h with
  | self fields => exact .self fields
  | item hitem _ ih => exact .item hitem ih
  | @child fields inner field value hfield hchild _ ih =>
    obtain ⟨key, outer⟩ := field
    have hwhole : ∀ child : Json Number, child ∈ Visit.whole.children child := fun _ =>
      List.mem_cons_self
    cases hvisit : visits key with
    | skip =>
      rw [hvisit] at hchild
      cases hchild
    | whole =>
      rw [hvisit] at hchild
      exact .child hfield hchild ih
    | unlessBool =>
      rw [hvisit, Visit.children] at hchild
      split_ifs at hchild
      · cases hchild
      · exact .child hfield hchild ih
    | table =>
      rw [hvisit] at hchild
      cases outer with
      | object table =>
        obtain ⟨entry, hentry, rfl⟩ := List.mem_map.mp hchild
        exact .child hfield (hwhole _) (.child hentry (hwhole _) ih)
      | _ => cases hchild

end Json

end Codex.Lib
