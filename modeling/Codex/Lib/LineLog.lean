import Mathlib.Data.List.Basic

/-!
# Logs of terminated records

A log is a list of symbols in which a terminator ends each record; what stands after the last
terminator is the rest. A record that is appended to a log whose rest is not empty runs into it.
-/

namespace Codex.Lib

variable {α : Type} (sep : α)

/-- Records, each with its terminator. -/
def encodeRecords (records : List (List α)) : List α := records.flatMap (· ++ [sep])

lemma encodeRecords_append (older newer : List (List α)) :
    encodeRecords sep (older ++ newer) = encodeRecords sep older ++ encodeRecords sep newer :=
  List.flatMap_append

lemma encodeRecords_singleton (record : List α) :
    encodeRecords sep [record] = record ++ [sep] := List.append_nil _

lemma encodeRecords_cons (record : List α) (records : List (List α)) :
    encodeRecords sep (record :: records) = record ++ sep :: encodeRecords sep records := by
  rw [encodeRecords, List.flatMap_cons, List.append_assoc]
  rfl

variable [DecidableEq α] {sep : α}

/-- Between the terminators stand the records, and nothing after the last one. -/
theorem splitOn_encodeRecords {records : List (List α)} (h : ∀ record ∈ records, sep ∉ record) :
    (encodeRecords sep records).splitOn sep = records ++ [[]] := by
  induction records with
  | nil => exact List.splitOn_nil sep
  | cons record records ih =>
    obtain ⟨hrecord, hrecords⟩ := List.forall_mem_cons.mp h
    have hplain : ∀ x ∈ record, (x == sep) = false :=
      fun x hx => beq_eq_false_iff_ne.mpr fun heq => hrecord (heq ▸ hx)
    rw [encodeRecords_cons, List.splitOn_eq_splitOnP,
      List.splitOnP_append_cons_of_forall_mem hplain sep (beq_self_eq_true sep),
      ← List.splitOn_eq_splitOnP, ih hrecords]
    rfl

/-- A symbol before the records and the rest of a log. -/
def consSymbol (sep x : α) (split : List (List α) × List α) : List (List α) × List α :=
  if x = sep then ([] :: split.1, split.2)
  else
    match split.1 with
    | [] => ([], x :: split.2)
    | record :: records => ((x :: record) :: records, split.2)

/-- The records of a log, and the rest. -/
def splitRecords (sep : α) : List α → List (List α) × List α
  | [] => ([], [])
  | x :: l => consSymbol sep x (splitRecords sep l)

/-- After a log without rest, what is appended is split by itself. -/
theorem splitRecords_append {a : List α} (ha : (splitRecords sep a).2 = []) (b : List α) :
    splitRecords sep (a ++ b) =
      ((splitRecords sep a).1 ++ (splitRecords sep b).1, (splitRecords sep b).2) := by
  induction a with
  | nil => rfl
  | cons x a ih =>
    rw [splitRecords, consSymbol] at ha
    rw [List.cons_append, splitRecords, splitRecords, consSymbol, consSymbol]
    by_cases hx : x = sep
    · rw [if_pos hx] at ha
      rw [if_pos hx, if_pos hx, ih ha]
      rfl
    · rw [if_neg hx] at ha
      rw [if_neg hx, if_neg hx]
      cases hrecords : (splitRecords sep a).1 with
      | nil =>
        rw [hrecords] at ha
        exact absurd ha (List.cons_ne_nil _ _)
      | cons record records =>
        rw [hrecords] at ha
        rw [ih ha, hrecords]
        rfl

lemma splitRecords_record {record : List α} (h : sep ∉ record) :
    splitRecords sep (record ++ [sep]) = ([record], []) := by
  induction record with
  | nil => exact if_pos rfl
  | cons x record ih =>
    rw [List.mem_cons, not_or] at h
    rw [List.cons_append, splitRecords, ih h.2, consSymbol, if_neg (Ne.symm h.1)]

/-- **Records are read back.** -/
theorem splitRecords_encode {records : List (List α)} (h : ∀ record ∈ records, sep ∉ record) :
    splitRecords sep (encodeRecords sep records) = (records, []) := by
  induction records with
  | nil => rfl
  | cons record records ih =>
    have hrecord := splitRecords_record (h record List.mem_cons_self)
    have hrecords := ih fun other hother => h other (List.mem_cons_of_mem _ hother)
    rw [encodeRecords, List.flatMap_cons, ← encodeRecords,
      splitRecords_append (by rw [hrecord]), hrecord, hrecords]
    rfl

end Codex.Lib
