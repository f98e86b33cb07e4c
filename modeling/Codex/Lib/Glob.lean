import Codex.Lib.Text
import Mathlib.Data.List.Infix

/-!
# Globs

`?` stands for one character, `*` for any number of them and any other character for itself, in
either case.
-/

namespace Codex.Lib

/-- Does the glob match the text? -/
def globMatches : Text → Text → Bool
  | [], text => text.isEmpty
  | c :: glob, text =>
    if c = '*' then text.tails.any (globMatches glob)
    else
      match text with
      | [] => false
      | d :: text => (c = '?' || c.toLower = d.toLower) && globMatches glob text

theorem globMatches_plain {glob text : Text} (hplain : ∀ c ∈ glob, c ≠ '*' ∧ c ≠ '?') :
    globMatches glob text = true ↔ glob.map Char.toLower = text.map Char.toLower := by
  induction glob generalizing text with
  | nil => cases text <;> simp [globMatches]
  | cons c glob ih =>
    obtain ⟨hstar, hmark⟩ := hplain c List.mem_cons_self
    have hrest : ∀ d ∈ glob, d ≠ '*' ∧ d ≠ '?' := fun d hd =>
      hplain d (List.mem_cons_of_mem c hd)
    cases text with
    | nil => simp [globMatches, hstar]
    | cons d text => simp [globMatches, hstar, hmark, ih hrest]

/-- At least one character, and then what the rest of the glob matches. -/
theorem globMatches_some_then {glob text : Text} :
    globMatches ('?' :: '*' :: glob) text = true ↔
      ∃ before after, before ≠ [] ∧ text = before ++ after ∧ globMatches glob after = true := by
  cases text with
  | nil =>
    constructor
    · intro h
      simp [globMatches] at h
    · rintro ⟨before, after, hne, heq, -⟩
      exact absurd (List.append_eq_nil_iff.mp heq.symm).1 hne
  | cons c text =>
    have hstep : globMatches ('?' :: '*' :: glob) (c :: text) =
        text.tails.any (globMatches glob) := by
      simp [globMatches]
    rw [hstep, List.any_eq_true]
    constructor
    · rintro ⟨after, htail, hglob⟩
      obtain ⟨before, rfl⟩ := (List.mem_tails _ _).mp htail
      exact ⟨c :: before, after, List.cons_ne_nil _ _, rfl, hglob⟩
    · rintro ⟨before, after, hne, heq, hglob⟩
      cases before with
      | nil => exact absurd rfl hne
      | cons b before =>
        rw [List.cons_append, List.cons.injEq] at heq
        exact ⟨after, (List.mem_tails _ _).mpr ⟨before, heq.2.symm⟩, hglob⟩

end Codex.Lib
