import Codex.ApplyPatch.Parser
import Codex.Lib.Trimming
import Mathlib.Algebra.Order.BigOperators.Group.List
import Mathlib.Algebra.Order.Group.Nat

/-!
# Parsing the stored patch text again

The text that `parse_patch` stores is the joined lines between the heredoc markers. It is parsed
again when the patch is applied, and the second parse trims it and drops carriage returns again.
-/

namespace Codex.Lib

/-- No whitespace around the text, and no line before the last that ends with a carriage return. -/
def StableLines (ls : List Text) : Prop :=
  NoSurroundingWhitespace (joinLines ls) ∧ ∀ l ∈ ls.dropLast, l.getLast? ≠ some '\r'

instance (ls : List Text) : Decidable (StableLines ls) := inferInstanceAs (Decidable (_ ∧ _))

/-- **Joined lines are read back exactly where they are stable.** -/
theorem lines_trim_joinLines_iff {init : List Text} {last : Text}
    (hlf : ∀ l ∈ init ++ [last], '\n' ∉ l) (hlast : last ≠ []) :
    lines (trim (joinLines (init ++ [last]))) = init ++ [last] ↔ StableLines (init ++ [last]) := by
  constructor
  · intro h
    have hne : trim (joinLines (init ++ [last])) ≠ [] := by
      intro hnil
      rw [hnil] at h
      simp [lines] at h
    obtain ⟨init', last', ht, -, -, -, -, hlines⟩ :=
      exists_lines hne (noTrailingWhitespace_trimEnd _)
    obtain ⟨rfl, hlast'⟩ := List.append_inj' (hlines.symm.trans h) rfl
    obtain rfl : last' = last := by simpa using hlast'
    have hlength := congrArg List.length ht
    have hjoined := length_joinLines_concat (init'.map stripCr) last'
    rw [length_joinLines_concat] at hlength
    rw [List.map_map, List.length_map] at hjoined
    have hsum : (init'.map (List.length ∘ stripCr)).sum ≤ (init'.map List.length).sum :=
      List.sum_le_sum fun l _ => length_stripCr_le l
    have htext : (joinLines (init'.map stripCr ++ [last'])).length ≤
        (trim (joinLines (init'.map stripCr ++ [last']))).length := by omega
    have htrim := trim_eq_self_of_length htext
    refine ⟨trim_eq_self_iff.mp htrim, ?_⟩
    -- a carriage return that the second parse drops would make the text shorter
    have hkept : ∀ l ∈ init', l.getLast? ≠ some '\r' := by
      intro l hl hcr
      have hlt : (init'.map (List.length ∘ stripCr)).sum < (init'.map List.length).sum :=
        List.sum_lt_sum _ _ (fun m _ => length_stripCr_le m) ⟨l, hl, length_stripCr_lt hcr⟩
      rw [htrim] at hlength
      omega
    rw [List.dropLast_concat]
    intro l hl
    obtain ⟨m, hm, rfl⟩ := List.mem_map.mp hl
    rw [stripCr_eq_self (hkept m hm)]
    exact hkept m hm
  · rintro ⟨hws, hcr⟩
    rw [List.dropLast_concat] at hcr
    rw [trim_eq_self hws]
    refine lines_joinLines ?_ (hlf last (by simp)) hlast
    intro l hl
    exact ⟨hlf l (by simp [hl]), hcr l hl⟩

end Codex.Lib

namespace Codex.ApplyPatch

open Codex.Lib StreamingPatchParser

variable {p : Text} {ls : List Text} {a : ApplyPatchArgs}

instance (ls : List Text) : Decidable (BoundariesOk ls) := inferInstanceAs (Decidable (_ ∧ _))

/-! ### A parse as a function of its lines -/

/-- The lines that are joined to the patch text: those of the trimmed text, or those between the
heredoc markers. -/
def storedLines (p : Text) : List Text :=
  let ls := lines (trim p)
  if BoundariesOk ls then ls else (ls.drop 1).dropLast

/-- `parse_patch_text`, after the boundary check -/
def parseLines (ls : List Text) : Except ParseError ApplyPatchArgs := do
  let patch := joinLines ls
  let (_, parser) ← ({} : StreamingPatchParser).pushDelta patch
  let (hunks, parser) ← parser.finish
  return { hunks := hunks, patch := patch, workdir := none, environmentId := parser.environmentId }

lemma parseLines_patch (h : parseLines ls = .ok a) : a.patch = joinLines ls := by
  obtain ⟨_, -, h⟩ := bind_eq_ok.mp h
  obtain ⟨_, -, h⟩ := bind_eq_ok.mp h
  rw [← Except.ok.inj h]

lemma parsePatch_eq_parseLines (h : BoundariesOk (lines (trim p))) :
    parsePatch p = parseLines (lines (trim p)) := by
  unfold parsePatch parsePatchText checkPatchBoundariesLenient
  simp only [checkPatchBoundariesStrict_of_ok h, ok_bind, parseLines]

/-- An accepted text: its lines have their boundaries, and the rest is a function of them. -/
theorem parsePatch_ok (h : parsePatch p = .ok a) :
    BoundariesOk (storedLines p) ∧ parseLines (storedLines p) = .ok a := by
  unfold storedLines
  by_cases hok : BoundariesOk (lines (trim p))
  · rw [parsePatch_eq_parseLines hok] at h
    simp only [if_pos hok]
    exact ⟨hok, h⟩
  · obtain ⟨e, herror⟩ := checkPatchBoundariesStrict_of_not_ok hok
    simp only [if_neg hok]
    unfold parsePatch parsePatchText checkPatchBoundariesLenient at h
    simp only [herror] at h
    by_cases hheredoc : isHeredocWrapped (lines (trim p)) = true
    · rw [if_pos hheredoc] at h
      by_cases hinner : BoundariesOk ((lines (trim p)).drop 1).dropLast
      · refine ⟨hinner, ?_⟩
        simpa only [checkPatchBoundariesStrict_of_ok hinner, ok_bind, parseLines] using h
      · obtain ⟨e', herror'⟩ := checkPatchBoundariesStrict_of_not_ok hinner
        rw [herror'] at h
        cases h
    · rw [if_neg hheredoc] at h
      cases h

lemma not_mem_of_mem_storedLines {l : Text} (h : l ∈ storedLines p) : '\n' ∉ l := by
  refine not_mem_of_mem_lines (s := trim p) ?_
  unfold storedLines at h
  simp only at h
  split at h
  · exact h
  · exact (List.drop_sublist 1 _).subset ((List.dropLast_sublist _).subset h)

/-- Lines with both boundaries end with a line that is not empty. -/
theorem exists_last_of_boundariesOk (h : BoundariesOk ls) :
    ∃ init last, ls = init ++ [last] ∧ last ≠ [] := by
  obtain ⟨last, hlast, htrim⟩ := Option.map_eq_some_iff.mp h.2
  obtain ⟨init, rfl⟩ := List.getLast?_eq_some_iff.mp hlast
  refine ⟨init, last, rfl, ?_⟩
  rintro rfl
  cases htrim

lemma joinLines_injective {ms : List Text} (hls : ∀ l ∈ ls, '\n' ∉ l) (hms : ∀ l ∈ ms, '\n' ∉ l)
    (hne : ls ≠ []) (hne' : ms ≠ []) (h : joinLines ls = joinLines ms) : ls = ms := by
  rw [← splitOn_joinLines hls hne, h, splitOn_joinLines hms hne']

/-- Trimming and splitting again gives no more lines. -/
theorem length_lines_trim_joinLines_le (hlf : ∀ l ∈ ls, '\n' ∉ l) (hne : ls ≠ []) :
    (lines (trim (joinLines ls))).length ≤ ls.length := by
  have hcount := (trim_sublist (joinLines ls)).count_le '\n'
  have hle := length_lines_le (trim (joinLines ls))
  have hsplit := length_splitOn '\n' (joinLines ls)
  rw [splitOn_joinLines hlf hne] at hsplit
  omega

/-! ### Main result -/

/-- Parsing the stored text gives the same patch. -/
def Reparses (a : ApplyPatchArgs) : Prop :=
  ∃ b, parsePatch a.patch = .ok b ∧ b.hunks = a.hunks ∧ b.environmentId = a.environmentId ∧
    b.patch = a.patch

/-- **The stored text stands for the patch exactly where its lines are stable**: no whitespace
around them, and none before the last that still ends with a carriage return. -/
theorem reparse_iff (p : Text) (a : ApplyPatchArgs) (h : parsePatch p = .ok a) :
    Reparses a ↔ StableLines (storedLines p) := by
  obtain ⟨hok, hparse⟩ := parsePatch_ok h
  obtain ⟨init, last, hsplit, hlast⟩ := exists_last_of_boundariesOk hok
  have hlf : ∀ l ∈ storedLines p, '\n' ∉ l := fun l hl => not_mem_of_mem_storedLines hl
  have hpatch := parseLines_patch hparse
  have hstable : lines (trim a.patch) = storedLines p ↔ StableLines (storedLines p) := by
    rw [hsplit] at hlf hpatch ⊢
    rw [hpatch]
    exact lines_trim_joinLines_iff hlf hlast
  rw [← hstable]
  constructor
  · rintro ⟨b, hb, -, -, hsame⟩
    obtain ⟨hok', hparse'⟩ := parsePatch_ok hb
    obtain ⟨init', last', hsplit', -⟩ := exists_last_of_boundariesOk hok'
    have hne : storedLines p ≠ [] := by simp [hsplit]
    have hread : storedLines a.patch = storedLines p := by
      refine joinLines_injective (fun l hl => not_mem_of_mem_storedLines hl) hlf (by simp [hsplit'])
        hne ?_
      rw [← parseLines_patch hparse', hsame, hpatch]
    have hle : (lines (trim a.patch)).length ≤ (storedLines p).length := by
      rw [hpatch]
      exact length_lines_trim_joinLines_le hlf hne
    by_cases hdirect : BoundariesOk (lines (trim a.patch))
    · rw [← hread]
      simp only [storedLines, if_pos hdirect]
    · -- the lines between heredoc markers would be fewer
      have hinner : ((lines (trim a.patch)).drop 1).dropLast = storedLines p := by
        rw [← hread]
        simp only [storedLines, if_neg hdirect]
      have hlength := congrArg List.length hinner
      have hpos := List.length_pos_iff.mpr hne
      rw [List.length_dropLast, List.length_drop] at hlength
      omega
  · intro hread
    refine ⟨a, ?_, rfl, rfl, rfl⟩
    rw [parsePatch_eq_parseLines (by rw [hread]; exact hok), hread, hparse]

theorem reparse_addFile :
    Reparses ⟨"*** Begin Patch\n*** Add File: a\n+x\n*** End Patch".toList,
      [.addFile "a".toList "x\n".toList], none, none⟩ :=
  (reparse_iff "<<EOF\n*** Begin Patch\n*** Add File: a\n+x\n*** End Patch\nEOF\n".toList _
    (by decide +kernel)).mpr (by decide +kernel)

/-- Of three carriage returns at the end of an added line one is approved, and none is applied. -/
theorem reparse_fails :
    let p := "*** Begin Patch\n*** Add File: a\n+x\r\r\r\n*** End Patch".toList
    let stored := "*** Begin Patch\n*** Add File: a\n+x\r\r\n*** End Patch".toList
    parsePatch p = .ok ⟨stored, [.addFile "a".toList "x\r\n".toList], none, none⟩ ∧
      (parsePatch stored).toOption.map (·.hunks) = some [.addFile "a".toList "x\n".toList] ∧
      ¬ Reparses ⟨stored, [.addFile "a".toList "x\r\n".toList], none, none⟩ := by
  have hread :
      (parsePatch "*** Begin Patch\n*** Add File: a\n+x\r\r\n*** End Patch".toList).toOption.map
      (·.hunks) = some [.addFile "a".toList "x\n".toList] := by decide +kernel
  refine ⟨by decide +kernel, hread, ?_⟩
  rintro ⟨b, hb, hhunks, -, -⟩
  rw [hb] at hread
  simp only [Except.toOption, Option.map_some, hhunks] at hread
  cases hread

end Codex.ApplyPatch
