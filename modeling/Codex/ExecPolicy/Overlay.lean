import Codex.ExecPolicy.Policy
import Codex.Lib.Result

/-!
# Managed requirements over a policy

`requirements.toml` gives prefix rules that `merge_overlay` lays over the rules of the user. The
merged policy is meant to be at least as restrictive as the requirements alone.

* `exactMatches_mergeOverlay`, `getVec_mergeOverlay`: what the merged policy looks up;
* `overlayRespected_iff`: exactly when the requirements' decision stands.
-/

namespace Codex.ExecPolicy

open Codex.Lib
open Codex.Permissions (AbsolutePathBuf Environment asPath emptyEnvironment)

/-! ### What the merged policy looks up -/

variable {env : Environment} {P R : Policy} {cmd : List Text}

lemma getVec_mergeOverlay (program : Text) :
    (P.mergeOverlay R).getVec program = P.getVec program ++ R.getVec program := by
  simp [Policy.getVec, Policy.mergeOverlay]

lemma exactMatches_mergeOverlay :
    (P.mergeOverlay R).exactMatches cmd = P.exactMatches cmd ++ R.exactMatches cmd := by
  rw [Policy.exactMatches_eq, Policy.exactMatches_eq, Policy.exactMatches_eq]
  cases cmd.head? with
  | none => rfl
  | some first => simp [getVec_mergeOverlay]

/-- The user's list of paths for the name is consulted only where the requirements have none. -/
theorem listsHost_mergeOverlay (program : AbsolutePathBuf) (basename : Text) :
    (P.mergeOverlay R).listsHost program basename =
      if (R.hostExecutablesByName basename).isSome then R.listsHost program basename
      else P.listsHost program basename := by
  simp only [Policy.listsHost, Policy.mergeOverlay]
  cases R.hostExecutablesByName basename with
  | none => simp
  | some paths => simp

/-! ### When the requirements' decision stands -/

variable (env)

/-- Where the requirements alone match the command, the merged policy's decision is at least as
restrictive. -/
def OverlayRespected (P R : Policy) (cmd : List Text) (fallback : List Text → Decision) : Prop :=
  ∀ d, strictest (R.matchesForCommandWithOptions env cmd none ⟨true⟩) = some d →
    ∃ evaluation, (P.mergeOverlay R).checkWithOptions env cmd fallback ⟨true⟩ = some evaluation ∧
      d ≤ evaluation.decision

/-- Where the requirements list no paths for the program's file name, the user does not exclude the
program. -/
def HostNotExcluded (P R : Policy) (cmd : List Text) : Prop :=
  ∀ program basename, hostProgram env cmd = some (program, basename) →
    R.hostExecutablesByName basename = none →
      ∀ paths, P.hostExecutablesByName basename = some paths → program ∈ paths

/-- The requirements match by the exact program; or an exact rule of the user that matches is as
restrictive; or none of the user's exact rules matches, and the user does not exclude the program
from its file name's rules, unless the fallback is as restrictive. -/
def NotBypassed (P R : Policy) (cmd : List Text) (fallback : List Text → Decision) : Prop :=
  ∀ d, strictest (R.matchesForCommandWithOptions env cmd none ⟨true⟩) = some d →
    R.exactMatches cmd ≠ [] ∨ (∃ m ∈ P.exactMatches cmd, d ≤ m.decision) ∨
      P.exactMatches cmd = [] ∧ (HostNotExcluded env P R cmd ∨ d ≤ fallback cmd)

variable {env}

lemma overlayRespected_iff_le {fallback : List Text → Decision} :
    OverlayRespected env P R cmd fallback ↔
      ∀ d, strictest (R.matchesForCommandWithOptions env cmd none ⟨true⟩) = some d →
        d ≤ (strictest ((P.mergeOverlay R).matchesForCommandWithOptions env cmd none
          ⟨true⟩)).getD (fallback cmd) := by
  have hdecision := Policy.decision_checkWithOptions env (P.mergeOverlay R) cmd fallback ⟨true⟩
  obtain ⟨evaluation, hcheck, heq⟩ := Option.map_eq_some_iff.mp hdecision
  refine forall_congr' fun d => imp_congr_right fun _ => ?_
  rw [hcheck, ← heq]
  simp

/-- What the requirements match by file name, the merged policy does too unless the user excludes
the program. -/
theorem hostMatches_subset (hne : R.matchHostExecutableRules env cmd ≠ [])
    (hhost : HostNotExcluded env P R cmd) :
    ∀ m ∈ R.matchHostExecutableRules env cmd,
      m ∈ (P.mergeOverlay R).matchHostExecutableRules env cmd := by
  rw [Policy.matchHostExecutableRules_eq] at hne ⊢
  rw [Policy.matchHostExecutableRules_eq]
  cases hprogram : hostProgram env cmd with
  | none => simp [hprogram] at hne
  | some pair =>
    obtain ⟨program, basename⟩ := pair
    simp only [hprogram, Option.elim_some] at hne ⊢
    have hlistsR : R.listsHost program basename = true := by
      by_contra hnot
      exact hne (if_neg hnot)
    have hlists : (P.mergeOverlay R).listsHost program basename = true := by
      rw [listsHost_mergeOverlay]
      split
      · exact hlistsR
      · rename_i hnone
        have hnone' : R.hostExecutablesByName basename = none := by simpa using hnone
        have hin := hhost program basename hprogram hnone'
        unfold Policy.listsHost
        cases hpaths : P.hostExecutablesByName basename with
        | none => rfl
        | some paths => simp [hin paths hpaths]
    rw [if_pos hlistsR, if_pos hlists, getVec_mergeOverlay, List.filterMap_append, List.map_append]
    intro m hm
    exact List.mem_append_right _ hm

/-- Where the user excludes the program, no rule of its file name matches. -/
theorem hostMatches_excluded (hhost : ¬ HostNotExcluded env P R cmd) :
    (P.mergeOverlay R).matchHostExecutableRules env cmd = [] := by
  unfold HostNotExcluded at hhost
  push Not at hhost
  obtain ⟨program, basename, hprogram, hnone, paths, hpaths, hnot⟩ := hhost
  have hlists : (P.mergeOverlay R).listsHost program basename = false := by
    rw [listsHost_mergeOverlay, hnone]
    simp [Policy.listsHost, hpaths, hnot]
  rw [Policy.matchHostExecutableRules_eq, hprogram]
  simp [hlists]

/-- **When the requirements' decision stands** over the user's policy. -/
theorem overlayRespected_iff (env : Environment) (P R : Policy) (cmd : List Text)
    (fallback : List Text → Decision) :
    OverlayRespected env P R cmd fallback ↔ NotBypassed env P R cmd fallback := by
  rw [overlayRespected_iff_le]
  refine forall_congr' fun d => imp_congr_right fun hd => ?_
  rw [Policy.matches_none] at hd ⊢
  rw [exactMatches_mergeOverlay]
  by_cases hexactR : R.exactMatches cmd = []
  · rw [hexactR, if_neg (not_not.mpr rfl), if_pos rfl] at hd
    rw [hexactR, List.append_nil]
    by_cases hexactP : P.exactMatches cmd = []
    · rw [hexactP, if_neg (not_not.mpr rfl), if_pos rfl]
      have hne : R.matchHostExecutableRules env cmd ≠ [] := by
        intro hnil
        rw [hnil] at hd
        exact absurd hd (by simp [strictest])
      by_cases hhost : HostNotExcluded env P R cmd
      · have hsub := hostMatches_subset hne hhost
        have hne' : (P.mergeOverlay R).matchHostExecutableRules env cmd ≠ [] := by
          obtain ⟨m, hm⟩ := List.exists_mem_of_ne_nil _ hne
          exact List.ne_nil_of_mem (hsub m hm)
        obtain ⟨d', hd'⟩ := exists_strictest hne'
        rw [hd']
        exact iff_of_true (strictest_le_of_subset hd hd' hsub) (.inr (.inr ⟨rfl, .inl hhost⟩))
      · rw [hostMatches_excluded hhost]
        simp [strictest, hhost]
    · rw [if_pos hexactP]
      obtain ⟨d', hd'⟩ := exists_strictest hexactP
      rw [hd']
      obtain ⟨⟨m, hm, hmd⟩, hall⟩ := strictest_eq_some_iff.mp hd'
      constructor
      · intro hle
        exact .inr (.inl ⟨m, hm, hmd ▸ hle⟩)
      · rintro (hR | ⟨m', hm', hle⟩ | ⟨hnil, -⟩)
        · exact absurd rfl hR
        · exact hle.trans (hall m' hm')
        · exact absurd hnil hexactP
  · rw [if_pos hexactR] at hd
    have hne : P.exactMatches cmd ++ R.exactMatches cmd ≠ [] := by simp [hexactR]
    rw [if_pos hne]
    obtain ⟨d', hd'⟩ := exists_strictest hne
    rw [hd']
    refine iff_of_true (strictest_le_of_subset hd hd' fun m hm => ?_) (.inl hexactR)
    exact List.mem_append_right _ hm

/-- The user allows one path of a program by name. -/
def userAllowsPath : Policy :=
  { Policy.empty with
    rulesByProgram := [("/usr/bin/git".toList, ⟨⟨"/usr/bin/git".toList, []⟩, .allow, none⟩)] }

/-- The requirements forbid a command of the program. -/
def requirementsForbidPush : Policy :=
  { Policy.empty with
    rulesByProgram :=
      [("git".toList, ⟨⟨"git".toList, [.single "push".toList]⟩, .forbidden, none⟩)] }

/-- The requirements alone forbid the command, the merged policy allows it. -/
theorem overlay_bypassed :
    ¬ OverlayRespected emptyEnvironment userAllowsPath requirementsForbidPush
      ["/usr/bin/git".toList, "push".toList] (fun _ => .forbidden) := by
  intro h
  obtain ⟨evaluation, hcheck, hle⟩ := h .forbidden (by decide)
  have hdecision : ((userAllowsPath.mergeOverlay requirementsForbidPush).checkWithOptions
      emptyEnvironment ["/usr/bin/git".toList, "push".toList] (fun _ => .forbidden)
      ⟨true⟩).map Evaluation.decision = some .allow := by decide
  rw [hcheck] at hdecision
  have hallow : evaluation.decision = .allow := Option.some_inj.mp hdecision
  rw [hallow] at hle
  cases hle

end Codex.ExecPolicy
