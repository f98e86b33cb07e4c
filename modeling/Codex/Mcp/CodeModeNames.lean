import Codex.Mcp.CallableNames
import Mathlib.Data.Set.Finite.Lemmas
import Mathlib.Data.Set.Finite.List

/-!
# The names of code mode

Names are kept apart as they are displayed, the namespace followed by the name; code mode puts a
delimiter in between, unless there is an underscore already. Two names with a hash still end in
different hashes. Two tools that keep their names can meet: `a` with `b__c` and `a__b` with `c`, or
`a` with `b` and with `__b`. Which tools keep their names is read off the tools (`KeepsNames`), as
long as none of them is spelled with the hash of another one (`HashFree`).

* `normalized_iff`: **exactly when the names are right**;
* `codeModeNames_meet`: two tools of which code mode drops one.
-/

namespace Codex.Mcp

open Codex.Lib

variable {Rest : Type} {sha1 : Sha1} {prefixMcpToolNames : Bool} {tools : List (ToolInfo Rest)}
  {tool tool' : ToolInfo Rest}

/-! ### Who keeps a name -/

variable (candidate : CallableToolCandidate Rest)

/-- The names of the candidate. -/
def CallableToolCandidate.parts : Text × Text :=
  (candidate.callableNamespace, candidate.callableName)

/-- The name that the candidate would be displayed by. -/
def CallableToolCandidate.displayed : Text :=
  candidate.callableNamespace ++ candidate.callableName

variable (parts : Text × Text)

/-- The name that code mode would give to the parts. -/
def codeModeName : Text := codeModeNameForToolName ⟨some parts.1, parts.2⟩

/-- The tool keeps the names of its candidate: they are short enough, and no tool with a smaller
identity is displayed by them. -/
def KeepsNames (sha1 : Sha1) (prefixMcpToolNames : Bool) (tools : List (ToolInfo Rest))
    (tool : ToolInfo Rest) : Prop :=
  (tool.hashedCandidate sha1 prefixMcpToolNames tools).displayed.length +
      mcpToolNameDelimiter.length ≤ maxToolNameLength ∧
    ∀ other ∈ tools, other.rawToolIdentity < tool.rawToolIdentity →
      (other.hashedCandidate sha1 prefixMcpToolNames tools).displayed ≠
        (tool.hashedCandidate sha1 prefixMcpToolNames tools).displayed

instance : Decidable (KeepsNames sha1 prefixMcpToolNames tools tool) :=
  inferInstanceAs (Decidable (_ ∧ _))

/-- No tool is spelled with the hash of another one at the end. -/
def HashFree (sha1 : Sha1) (prefixMcpToolNames : Bool) (tools : List (ToolInfo Rest)) : Prop :=
  ∀ tool ∈ tools, ∀ other ∈ tools, tool.rawToolIdentity ≠ other.rawToolIdentity →
    ¬ hashDigits sha1 other.rawToolIdentity <:+
      (tool.hashedCandidate sha1 prefixMcpToolNames tools).displayed

/-- What the tool is called. -/
def finalParts (sha1 : Sha1) (prefixMcpToolNames : Bool) (tools : List (ToolInfo Rest))
    (tool : ToolInfo Rest) : Text × Text :=
  let candidate := tool.hashedCandidate sha1 prefixMcpToolNames tools
  if KeepsNames sha1 prefixMcpToolNames tools tool then candidate.parts
  else
    fitCallablePartsWithHash sha1 candidate.callableNamespace candidate.callableName
      tool.rawToolIdentity mcpToolNameDelimiter.length

lemma suffix_finalParts (h : ¬ KeepsNames sha1 prefixMcpToolNames tools tool) :
    hashDigits sha1 tool.rawToolIdentity <:+ (finalParts sha1 prefixMcpToolNames tools tool).2 := by
  obtain ⟨hns, hname⟩ := hashedCandidate_isNamed sha1 prefixMcpToolNames tools tool
  simp only [finalParts, if_neg h]
  exact (fit_spec sha1 hns hname _).2

/-- Of the tools that would be displayed alike, the first one keeps its names. -/
theorem exists_keepsNames (hmem : tool ∈ tools)
    (hlength : (tool.hashedCandidate sha1 prefixMcpToolNames tools).displayed.length +
      mcpToolNameDelimiter.length ≤ maxToolNameLength) :
    ∃ first ∈ tools, first.rawToolIdentity ≤ tool.rawToolIdentity ∧
      (first.hashedCandidate sha1 prefixMcpToolNames tools).displayed =
        (tool.hashedCandidate sha1 prefixMcpToolNames tools).displayed ∧
      KeepsNames sha1 prefixMcpToolNames tools first := by
  have hfinite : {other | other ∈ tools ∧
      (other.hashedCandidate sha1 prefixMcpToolNames tools).displayed =
        (tool.hashedCandidate sha1 prefixMcpToolNames tools).displayed}.Finite :=
    (List.finite_toSet tools).subset fun _ h => h.1
  obtain ⟨first, ⟨hfirst, hsame⟩, hmin⟩ :=
    Set.exists_min_image _ ToolInfo.rawToolIdentity hfinite ⟨tool, hmem, rfl⟩
  refine ⟨first, hfirst, hmin tool ⟨hmem, rfl⟩, hsame, ?_, ?_⟩
  · rw [hsame]
    exact hlength
  · intro other hother hlt heq
    exact absurd (hmin other ⟨hother, heq.trans hsame⟩) (not_le.mpr hlt)

/-! ### The assignment -/

variable (hapart : HashesApart sha1 tools)
include hapart

variable (hfree : HashFree sha1 prefixMcpToolNames tools)
include hfree

/-- A name that is displayed by a text with the hash of the tool at its end is the tool's own. -/
theorem displayed_ne_of_hash (hmem : tool ∈ tools) (hmem' : tool' ∈ tools)
    (hne : tool.rawToolIdentity ≠ tool'.rawToolIdentity) {name : Text}
    (hname : hashDigits sha1 tool'.rawToolIdentity <:+ name) :
    (finalParts sha1 prefixMcpToolNames tools tool).1 ++
      (finalParts sha1 prefixMcpToolNames tools tool).2 ≠ name := by
  rintro rfl
  by_cases hkeeps : KeepsNames sha1 prefixMcpToolNames tools tool
  · apply hfree tool hmem tool' hmem' hne
    simp only [finalParts, if_pos hkeeps] at hname
    exact hname
  · have hsuffix := (suffix_finalParts hkeeps).trans (List.suffix_append
      (finalParts sha1 prefixMcpToolNames tools tool).1 _)
    exact hne (hapart tool hmem tool' hmem' 0 (Nat.zero_le _) 0 (Nat.zero_le _)
      (hashDigits_eq_of_suffix hsuffix hname))

/-- **What the next tool is called**, when those with smaller identities have their names. -/
theorem uniqueCallableParts_eq (hmem : tool ∈ tools) {usedNames : List Text}
    (hused : ∀ name, name ∈ usedNames ↔ ∃ other ∈ tools,
      other.rawToolIdentity < tool.rawToolIdentity ∧
        (finalParts sha1 prefixMcpToolNames tools other).1 ++
          (finalParts sha1 prefixMcpToolNames tools other).2 = name) :
    uniqueCallableParts sha1 (tool.hashedCandidate sha1 prefixMcpToolNames tools).callableNamespace
        (tool.hashedCandidate sha1 prefixMcpToolNames tools).callableName tool.rawToolIdentity
        usedNames mcpToolNameDelimiter.length =
      some (finalParts sha1 prefixMcpToolNames tools tool) := by
  have hkept : ∀ other, KeepsNames sha1 prefixMcpToolNames tools other →
      (finalParts sha1 prefixMcpToolNames tools other).1 ++
        (finalParts sha1 prefixMcpToolNames tools other).2 =
          (other.hashedCandidate sha1 prefixMcpToolNames tools).displayed := by
    intro other hother
    simp only [finalParts, if_pos hother]
    rfl
  have hiff : ((tool.hashedCandidate sha1 prefixMcpToolNames tools).displayed.length +
      mcpToolNameDelimiter.length ≤ maxToolNameLength ∧
        (tool.hashedCandidate sha1 prefixMcpToolNames tools).displayed ∉ usedNames) ↔
      KeepsNames sha1 prefixMcpToolNames tools tool := by
    refine and_congr_right fun hlength => ?_
    rw [hused]
    constructor
    · intro hnot other hother hlt heq
      obtain ⟨first, hfirst, hle, hsame, hkeeps⟩ := exists_keepsNames hother (by rwa [heq])
      exact hnot ⟨first, hfirst, hle.trans_lt hlt, (hkept first hkeeps).trans (hsame.trans heq)⟩
    · rintro hnot ⟨other, hother, hlt, heq⟩
      by_cases hkeeps : KeepsNames sha1 prefixMcpToolNames tools other
      · exact hnot other hother hlt ((hkept other hkeeps).symm.trans heq)
      · apply hfree tool hmem other hother hlt.ne'
        rw [← heq]
        exact (suffix_finalParts hkeeps).trans (List.suffix_append _ _)
  rw [uniqueCallableParts]
  by_cases hkeeps : KeepsNames sha1 prefixMcpToolNames tools tool
  · refine (if_pos (hiff.mpr hkeeps)).trans ?_
    simp only [finalParts, if_pos hkeeps]
    rfl
  · refine (if_neg (mt hiff.mp hkeeps)).trans ?_
    rw [List.range_succ_eq_map, List.map_cons]
    have hsuffix := suffix_finalParts hkeeps
    simp only [finalParts, if_neg hkeeps] at hsuffix ⊢
    apply List.find?_cons_of_pos
    rw [hashInput, if_pos rfl, decide_eq_true_eq, hused]
    rintro ⟨other, hother, hlt, heq⟩
    exact displayed_ne_of_hash hapart hfree hother hmem hlt.ne
      (hsuffix.trans (List.suffix_append _ _)) heq

/-- **What every tool is called.** -/
theorem assignNames_eq {done rest : List (ToolInfo Rest)} {usedNames : List Text}
    (hstrict : (done ++ rest).Pairwise fun a b => a.rawToolIdentity < b.rawToolIdentity)
    (hmem : ∀ other, other ∈ done ++ rest ↔ other ∈ tools)
    (hused : ∀ name, name ∈ usedNames ↔ ∃ other ∈ done,
      (finalParts sha1 prefixMcpToolNames tools other).1 ++
        (finalParts sha1 prefixMcpToolNames tools other).2 = name) :
    assignNames sha1 usedNames
        (rest.map (ToolInfo.hashedCandidate sha1 prefixMcpToolNames tools)) =
      some (rest.map fun tool =>
        tool.withParts (finalParts sha1 prefixMcpToolNames tools tool)) := by
  induction rest generalizing done usedNames with
  | nil => rfl
  | cons tool rest ih =>
    have hsplit := List.pairwise_append.mp hstrict
    have hbefore : ∀ other, other ∈ done ↔
        other ∈ tools ∧ other.rawToolIdentity < tool.rawToolIdentity := by
      intro other
      constructor
      · intro hother
        exact ⟨(hmem other).mp (List.mem_append_left _ hother),
          hsplit.2.2 other hother tool List.mem_cons_self⟩
      · rintro ⟨hother, hlt⟩
        rcases List.mem_append.mp ((hmem other).mpr hother) with hother | hother
        · exact hother
        · rcases List.mem_cons.mp hother with rfl | hother
          · exact absurd hlt (lt_irrefl _)
          · exact absurd hlt (List.rel_of_pairwise_cons hsplit.2.1 hother).asymm
    have htool : tool ∈ tools := (hmem tool).mp (List.mem_append_right _ List.mem_cons_self)
    have hused' : ∀ name, name ∈ usedNames ↔ ∃ other ∈ tools,
        other.rawToolIdentity < tool.rawToolIdentity ∧
          (finalParts sha1 prefixMcpToolNames tools other).1 ++
            (finalParts sha1 prefixMcpToolNames tools other).2 = name := by
      intro name
      rw [hused]
      simp only [hbefore, and_assoc]
    have hunique := uniqueCallableParts_eq hapart hfree htool hused'
    have happend : done ++ tool :: rest = (done ++ [tool]) ++ rest := by
      rw [List.append_assoc, List.singleton_append]
    rw [happend] at hstrict hmem
    have hnext : ∀ name, name ∈ ((finalParts sha1 prefixMcpToolNames tools tool).1 ++
        (finalParts sha1 prefixMcpToolNames tools tool).2) :: usedNames ↔
          ∃ other ∈ done ++ [tool], (finalParts sha1 prefixMcpToolNames tools other).1 ++
            (finalParts sha1 prefixMcpToolNames tools other).2 = name := by
      intro name
      rw [List.mem_cons, hused]
      simp only [List.mem_append, List.mem_singleton, or_and_right, exists_or, exists_eq_left]
      rw [or_comm, eq_comm]
    have hrest := ih hstrict hmem hnext
    obtain ⟨htool', hraw⟩ := hashedCandidate_tool sha1 prefixMcpToolNames tools tool
    simp only [List.map_cons, assignNames, hraw, hunique, hrest, htool', Option.bind_eq_bind,
      Option.bind_some, Option.pure_def]

omit hfree

omit hapart

/-- The tools in the order of their identities, with their names. -/
theorem normalize_eq_some (hnodup : (tools.map ToolInfo.rawToolIdentity).Nodup)
    (hapart : HashesApart sha1 tools) (hfree : HashFree sha1 prefixMcpToolNames tools) :
    normalizeToolsForModelWithPrefix sha1 tools prefixMcpToolNames =
      some ((sortByKey ToolInfo.rawToolIdentity tools).map fun tool =>
        tool.withParts (finalParts sha1 prefixMcpToolNames tools tool)) := by
  rw [normalize_eq sha1 prefixMcpToolNames hnodup]
  have hstrict : ([] ++ sortByKey ToolInfo.rawToolIdentity tools).Pairwise
      fun a b : ToolInfo Rest => a.rawToolIdentity < b.rawToolIdentity :=
    sortByKey_strict ToolInfo.rawToolIdentity hnodup
  apply assignNames_eq hapart hfree hstrict
  · exact fun other => mem_sortByKey ToolInfo.rawToolIdentity
  · intro name
    simp

/-! ### Code mode -/

lemma codeModeName_eq :
    codeModeName parts = parts.1 ++ parts.2 ∨
      codeModeName parts = parts.1 ++ "__".toList ++ parts.2 := by
  simp only [codeModeName, codeModeNameForToolName]
  split
  · exact .inl rfl
  · exact .inr rfl

/-- The name in code mode has an underscore, so code mode does not take it for a tool of its own. -/
theorem isCodeModeNestedTool_codeModeName : isCodeModeNestedTool (codeModeName parts) = true := by
  have hunderscore : '_' ∈ codeModeName parts := by
    simp only [codeModeName, codeModeNameForToolName]
    split
    · rename_i h
      rcases h with h | h
      · exact List.mem_append_left _ (List.mem_of_getLast? h)
      · exact List.mem_append_right _ (List.mem_of_head? h)
    · exact List.mem_append_left _ (List.mem_append_right _ (by decide))
  have hexec : codeModeName parts ≠ "exec".toList := by
    intro heq
    simp [heq] at hunderscore
  have hwait : codeModeName parts ≠ "wait".toList := by
    intro heq
    simp [heq] at hunderscore
  simp only [isCodeModeNestedTool, hexec, hwait, ne_eq, not_false_eq_true, decide_true,
    Bool.and_self]

/-- The delimiter does not make a name end in a hash. -/
theorem suffix_of_suffix_codeModeName {parts : Text × Text} {raw : Text}
    (h : hashDigits sha1 raw <:+ codeModeName parts) :
    hashDigits sha1 raw <:+ parts.1 ++ parts.2 := by
  rcases codeModeName_eq parts with heq | heq
  · rwa [heq] at h
  · rw [heq] at h
    have htail : '_' :: parts.2 <:+ parts.1 ++ "__".toList ++ parts.2 := ⟨parts.1 ++ ['_'], by simp⟩
    have hnot : '_' ∉ hashDigits sha1 raw := fun hmem => (hashDigits_spec sha1 raw hmem).2 rfl
    rcases List.suffix_or_suffix_of_suffix h htail with hsuffix | hsuffix
    · rcases List.suffix_cons_iff.mp hsuffix with heq | hsuffix
      · exact absurd (heq ▸ List.mem_cons_self) hnot
      · exact hsuffix.trans (List.suffix_append _ _)
    · exact absurd (hsuffix.mem List.mem_cons_self) hnot

/-- A name that ends in a hash does so in code mode. -/
theorem suffix_codeModeName {parts : Text × Text} {s : Text} (h : s <:+ parts.2) :
    s <:+ codeModeName parts := by
  rcases codeModeName_eq parts with heq | heq
  · rw [heq]
    exact h.trans (List.suffix_append _ _)
  · rw [heq]
    exact h.trans (List.suffix_append _ _)

/-- No two tools that keep their names have the same name in code mode. -/
def CodeModeApart (sha1 : Sha1) (prefixMcpToolNames : Bool) (tools : List (ToolInfo Rest)) : Prop :=
  ∀ tool ∈ tools, ∀ other ∈ tools, KeepsNames sha1 prefixMcpToolNames tools tool →
    KeepsNames sha1 prefixMcpToolNames tools other →
    codeModeName (tool.hashedCandidate sha1 prefixMcpToolNames tools).parts =
      codeModeName (other.hashedCandidate sha1 prefixMcpToolNames tools).parts →
    tool = other

/-- **The names in code mode differ exactly when those of the tools that keep theirs do.** -/
theorem codeModeNames_nodup_iff (hnodup : (tools.map ToolInfo.rawToolIdentity).Nodup)
    (hapart : HashesApart sha1 tools) (hfree : HashFree sha1 prefixMcpToolNames tools) :
    (∀ tool ∈ tools, ∀ other ∈ tools, codeModeName (finalParts sha1 prefixMcpToolNames tools tool) =
        codeModeName (finalParts sha1 prefixMcpToolNames tools other) → tool = other) ↔
      CodeModeApart sha1 prefixMcpToolNames tools := by
  have hkept : ∀ tool, KeepsNames sha1 prefixMcpToolNames tools tool →
      finalParts sha1 prefixMcpToolNames tools tool =
        (tool.hashedCandidate sha1 prefixMcpToolNames tools).parts := by
    intro tool h
    simp only [finalParts, if_pos h]
  have hidentity : ∀ tool ∈ tools, ∀ other ∈ tools,
      tool.rawToolIdentity = other.rawToolIdentity → tool = other :=
    fun tool htool other hother => List.inj_on_of_nodup_map hnodup htool hother
  -- a name with a hash meets no other name
  have hhashed : ∀ tool ∈ tools, ∀ other ∈ tools,
      ¬ KeepsNames sha1 prefixMcpToolNames tools other →
      codeModeName (finalParts sha1 prefixMcpToolNames tools tool) =
        codeModeName (finalParts sha1 prefixMcpToolNames tools other) → tool = other := by
    intro tool htool other hother hkeeps heq
    by_contra hne
    have hsuffix := suffix_codeModeName (suffix_finalParts hkeeps)
    rw [← heq] at hsuffix
    exact displayed_ne_of_hash hapart hfree htool hother
      (fun heq => hne (hidentity tool htool other hother heq))
      (suffix_of_suffix_codeModeName hsuffix) rfl
  constructor
  · intro h tool htool other hother hkeeps hkeeps' heq
    apply h tool htool other hother
    rw [hkept tool hkeeps, hkept other hkeeps', heq]
  · intro h tool htool other hother heq
    by_cases hkeeps' : KeepsNames sha1 prefixMcpToolNames tools other
    · by_cases hkeeps : KeepsNames sha1 prefixMcpToolNames tools tool
      · rw [hkept tool hkeeps, hkept other hkeeps'] at heq
        exact h tool htool other hother hkeeps hkeeps' heq
      · exact (hhashed other hother tool htool hkeeps heq.symm).symm
    · exact hhashed tool htool other hother hkeeps' heq

/-- The specifications declare exactly these tools. -/
def Declares (specs : List ToolSpec) (tools : List (ToolInfo Rest)) : Prop :=
  ((specs.flatMap codeModeToolDefinitionsForSpec).map (·.toolName)).Perm
    (tools.map ToolInfo.canonicalToolName)

lemma name_of_mem_definitions {spec : ToolSpec} {definition : CodeModeToolDefinition}
    (h : definition ∈ codeModeToolDefinitionsForSpec spec) :
    definition.name = codeModeNameForToolName definition.toolName := by
  cases spec with
  | function name =>
    obtain rfl := List.mem_singleton.mp h
    rfl
  | freeform name =>
    obtain rfl := List.mem_singleton.mp h
    rfl
  | nameSpace ns names =>
    obtain ⟨name, -, rfl⟩ := List.mem_map.mp h
    rfl
  | other => cases h

/-- **Code mode drops no tool exactly when their names differ.** -/
theorem length_collect_iff {specs : List ToolSpec} (h : Declares specs tools) :
    (collectCodeModeToolDefinitions specs).length = tools.length ↔ (tools.map fun tool =>
        codeModeName (tool.callableNamespace, tool.callableName)).Nodup := by
  have hnames : ((specs.flatMap codeModeToolDefinitionsForSpec).map (·.name)).Perm
      (tools.map fun tool => codeModeName (tool.callableNamespace, tool.callableName)) := by
    have heq : (specs.flatMap codeModeToolDefinitionsForSpec).map (·.name) =
        ((specs.flatMap codeModeToolDefinitionsForSpec).map (·.toolName)).map
          codeModeNameForToolName := by
      rw [List.map_map]
      apply List.map_congr_left
      intro definition hdefinition
      obtain ⟨spec, -, hspec⟩ := List.mem_flatMap.mp hdefinition
      exact name_of_mem_definitions hspec
    have hmap := h.map codeModeNameForToolName
    rw [← heq, List.map_map] at hmap
    exact hmap
  have hall : (specs.flatMap codeModeToolDefinitionsForSpec).filter
      (isCodeModeNestedTool ·.name) = specs.flatMap codeModeToolDefinitionsForSpec := by
    apply List.filter_eq_self.mpr
    intro definition hdefinition
    obtain ⟨tool, -, heq⟩ := List.mem_map.mp (hnames.mem_iff.mp (List.mem_map_of_mem hdefinition))
    rw [← heq]
    exact isCodeModeNestedTool_codeModeName _
  have hlength := h.length_eq
  rw [List.length_map, List.length_map] at hlength
  rw [collectCodeModeToolDefinitions, hall, ← hlength,
    length_dedupByKey_sortByKey_iff CodeModeToolDefinition.name]
  exact hnames.nodup_iff

/-! ### The names -/

/-- The tools are returned once each, with names that are allowed, short enough and displayed by
different texts. -/
structure Normalized (tools output : List (ToolInfo Rest)) : Prop where
  once : List.Forall₂
    (fun tool out => out = tool.withParts (out.callableNamespace, out.callableName))
    (sortByKey ToolInfo.rawToolIdentity tools) output
  callable : ∀ tool ∈ output, Callable (tool.callableNamespace, tool.callableName)
  displayed : (output.map ToolInfo.displayed).Nodup

variable (output : List (ToolInfo Rest))

/-- The names in code mode differ, and code mode drops no tool. -/
def CodeModeKeepsAll : Prop :=
  (output.map fun tool => codeModeName (tool.callableNamespace, tool.callableName)).Nodup ∧
    ∀ specs, Declares specs output → (collectCodeModeToolDefinitions specs).length = output.length

/-- Different attempts for one tool have different hashes. -/
theorem HashesApart.attempts (hapart : HashesApart sha1 tools) (hmem : tool ∈ tools) :
    ∀ k ≤ tools.length, ∀ k' ≤ tools.length,
      hashDigits sha1 (hashInput tool.rawToolIdentity k) =
        hashDigits sha1 (hashInput tool.rawToolIdentity k') → k = k' :=
  fun k hk k' hk' heq => hashInput_injective (hapart tool hmem tool hmem k hk k' hk' heq)

lemma forall_mem_of_forall₂ {α β : Type} {P : β → Prop} {l : List α} {l' : List β}
    (h : List.Forall₂ (fun _ b => P b) l l') : ∀ b ∈ l', P b := by
  induction h with
  | nil => exact fun _ hmem => absurd hmem List.not_mem_nil
  | cons hb _ ih => exact List.forall_mem_cons.mpr ⟨hb, ih⟩

lemma exists_normalized (prefixMcpToolNames : Bool)
    (hnodup : (tools.map ToolInfo.rawToolIdentity).Nodup) (hapart : HashesApart sha1 tools) :
    ∃ output, normalizeToolsForModelWithPrefix sha1 tools prefixMcpToolNames = some output ∧
      Normalized tools output := by
  have hcandidates : ∀ candidate ∈ (sortByKey ToolInfo.rawToolIdentity tools).map
      (ToolInfo.hashedCandidate sha1 prefixMcpToolNames tools), candidate.IsNamed ∧
        ∀ k ≤ tools.length, ∀ k' ≤ tools.length,
          hashDigits sha1 (hashInput candidate.rawToolIdentity k) =
            hashDigits sha1 (hashInput candidate.rawToolIdentity k') → k = k' := by
    intro candidate hcandidate
    obtain ⟨tool, htool, rfl⟩ := List.mem_map.mp hcandidate
    rw [(hashedCandidate_tool sha1 prefixMcpToolNames tools tool).2]
    exact ⟨hashedCandidate_isNamed sha1 prefixMcpToolNames tools tool,
      hapart.attempts ((mem_sortByKey ToolInfo.rawToolIdentity).mp htool)⟩
  have hlength : ([] : List Text).length + ((sortByKey ToolInfo.rawToolIdentity tools).map
      (ToolInfo.hashedCandidate sha1 prefixMcpToolNames tools)).length ≤ tools.length := by
    rw [List.length_map, (sortByKey_perm ToolInfo.rawToolIdentity tools).length_eq]
    exact (Nat.zero_add _).le
  obtain ⟨output, hassign, hall, hdisplayed, -⟩ := assignNames_spec
    (fun candidate h => (hcandidates candidate h).1)
      (fun candidate h => (hcandidates candidate h).2)
    hlength
  rw [List.forall₂_map_left_iff] at hall
  refine ⟨output, (normalize_eq sha1 prefixMcpToolNames hnodup).trans hassign, ?_, ?_, hdisplayed⟩
  · refine hall.imp fun tool out => ?_
    rintro ⟨parts, -, rfl⟩
    rw [(hashedCandidate_tool sha1 prefixMcpToolNames tools tool).1]
    rfl
  · apply forall_mem_of_forall₂
    refine hall.imp fun tool out => ?_
    rintro ⟨parts, hcallable, rfl⟩
    exact hcallable

/-- Code mode keeps all tools exactly when their names differ. -/
theorem codeModeKeepsAll_iff :
    CodeModeKeepsAll output ↔ (output.map fun tool =>
        codeModeName (tool.callableNamespace, tool.callableName)).Nodup := by
  constructor
  · exact fun h => h.1
  · intro h
    exact ⟨h, fun _ hdeclares => (length_collect_iff hdeclares).mpr h⟩

/-- **Exactly when the names are right.** Every list of tools with distinct identities is named with
allowed, short names that are displayed by different texts, in one way whatever the order of the
list. Where no tool is spelled with the hash of another one, code mode keeps all of them exactly
when no two tools that keep their names meet there. -/
theorem normalized_iff (sha1 : Sha1) (prefixMcpToolNames : Bool) (tools : List (ToolInfo Rest))
    (hnodup : (tools.map ToolInfo.rawToolIdentity).Nodup) (hapart : HashesApart sha1 tools) :
    ∃ output, normalizeToolsForModelWithPrefix sha1 tools prefixMcpToolNames = some output ∧
      Normalized tools output ∧
      (∀ tools', tools.Perm tools' →
        normalizeToolsForModelWithPrefix sha1 tools' prefixMcpToolNames = some output) ∧
      (HashFree sha1 prefixMcpToolNames tools →
        (CodeModeKeepsAll output ↔ CodeModeApart sha1 prefixMcpToolNames tools)) := by
  obtain ⟨output, houtput, hnormalized⟩ := exists_normalized prefixMcpToolNames hnodup hapart
  refine ⟨output, houtput, hnormalized, ?_, ?_⟩
  · intro tools' hperm
    rw [← normalize_perm sha1 prefixMcpToolNames hnodup hperm]
    exact houtput
  · intro hfree
    rw [normalize_eq_some hnodup hapart hfree] at houtput
    cases houtput
    rw [codeModeKeepsAll_iff, List.map_map, ← codeModeNames_nodup_iff hnodup hapart hfree]
    have hsorted : (sortByKey ToolInfo.rawToolIdentity tools).Nodup :=
      (sortByKey_perm ToolInfo.rawToolIdentity tools).nodup_iff.mpr hnodup.of_map
    rw [List.nodup_map_iff_inj_on hsorted]
    simp only [mem_sortByKey, Function.comp_apply, ToolInfo.withParts, Prod.mk.eta]

/-! ### Fixed tools -/

/-- SHA-1 of the identities below, and of what their attempts hash. -/
def sha1Table : List (Text × Text) :=
  [("a\x00a\x00\x00b\x00b".toList, "e985bd06034968d675402172bd70fa8a63b312e8".toList),
    ("a\x00a\x00\x00b\x00b\x001".toList, "3423ff21b76958e4d4827939e30886dab1374529".toList),
    ("a\x00a\x00\x00b\x00b\x002".toList, "4572ca7e5b497e54ae18bdd950f6ca7e5c7aa3bd".toList),
    ("a\x00a\x00\x00__b\x00__b".toList, "8440981062b4b40c29823dca7728a8dbd3bc0f11".toList),
    ("a\x00a\x00\x00__b\x00__b\x001".toList, "719e38009841bceb1b8fd68fc02150cfd4b06f44".toList),
    ("a\x00a\x00\x00__b\x00__b\x002".toList, "7af34f13328aa56ddab7778ef3a9a7aea4f5f99a".toList),
    ("s\x00my-server\x00\x00a-b\x00a-b".toList, "b1cfc2d189ecac85761aaa01b6f69780e180a8da".toList),
    ("s\x00my-server\x00\x00a-b\x00a-b\x001".toList,
      "7aa2f79b2b214160dfde60d83d800028941a181d".toList),
    ("s\x00my-server\x00\x00a-b\x00a-b\x002".toList,
      "6d1131cc8a00e89fd91db72dc49fcf1b715b89fa".toList),
    ("s\x00my-server\x00\x00a_b\x00a_b".toList, "d064c25373df125c5373de3397db5f1912ea8568".toList),
    ("s\x00my-server\x00\x00a_b\x00a_b\x001".toList,
      "db73e1dd4506ac581f3c03d8d575a4cea04bf975".toList),
    ("s\x00my-server\x00\x00a_b\x00a_b\x002".toList,
      "56641cdbc2379874b36b68d9eede04df8041511f".toList)]

lemma sha1Table_hex : ∀ row ∈ sha1Table, row.2.length = 40 ∧
    ∀ c ∈ row.2, c.isDigit = true ∨ c ∈ "abcdef".toList := by decide +kernel

/-- SHA-1 on these inputs. -/
def tableSha1 : Sha1 where
  hex s := ((sha1Table.find? (·.1 = s)).map (·.2)).getD (List.replicate 40 '0')
  length_hex s := by
    cases h : sha1Table.find? (·.1 = s) with
    | none => rfl
    | some row =>
      exact (sha1Table_hex row (List.mem_of_find?_eq_some h)).1
  digits_hex s c hc := by
    cases h : sha1Table.find? (·.1 = s) with
    | none =>
      rw [h] at hc
      rw [List.eq_of_mem_replicate hc]
      exact .inl rfl
    | some row =>
      rw [h] at hc
      exact (sha1Table_hex row (List.mem_of_find?_eq_some h)).2 c hc

/-- A tool of a server, as it is listed. -/
def listed (serverName callableNamespace toolName : String) : ToolInfo Unit where
  serverName := serverName.toList
  callableNamespace := callableNamespace.toList
  connectorId := none
  callableName := toolName.toList
  toolName := toolName.toList
  rest := ()

/-- Two tools whose names are sanitised to the same text. -/
def dashes : List (ToolInfo Unit) := [listed "s" "my-server" "a-b", listed "s" "my-server" "a_b"]

theorem normalized_iff_dashes :
    ∃ output, normalizeToolsForModelWithPrefix tableSha1 dashes true = some output ∧
      Normalized dashes output ∧ CodeModeKeepsAll output := by
  have hnodup : (dashes.map ToolInfo.rawToolIdentity).Nodup := by decide +kernel
  have hapart : HashesApart tableSha1 dashes := by
    unfold HashesApart
    decide +kernel
  have hfree : HashFree tableSha1 true dashes := by
    unfold HashFree
    decide +kernel
  have hcodeMode : CodeModeApart tableSha1 true dashes := by
    unfold CodeModeApart
    decide +kernel
  obtain ⟨output, houtput, hnormalized, -, hiff⟩ :=
    normalized_iff tableSha1 true dashes hnodup hapart
  exact ⟨output, houtput, hnormalized, (hiff hfree).mpr hcodeMode⟩

/-- Two tools of one server that code mode spells alike. -/
def underscores : List (ToolInfo Unit) := [listed "a" "a" "b", listed "a" "a" "__b"]

/-- The tools `b` and `__b` of one server both become `mcp__a__b` in code mode, which drops one of
them. -/
theorem codeModeNames_meet :
    (underscores.map ToolInfo.rawToolIdentity).Nodup ∧ HashesApart tableSha1 underscores ∧
      ∃ output, normalizeToolsForModelWithPrefix tableSha1 underscores true = some output ∧
        output.map (fun tool => codeModeName (tool.callableNamespace, tool.callableName)) =
          ["mcp__a__b".toList, "mcp__a__b".toList] ∧
        Declares [.nameSpace "mcp__a".toList ["__b".toList, "b".toList]] output ∧
        (collectCodeModeToolDefinitions
          [.nameSpace "mcp__a".toList ["__b".toList, "b".toList]]).length = 1 ∧
        ¬ CodeModeKeepsAll output := by
  refine ⟨by decide +kernel, ?_, [listed "a" "mcp__a" "__b", listed "a" "mcp__a" "b"], ?_, ?_, ?_,
    ?_,
    ?_⟩
  · unfold HashesApart
    decide +kernel
  · decide +kernel
  · decide +kernel
  · unfold Declares
    decide +kernel
  · decide +kernel
  · intro h
    exact absurd h.1 (by decide +kernel)

end Codex.Mcp
