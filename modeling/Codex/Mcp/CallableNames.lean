import Codex.Mcp.Tools
import Codex.Lib.Result

/-!
# The assignment of callable names

Every name is made of allowed characters and short enough, and no two tools are displayed by the
same text: a name that is taken gives way to the first name with a hash that is free, and there is
one, since different attempts have different hashes.
-/

namespace Codex.Mcp

open Codex.Lib

/-! ### Characters -/

/-- The text is made of allowed characters. -/
def IsName (s : Text) : Prop := ∀ c ∈ s, isNameChar c = true

namespace IsName

variable {s t : Text}

lemma append (hs : IsName s) (ht : IsName t) : IsName (s ++ t) := by
  intro c hc
  rcases List.mem_append.mp hc with hc | hc
  · exact hs c hc
  · exact ht c hc

lemma take (hs : IsName s) (n : ℕ) : IsName (s.take n) := fun c hc => hs c (List.mem_of_mem_take hc)

lemma sanitize (name : Text) : IsName (sanitizeResponsesApiToolName name) := by
  intro c hc
  simp only [sanitizeResponsesApiToolName] at hc
  split at hc
  · obtain rfl := List.mem_singleton.mp hc
    rfl
  · obtain ⟨d, -, rfl⟩ := List.mem_map.mp hc
    split
    · assumption
    · rfl

lemma withPrefix (hs : IsName s) (prefixMcpToolNames : Bool) :
    IsName (callableNamespaceWithPrefix s prefixMcpToolNames) := by
  rw [callableNamespaceWithPrefix]
  split
  · exact hs
  · have hprefix : IsName legacyMcpToolNamePrefix := by
      unfold IsName
      decide +kernel
    exact hprefix.append hs

end IsName

section hashes

variable (sha1 : Sha1) (rawIdentity : Text)

lemma length_hashDigits : (hashDigits sha1 rawIdentity).length = 12 := by
  rw [hashDigits, List.length_take, sha1.length_hex]
  rfl

lemma hashDigits_spec {c : Char} (hc : c ∈ hashDigits sha1 rawIdentity) :
    isNameChar c = true ∧ c ≠ '_' := by
  rcases sha1.digits_hex rawIdentity c (List.mem_of_mem_take hc) with hdigit | hletter
  · constructor
    · rw [isNameChar, Char.isAlphanum, hdigit, Bool.or_true, Bool.true_or]
    · rintro rfl
      cases hdigit
  · have hall : ∀ c ∈ "abcdef".toList, isNameChar c = true ∧ c ≠ '_' := by decide +kernel
    exact hall c hletter

lemma length_callableNameHashSuffix : (callableNameHashSuffix sha1 rawIdentity).length = 13 := by
  rw [callableNameHashSuffix, List.length_cons, length_hashDigits]

lemma isName_callableNameHashSuffix : IsName (callableNameHashSuffix sha1 rawIdentity) := by
  intro c hc
  rcases List.mem_cons.mp hc with rfl | hc
  · rfl
  · exact (hashDigits_spec sha1 rawIdentity hc).1

lemma isName_appendNamespaceHashSuffix {ns : Text} (hns : IsName ns) :
    IsName (appendNamespaceHashSuffix sha1 ns rawIdentity) := by
  have hsuffix := isName_callableNameHashSuffix sha1 rawIdentity
  rw [appendNamespaceHashSuffix]
  split
  · have hdelimiter : IsName mcpToolNameDelimiter := by
      unfold IsName
      decide +kernel
    exact ((hns.take _).append hsuffix).append hdelimiter
  · exact hns.append hsuffix

end hashes

/-- Texts that end in hashes of different identities are different. -/
theorem hashDigits_eq_of_suffix {sha1 : Sha1} {raw raw' s : Text}
    (h : hashDigits sha1 raw <:+ s) (h' : hashDigits sha1 raw' <:+ s) :
    hashDigits sha1 raw = hashDigits sha1 raw' := by
  apply (List.suffix_of_suffix_length_le h h' ?_).eq_of_length
  · rw [length_hashDigits, length_hashDigits]
  · rw [length_hashDigits, length_hashDigits]

/-! ### One tool -/

/-- The names that a tool is called by are allowed and short enough. -/
structure Callable (parts : Text × Text) : Prop where
  namespaceChars : IsName parts.1
  nameChars : IsName parts.2
  length : (parts.1 ++ parts.2).length ≤ 62

/-- **A name with a hash** is callable, and ends in the hash. -/
theorem fit_spec (sha1 : Sha1) {ns toolName : Text} (hns : IsName ns) (hname : IsName toolName)
    (rawIdentity : Text) :
    Callable (fitCallablePartsWithHash sha1 ns toolName rawIdentity mcpToolNameDelimiter.length) ∧
      hashDigits sha1 rawIdentity <:+
        (fitCallablePartsWithHash sha1 ns toolName rawIdentity mcpToolNameDelimiter.length).2 := by
  have hsuffix := isName_callableNameHashSuffix sha1 rawIdentity
  have hlength := length_callableNameHashSuffix sha1 rawIdentity
  have hreserved : mcpToolNameDelimiter.length = 2 := rfl
  have hend : hashDigits sha1 rawIdentity <:+ callableNameHashSuffix sha1 rawIdentity :=
    List.suffix_cons _ _
  simp only [fitCallablePartsWithHash, hlength, hreserved, maxToolNameLength]
  split_ifs with hfits
  · refine ⟨⟨hns, (hname.take _).append hsuffix, ?_⟩, hend.trans (List.suffix_append _ _)⟩
    simp only [List.length_append, List.length_take, hlength]
    omega
  · refine ⟨⟨hns.take _, hsuffix, ?_⟩, hend⟩
    simp only [List.length_append, List.length_take, hlength]
    omega

lemma hashInput_injective {raw : Text} {k k' : ℕ} (h : hashInput raw k = hashInput raw k') :
    k = k' := by
  simp only [hashInput] at h
  split_ifs at h with hk hk' hk'
  · rw [hk, hk']
  · exact absurd h.symm (by simp)
  · exact absurd h (by simp)
  · have hdigits := List.append_cancel_left h
    exact toDigits_injective (List.cons.inj hdigits).2

/-- The identities of the tools, and what is hashed for them, have different hashes. -/
def HashesApart {Rest : Type} (sha1 : Sha1) (tools : List (ToolInfo Rest)) : Prop :=
  ∀ tool ∈ tools, ∀ tool' ∈ tools, ∀ k ≤ tools.length, ∀ k' ≤ tools.length,
    hashDigits sha1 (hashInput tool.rawToolIdentity k) =
        hashDigits sha1 (hashInput tool'.rawToolIdentity k') →
      hashInput tool.rawToolIdentity k = hashInput tool'.rawToolIdentity k'

/-- **The names of one tool** are callable and not taken. -/
theorem uniqueCallableParts_spec {sha1 : Sha1} {ns toolName raw : Text} {usedNames : List Text}
    (hns : IsName ns) (hname : IsName toolName)
    (hapart : ∀ k ≤ usedNames.length, ∀ k' ≤ usedNames.length,
      hashDigits sha1 (hashInput raw k) = hashDigits sha1 (hashInput raw k') → k = k') :
    ∃ parts, uniqueCallableParts sha1 ns toolName raw usedNames mcpToolNameDelimiter.length =
        some parts ∧ Callable parts ∧ parts.1 ++ parts.2 ∉ usedNames := by
  rw [uniqueCallableParts]
  split
  · rename_i hfree
    refine ⟨(ns, toolName), rfl, ⟨hns, hname, ?_⟩, hfree.2⟩
    have hlength := hfree.1
    rw [maxToolNameLength] at hlength
    exact Nat.le_of_add_le_add_right hlength
  · set attempts := (List.range (usedNames.length + 1)).map fun attempt =>
      fitCallablePartsWithHash sha1 ns toolName (hashInput raw attempt)
        mcpToolNameDelimiter.length with hattempts
    have hfit : ∀ parts ∈ attempts, ∃ k ≤ usedNames.length, Callable parts ∧
        parts = fitCallablePartsWithHash sha1 ns toolName (hashInput raw k)
          mcpToolNameDelimiter.length := by
      intro parts hparts
      obtain ⟨k, hk, rfl⟩ := List.mem_map.mp hparts
      exact ⟨k, Nat.le_of_lt_succ (List.mem_range.mp hk), (fit_spec sha1 hns hname _).1, rfl⟩
    have hfree : ∃ parts ∈ attempts, parts.1 ++ parts.2 ∉ usedNames := by
      by_contra hall
      push Not at hall
      -- the attempts are displayed by different texts, one more than there are used names
      have hnodup : (attempts.map fun parts => parts.1 ++ parts.2).Nodup := by
        rw [hattempts, List.map_map]
        apply List.Nodup.map_on ?_ List.nodup_range
        intro k hk k' hk' heq
        have hend := fun k => (fit_spec sha1 hns hname (hashInput raw k)).2.trans
          (List.suffix_append
            (fitCallablePartsWithHash sha1 ns toolName (hashInput raw k)
              mcpToolNameDelimiter.length).1 _)
        have hend' := hend k'
        simp only [Function.comp] at heq
        rw [← heq] at hend'
        exact hapart k (Nat.le_of_lt_succ (List.mem_range.mp hk)) k'
          (Nat.le_of_lt_succ (List.mem_range.mp hk')) (hashDigits_eq_of_suffix (hend k) hend')
      have hsubset : (attempts.map fun parts => parts.1 ++ parts.2) ⊆ usedNames := by
        intro name hname
        obtain ⟨parts, hparts, rfl⟩ := List.mem_map.mp hname
        exact hall parts hparts
      have hle := (List.subperm_of_subset hnodup hsubset).length_le
      rw [List.length_map, hattempts, List.length_map, List.length_range] at hle
      omega
    obtain ⟨parts, hparts, hnot⟩ := hfree
    have hsome : (attempts.find? fun parts => parts.1 ++ parts.2 ∉ usedNames).isSome := by
      rw [List.find?_isSome]
      exact ⟨parts, hparts, decide_eq_true hnot⟩
    obtain ⟨found, hfound⟩ := Option.isSome_iff_exists.mp hsome
    obtain ⟨-, -, hcallable, -⟩ := hfit found (List.mem_of_find?_eq_some hfound)
    have hfree := List.find?_some hfound
    exact ⟨found, hfound, hcallable, of_decide_eq_true hfree⟩

/-! ### All tools -/

section assign

variable {Rest : Type}

/-- The name that a tool is displayed by. -/
def ToolInfo.displayed (tool : ToolInfo Rest) : Text := tool.callableNamespace ++ tool.callableName

/-- The names of the candidate are made of allowed characters. -/
def CallableToolCandidate.IsNamed (candidate : CallableToolCandidate Rest) : Prop :=
  IsName candidate.callableNamespace ∧ IsName candidate.callableName

/-- **The names of all tools**: nobody is left out, and no name is given twice. -/
theorem assignNames_spec {sha1 : Sha1} {n : ℕ} {candidates : List (CallableToolCandidate Rest)}
    {usedNames : List Text} (hnamed : ∀ candidate ∈ candidates, candidate.IsNamed)
    (hapart : ∀ candidate ∈ candidates, ∀ k ≤ n, ∀ k' ≤ n,
      hashDigits sha1 (hashInput candidate.rawToolIdentity k) =
        hashDigits sha1 (hashInput candidate.rawToolIdentity k') → k = k')
    (hlength : usedNames.length + candidates.length ≤ n) :
    ∃ modelTools, assignNames sha1 usedNames candidates = some modelTools ∧
      List.Forall₂ (fun candidate tool => ∃ parts, Callable parts ∧
        tool = candidate.tool.withParts parts) candidates modelTools ∧
      (modelTools.map ToolInfo.displayed).Nodup ∧
      ∀ tool ∈ modelTools, tool.displayed ∉ usedNames := by
  induction candidates generalizing usedNames with
  | nil =>
    exact ⟨[], rfl, .nil, List.nodup_nil, fun _ hmem => absurd hmem List.not_mem_nil⟩
  | cons candidate candidates ih =>
    obtain ⟨⟨hns, hname⟩, hnamed⟩ := List.forall_mem_cons.mp hnamed
    obtain ⟨hcandidate, hapart⟩ := List.forall_mem_cons.mp hapart
    rw [List.length_cons] at hlength
    have hused : usedNames.length ≤ n := by omega
    obtain ⟨parts, hparts, hcallable, hfree⟩ :=
      uniqueCallableParts_spec hns hname fun k hk k' hk' =>
        hcandidate k (hk.trans hused) k' (hk'.trans hused)
    have hlength' : ((parts.1 ++ parts.2) :: usedNames).length + candidates.length ≤ n := by
      rw [List.length_cons]
      omega
    obtain ⟨modelTools, hassign, hall, hnodup, hnot⟩ := ih hnamed hapart hlength'
    refine ⟨candidate.tool.withParts parts :: modelTools, ?_, .cons ⟨parts, hcallable, rfl⟩ hall,
      ?_, ?_⟩
    · simp only [assignNames, hparts, hassign, Option.bind_eq_bind, Option.bind_some,
        Option.pure_def]
    · rw [List.map_cons, List.nodup_cons]
      refine ⟨?_, hnodup⟩
      intro hmem
      obtain ⟨tool, htool, heq⟩ := List.mem_map.mp hmem
      apply hnot tool htool
      rw [heq]
      exact List.mem_cons_self
    · intro tool htool
      rcases List.mem_cons.mp htool with rfl | htool
      · exact hfree
      · exact fun hmem => hnot tool htool (List.mem_cons_of_mem _ hmem)

end assign

/-! ### Candidates -/

section candidates

variable {Rest : Type} (sha1 : Sha1) (prefixMcpToolNames : Bool)

/-- No tool is skipped when the identities are distinct. -/
theorem collectCandidates_eq {tools : List (ToolInfo Rest)} {seenRawNames : List Text}
    (hnodup : (tools.map ToolInfo.rawToolIdentity).Nodup)
    (hseen : ∀ tool ∈ tools, tool.rawToolIdentity ∉ seenRawNames) :
    collectCandidates prefixMcpToolNames seenRawNames tools =
      tools.map fun tool => tool.candidate prefixMcpToolNames := by
  induction tools generalizing seenRawNames with
  | nil => rfl
  | cons tool tools ih =>
    rw [List.map_cons, List.nodup_cons] at hnodup
    obtain ⟨htool, hseen⟩ := List.forall_mem_cons.mp hseen
    rw [collectCandidates, if_neg htool, List.map_cons, ih hnodup.2]
    intro other hother hmem
    rcases List.mem_cons.mp hmem with heq | hmem
    · exact hnodup.1 (heq ▸ List.mem_map_of_mem hother)
    · exact hseen other hother hmem

/-- The candidate of a tool after hashing, which the other tools decide. -/
def ToolInfo.hashedCandidate (tools : List (ToolInfo Rest)) (tool : ToolInfo Rest) :
    CallableToolCandidate Rest :=
  let candidates := tools.map fun tool => tool.candidate prefixMcpToolNames
  hashTool sha1 (hashNamespaces sha1 candidates)
    (hashNamespace sha1 candidates (tool.candidate prefixMcpToolNames))

variable {tools tools' : List (ToolInfo Rest)}

lemma hashedCandidates_eq (hnodup : (tools.map ToolInfo.rawToolIdentity).Nodup) :
    hashedCandidates sha1 tools prefixMcpToolNames =
      tools.map (ToolInfo.hashedCandidate sha1 prefixMcpToolNames tools) := by
  rw [hashedCandidates, collectCandidates_eq prefixMcpToolNames hnodup
    fun _ _ => List.not_mem_nil, hashTools]
  conv_lhs => rw [hashNamespaces, List.map_map, List.map_map]
  rw [← hashNamespaces]
  rfl

/-- Hashing keeps what a candidate is a candidate of. -/
theorem hashedCandidate_tool (tools : List (ToolInfo Rest)) (tool : ToolInfo Rest) :
    (tool.hashedCandidate sha1 prefixMcpToolNames tools).tool = tool ∧
      (tool.hashedCandidate sha1 prefixMcpToolNames tools).rawToolIdentity =
        tool.rawToolIdentity := by
  simp only [ToolInfo.hashedCandidate, hashTool, hashNamespace]
  split_ifs
  all_goals exact ⟨rfl, rfl⟩

lemma hashedCandidate_isNamed (tools : List (ToolInfo Rest)) (tool : ToolInfo Rest) :
    (tool.hashedCandidate sha1 prefixMcpToolNames tools).IsNamed := by
  have hns := (IsName.sanitize tool.callableNamespace).withPrefix prefixMcpToolNames
  have hname := IsName.sanitize tool.callableName
  have hns' := isName_appendNamespaceHashSuffix sha1 tool.rawNamespaceIdentity hns
  have hname' := hname.append (isName_callableNameHashSuffix sha1 tool.rawToolIdentity)
  simp only [ToolInfo.hashedCandidate, hashTool, hashNamespace]
  split_ifs
  · exact ⟨hns', hname'⟩
  · exact ⟨hns', hname⟩
  · exact ⟨hns, hname'⟩
  · exact ⟨hns, hname⟩

variable {candidates candidates' : List (CallableToolCandidate Rest)}

/-- What collides is a matter of the candidates, not of their order. -/
theorem hashNamespace_perm (h : candidates.Perm candidates') :
    hashNamespace sha1 candidates = hashNamespace sha1 candidates' := by
  have hcolliding : collidingNamespace candidates = collidingNamespace candidates' := by
    funext ns
    simp only [collidingNamespace, ((h.filter _).map _).dedup.length_eq]
  funext candidate
  rw [hashNamespace, hashNamespace, hcolliding]

lemma hashTool_perm
    (h : candidates.Perm candidates') : hashTool sha1 candidates = hashTool sha1 candidates' := by
  have hcolliding : collidingTool candidates = collidingTool candidates' := by
    funext ns name
    simp only [collidingTool, ((h.filter _).map _).dedup.length_eq]
  funext candidate
  rw [hashTool, hashTool, hcolliding]

lemma hashedCandidate_perm (h : tools.Perm tools') :
    ToolInfo.hashedCandidate sha1 prefixMcpToolNames tools =
      ToolInfo.hashedCandidate sha1 prefixMcpToolNames tools' := by
  have hcandidates := h.map fun tool => tool.candidate prefixMcpToolNames
  funext tool
  rw [ToolInfo.hashedCandidate, ToolInfo.hashedCandidate, hashNamespace_perm sha1 hcandidates,
    hashTool_perm sha1]
  rw [hashNamespaces, hashNamespaces, hashNamespace_perm sha1 hcandidates]
  exact hcandidates.map _

variable (hnodup : (tools.map ToolInfo.rawToolIdentity).Nodup)
include hnodup

/-- The tools are named in the order of their identities. -/
theorem normalize_eq :
    normalizeToolsForModelWithPrefix sha1 tools prefixMcpToolNames = assignNames sha1 []
        ((sortByKey ToolInfo.rawToolIdentity tools).map
          (ToolInfo.hashedCandidate sha1 prefixMcpToolNames tools)) := by
  rw [normalizeToolsForModelWithPrefix, hashedCandidates_eq sha1 prefixMcpToolNames hnodup,
    sortByKey_map ToolInfo.rawToolIdentity]
  exact fun tool => (hashedCandidate_tool sha1 prefixMcpToolNames tools tool).2

/-- **The assignment does not depend on the order of the tools.** -/
theorem normalize_perm (h : tools.Perm tools') :
    normalizeToolsForModelWithPrefix sha1 tools prefixMcpToolNames =
      normalizeToolsForModelWithPrefix sha1 tools' prefixMcpToolNames := by
  have hnodup' := (h.map ToolInfo.rawToolIdentity).nodup_iff.mp hnodup
  rw [normalize_eq sha1 prefixMcpToolNames hnodup, normalize_eq sha1 prefixMcpToolNames hnodup',
    sortByKey_eq_of_perm ToolInfo.rawToolIdentity h hnodup,
    hashedCandidate_perm sha1 prefixMcpToolNames h]

end candidates

end Codex.Mcp
