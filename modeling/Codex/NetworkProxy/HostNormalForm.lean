import Codex.Lib.Trimming
import Codex.NetworkProxy.State

/-!
# Normalising a host twice

`normalize_host` of `network-proxy/src/policy.rs` trims, takes the text between brackets or before a
single colon, lowers it, drops final dots and writes the scope of an address with `%`. It runs once
on the keys of a configuration that is merged and again on what is compared with them, and each step
may uncover something that an earlier one takes off.

* `normalizeDns_idem_iff`: when the scope of an address is decoded once and for all;
* `normalizeHost_idem_iff`: exactly when normalising twice is normalising once.
-/

namespace Codex.NetworkProxy

open Codex.Lib

variable {host c d ip scope s : Text}

/-- The part of a host that is normalised as a name or address: what stands between the brackets, or
before a single colon, or all of it. -/
def hostText (host : Text) : Text :=
  let host := trim host
  match bracketed host with
  | some inside => inside
  | none => if host.count ':' = 1 then host.takeWhile (· ≠ ':') else host

/-- What normalising once leaves is not touched by normalising again: the host has no whitespace at
its ends once its final dots are dropped, no single colon between its brackets, and no address with
a scope that is escaped twice. -/
structure NormalizedAtOnce (host : Text) : Prop where
  ends : NoSurroundingWhitespace (trimDots (hostText host))
  colon : (hostText host).count ':' ≠ 1
  scope : ∀ ip rest, isIpAddr ip = true →
    (hostText host).map Char.toLower ≠ ip ++ "%2525".toList ++ rest

lemma normalizeHost_eq_normalizeDns (host : Text) :
    normalizeHost host = normalizeDnsHostOrIpLiteral (hostText host) := by
  simp only [normalizeHost, hostText]
  cases bracketed (trim host) with
  | some inside => rfl
  | none =>
    by_cases hcolon : (trim host).count ':' = 1
    · simp only [if_pos hcolon]
    · simp only [if_neg hcolon]

/-! ### The scope of an address -/

/-- The address has a scope that is written with `%25`. -/
def Escaped (s : Text) : Prop := ∃ ip scope, isIpAddr ip = true ∧ s = ip ++ "%25".toList ++ scope

lemma percent_notMem_of_isIpAddr (h : isIpAddr ip = true) : '%' ∉ ip :=
  not_mem_isIpAddr h (by decide)

lemma normalizeIpLiteral_escaped (hip : isIpAddr ip = true) :
    normalizeIpLiteral (ip ++ "%25".toList ++ scope) = some (ip ++ '%' :: scope) := by
  have hself : isIpAddr (ip ++ "%25".toList ++ scope) = false := by
    by_contra h
    exact percent_notMem_of_isIpAddr (Bool.not_eq_false _ ▸ h) (by simp)
  have hsplit : splitOnce "%25".toList (ip ++ "%25".toList ++ scope) = some (ip, scope) :=
    splitOnce_of_notMem (percent_notMem_of_isIpAddr hip)
  unfold normalizeIpLiteral scopedIpLiteral
  rw [hself, hsplit]
  simp [hip]

/-- A text whose scope is not escaped is left alone. -/
theorem normalizeIpLiteral_of_not_escaped (h : ¬ Escaped s) :
    (normalizeIpLiteral s).getD s = s := by
  have hlong : scopedIpLiteral "%25".toList s = none := by
    unfold scopedIpLiteral
    cases hsplit : splitOnce "%25".toList s with
    | none => rfl
    | some pair =>
      have hip : ¬ isIpAddr pair.1 = true := fun hip =>
        h ⟨pair.1, pair.2, hip, splitOnce_eq_some hsplit⟩
      simp [hip]
  have hshort : ∀ literal, scopedIpLiteral ['%'] s = some literal → literal = s := by
    intro literal hliteral
    unfold scopedIpLiteral at hliteral
    cases hsplit : splitOnce ['%'] s with
    | none => simp [hsplit] at hliteral
    | some pair =>
      simp only [hsplit, Option.ite_none_right_eq_some, Option.some_inj] at hliteral
      rw [← hliteral.2, splitOnce_eq_some hsplit]
      simp
  unfold normalizeIpLiteral
  rw [hlong, Option.none_or]
  split
  · rfl
  · cases hliteral : scopedIpLiteral ['%'] s with
    | none => rfl
    | some literal => exact hshort literal hliteral

lemma escaped_address_append_iff (hip : isIpAddr ip = true) :
    Escaped (ip ++ '%' :: scope) ↔ "25".toList <+: scope := by
  constructor
  · rintro ⟨ip', scope', hip', heq⟩
    have hfirst := splitOnce_singleton (c := '%') (t := scope) (percent_notMem_of_isIpAddr hip)
    rw [heq] at hfirst
    have hfirst' := splitOnce_singleton (c := '%') (t := "25".toList ++ scope')
      (percent_notMem_of_isIpAddr hip')
    have hpair := hfirst'.symm.trans (by simpa using hfirst)
    rw [Option.some_inj, Prod.mk.injEq] at hpair
    exact ⟨scope', hpair.2⟩
  · rintro ⟨rest, rfl⟩
    exact ⟨ip, rest, hip, by simp⟩

/-! ### Names and addresses -/

lemma normalizeDns_eq (c : Text) : normalizeDnsHostOrIpLiteral c =
    (normalizeIpLiteral (trimDots (c.map Char.toLower))).getD (trimDots (c.map Char.toLower)) := rfl

/-- A text in lower case without final dots is its own normal form unless its scope is escaped. -/
theorem normalizeDns_eq_self_iff (hlower : IsLower s) (hdot : NoFinalDot s) :
    normalizeDnsHostOrIpLiteral s = s ↔ ¬ Escaped s := by
  rw [normalizeDns_eq, hlower.map_toLower, trimDots_eq_self hdot]
  constructor
  · rintro h ⟨ip, scope, hip, rfl⟩
    rw [normalizeIpLiteral_escaped hip, Option.getD_some] at h
    have hlen := congrArg List.length h
    simp at hlen
  · exact normalizeIpLiteral_of_not_escaped

/-- Dropping the final dots of what follows an escaped scope. -/
theorem trimDots_escaped (front rest : Text) :
    trimDots (front ++ "%2525".toList ++ rest) = front ++ "%2525".toList ++ trimDots rest := by
  obtain ⟨dots, hrest, hdots⟩ := exists_rdropWhile (fun c => decide (c = '.')) rest
  have hkeep : ∀ x ∈ (front ++ "%2525".toList ++ trimDots rest).getLast?,
      decide (x = '.') = false := by
    cases hcases : trimDots rest with
    | nil => simp
    | cons c rest' =>
      have hlast := getLast?_rdropWhile (fun c => decide (c = '.')) rest
      unfold trimDots at hcases
      rw [hcases] at hlast
      rwa [List.getLast?_append_of_ne_nil _ (List.cons_ne_nil c rest')]
  have hsplit : front ++ "%2525".toList ++ rest =
      front ++ "%2525".toList ++ trimDots rest ++ dots := by
    rw [List.append_assoc _ _ dots]
    exact congrArg _ hrest
  rw [hsplit]
  exact rdropWhile_append_of_forall hdots hkeep

/-- The scope of an address is decoded once and for all unless it is escaped twice. -/
theorem normalizeDns_idem_iff (c : Text) :
    normalizeDnsHostOrIpLiteral (normalizeDnsHostOrIpLiteral c) = normalizeDnsHostOrIpLiteral c ↔
      ∀ ip rest, isIpAddr ip = true → c.map Char.toLower ≠ ip ++ "%2525".toList ++ rest := by
  obtain ⟨hlower, hdot⟩ := normalizeDns_spec c
  rw [normalizeDns_eq_self_iff hlower hdot, normalizeDns_eq]
  constructor
  · rintro h ip rest hip heq
    refine h ?_
    have hescaped : trimDots (c.map Char.toLower) =
        ip ++ "%25".toList ++ ("25".toList ++ trimDots rest) := by
      rw [heq, trimDots_escaped]
      simp
    rw [hescaped, normalizeIpLiteral_escaped hip, Option.getD_some]
    exact (escaped_address_append_iff hip).mpr (List.prefix_append _ _)
  · intro h hescaped
    by_cases hd : Escaped (trimDots (c.map Char.toLower))
    · obtain ⟨ip, scope, hip, heq⟩ := hd
      rw [heq, normalizeIpLiteral_escaped hip, Option.getD_some,
        escaped_address_append_iff hip] at hescaped
      obtain ⟨rest, rfl⟩ := hescaped
      obtain ⟨dots, hdots, -⟩ := exists_rdropWhile (fun c => decide (c = '.')) (c.map Char.toLower)
      refine h ip (rest ++ dots) hip ?_
      rw [hdots]
      show trimDots (c.map Char.toLower) ++ dots = _
      rw [heq]
      simp
    · rw [normalizeIpLiteral_of_not_escaped hd] at hescaped
      exact hd hescaped

/-- Normalising a name or address makes it no longer. -/
theorem length_normalizeDns_le (c : Text) : (normalizeDnsHostOrIpLiteral c).length ≤ c.length := by
  have hd : (trimDots (c.map Char.toLower)).length ≤ c.length := by
    have hlen := (List.rdropWhile_prefix (· = '.') (c.map Char.toLower)).length_le
    rwa [List.length_map] at hlen
  rw [normalizeDns_eq]
  by_cases hescaped : Escaped (trimDots (c.map Char.toLower))
  · obtain ⟨ip, scope, hip, heq⟩ := hescaped
    rw [heq] at hd ⊢
    rw [normalizeIpLiteral_escaped hip, Option.getD_some]
    have hthree : "%25".toList.length = 3 := rfl
    rw [List.length_append, List.length_append, hthree] at hd
    rw [List.length_append, List.length_cons]
    omega
  · rw [normalizeIpLiteral_of_not_escaped hescaped]
    exact hd

/-! ### Hosts that are their own normal form -/

lemma bracketed_eq_some_iff {inside : Text} :
    bracketed s = some inside ↔ ∃ rest, s = '[' :: inside ++ ']' :: rest ∧ ']' ∉ inside := by
  unfold bracketed
  split
  · rename_i rest
    rw [Option.map_eq_some_iff]
    constructor
    · rintro ⟨⟨before, after⟩, hsplit, rfl⟩
      obtain ⟨hrest, hnot⟩ := splitOnce_singleton_eq_some_iff.mp hsplit
      exact ⟨after, by rw [hrest]; rfl, hnot⟩
    · rintro ⟨after, heq, hnot⟩
      rw [List.cons_append, List.cons.injEq] at heq
      exact ⟨(inside, after), splitOnce_singleton_eq_some_iff.mpr ⟨heq.2, hnot⟩, rfl⟩
  · rename_i hne
    refine iff_of_false (by simp) ?_
    rintro ⟨rest, rfl, -⟩
    exact hne _ rfl

lemma bracketed_eq_none_iff :
    bracketed s = none ↔ ∀ inside rest, s ≠ '[' :: inside ++ ']' :: rest := by
  rw [Option.eq_none_iff_forall_ne_some]
  constructor
  · rintro h inside rest rfl
    -- the first closing bracket ends what is inside
    have hmem : ']' ∈ inside ++ ']' :: rest := by simp
    obtain ⟨before, after, hsplit, hnot⟩ := List.eq_append_cons_of_mem hmem
    refine h before (bracketed_eq_some_iff.mpr ⟨after, ?_, hnot⟩)
    rw [List.cons_append, hsplit]
    rfl
  · intro h inside hinside
    obtain ⟨rest, heq, -⟩ := bracketed_eq_some_iff.mp hinside
    exact h inside rest heq

/-- All of a host is normalised as a name or address, or something is taken off. -/
theorem hostText_cases (host : Text) :
    (bracketed (trim host) = none ∧ (trim host).count ':' ≠ 1 ∧ hostText host = trim host) ∨
      (hostText host).length < (trim host).length := by
  unfold hostText
  cases hbracket : bracketed (trim host) with
  | some inside =>
    obtain ⟨rest, heq, -⟩ := bracketed_eq_some_iff.mp hbracket
    refine .inr ?_
    simp only [hbracket]
    rw [heq, List.length_append, List.length_cons, List.length_cons]
    omega
  | none =>
    by_cases hcolon : (trim host).count ':' = 1
    · refine .inr ?_
      simp only [hbracket, if_pos hcolon]
      have hmem : ':' ∈ trim host := List.count_pos_iff.mp (by omega)
      obtain ⟨before, after, heq, hnot⟩ := List.eq_append_cons_of_mem hmem
      have hbefore : ∀ c ∈ before, decide (c ≠ ':') = true :=
        fun c hc => decide_eq_true fun h => hnot (h ▸ hc)
      rw [heq, List.takeWhile_append_of_pos hbefore]
      simp
    · refine .inl ⟨rfl, hcolon, ?_⟩
      simp only [hbracket, if_neg hcolon]

/-- A host is its own normal form when nothing is trimmed or taken off and it is the normal form of
a name or address. -/
theorem normalizeHost_eq_self_iff :
    normalizeHost s = s ↔ NoSurroundingWhitespace s ∧ bracketed s = none ∧ s.count ':' ≠ 1 ∧
        normalizeDnsHostOrIpLiteral s = s := by
  rw [normalizeHost_eq_normalizeDns, ← trim_eq_self_iff]
  constructor
  · intro h
    have hdns := length_normalizeDns_le (hostText s)
    have htrim := length_trim_le s
    rw [h] at hdns
    rcases hostText_cases s with ⟨hbracket, hcolon, htext⟩ | hlt
    · rw [htext] at h hdns
      have hself := trim_eq_self_of_length hdns
      rw [hself] at hbracket hcolon h
      exact ⟨hself, hbracket, hcolon, h⟩
    · omega
  · rintro ⟨htrim, hbracket, hcolon, hdns⟩
    have htext : hostText s = s := by simp only [hostText, htrim, hbracket, if_neg hcolon]
    rw [htext, hdns]

/-! ### The normal form of a host -/

/-- What is normalised as a name or address is in no brackets. -/
theorem bracketed_hostText (host : Text) : bracketed (hostText host) = none := by
  rw [bracketed_eq_none_iff]
  rintro inside rest heq
  simp only [hostText] at heq
  cases hbracket : bracketed (trim host) with
  | some inside' =>
    obtain ⟨-, -, hnot⟩ := bracketed_eq_some_iff.mp hbracket
    simp only [hbracket] at heq
    exact hnot (by simp [heq])
  | none =>
    simp only [hbracket] at heq
    split at heq
    · obtain ⟨after, hafter⟩ := List.takeWhile_prefix (fun c => decide (c ≠ ':')) (l := trim host)
      rw [heq] at hafter
      exact bracketed_eq_none_iff.mp hbracket inside (rest ++ after) (by simp [← hafter])
    · exact bracketed_eq_none_iff.mp hbracket inside rest heq

/-- The text that a name or address is, or its scope, without final dots. -/
theorem normalizeDns_cases (c : Text) :
    normalizeDnsHostOrIpLiteral c = (trimDots c).map Char.toLower ∨
      ∃ ip scope, isIpAddr ip = true ∧ (trimDots c).map Char.toLower = ip ++ "%25".toList ++ scope ∧
        normalizeDnsHostOrIpLiteral c = ip ++ '%' :: scope := by
  have hdots : trimDots (c.map Char.toLower) = (trimDots c).map Char.toLower := by
    have hcomp : (fun c => decide (c = '.')) ∘ Char.toLower = fun c => decide (c = '.') :=
      funext fun c => decide_eq_decide.mpr (toLower_eq_iff (by decide))
    unfold trimDots List.rdropWhile
    rw [← List.map_reverse, List.dropWhile_map, hcomp, ← List.map_reverse]
  rw [normalizeDns_eq, hdots]
  by_cases hescaped : Escaped ((trimDots c).map Char.toLower)
  · obtain ⟨ip, scope, hip, heq⟩ := hescaped
    refine .inr ⟨ip, scope, hip, heq, ?_⟩
    rw [heq, normalizeIpLiteral_escaped hip]
    rfl
  · exact .inl (normalizeIpLiteral_of_not_escaped hescaped)

/-- An address is not empty and does not start with a bracket or whitespace. -/
theorem exists_head_of_isIpAddr (hip : isIpAddr ip = true) :
    ∃ c rest, ip = c :: rest ∧ isAddressChar c = true := by
  cases ip with
  | nil => cases hip
  | cons c rest => exact ⟨c, rest, rfl, isAddressChar_of_isIpAddr hip List.mem_cons_self⟩

lemma count_normalizeDns (c : Text) : (normalizeDnsHostOrIpLiteral c).count ':' = c.count ':' := by
  have hlower : ∀ s : Text, (s.map Char.toLower).count ':' = s.count ':' := by
    intro s
    have hcomp : (fun c => c == ':') ∘ Char.toLower = fun c => c == ':' :=
      funext fun c => decide_eq_decide.mpr (toLower_eq_iff (by decide))
    rw [List.count_eq_countP, List.count_eq_countP, List.countP_map, hcomp]
  have hdots : (trimDots c).count ':' = c.count ':' := by
    obtain ⟨dots, hc, hall⟩ := exists_rdropWhile (fun c => decide (c = '.')) c
    have hnone : dots.count ':' = 0 :=
      List.count_eq_zero_of_not_mem fun hmem => absurd (hall ':' hmem) (by decide)
    conv_rhs => rw [hc, List.count_append, hnone]
    rfl
  rcases normalizeDns_cases c with h | ⟨ip, scope, -, heq, h⟩
  · rw [h, hlower, hdots]
  · rw [h, ← hdots, ← hlower (trimDots c), heq]
    simp [List.count_append]

lemma noSurroundingWhitespace_normalizeDns_iff (c : Text) :
    NoSurroundingWhitespace (normalizeDnsHostOrIpLiteral c) ↔
      NoSurroundingWhitespace (trimDots c) := by
  rw [← noSurroundingWhitespace_map_toLower_iff (s := trimDots c)]
  rcases normalizeDns_cases c with h | ⟨ip, scope, hip, heq, h⟩
  · rw [h]
  · rw [h, heq]
    obtain ⟨a, rest, rfl, ha⟩ := exists_head_of_isIpAddr hip
    unfold NoSurroundingWhitespace NoTrailingWhitespace
    refine and_congr (by simp) ?_
    cases scope with
    | nil =>
      rw [List.append_nil, List.getLast?_append_of_ne_nil _ (by simp : "%25".toList ≠ []),
        List.getLast?_append_of_ne_nil _ (List.cons_ne_nil '%' [])]
      exact iff_of_true (by decide) (by decide)
    | cons b scope =>
      rw [List.getLast?_append_of_ne_nil _ (List.cons_ne_nil b scope),
        List.getLast?_append_of_ne_nil _ (List.cons_ne_nil '%' _), List.getLast?_cons_cons]

lemma bracketed_normalizeDns (h : bracketed c = none) :
    bracketed (normalizeDnsHostOrIpLiteral c) = none := by
  rcases normalizeDns_cases c with heq | ⟨ip, scope, hip, -, heq⟩
  · rw [heq, bracketed_map_toLower, Option.map_eq_none_iff, bracketed_eq_none_iff]
    intro inside rest hdots
    obtain ⟨dots, hc, -⟩ := exists_rdropWhile (fun c => decide (c = '.')) c
    refine bracketed_eq_none_iff.mp h inside (rest ++ dots) ?_
    rw [hc]
    show trimDots c ++ dots = _
    rw [hdots]
    simp
  · rw [heq, bracketed_eq_none_iff]
    intro inside rest hbracket
    obtain ⟨a, rest', rfl, ha⟩ := exists_head_of_isIpAddr hip
    rw [List.cons_append, List.cons_append, List.cons.injEq] at hbracket
    rw [hbracket.1] at ha
    cases ha

/-- **Normalising twice.** Normalising a normalised host changes nothing exactly when once was
enough: no whitespace is left at the ends, no single colon in the brackets, and no scope of an
address that is escaped twice. -/
theorem normalizeHost_idem_iff (host : Text) :
    normalizeHost (normalizeHost host) = normalizeHost host ↔ NormalizedAtOnce host := by
  rw [normalizeHost_eq_self_iff, normalizeHost_eq_normalizeDns,
    noSurroundingWhitespace_normalizeDns_iff, count_normalizeDns, normalizeDns_idem_iff]
  constructor
  · rintro ⟨hends, -, hcolon, hscope⟩
    exact ⟨hends, hcolon, hscope⟩
  · rintro ⟨hends, hcolon, hscope⟩
    exact ⟨hends, bracketed_normalizeDns (bracketed_hostText host), hcolon, hscope⟩

/-- A port in the brackets is taken off the second time. -/
theorem normalizeHost_not_idem :
    normalizeHost "[a:80]".toList = "a:80".toList ∧ normalizeHost "a:80".toList = "a".toList ∧
      ¬ ∀ host, normalizeHost (normalizeHost host) = normalizeHost host := by
  have honce : normalizeHost "[a:80]".toList = "a:80".toList := by decide +kernel
  have htwice : normalizeHost "a:80".toList = "a".toList := by decide +kernel
  refine ⟨honce, htwice, fun h => ?_⟩
  have hidem := h "[a:80]".toList
  rw [honce, htwice] at hidem
  cases hidem

end Codex.NetworkProxy
