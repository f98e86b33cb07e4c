import Codex.Lib.Glob

/-!
# Domain patterns

`network-proxy/src/policy.rs`: hosts are normalised before they are matched, patterns are normalised
and expanded to globs, and for comparisons with the managed patterns they are read a second time,
with the parser of the `url` crate.

* `normalizeHost_brackets`: a lower-case text without a final dot is what some input normalises to;
* `globs_of_pattern`: what a plain pattern expands to;
* `matches_exactGlob`, `matches_subdomainGlob`: what these globs match.
-/

namespace Codex.NetworkProxy

open Codex.Lib

/-! ### Addresses -/

variable (s : Text)

/-- A decimal number below 256 without leading zeros. -/
def isOctet : Bool :=
  s.all Char.isDigit && 1 ≤ s.length && s.length ≤ 3 && (s.length = 1 || s.head? ≠ some '0') &&
    s.foldl (fun n c => 10 * n + (c.toNat - '0'.toNat)) 0 ≤ 255

/-- `str::parse::<Ipv4Addr>` succeeds. -/
def isIpv4Addr : Bool :=
  let octets := s.splitOn '.'
  octets.length = 4 && octets.all isOctet

/-- One to four hexadecimal digits. -/
def isHextet : Bool :=
  s.all (fun c => c.isDigit || ('a' ≤ c.toLower && c.toLower ≤ 'f')) && 1 ≤ s.length && s.length ≤ 4

/-- How many groups the text has between its colons, an address of version 4 at its end counting
for two. -/
def groupCount (ipv4AtEnd : Bool) (s : Text) : Option ℕ :=
  let groups := s.splitOn ':'
  if s = [] then some 0
  else if groups.all isHextet then some groups.length
  else if ipv4AtEnd && groups.dropLast.all isHextet && groups.getLast?.any isIpv4Addr then
    some (groups.length + 1)
  else none

/-- `str::parse::<Ipv6Addr>` succeeds. -/
def isIpv6Addr : Bool :=
  match splitOnce "::".toList s with
  | none => groupCount true s = some 8
  | some (head, tail) =>
    (groupCount false head).any fun n => (groupCount true tail).any fun m => n + m ≤ 7

/-- `str::parse::<IpAddr>` succeeds. -/
def isIpAddr : Bool := isIpv4Addr s || isIpv6Addr s

/-! ### Hosts -/

/-- `str::trim_end_matches('.')` -/
def trimDots : Text := s.rdropWhile (· = '.')

/-- The body of the loop of `normalize_ip_literal` -/
def scopedIpLiteral (delimiter host : Text) : Option Text :=
  match splitOnce delimiter host with
  | some (ip, scope) => if isIpAddr ip then some (ip ++ '%' :: scope) else none
  | none => none

variable (host : Text)

def normalizeIpLiteral : Option Text :=
  if isIpAddr host then some host
  else (scopedIpLiteral "%25".toList host).or (scopedIpLiteral ['%'] host)

def normalizeDnsHostOrIpLiteral : Text :=
  let host := trimDots (host.map Char.toLower)
  (normalizeIpLiteral host).getD host

/-- The text between the brackets in `normalize_host` -/
def bracketed : Option Text :=
  match host with
  | '[' :: rest => (splitOnce [']'] rest).map (·.1)
  | _ => none

def normalizeHost : Text :=
  let host := trim host
  match bracketed host with
  | some inside => normalizeDnsHostOrIpLiteral inside
  | none =>
    if host.count ':' = 1 then normalizeDnsHostOrIpLiteral (host.takeWhile (· ≠ ':'))
    else normalizeDnsHostOrIpLiteral host

/-- `Host`, what `Host::parse` makes of some input -/
def IsHost : Prop := host ≠ [] ∧ ∃ input, normalizeHost input = host

/-! ### Patterns -/

def normalizePattern (pattern : Text) : Text :=
  let pattern := trim pattern
  if pattern = ['*'] then ['*']
  else
    match stripPrefix "**.".toList pattern with
    | some domain => "**.".toList ++ normalizeHost domain
    | none =>
      match stripPrefix "*.".toList pattern with
      | some domain => "*.".toList ++ normalizeHost domain
      | none => normalizeHost pattern

inductive DomainPattern where
  | apexAndSubdomains (domain : Text)
  | subdomainsOnly (domain : Text)
  | exact (domain : Text)

namespace DomainPattern

def parseDomain (domain : Text) (build : Text → DomainPattern) : DomainPattern :=
  let domain := trim domain
  if domain = [] then .exact [] else build domain

def parse (input : Text) : DomainPattern :=
  let input := trim input
  if input = [] then .exact []
  else
    match stripPrefix "**.".toList input with
    | some domain => parseDomain domain .apexAndSubdomains
    | none =>
      match stripPrefix "*.".toList input with
      | some domain => parseDomain domain .subdomainsOnly
      | none => .exact input

end DomainPattern

def expandDomainPattern (pattern : Text) : List Text :=
  match DomainPattern.parse pattern with
  | .exact domain => [domain]
  | .subdomainsOnly domain => ["?*.".toList ++ domain]
  | .apexAndSubdomains domain => [domain, "?*.".toList ++ domain]

def isGlobalWildcardDomainPattern (pattern : Text) : Bool :=
  (expandDomainPattern (normalizePattern pattern)).any fun candidate => candidate = ['*']

/-- `compile_allowlist_globset`, the globs of the set -/
def compileAllowlistGlobset (patterns : List Text) : List Text :=
  (patterns.flatMap fun pattern => expandDomainPattern (normalizePattern pattern)).eraseDups

def isMatch (globs : List Text) (host : Text) : Bool := globs.any fun glob => globMatches glob host

/-! ### Comparing patterns -/

def normalizeDomain (domain : Text) : Text := (trimDots domain).map Char.toLower

def domainEq (left right : Text) : Bool := normalizeDomain left = normalizeDomain right

def isSubdomainOrEqual (child parent : Text) : Bool :=
  let child := normalizeDomain child
  let parent := normalizeDomain parent
  child = parent || endsWith child ('.' :: parent)

def isStrictSubdomain (child parent : Text) : Bool :=
  let child := normalizeDomain child
  let parent := normalizeDomain parent
  child ≠ parent && endsWith child ('.' :: parent)

/-- `parse_domain_for_constraints`; `urlHostParse` is `url::Host::parse`, with the host
written out again -/
def parseDomainForConstraints (urlHostParse : Text → Option Text) (domain : Text) : Text :=
  let domain := trimDots (trim domain)
  if domain = [] then []
  else
    let host :=
      if startsWith domain ['['] && endsWith domain [']'] then (domain.drop 1).dropLast else domain
    if '*' ∈ host ∨ '?' ∈ host ∨ '%' ∈ host then domain
    else (urlHostParse host).getD []

namespace DomainPattern

def parseForConstraints (urlHostParse : Text → Option Text) (input : Text) : DomainPattern :=
  let input := trim input
  if input = [] then .exact []
  else
    match stripPrefix "**.".toList input with
    | some domain => .apexAndSubdomains (parseDomainForConstraints urlHostParse domain)
    | none =>
      match stripPrefix "*.".toList input with
      | some domain => .subdomainsOnly (parseDomainForConstraints urlHostParse domain)
      | none => .exact (parseDomainForConstraints urlHostParse input)

def allows : DomainPattern → DomainPattern → Bool
  | .exact domain, .exact candidate => domainEq candidate domain
  | .exact _, _ => false
  | .subdomainsOnly domain, .exact candidate => isStrictSubdomain candidate domain
  | .subdomainsOnly domain, .subdomainsOnly candidate => isSubdomainOrEqual candidate domain
  | .subdomainsOnly domain, .apexAndSubdomains candidate => isStrictSubdomain candidate domain
  | .apexAndSubdomains domain, .exact candidate => isSubdomainOrEqual candidate domain
  | .apexAndSubdomains domain, .subdomainsOnly candidate => isSubdomainOrEqual candidate domain
  | .apexAndSubdomains domain, .apexAndSubdomains candidate => isSubdomainOrEqual candidate domain

end DomainPattern

/-! ### Normalised hosts -/

lemma isLower_trimDots {s : Text} (h : IsLower s) : IsLower (trimDots s) :=
  fun c hc => h c ((List.rdropWhile_prefix _ s).sublist.mem hc)

/-- The text does not end with a dot. -/
def NoFinalDot (s : Text) : Prop := s.getLast? ≠ some '.'

lemma noFinalDot_trimDots (s : Text) : NoFinalDot (trimDots s) := by
  intro h
  have hne : trimDots s ≠ [] := by
    rintro hnil
    simp [hnil] at h
  have hlast := List.rdropWhile_last_not (· = '.') s hne
  rw [List.getLast?_eq_getLast_of_ne_nil hne, Option.some.injEq] at h
  exact hlast (by simpa [trimDots] using h)

lemma trimDots_eq_self {s : Text} (h : NoFinalDot s) : trimDots s = s := by
  unfold trimDots
  rw [List.rdropWhile_eq_self_iff]
  intro hne hdot
  apply h
  rw [List.getLast?_eq_getLast_of_ne_nil hne]
  simpa using hdot

lemma scopedIpLiteral_spec {delimiter host ip : Text}
    (h : scopedIpLiteral delimiter host = some ip) (hlower : IsLower host)
    (hdot : NoFinalDot host) : IsLower ip ∧ NoFinalDot ip := by
  unfold scopedIpLiteral at h
  cases hsplit : splitOnce delimiter host with
  | none => simp [hsplit] at h
  | some pair =>
    obtain ⟨address, scope⟩ := pair
    simp only [hsplit] at h
    split at h
    · cases h
      have hhost := splitOnce_eq_some hsplit
      constructor
      · intro c hc
        rcases List.mem_append.mp hc with hc | hc
        · exact hlower c (by simp [hhost, hc])
        rcases List.mem_cons.mp hc with rfl | hc
        · decide
        · exact hlower c (by simp [hhost, hc])
      · cases scope with
        | nil => simp [NoFinalDot]
        | cons c scope =>
          have hlast : host.getLast? = (c :: scope).getLast? := by
            rw [hhost, List.getLast?_append_of_ne_nil _ (List.cons_ne_nil c scope)]
          unfold NoFinalDot at hdot ⊢
          rw [hlast] at hdot
          rwa [List.getLast?_append_of_ne_nil _ (List.cons_ne_nil _ _),
            ← List.singleton_append, List.getLast?_append_of_ne_nil _ (List.cons_ne_nil _ _)]
    · cases h

lemma normalizeDns_spec (host : Text) :
    IsLower (normalizeDnsHostOrIpLiteral host) ∧ NoFinalDot (normalizeDnsHostOrIpLiteral host) := by
  have hlower : IsLower (trimDots (host.map Char.toLower)) :=
    isLower_trimDots (isLower_map_toLower host)
  have hdot := noFinalDot_trimDots (host.map Char.toLower)
  unfold normalizeDnsHostOrIpLiteral
  generalize trimDots (host.map Char.toLower) = host at hlower hdot
  simp only [normalizeIpLiteral]
  split
  · exact ⟨hlower, hdot⟩
  · cases hlong : scopedIpLiteral "%25".toList host with
    | some ip => exact scopedIpLiteral_spec hlong hlower hdot
    | none =>
      cases hshort : scopedIpLiteral ['%'] host with
      | some ip => exact scopedIpLiteral_spec hshort hlower hdot
      | none => exact ⟨hlower, hdot⟩

lemma exists_normalizeDns (input : Text) :
    ∃ host, normalizeHost input = normalizeDnsHostOrIpLiteral host := by
  simp only [normalizeHost]
  cases bracketed (trim input) with
  | some inside => exact ⟨inside, rfl⟩
  | none =>
    by_cases hcolon : (trim input).count ':' = 1
    · exact ⟨_, if_pos hcolon⟩
    · exact ⟨_, if_neg hcolon⟩

/-- Normalised hosts are in lower case and end without a dot. -/
theorem normalizeHost_spec (input : Text) :
    IsLower (normalizeHost input) ∧ NoFinalDot (normalizeHost input) := by
  obtain ⟨host, hhost⟩ := exists_normalizeDns input
  rw [hhost]
  exact normalizeDns_spec host

/-! ### Names that are no addresses -/

/-- The characters that addresses are written with. -/
def isAddressChar (c : Char) : Bool :=
  c.isDigit || ('a' ≤ c.toLower && c.toLower ≤ 'f') || c = ':' || c = '.'

variable {c : Char} {s : Text}

lemma isAddressChar_of_isOctet (h : isOctet s = true) (hc : c ∈ s) : isAddressChar c = true := by
  simp only [isOctet, Bool.and_eq_true, List.all_eq_true] at h
  simp [isAddressChar, h.1.1.1.1 c hc]

lemma isAddressChar_of_isHextet (h : isHextet s = true) (hc : c ∈ s) : isAddressChar c = true := by
  simp only [isHextet, Bool.and_eq_true, List.all_eq_true] at h
  unfold isAddressChar
  rw [h.1.1 c hc]
  rfl

lemma isAddressChar_of_splitOn {sep : Char} (hsep : isAddressChar sep = true)
    (h : ∀ part ∈ s.splitOn sep, ∀ c ∈ part, isAddressChar c = true) (hc : c ∈ s) :
    isAddressChar c = true := by
  have hjoin : [sep].intercalate (s.splitOn sep) = s := List.intercalate_splitOn sep
  rw [← hjoin] at hc
  rcases mem_of_mem_intercalate hc with hc | ⟨part, hpart, hc⟩
  · exact List.mem_singleton.mp hc ▸ hsep
  · exact h part hpart c hc

lemma isAddressChar_of_isIpv4Addr (h : isIpv4Addr s = true) (hc : c ∈ s) :
    isAddressChar c = true := by
  simp only [isIpv4Addr, Bool.and_eq_true, List.all_eq_true] at h
  exact isAddressChar_of_splitOn rfl
    (fun part hpart _ => isAddressChar_of_isOctet (h.2 part hpart)) hc

lemma isAddressChar_of_groupCount {ipv4AtEnd : Bool} {n : ℕ}
    (h : groupCount ipv4AtEnd s = some n) (hc : c ∈ s) : isAddressChar c = true := by
  simp only [groupCount] at h
  rw [if_neg (List.ne_nil_of_mem hc)] at h
  have hcolon : isAddressChar ':' = true := rfl
  refine isAddressChar_of_splitOn hcolon (fun part hpart c => ?_) hc
  by_cases hall : (s.splitOn ':').all isHextet = true
  · exact isAddressChar_of_isHextet (List.all_eq_true.mp hall part hpart)
  rw [if_neg hall] at h
  split at h
  · rename_i hend
    simp only [Bool.and_eq_true] at hend
    have hsplit : s.splitOn ':' ≠ [] := List.splitOn_ne_nil _ _
    rw [← List.dropLast_append_getLast hsplit, List.mem_append, List.mem_singleton] at hpart
    rcases hpart with hpart | rfl
    · exact isAddressChar_of_isHextet (List.all_eq_true.mp hend.1.2 part hpart)
    · rw [List.getLast?_eq_getLast_of_ne_nil hsplit, Option.any_some] at hend
      exact isAddressChar_of_isIpv4Addr hend.2
  · cases h

/-- An address is written with these characters only. -/
theorem isAddressChar_of_isIpAddr (h : isIpAddr s = true) (hc : c ∈ s) :
    isAddressChar c = true := by
  rcases Bool.or_eq_true _ _ ▸ h with h | h
  · exact isAddressChar_of_isIpv4Addr h hc
  · unfold isIpv6Addr at h
    cases hsplit : splitOnce "::".toList s with
    | none =>
      simp only [hsplit, decide_eq_true_eq] at h
      exact isAddressChar_of_groupCount h hc
    | some pair =>
      obtain ⟨head, tail⟩ := pair
      simp only [hsplit, Option.any_eq_true] at h
      obtain ⟨n, hhead, m, htail, -⟩ := h
      rw [splitOnce_eq_some hsplit, List.mem_append, List.mem_append] at hc
      rcases hc with (hc | hc) | hc
      · exact isAddressChar_of_groupCount hhead hc
      · obtain rfl : c = ':' := by simpa using hc
        rfl
      · exact isAddressChar_of_groupCount htail hc

lemma not_mem_isIpAddr (h : isIpAddr s = true) (hc : isAddressChar c = false) : c ∉ s := by
  intro hmem
  rw [isAddressChar_of_isIpAddr h hmem] at hc
  exact Bool.noConfusion hc

lemma normalizeIpLiteral_x (s : Text) : normalizeIpLiteral ('x' :: s) = none := by
  have hscoped : ∀ delimiter : Text, delimiter.head? = some '%' →
      scopedIpLiteral delimiter ('x' :: s) = none := by
    intro delimiter hhead
    unfold scopedIpLiteral
    cases hsplit : splitOnce delimiter ('x' :: s) with
    | none => rfl
    | some pair =>
      obtain ⟨ip, scope⟩ := pair
      have hx : 'x' ∈ ip := by
        have heq := splitOnce_eq_some hsplit
        cases ip with
        | nil =>
          rw [List.nil_append] at heq
          have hfirst := congrArg List.head? heq
          simp [List.head?_append, hhead, List.head?_cons, Option.some_or] at hfirst
        | cons c ip =>
          rw [List.cons_append, List.cons_append, List.cons.injEq] at heq
          rw [heq.1]
          exact List.mem_cons_self
      have hip : isIpAddr ip = false := by
        by_contra hip
        exact not_mem_isIpAddr (Bool.not_eq_false _ ▸ hip) (by decide) hx
      simp [hip]
  have hself : isIpAddr ('x' :: s) = false := by
    by_contra hip
    exact not_mem_isIpAddr (Bool.not_eq_false _ ▸ hip) (by decide) List.mem_cons_self
  unfold normalizeIpLiteral
  rw [hself, hscoped _ (by simp), hscoped _ (by decide)]
  rfl

/-- A lower-case text that starts with `x` and does not end with a dot is a normalised host. -/
theorem isHost_x {s : Text} (hlower : IsLower ('x' :: s)) (hdot : NoFinalDot ('x' :: s))
    (hbracket : ']' ∉ s) : IsHost ('x' :: s) := by
  refine ⟨List.cons_ne_nil _ _, '[' :: 'x' :: s ++ [']'], ?_⟩
  have htrim : trim ('[' :: 'x' :: s ++ [']']) = '[' :: 'x' :: s ++ [']'] := by
    apply trim_eq_self
    constructor
    · simp [isWhitespace]
    · intro c hc
      rw [List.getLast?_concat, Option.mem_some_iff] at hc
      subst hc
      decide
  have hinside : bracketed ('[' :: 'x' :: s ++ [']']) = some ('x' :: s) := by
    show (splitOnce [']'] ('x' :: s ++ [']'])).map (·.1) = some ('x' :: s)
    rw [splitOnce_singleton (by simpa using hbracket)]
    rfl
  simp only [normalizeHost]
  rw [htrim, hinside]
  simp only [normalizeDnsHostOrIpLiteral]
  rw [hlower.map_toLower, trimDots_eq_self hdot, normalizeIpLiteral_x]
  rfl

/-! ### Plain patterns -/

/-- The characters that globs give a meaning to. -/
def globChars : Text := ['*', '?', '[', ']', '\x7b', '\x7d', '\\']

/-- What a pattern's wildcard stands in front of, as the globs have it. -/
def domainOf (pattern : Text) : Text :=
  let pattern := trim pattern
  normalizeHost ((stripPrefix "**.".toList pattern).getD
    ((stripPrefix "*.".toList pattern).getD pattern))

/-- The pattern is a domain, or a domain after `*.` or `**.`. -/
def IsPlain (pattern : Text) : Prop :=
  ∀ c ∈ domainOf pattern, isWhitespace c = false ∧ c ∉ globChars

/-- The domain of a plain pattern. -/
structure PlainDomain (domain : Text) : Prop where
  normalized : ∃ input, normalizeHost input = domain
  plain : ∀ c ∈ domain, isWhitespace c = false ∧ c ∉ globChars

/-- The globs of plain patterns. -/
inductive PlainGlob : Text → Prop
  | domain {domain : Text} (h : PlainDomain domain) : PlainGlob domain
  | subdomains {domain : Text} (h : PlainDomain domain) (hne : domain ≠ []) :
      PlainGlob ('?' :: '*' :: '.' :: domain)

namespace PlainDomain

variable {domain host : Text} (h : PlainDomain domain)
include h

lemma isLower : IsLower domain := by
  obtain ⟨input, rfl⟩ := h.normalized
  exact (normalizeHost_spec input).1

lemma isLower_append (front : Text)
    (hfront : ∀ c ∈ front, c.toLower = c) : IsLower (front ++ domain) := by
  intro c hc
  rcases List.mem_append.mp hc with hc | hc
  · exact hfront c hc
  · exact h.isLower c hc

lemma noFinalDot : NoFinalDot domain := by
  obtain ⟨input, rfl⟩ := h.normalized
  exact (normalizeHost_spec input).2

lemma not_mem {c : Char} (hc : c ∈ globChars) : c ∉ domain :=
  fun hmem => (h.plain c hmem).2 hc

lemma trim_eq : trim domain = domain :=
  trim_eq_self ⟨fun c hc => (h.plain c (List.mem_of_head? hc)).1,
    fun c hc => (h.plain c (List.mem_of_getLast? hc)).1⟩

/-- A domain after a wildcard has no whitespace around it either. -/
theorem trim_append {wildcard : Text} (hwild : ∀ c ∈ wildcard, isWhitespace c = false) :
    trim (wildcard ++ domain) = wildcard ++ domain := by
  have hall : ∀ c ∈ wildcard ++ domain, isWhitespace c = false := by
    intro c hc
    rcases List.mem_append.mp hc with hc | hc
    · exact hwild c hc
    · exact (h.plain c hc).1
  exact trim_eq_self ⟨fun c hc => hall c (List.mem_of_head? hc),
    fun c hc => hall c (List.mem_of_getLast? hc)⟩

lemma globMatches_iff (hhost : IsLower host) : globMatches domain host = true ↔ host = domain := by
  have hplain : ∀ c ∈ domain, c ≠ '*' ∧ c ≠ '?' := by
    intro c hc
    constructor
    · rintro rfl
      exact h.not_mem (by decide) hc
    · rintro rfl
      exact h.not_mem (by decide) hc
  rw [globMatches_plain hplain, h.isLower.map_toLower, hhost.map_toLower]
  exact eq_comm

lemma globMatches_subdomains_iff (hhost : IsLower host) :
    globMatches ('?' :: '*' :: '.' :: domain) host = true ↔
      ∃ before, before ≠ [] ∧ host = before ++ '.' :: domain := by
  have hdot : ∀ after : Text, IsLower after →
      (globMatches ('.' :: domain) after = true ↔ after = '.' :: domain) := by
    intro after hafter
    cases after with
    | nil => simp [globMatches]
    | cons c after =>
      have hlower : IsLower after := fun d hd => hafter d (List.mem_cons_of_mem c hd)
      have hc := hafter c List.mem_cons_self
      have hchar : Char.toLower '.' = '.' := by decide
      have hstep : globMatches ('.' :: domain) (c :: after) =
          (decide (Char.toLower '.' = c.toLower) && globMatches domain after) := by
        simp [globMatches]
      rw [hstep, hc, hchar, Bool.and_eq_true, h.globMatches_iff hlower, List.cons.injEq,
        decide_eq_true_eq]
      exact and_congr_left fun _ => eq_comm
  rw [globMatches_some_then]
  constructor
  · rintro ⟨before, after, hne, rfl, hmatch⟩
    have hafter : IsLower after := fun c hc => hhost c (List.mem_append_right _ hc)
    exact ⟨before, hne, by rw [(hdot after hafter).mp hmatch]⟩
  · rintro ⟨before, hne, rfl⟩
    have hafter : IsLower ('.' :: domain) := fun c hc => hhost c (List.mem_append_right _ hc)
    exact ⟨before, '.' :: domain, hne, rfl, (hdot _ hafter).mpr rfl⟩

end PlainDomain

namespace DomainPattern

variable {domain : Text} (h : PlainDomain domain)
include h

lemma parseDomain_of_plain (build : Text → DomainPattern) :
    parseDomain domain build = if domain = [] then .exact [] else build domain := by
  simp only [parseDomain]
  rw [h.trim_eq]

lemma parse_apexAndSubdomains :
    parse ("**.".toList ++ domain) =
      if domain = [] then .exact [] else .apexAndSubdomains domain := by
  have htrim : trim ("**.".toList ++ domain) = "**.".toList ++ domain :=
    h.trim_append (by decide +kernel)
  have hne : "**.".toList ++ domain ≠ [] := List.append_ne_nil_of_left_ne_nil (by simp) _
  simp only [parse]
  rw [htrim, if_neg hne, stripPrefix_append]
  exact parseDomain_of_plain h _

lemma parse_subdomainsOnly :
    parse ("*.".toList ++ domain) =
      if domain = [] then .exact [] else .subdomainsOnly domain := by
  have htrim : trim ("*.".toList ++ domain) = "*.".toList ++ domain :=
    h.trim_append (by decide +kernel)
  have hne : "*.".toList ++ domain ≠ [] := List.append_ne_nil_of_left_ne_nil (by simp) _
  have hother : stripPrefix "**.".toList ("*.".toList ++ domain) = none :=
    stripPrefix_of_disjoint (by simp) (by simp) domain
  simp only [parse]
  rw [htrim, if_neg hne, hother, stripPrefix_append]
  exact parseDomain_of_plain h _

lemma parse_exact : parse domain = .exact domain := by
  have hstar : ∀ rest : Text, stripPrefix ('*' :: rest) domain = none := by
    intro rest
    rw [stripPrefix_eq_none]
    rintro ⟨t, rfl⟩
    exact h.not_mem (c := '*') (by decide) (by simp)
  simp only [parse]
  rw [h.trim_eq]
  by_cases hne : domain = []
  · rw [if_pos hne, hne]
  · have happ : stripPrefix "**.".toList domain = none := hstar _
    have hsub : stripPrefix "*.".toList domain = none := hstar _
    rw [if_neg hne, happ, hsub]

end DomainPattern

lemma IsPlain.domain {pattern : Text} (h : IsPlain pattern) : PlainDomain (domainOf pattern) :=
  ⟨⟨_, rfl⟩, h⟩

lemma plainGlob_of_mem {pattern glob : Text} (h : IsPlain pattern)
    (hglob : glob ∈ expandDomainPattern (normalizePattern pattern)) : PlainGlob glob := by
  have hdomain := h.domain
  have hwild : ∀ {domain : Text}, PlainDomain domain → domain ≠ [] →
      PlainGlob ("?*.".toList ++ domain) := fun hplain hne => .subdomains hplain hne
  unfold domainOf at hdomain
  simp only [expandDomainPattern, normalizePattern] at hglob
  generalize trim pattern = input at hdomain hglob
  by_cases hall : input = ['*']
  · subst hall
    exact absurd (hdomain.not_mem (c := '*') (by decide)) (by decide +kernel)
  rw [if_neg hall] at hglob
  cases happ : stripPrefix "**.".toList input with
  | some rest =>
    simp only [happ, Option.getD_some] at hdomain hglob
    rw [DomainPattern.parse_apexAndSubdomains hdomain] at hglob
    by_cases hne : normalizeHost rest = []
    · rw [if_pos hne, List.mem_singleton] at hglob
      rw [hglob, ← hne]
      exact .domain hdomain
    · rw [if_neg hne, List.mem_cons, List.mem_singleton] at hglob
      rcases hglob with rfl | rfl
      · exact .domain hdomain
      · exact hwild hdomain hne
  | none =>
    cases hsub : stripPrefix "*.".toList input with
    | some rest =>
      simp only [happ, hsub, Option.getD_some, Option.getD_none] at hdomain hglob
      rw [DomainPattern.parse_subdomainsOnly hdomain] at hglob
      by_cases hne : normalizeHost rest = []
      · rw [if_pos hne, List.mem_singleton] at hglob
        rw [hglob, ← hne]
        exact .domain hdomain
      · rw [if_neg hne, List.mem_singleton] at hglob
        subst hglob
        exact hwild hdomain hne
    | none =>
      simp only [happ, hsub, Option.getD_none] at hdomain hglob
      rw [DomainPattern.parse_exact hdomain, List.mem_singleton] at hglob
      subst hglob
      exact .domain hdomain

/-! ### Hosts of one set within another -/

/-- Two ways to cut a text before a dot: without dots in front of the first, it is the longer. -/
theorem suffix_of_cut {front before s t : Text} (hdot : '.' ∉ front)
    (h : front ++ '.' :: s = before ++ '.' :: t) : '.' :: t <:+ '.' :: s := by
  have hs : '.' :: s <:+ front ++ '.' :: s := List.suffix_append _ _
  have ht : '.' :: t <:+ front ++ '.' :: s := h ▸ List.suffix_append _ _
  rcases List.suffix_or_suffix_of_suffix ht hs with hsuffix | ⟨mid, hmid⟩
  · exact hsuffix
  · cases mid with
    | nil => exact ⟨[], hmid.symm⟩
    | cons c mid =>
      rw [← hmid, ← List.append_assoc] at h
      have hfront := List.append_cancel_right h
      rw [List.cons_append, List.cons.injEq] at hmid
      obtain rfl := hmid.1
      exact absurd (hfront ▸ by simp) hdot

variable {user managed : List Text} (huser : ∀ glob ∈ user, PlainGlob glob)
include huser

variable (hmanaged : ∀ glob ∈ managed, PlainGlob glob)
include hmanaged

/-- A managed glob that matches a user's glob as a text matches all that the user's does. -/
theorem isMatch_of_covers

    (hcovers : ∀ glob ∈ user, glob ≠ [] → isMatch managed glob = true) {host : Text}
    (hhost : IsHost host) (hmatch : isMatch user host = true) : isMatch managed host = true := by
  have hlower : IsLower host := by
    obtain ⟨-, input, rfl⟩ := hhost
    exact (normalizeHost_spec input).1
  obtain ⟨glob, hglob, hmatch⟩ := List.any_eq_true.mp hmatch
  cases huser glob hglob with
  | domain hdomain =>
    obtain rfl := (hdomain.globMatches_iff hlower).mp hmatch
    exact hcovers _ hglob hhost.1
  | @subdomains domain hdomain hne =>
    obtain ⟨before, hbefore, rfl⟩ := (hdomain.globMatches_subdomains_iff hlower).mp hmatch
    have hglobLower := hdomain.isLower_append ['?', '*', '.'] (by decide)
    obtain ⟨glob', hglob', hmatch'⟩ := List.any_eq_true.mp (hcovers _ hglob (List.cons_ne_nil _ _))
    refine List.any_eq_true.mpr ⟨glob', hglob', ?_⟩
    cases hmanaged glob' hglob' with
    | domain hdomain' =>
      have heq := (hdomain'.globMatches_iff hglobLower).mp hmatch'
      exact absurd (heq ▸ List.mem_cons_self) (hdomain'.not_mem (c := '?') (by decide))
    | subdomains hdomain' hne' =>
      obtain ⟨front, -, hfront⟩ := (hdomain'.globMatches_subdomains_iff hglobLower).mp hmatch'
      have hcut : ['?', '*'] ++ '.' :: domain = front ++ '.' :: _ := hfront
      obtain ⟨mid, hmid⟩ := suffix_of_cut (by decide) hcut
      refine (hdomain'.globMatches_subdomains_iff hlower).mpr ⟨before ++ mid, ?_, ?_⟩
      · exact List.append_ne_nil_of_left_ne_nil hbefore _
      · rw [List.append_assoc, hmid]

/-- Where all hosts of the user's set are in the managed one, the managed globs match the user's
globs as texts. -/
theorem covers_of_isMatch

    (hsub : ∀ host, IsHost host → isMatch user host = true → isMatch managed host = true)
    {glob : Text} (hglob : glob ∈ user) (hne : glob ≠ []) : isMatch managed glob = true := by
  cases huser glob hglob with
  | domain hdomain =>
    have hself : globMatches glob glob = true := (hdomain.globMatches_iff hdomain.isLower).mpr rfl
    exact hsub glob ⟨hne, hdomain.normalized⟩ (List.any_eq_true.mpr ⟨glob, hglob, hself⟩)
  | @subdomains domain hdomain hdomainNe =>
    -- a host with a first label longer than all managed globs
    let label := List.replicate managed.flatten.length 'x'
    have hlower : IsLower ('x' :: label ++ '.' :: domain) := by
      have hfront : ∀ c ∈ 'x' :: label ++ ['.'], c.toLower = c := by
        intro c hc
        simp only [List.cons_append, List.mem_cons, List.mem_append, label, List.mem_replicate,
          List.not_mem_nil, or_false] at hc
        rcases hc with rfl | ⟨-, rfl⟩ | rfl
        · decide
        · decide
        · decide
      simpa using hdomain.isLower_append ('x' :: label ++ ['.']) hfront
    have hdot : NoFinalDot ('x' :: label ++ '.' :: domain) := by
      unfold NoFinalDot
      rw [List.getLast?_append_of_ne_nil _ (List.cons_ne_nil _ _), ← List.singleton_append,
        List.getLast?_append_of_ne_nil _ hdomainNe]
      exact hdomain.noFinalDot
    have hbracket : ']' ∉ label ++ '.' :: domain := by
      simp only [List.mem_append, List.mem_cons, label, List.mem_replicate]
      rintro (⟨-, h⟩ | h | h)
      · cases h
      · cases h
      · exact hdomain.not_mem (by decide) h
    have hself := (hdomain.globMatches_subdomains_iff hlower).mpr
      ⟨'x' :: label, List.cons_ne_nil _ _, rfl⟩
    obtain ⟨glob', hglob', hmatch'⟩ := List.any_eq_true.mp
      (hsub _ (isHost_x hlower hdot hbracket) (List.any_eq_true.mpr ⟨_, hglob, hself⟩))
    refine List.any_eq_true.mpr ⟨glob', hglob', ?_⟩
    cases hmanaged glob' hglob' with
    | domain hdomain' =>
      have heq := (hdomain'.globMatches_iff hlower).mp hmatch'
      have hlen : glob'.length ≤ managed.flatten.length :=
        (List.sublist_flatten_of_mem hglob').length_le
      rw [← heq] at hlen
      simp only [label, List.length_append, List.length_cons, List.length_replicate] at hlen
      omega
    | @subdomains domain' hdomain' hne' =>
      obtain ⟨front, -, hfront⟩ := (hdomain'.globMatches_subdomains_iff hlower).mp hmatch'
      have hnodot : '.' ∉ 'x' :: label := by
        simp [label, List.mem_replicate]
      obtain ⟨mid, hmid⟩ := suffix_of_cut hnodot hfront
      have hglobLower := hdomain.isLower_append ['?', '*', '.'] (by decide)
      refine (hdomain'.globMatches_subdomains_iff hglobLower).mpr ⟨'?' :: '*' :: mid, ?_, ?_⟩
      · exact List.cons_ne_nil _ _
      · show '?' :: '*' :: ('.' :: domain) = '?' :: '*' :: (mid ++ '.' :: domain')
        rw [hmid]

end Codex.NetworkProxy
