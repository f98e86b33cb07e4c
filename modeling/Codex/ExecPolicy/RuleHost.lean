import Codex.ExecPolicy.Policy
import Codex.Lib.Trimming

/-!
# The host of a network rule

`normalize_network_rule_host` of `execpolicy/src/rule.rs` takes the text between brackets or before
a port, drops final dots, trims and lowers it. An amended policy file stores the result, and the
parser normalises it again when the file is loaded.

* `normalizeNetworkRuleHost_self_iff`: the returned hosts that are returned again;
* `normalizeNetworkRuleHost_stable_iff`: exactly which accepted texts lead to one.
-/

namespace Codex.ExecPolicy

open Codex.Lib

variable {raw host text s : Text}

/-! ### The text that names the host -/

/-- The text goes on after its first colon with a port, and something stands before it. -/
def HasPort (s : Text) : Prop :=
  ∃ name port, s = name ++ ':' :: port ∧ name ≠ [] ∧ ':' ∉ name ∧ isPort port = true

/-- The part of a rule's host that names it: what stands between the brackets, or before a port, or
all of it. -/
def ruleHostText (raw : Text) : Text :=
  match trim raw with
  | '[' :: rest => rest.takeWhile (· ≠ ']')
  | host =>
    match splitOnce [':'] host with
    | some (name, port) => if name ≠ [] ∧ isPort port = true then name else host
    | none => host

lemma isPort_eq_true_iff {port : Text} :
    isPort port = true ↔ port ≠ [] ∧ ∀ c ∈ port, c.isDigit = true := by
  unfold isPort
  rw [Bool.and_eq_true, Bool.not_eq_true', List.isEmpty_eq_false_iff, List.all_eq_true]

/-- The digits of a port are neither colons, dots nor whitespace. -/
theorem isPort_mem {port : Text} (h : isPort port = true) {c : Char} (hc : c ∈ port) :
    c ≠ ':' ∧ c ≠ '.' ∧ isWhitespace c = false := by
  have hdigit := (isPort_eq_true_iff.mp h).2 c hc
  refine ⟨?_, ?_, ?_⟩
  · rintro rfl
    cases hdigit
  · rintro rfl
    cases hdigit
  · simp only [Char.isDigit, Bool.and_eq_true, decide_eq_true_eq, ge_iff_le,
      UInt32.le_iff_toNat_le] at hdigit
    have hlo : 48 ≤ c.toNat := hdigit.1
    have hhi : c.toNat ≤ 57 := hdigit.2
    simp only [isWhitespace, Bool.or_eq_false_iff, Bool.and_eq_false_iff, beq_eq_false_iff_ne,
      decide_eq_false_iff_not]
    omega

lemma takeWhile_ne_append {c : Char} {front rest : Text} (h : c ∉ front) :
    (front ++ c :: rest).takeWhile (· ≠ c) = front := by
  have hfront : ∀ d ∈ front, decide (d ≠ c) = true :=
    fun d hd => decide_eq_true fun heq => h (heq ▸ hd)
  rw [List.takeWhile_append_of_pos hfront]
  simp

lemma stripHostPort_of_hasPort {name port : Text} (hhead : host.head? ≠ some '[')
    (hhost : host = name ++ ':' :: port) (hname : name ≠ []) (hcolon : ':' ∉ name)
    (hport : isPort port = true) : stripHostPort raw host = .ok name := by
  have hcount : host.count ':' = 1 := by
    have hport' : ':' ∉ port := fun hmem => (isPort_mem hport hmem).1 rfl
    rw [hhost, List.count_append, List.count_cons_self, List.count_eq_zero_of_not_mem hcolon,
      List.count_eq_zero_of_not_mem hport']
  have hsplit : splitOnce [':'] host = some (name, port) := by
    rw [hhost]
    exact splitOnce_singleton hcolon
  unfold stripHostPort
  split
  · exact absurd rfl hhead
  · rw [if_pos hcount, hsplit]
    exact if_pos ⟨hname, hport⟩

lemma stripHostPort_of_not_hasPort (hhead : host.head? ≠ some '[') (hport : ¬ HasPort host) :
    stripHostPort raw host = .ok host := by
  unfold stripHostPort
  split
  · exact absurd rfl hhead
  · split
    · split
      · rename_i candidate port hsplit
        obtain ⟨hhost, hcolon⟩ := splitOnce_singleton_eq_some_iff.mp hsplit
        exact if_neg fun h => hport ⟨candidate, port, hhost, h.1, hcolon, h.2⟩
      · rfl
    · rfl

lemma stripHostPort_bracketed {rest : Text} (h : stripHostPort raw ('[' :: rest) = .ok text) :
    ∃ after, rest = text ++ ']' :: after ∧ ']' ∉ text := by
  unfold stripHostPort at h
  simp only at h
  split at h
  · cases h
  · rename_i inside after hsplit
    split at h
    · cases h
      exact ⟨after, splitOnce_singleton_eq_some_iff.mp hsplit⟩
    · cases h

lemma ruleHostText_of_stripHostPort (h : stripHostPort raw (trim raw) = .ok text) :
    ruleHostText raw = text := by
  unfold ruleHostText
  split
  · rename_i rest hraw
    rw [hraw] at h
    obtain ⟨after, hrest, hnot⟩ := stripHostPort_bracketed h
    rw [hrest, takeWhile_ne_append hnot]
  · rename_i hbracket
    have hhead : (trim raw).head? ≠ some '[' := by
      intro hhead
      cases hcases : trim raw with
      | nil => simp [hcases] at hhead
      | cons c rest =>
        rw [hcases, List.head?_cons, Option.some_inj] at hhead
        exact hbracket rest (by rw [hcases, hhead])
    by_cases hport : HasPort (trim raw)
    · obtain ⟨name, port, hhost, hname, hcolon, hport⟩ := hport
      rw [stripHostPort_of_hasPort hhead hhost hname hcolon hport] at h
      have hsplit : splitOnce [':'] (trim raw) = some (name, port) := by
        rw [hhost]
        exact splitOnce_singleton hcolon
      simp only [hsplit]
      rw [if_pos ⟨hname, hport⟩]
      exact Except.ok.inj h
    · rw [stripHostPort_of_not_hasPort hhead hport] at h
      split
      · rename_i name port hsplit
        obtain ⟨hhost, hcolon⟩ := splitOnce_singleton_eq_some_iff.mp hsplit
        rw [if_neg fun hsome => hport ⟨name, port, hhost, hsome.1, hcolon, hsome.2⟩]
        exact Except.ok.inj h
      · exact Except.ok.inj h

/-! ### What is accepted -/

/-- The characters of a scheme, a path, a query or a fragment. -/
def urlChars : Text := ['/', '?', '#']

/-- A text is accepted when it has none of these characters, its brackets and port can be taken off,
and what is left is a host without wildcards and whitespace. -/
theorem normalizeNetworkRuleHost_eq_ok_iff :
    normalizeNetworkRuleHost raw = .ok host ↔
      (∀ c ∈ urlChars, c ∉ trim raw) ∧ stripHostPort raw (trim raw) = .ok (ruleHostText raw) ∧
        host = (trim ((ruleHostText raw).rdropWhile (· = '.'))).map Char.toLower ∧
        host ≠ [] ∧ '*' ∉ host ∧ ∀ c ∈ host, isWhitespace c = false := by
  have hurl : ("://".toList <:+: trim raw ∨ '/' ∈ trim raw ∨ '?' ∈ trim raw ∨ '#' ∈ trim raw) ↔
      ¬ ∀ c ∈ urlChars, c ∉ trim raw := by
    have hscheme : "://".toList <:+: trim raw → '/' ∈ trim raw := fun h => h.subset (by decide)
    simp only [urlChars, List.mem_cons, List.not_mem_nil, or_false, forall_eq_or_imp, forall_eq]
    tauto
  unfold normalizeNetworkRuleHost
  simp only [hurl]
  by_cases hchars : ∀ c ∈ urlChars, c ∉ trim raw
  · cases hstrip : stripHostPort raw (trim raw) with
    | error error =>
      refine iff_of_false ?_ (by simp)
      split <;> simp
    | ok text =>
      have htext := ruleHostText_of_stripHostPort hstrip
      rw [htext]
      by_cases hempty : trim raw = []
      · -- an empty host is also what its brackets and port leave
        rw [hempty] at hstrip
        obtain rfl : text = [] := (Except.ok.inj hstrip).symm
        refine iff_of_false (by simp [hempty]) ?_
        rintro ⟨-, -, rfl, hne, -⟩
        exact hne rfl
      · rw [if_neg hempty, if_neg (not_not.mpr hchars)]
        simp only
        generalize (trim (text.rdropWhile (· = '.'))).map Char.toLower = normalized
        constructor
        · intro h
          split at h
          · cases h
          · split at h
            · cases h
            · split at h
              · cases h
              · cases h
                rename_i hne hstar hblank
                exact ⟨hchars, trivial, rfl, hne, hstar, by simpa using hblank⟩
        · rintro ⟨-, -, rfl, hne, hstar, hblank⟩
          rw [if_neg hne, if_neg hstar, if_neg (by simpa using hblank)]
  · refine iff_of_false ?_ fun h => hchars h.1
    split <;> simp

/-- An accepted text is not changed by reading it as a host once more when it has no bracket, port
or final dot. -/
theorem normalizeNetworkRuleHost_self_iff (hurl : ∀ c ∈ urlChars, c ∉ host) (hlower : IsLower host)
    (hne : host ≠ []) (hstar : '*' ∉ host) (hblank : ∀ c ∈ host, isWhitespace c = false) :
    normalizeNetworkRuleHost host = .ok host ↔
      host.head? ≠ some '[' ∧ ¬ HasPort host ∧ host.getLast? ≠ some '.' := by
  have htrim : trim host = host :=
    trim_eq_self ⟨fun c hc => hblank c (List.mem_of_head? hc),
      fun c hc => hblank c (List.mem_of_getLast? hc)⟩
  rw [normalizeNetworkRuleHost_eq_ok_iff, htrim]
  constructor
  · rintro ⟨-, hstrip, heq, -, -, -⟩
    -- no part of the host was taken off, since it would be shorter
    have hlen : host.length ≤ ((ruleHostText host).rdropWhile (· = '.')).length := by
      have htrimLen := length_trim_le ((ruleHostText host).rdropWhile (· = '.'))
      have hcongr := congrArg List.length heq
      rw [List.length_map] at hcongr
      omega
    have hdots := (List.rdropWhile_prefix (fun c => decide (c = '.')) (ruleHostText host)).length_le
    have hhead : host.head? ≠ some '[' := by
      intro hhead
      obtain ⟨rest, hhost⟩ := List.head?_eq_some_iff.mp hhead
      rw [hhost] at hstrip
      obtain ⟨after, hrest, -⟩ := stripHostPort_bracketed hstrip
      have hcongr := congrArg List.length (hhost.trans (congrArg _ hrest))
      rw [List.length_cons, List.length_append, ← hhost] at hcongr
      omega
    have hport : ¬ HasPort host := by
      rintro ⟨name, port, hhost, hname, hcolon, hport⟩
      rw [stripHostPort_of_hasPort hhead hhost hname hcolon hport] at hstrip
      have htext := Except.ok.inj hstrip
      have hcongr := congrArg List.length hhost
      rw [List.length_append, List.length_cons, htext] at hcongr
      omega
    refine ⟨hhead, hport, fun hlast => ?_⟩
    rw [stripHostPort_of_not_hasPort hhead hport] at hstrip
    rw [← Except.ok.inj hstrip] at hlen
    have hself := (List.rdropWhile_prefix (fun c => decide (c = '.')) host).eq_of_length_le hlen
    have hdot := getLast?_rdropWhile (fun c => decide (c = '.')) host
    rw [hself] at hdot
    cases hdot '.' hlast
  · rintro ⟨hhead, hport, hlast⟩
    have hstrip : stripHostPort host host = .ok host := stripHostPort_of_not_hasPort hhead hport
    have htext : ruleHostText host = host :=
      ruleHostText_of_stripHostPort (by rw [htrim]; exact hstrip)
    have hdots : host.rdropWhile (· = '.') = host := by
      refine List.rdropWhile_eq_self_iff.mpr fun hne hdot => hlast ?_
      rw [List.getLast?_eq_getLast_of_ne_nil hne]
      simpa using hdot
    rw [htext, hdots, htrim, hlower.map_toLower]
    exact ⟨hurl, hstrip, rfl, hne, hstar, hblank⟩

/-! ### The returned host and the text -/

/-- What is read again is what is returned: the text does not start with a bracket, is not a name
and a port before final dots, and has no dot before whitespace at its end. -/
structure SettledAtOnce (raw : Text) : Prop where
  bracket : (trimStart (ruleHostText raw)).head? ≠ some '['
  port : ∀ name port blanks dots, trim name ≠ [] → ':' ∉ name → isPort port = true →
    IsBlank blanks → (∀ c ∈ dots, c = '.') →
      ruleHostText raw ≠ name ++ ':' :: port ++ blanks ++ dots
  dot : ∀ front blanks dots, IsBlank blanks → blanks ≠ [] → (∀ c ∈ dots, c = '.') →
    ruleHostText raw ≠ front ++ '.' :: blanks ++ dots

lemma mem_trim_of_mem_ruleHostText {c : Char} (h : c ∈ ruleHostText raw) : c ∈ trim raw := by
  unfold ruleHostText at h
  split at h
  · rename_i rest hraw
    rw [hraw]
    exact List.mem_cons_of_mem _ ((List.takeWhile_prefix _).subset h)
  · split at h
    · rename_i name port hsplit
      split at h
      · rw [splitOnce_eq_some hsplit]
        simp [h]
      · exact h
    · exact h

lemma isDigit_toLower (c : Char) : c.toLower.isDigit = c.isDigit := by
  rcases toLower_eq_or_isUpper c with hc | ⟨hupper, hlower⟩
  · rw [hc]
  · have hletter : ∀ d : Char, 65 ≤ d.toNat → d.isDigit = false := by
      intro d hd
      have hd' : ¬ d.toNat ≤ 57 := by omega
      simp only [Char.isDigit, UInt32.le_iff_toNat_le]
      simpa using fun _ => hd'
    simp only [Char.isUpper.eq_def, Char.isLower.eq_def, Bool.and_eq_true, decide_eq_true_eq,
      ge_iff_le, UInt32.le_iff_toNat_le] at hupper hlower
    rw [hletter _ (le_trans (by decide) hlower.1), hletter _ (le_trans (by decide) hupper.1)]

lemma hasPort_map_toLower_iff : HasPort (s.map Char.toLower) ↔ HasPort s := by
  have hcolon : ∀ c : Char, c.toLower = ':' ↔ c = ':' := fun c => toLower_eq_iff (by decide)
  have hport : ∀ port : Text, isPort (port.map Char.toLower) = isPort port := by
    intro port
    have hcomp : Char.isDigit ∘ Char.toLower = Char.isDigit := funext isDigit_toLower
    simp [isPort, List.all_map, hcomp]
  have hmem : ∀ name : Text, ':' ∈ name.map Char.toLower ↔ ':' ∈ name := by
    intro name
    simp [List.mem_map, hcolon]
  constructor
  · rintro ⟨name', port', heq, hname, hnot, hdigits⟩
    obtain ⟨name, rest, rfl, rfl, hrest⟩ := List.map_eq_append_iff.mp heq
    obtain ⟨c, port, rfl, hc, rfl⟩ := List.map_eq_cons_iff.mp hrest
    rw [hport] at hdigits
    rw [hmem] at hnot
    exact ⟨name, port, by rw [(hcolon c).mp hc], by simpa using hname, hnot, hdigits⟩
  · rintro ⟨name, port, rfl, hname, hnot, hdigits⟩
    refine ⟨name.map Char.toLower, port.map Char.toLower, ?_, by simpa using hname, ?_, ?_⟩
    · rw [List.map_append, List.map_cons, (hcolon ':').mpr rfl]
    · rwa [hmem]
    · rwa [hport]

section text

variable {t : Text}

/-- A text around what is left of it once its final dots are dropped and it is trimmed. -/
theorem exists_around (text : Text) : ∃ l r dots,
    text = l ++ trim (text.rdropWhile (· = '.')) ++ r ++ dots ∧ IsBlank l ∧ IsBlank r ∧
      (∀ c ∈ dots, c = '.') ∧
      text.rdropWhile (· = '.') = l ++ trim (text.rdropWhile (· = '.')) ++ r := by
  obtain ⟨dots, htext, hdots⟩ := exists_rdropWhile (fun c => decide (c = '.')) text
  obtain ⟨l, r, hparts, hl, hr⟩ := exists_trim (text.rdropWhile (· = '.'))
  refine ⟨l, r, dots, ?_, hl, hr, fun c hc => of_decide_eq_true (hdots c hc), hparts⟩
  rw [← hparts]
  exact htext

/-- Dropping final dots and trimming, with what stands before the whitespace and the dots. -/
theorem trim_rdropWhile_append {front blanks dots : Text} (hne : t ≠ [])
    (ht : NoSurroundingWhitespace t) (hblanks : IsBlank blanks)
    (hkeep : blanks ≠ [] ∨ t.getLast? ≠ some '.') (hdots : ∀ c ∈ dots, c = '.') :
    trim ((front ++ t ++ blanks ++ dots).rdropWhile (· = '.')) = trimStart front ++ t := by
  have hlast : ∀ c ∈ (front ++ t ++ blanks).getLast?, decide (c = '.') = false := by
    intro c hc
    refine decide_eq_false ?_
    rintro rfl
    by_cases hnil : blanks = []
    · rw [hnil, List.append_nil, List.getLast?_append_of_ne_nil _ hne] at hc
      exact hkeep.elim (fun h => h hnil) fun h => h hc
    · rw [List.getLast?_append_of_ne_nil _ hnil] at hc
      cases hblanks '.' (List.mem_of_getLast? hc)
  rw [rdropWhile_append_of_forall (fun c hc => decide_eq_true (hdots c hc)) hlast]
  exact trim_append_right hne ht hblanks

variable (h : trim (s.rdropWhile (· = '.')) = t)
include h

lemma head?_trimmed (hne : t ≠ [])
    (hblank : ∀ c ∈ t, isWhitespace c = false) : (trimStart s).head? = t.head? := by
  obtain ⟨l, r, dots, hs, hl, -, -, -⟩ := exists_around s
  rw [h] at hs
  obtain ⟨c, rest, rfl⟩ := List.exists_cons_of_ne_nil hne
  have hc : ¬ isWhitespace c = true := by simp [hblank c List.mem_cons_self]
  rw [hs, trimStart, List.append_assoc, List.append_assoc, List.dropWhile_append_of_pos hl,
    List.cons_append, List.dropWhile_cons_of_neg hc]
  rfl

lemma hasPort_trimmed_iff (hblank : ∀ c ∈ t, isWhitespace c = false) :
    HasPort t ↔ ∃ name port blanks dots, trim name ≠ [] ∧ ':' ∉ name ∧ isPort port = true ∧
      IsBlank blanks ∧ (∀ c ∈ dots, c = '.') ∧ s = name ++ ':' :: port ++ blanks ++ dots := by
  constructor
  · rintro ⟨name, port, rfl, hname, hnot, hport⟩
    obtain ⟨l, r, dots, hs, hl, hr, hdots, -⟩ := exists_around s
    rw [h] at hs
    refine ⟨l ++ name, port, r, dots, ?_, ?_, hport, hr, hdots, by rw [hs]; simp⟩
    · refine trim_ne_nil (by simp [hname]) (noTrailingWhitespace_append hname fun c hc => ?_)
      exact hblank c (List.mem_append_left _ (List.mem_of_getLast? hc))
    · rw [List.mem_append, not_or]
      exact ⟨fun hmem => absurd (hl ':' hmem) (by decide), hnot⟩
  · rintro ⟨name, port, blanks, dots, hname, hnot, hport, hblanks, hdots, rfl⟩
    obtain ⟨hne, hdigits⟩ := isPort_eq_true_iff.mp hport
    have hlast : ∀ c ∈ (':' :: port).getLast?, c ∈ port := by
      intro c hc
      rw [← List.singleton_append, List.getLast?_append_of_ne_nil _ hne] at hc
      exact List.mem_of_getLast? hc
    have hends : NoSurroundingWhitespace (':' :: port) :=
      ⟨by simp [isWhitespace], fun c hc => (isPort_mem hport (hlast c hc)).2.2⟩
    rw [trim_rdropWhile_append (List.cons_ne_nil _ _) hends hblanks
      (.inr fun hdot => (isPort_mem hport (hlast '.' hdot)).2.1 rfl) hdots] at h
    refine ⟨trimStart name, port, h.symm, ?_, fun hmem => hnot ?_, hport⟩
    · intro hnil
      rw [trim, hnil] at hname
      exact hname rfl
    · exact (List.dropWhile_suffix _).subset hmem

lemma getLast?_trimmed_iff :
    t.getLast? = some '.' ↔ ∃ front blanks dots, IsBlank blanks ∧ blanks ≠ [] ∧
      (∀ c ∈ dots, c = '.') ∧ s = front ++ '.' :: blanks ++ dots := by
  constructor
  · intro hlast
    obtain ⟨front, rfl⟩ := List.getLast?_eq_some_iff.mp hlast
    obtain ⟨l, r, dots, hs, -, hr, hdots, hkept⟩ := exists_around s
    rw [h] at hs hkept
    refine ⟨l ++ front, r, dots, hr, ?_, hdots, by rw [hs]; simp⟩
    rintro rfl
    -- the dots before the whitespace are the final ones, and these were dropped
    have hdot := getLast?_rdropWhile (fun c => decide (c = '.')) s
    rw [hkept] at hdot
    cases hdot '.' (by simp)
  · rintro ⟨front, blanks, dots, hblanks, hne, hdots, rfl⟩
    have hdot : NoSurroundingWhitespace ['.'] := by decide
    have hparts : front ++ '.' :: blanks ++ dots = front ++ ['.'] ++ blanks ++ dots := by simp
    rw [hparts, trim_rdropWhile_append (List.cons_ne_nil _ _) hdot hblanks (.inl hne) hdots] at h
    rw [← h]
    simp

end text

/-- **Reading a stored host again.** The host that an accepted text leads to is accepted and
returned again exactly when the text is settled at once. -/
theorem normalizeNetworkRuleHost_stable_iff (h : normalizeNetworkRuleHost raw = .ok host) :
    normalizeNetworkRuleHost host = .ok host ↔ SettledAtOnce raw := by
  obtain ⟨hurl, -, hhost, hne, hstar, hblank⟩ := normalizeNetworkRuleHost_eq_ok_iff.mp h
  obtain ⟨t, ht⟩ : ∃ t, trim ((ruleHostText raw).rdropWhile (· = '.')) = t := ⟨_, rfl⟩
  rw [ht] at hhost
  have htne : t ≠ [] := by
    rintro rfl
    exact hne hhost
  have htblank : ∀ c ∈ t, isWhitespace c = false := by
    intro c hc
    rw [← isWhitespace_toLower]
    exact hblank _ (hhost ▸ List.mem_map_of_mem hc)
  have hhosturl : ∀ c ∈ urlChars, c ∉ host := by
    intro c hc hmem
    rw [hhost] at hmem
    obtain ⟨d, hd, hdc⟩ := List.mem_map.mp hmem
    have hplain : ∀ c ∈ urlChars, c.isAlpha = false := by decide
    obtain rfl := (toLower_eq_iff (hplain c hc)).mp hdc
    obtain ⟨l, r, dots, hparts, -⟩ := exists_around (ruleHostText raw)
    rw [ht] at hparts
    refine hurl d hc (mem_trim_of_mem_ruleHostText ?_)
    rw [hparts]
    simp [hd]
  have hchar : ∀ c : Char, c.isAlpha = false → ∀ o : Option Char,
      o.map Char.toLower = some c ↔ o = some c := by
    intro c hc o
    rw [Option.map_eq_some_iff]
    constructor
    · rintro ⟨d, rfl, hd⟩
      rw [(toLower_eq_iff hc).mp hd]
    · rintro rfl
      exact ⟨c, rfl, (toLower_eq_iff hc).mpr rfl⟩
  rw [normalizeNetworkRuleHost_self_iff hhosturl (hhost ▸ isLower_map_toLower t) hne hstar hblank,
    hhost, hasPort_map_toLower_iff, List.head?_map, List.getLast?_map, ne_eq, ne_eq,
    hchar '[' (by decide), hchar '.' (by decide), ← head?_trimmed ht htne htblank,
    hasPort_trimmed_iff ht htblank, getLast?_trimmed_iff ht]
  constructor
  · rintro ⟨hbracket, hport, hdot⟩
    refine ⟨hbracket, ?_, ?_⟩
    · intro name port blanks dots hname hcolon hdigits hblanks hdots heq
      exact hport ⟨name, port, blanks, dots, hname, hcolon, hdigits, hblanks, hdots, heq⟩
    · intro front blanks dots hblanks hne hdots heq
      exact hdot ⟨front, blanks, dots, hblanks, hne, hdots, heq⟩
  · rintro ⟨hbracket, hport, hdot⟩
    refine ⟨hbracket, ?_, ?_⟩
    · rintro ⟨name, port, blanks, dots, hname, hcolon, hdigits, hblanks, hdots, heq⟩
      exact hport name port blanks dots hname hcolon hdigits hblanks hdots heq
    · rintro ⟨front, blanks, dots, hblanks, hne, hdots, heq⟩
      exact hdot front blanks dots hblanks hne hdots heq

/-- A port before a final dot is kept, and taken off when the stored host is read. -/
theorem normalizeNetworkRuleHost_not_stable :
    ¬ ∀ raw host, normalizeNetworkRuleHost raw = .ok host →
      normalizeNetworkRuleHost host = .ok host := by
  intro h
  have honce : normalizeNetworkRuleHost "example.com:443.".toList =
      .ok "example.com:443".toList := by
    decide +kernel
  have htwice : normalizeNetworkRuleHost "example.com:443".toList = .ok "example.com".toList := by
    decide +kernel
  have hsame := h _ _ honce
  rw [htwice, Except.ok.injEq] at hsame
  cases hsame

/-- A name is stored as it is read. -/
theorem normalizeNetworkRuleHost_stable_iff_example :
    normalizeNetworkRuleHost "example.com".toList = .ok "example.com".toList ↔
      SettledAtOnce " Example.com:443 ".toList :=
  normalizeNetworkRuleHost_stable_iff (by decide +kernel)

end Codex.ExecPolicy
