import Codex.Lib.FirstMarker

/-!
# Hidden inline tags in streamed text

`utils/stream-parser/src/{stream_text,inline_hidden_tag,citation}.rs`: text is pushed in chunks, the
content of tags is extracted, and an end of the text that may start a tag is held back.

The loop of `push_str` is bounded by the length of the pending text: each turn that goes on removes
a tag from it (`scan_of_le`). A parser whose openers do not occur in each other does not see where
its text was cut.
-/

namespace Codex.StreamParser

open Codex.Lib

/-! ### Parsed chunks -/

structure StreamTextChunk (α : Type) where
  visibleText : Text := []
  extracted : List α := []

/-- One chunk after the other. -/
def StreamTextChunk.append {α : Type} (chunk next : StreamTextChunk α) : StreamTextChunk α :=
  ⟨chunk.visibleText ++ next.visibleText, chunk.extracted ++ next.extracted⟩

lemma StreamTextChunk.append_assoc {α : Type} (a b c : StreamTextChunk α) :
    (a.append b).append c = a.append (b.append c) := by
  simp only [append, List.append_assoc]

/-! ### The parser -/

/-- `InlineTagSpec`; `InlineHiddenTagParser::new` asserts that no tag is empty -/
structure InlineTagSpec (T : Type) where
  tag : T
  openTag : Text
  closeTag : Text
  openTag_ne : openTag ≠ []
  closeTag_ne : closeTag ≠ []

structure ExtractedInlineTag (T : Type) where
  tag : T
  content : Text

structure ActiveTag (T : Type) where
  tag : T
  closeTag : Text
  content : Text
  closeTag_ne : closeTag ≠ []

structure InlineHiddenTagParser (T : Type) where
  specs : List (InlineTagSpec T)
  pending : Text := []
  active : Option (ActiveTag T) := none

def find (s needle : Text) : Option ℕ := (splitOnce needle s).map fun split => split.1.length

/-- `longest_suffix_prefix_len`; the loop from `max` down is `Nat.findGreatest` -/
def longestSuffixPrefixLen (s needle : Text) : ℕ := overlapLen s needle

namespace InlineHiddenTagParser

variable {T : Type}

/-- The comparison of `find_next_open`; the index of a spec is compared last -/
def opensBefore (a b : ℕ × InlineTagSpec T) : Bool :=
  decide (a.1 < b.1) || (a.1 == b.1 && decide (b.2.openTag.length < a.2.openTag.length))

/-- The `min_by` of `find_next_open`, one candidate after the other -/
def firstOpen (best : Option (ℕ × InlineTagSpec T)) (candidate : ℕ × InlineTagSpec T) :
    Option (ℕ × InlineTagSpec T) :=
  match best with
  | none => some candidate
  | some best => if opensBefore candidate best then some candidate else some best

variable (parser : InlineHiddenTagParser T)

/-- `InlineHiddenTagParser::find_next_open`, with the spec itself for its index -/
def findNextOpen : Option (ℕ × InlineTagSpec T) :=
  (parser.specs.filterMap fun spec =>
    (find parser.pending spec.openTag).map fun pos => (pos, spec)).foldl firstOpen none

def maxOpenPrefixSuffixLen : ℕ :=
  (parser.specs.map fun spec => longestSuffixPrefixLen parser.pending spec.openTag).foldl max 0

/-- The loop of `push_str` -/
def scanTurns : ℕ → InlineHiddenTagParser T →
    StreamTextChunk (ExtractedInlineTag T) × InlineHiddenTagParser T
  | 0, parser => ({}, parser)
  | turns + 1, parser =>
    match parser.active with
    | some active =>
      match find parser.pending active.closeTag with
      | some closeIdx =>
        let extracted := ⟨active.tag, active.content ++ parser.pending.take closeIdx⟩
        let (out, parser) := scanTurns turns
          { parser with
            pending := parser.pending.drop (closeIdx + active.closeTag.length)
            active := none }
        (StreamTextChunk.append { extracted := [extracted] } out, parser)
      | none =>
        let keep := longestSuffixPrefixLen parser.pending active.closeTag
        let take := parser.pending.length - keep
        ({}, { parser with
          active := some { active with content := active.content ++ parser.pending.take take }
          pending := parser.pending.drop take })
    | none =>
      match parser.findNextOpen with
      | some (openIdx, spec) =>
        let (out, parser') := scanTurns turns
          { parser with
            pending := parser.pending.drop (openIdx + spec.openTag.length)
            active := some ⟨spec.tag, spec.closeTag, [], spec.closeTag_ne⟩ }
        (StreamTextChunk.append { visibleText := parser.pending.take openIdx } out, parser')
      | none =>
        let take := parser.pending.length - parser.maxOpenPrefixSuffixLen
        ({ visibleText := parser.pending.take take },
          { parser with pending := parser.pending.drop take })

/-- The loop of `push_str`, with as many turns as it can need. -/
def scan : StreamTextChunk (ExtractedInlineTag T) × InlineHiddenTagParser T :=
  scanTurns (parser.pending.length + 1) parser

def pushStr (chunk : Text) : StreamTextChunk (ExtractedInlineTag T) × InlineHiddenTagParser T :=
  scan { parser with pending := parser.pending ++ chunk }

def finish : StreamTextChunk (ExtractedInlineTag T) × InlineHiddenTagParser T :=
  match parser.active with
  | some active =>
    ({ extracted := [⟨active.tag, active.content ++ parser.pending⟩] },
      { parser with active := none, pending := [] })
  | none => ({ visibleText := parser.pending }, { parser with pending := [] })

/-! ### The turns -/

variable {s needle : Text}

lemma find_eq_some {pos : ℕ} (h : find s needle = some pos) :
    ∃ before rest, splitOnce needle s = some (before, rest) ∧ pos = before.length ∧
      s.take pos = before ∧ s.drop (pos + needle.length) = rest := by
  obtain ⟨⟨before, rest⟩, hsplit, rfl⟩ := Option.map_eq_some_iff.mp h
  have hs := splitOnce_eq_some hsplit
  refine ⟨before, rest, hsplit, rfl, ?_, ?_⟩
  · rw [hs, List.append_assoc, List.take_left]
  · rw [hs, ← List.length_append, List.drop_left]

lemma find_eq_none : find s needle = none ↔ splitOnce needle s = none :=
  Option.map_eq_none_iff

/-- A tag that was found is removed from what is pending. -/
theorem length_drop_find {pos : ℕ} (h : find s needle = some pos)
    (hne : needle ≠ []) : (s.drop (pos + needle.length)).length < s.length := by
  obtain ⟨before, rest, hsplit, -, -, hdrop⟩ := find_eq_some h
  have hpos := List.length_pos_of_ne_nil hne
  rw [hdrop, splitOnce_eq_some hsplit, List.length_append, List.length_append]
  omega

variable {candidates : List (ℕ × InlineTagSpec T)}

lemma foldl_firstOpen_mem {best : Option (ℕ × InlineTagSpec T)} {found : ℕ × InlineTagSpec T}

    (h : candidates.foldl firstOpen best = some found) :
    best = some found ∨ found ∈ candidates := by
  induction candidates generalizing best with
  | nil => exact Or.inl h
  | cons candidate candidates ih =>
    rcases ih h with hbest | hmem
    · cases best with
      | none =>
        cases hbest
        exact Or.inr List.mem_cons_self
      | some best =>
        rw [firstOpen] at hbest
        split_ifs at hbest
        · cases hbest
          exact Or.inr List.mem_cons_self
        · exact Or.inl hbest
    · exact Or.inr (List.mem_cons_of_mem _ hmem)

variable {a b : ℕ × InlineTagSpec T} {parser : InlineHiddenTagParser T} {spec : InlineTagSpec T}

lemma find_of_findNextOpen {pos : ℕ} (h : parser.findNextOpen = some (pos, spec)) :
    find parser.pending spec.openTag = some pos := by
  have hmem := (foldl_firstOpen_mem h).resolve_left nofun
  obtain ⟨spec', -, hspec⟩ := List.mem_filterMap.mp hmem
  obtain ⟨pos', hfind, hpair⟩ := Option.map_eq_some_iff.mp hspec
  cases hpair
  exact hfind

/-- More turns than characters are pending change nothing. -/
theorem scan_of_le {turns : ℕ} (h : parser.pending.length < turns) :
    scanTurns turns parser = scan parser := by
  suffices hsame : ∀ (turns turns' : ℕ) (parser : InlineHiddenTagParser T),
      parser.pending.length < turns → parser.pending.length < turns' →
        scanTurns turns parser = scanTurns turns' parser from
    hsame turns _ parser h (Nat.lt_succ_self _)
  intro turns
  induction turns with
  | zero => exact fun _ _ h => absurd h (Nat.not_lt_zero _)
  | succ turns ih =>
    intro turns' parser h h'
    obtain ⟨turns', rfl⟩ : ∃ n, turns' = n + 1 := ⟨turns' - 1, by omega⟩
    rw [scanTurns, scanTurns]
    cases parser.active with
    | some active =>
      dsimp only
      cases hfind : find parser.pending active.closeTag with
      | none => rfl
      | some closeIdx =>
        have hless := length_drop_find hfind active.closeTag_ne
        dsimp only
        rw [ih turns' _ (by simp only; omega) (by simp only; omega)]
    | none =>
      dsimp only
      cases hopen : parser.findNextOpen with
      | none => rfl
      | some found =>
        obtain ⟨openIdx, spec⟩ := found
        have hless := length_drop_find (find_of_findNextOpen hopen) spec.openTag_ne
        dsimp only
        rw [ih turns' _ (by simp only; omega) (by simp only; omega)]

/-! ### The opener that is found -/

variable (specs : List (InlineTagSpec T))

/-- The openers can be told apart. -/
abbrev SeparateOpeners : Prop :=
  Separate InlineTagSpec.openTag specs

lemma openTags_ne : ∀ spec ∈ specs, spec.openTag ≠ [] :=
  fun spec _ => spec.openTag_ne

variable {specs : List (InlineTagSpec T)} {pending before rest : Text}

lemma opensBefore_of_lt (h : a.1 < b.1) : opensBefore a b = true := by
  rw [opensBefore, decide_eq_true h, Bool.true_or]

lemma le_of_not_opensBefore (h : opensBefore a b = false) : b.1 ≤ a.1 := by
  by_contra hlt
  simp [opensBefore_of_lt (not_le.mp hlt)] at h

lemma le_of_opensBefore (h : opensBefore a b = true) : a.1 ≤ b.1 := by
  simp only [opensBefore, Bool.or_eq_true, decide_eq_true_eq, Bool.and_eq_true, beq_iff_eq] at h
  omega

/-- The opener that is chosen stands before all candidates. -/
theorem foldl_firstOpen_le {best found : ℕ × InlineTagSpec T}

    (h : candidates.foldl firstOpen (some best) = some found) :
    found.1 ≤ best.1 ∧ ∀ candidate ∈ candidates, found.1 ≤ candidate.1 := by
  induction candidates generalizing best with
  | nil =>
    cases h
    exact ⟨le_rfl, nofun⟩
  | cons candidate candidates ih =>
    rw [List.foldl_cons, firstOpen] at h
    rw [List.forall_mem_cons]
    split_ifs at h with hbefore
    · obtain ⟨hle, hrest⟩ := ih h
      exact ⟨hle.trans (le_of_opensBefore hbefore), hle, hrest⟩
    · obtain ⟨hle, hrest⟩ := ih h
      rw [Bool.not_eq_true] at hbefore
      exact ⟨hle, hle.trans (le_of_not_opensBefore hbefore), hrest⟩

lemma exists_foldl_firstOpen (best : ℕ × InlineTagSpec T)
    (candidates : List (ℕ × InlineTagSpec T)) :
    ∃ found, candidates.foldl firstOpen (some best) = some found := by
  induction candidates generalizing best with
  | nil => exact ⟨best, rfl⟩
  | cons candidate candidates ih =>
    rw [List.foldl_cons, firstOpen]
    split_ifs
    · exact ih candidate
    · exact ih best

/-- Where the leftmost opener stands, its own search finds it. -/
theorem find_of_splitFirst {text before rest : Text}
    (h : splitFirst InlineTagSpec.openTag specs text = some (before, spec, rest)) :
    find text spec.openTag = some before.length := by
  obtain ⟨hmem, htext, hstart⟩ := splitFirst_eq_some h
  have hhere : splitOnce spec.openTag (spec.openTag ++ rest) = some ([], rest) := by
    obtain ⟨c, s, hopen⟩ := List.exists_cons_of_ne_nil spec.openTag_ne
    have hstrip := stripPrefix_append spec.openTag rest
    rw [hopen, List.cons_append] at hstrip ⊢
    rw [splitOnce, hstrip]
  have hskip : splitOnce spec.openTag (before ++ (spec.openTag ++ rest)) = some (before, rest) := by
    rw [splitOnce_append_left fun a b hbefore hb => hstart a b hbefore hb spec hmem, hhere,
      Option.map_some]
    dsimp only
    rw [List.append_nil]
  rw [find, htext, hskip]
  rfl

/-- **The opener that is found is the leftmost one.** -/
theorem findNextOpen_eq (hsep : SeparateOpeners specs) (pending : Text)
    (active : Option (ActiveTag T)) :
    findNextOpen ⟨specs, pending, active⟩ =
      (splitFirst InlineTagSpec.openTag specs pending).map fun (before, spec, _) =>
        (before.length, spec) := by
  cases hfirst : splitFirst InlineTagSpec.openTag specs pending with
  | none =>
    have hnone : (specs.filterMap fun spec =>
        (find pending spec.openTag).map fun pos => (pos, spec)) = [] := by
      rw [List.filterMap_eq_nil_iff]
      intro spec hspec
      rw [Option.map_eq_none_iff, find_eq_none]
      cases hsplit : splitOnce spec.openTag pending with
      | none => rfl
      | some split =>
        have hinfix : spec.openTag <:+: pending :=
          ⟨split.1, split.2, (splitOnce_eq_some hsplit).symm⟩
        exact absurd hinfix (splitFirst_eq_none (openTags_ne specs) hfirst hspec)
    rw [findNextOpen]
    dsimp only
    rw [hnone]
    rfl
  | some first =>
    obtain ⟨before, spec, rest⟩ := first
    obtain ⟨hmem, hpending, hstart⟩ := splitFirst_eq_some hfirst
    have hcandidate : (before.length, spec) ∈ specs.filterMap fun spec =>
        (find pending spec.openTag).map fun pos => (pos, spec) :=
      List.mem_filterMap.mpr ⟨spec, hmem, by rw [find_of_splitFirst hfirst]; rfl⟩
    obtain ⟨found, hfound⟩ : ∃ found, (specs.filterMap fun spec =>
        (find pending spec.openTag).map fun pos => (pos, spec)).foldl firstOpen none =
          some found := by
      obtain ⟨candidate, candidates, hcons⟩ := List.exists_cons_of_ne_nil
        (List.ne_nil_of_mem hcandidate)
      rw [hcons, List.foldl_cons]
      exact exists_foldl_firstOpen candidate candidates
    have hle : found.1 ≤ before.length := by
      obtain ⟨candidate, candidates, hcons⟩ := List.exists_cons_of_ne_nil
        (List.ne_nil_of_mem hcandidate)
      rw [hcons, List.foldl_cons] at hfound
      rw [hcons] at hcandidate
      obtain ⟨hhead, hrest⟩ := foldl_firstOpen_le hfound
      rcases List.mem_cons.mp hcandidate with rfl | hin
      · exact hhead
      · exact hrest _ hin
    obtain ⟨pos, spec'⟩ := found
    -- the chosen opener stands where the leftmost one does, and so is the same
    have hspec' : spec' ∈ specs := by
      have hin := (foldl_firstOpen_mem hfound).resolve_left nofun
      obtain ⟨other, hother, hmap⟩ := List.mem_filterMap.mp hin
      obtain ⟨_, -, hpair⟩ := Option.map_eq_some_iff.mp hmap
      rwa [(Prod.mk.inj hpair).2] at hother
    have hfind : find pending spec'.openTag = some pos :=
      @find_of_findNextOpen _ ⟨specs, pending, active⟩ _ _ hfound
    obtain ⟨before', rest', hsplit, rfl, -, -⟩ := find_eq_some hfind
    have hboth := (splitOnce_eq_some hsplit).symm.trans hpending
    rw [List.append_assoc] at hboth
    obtain ⟨middle, hmiddle⟩ : before' <+: before :=
      List.prefix_of_prefix_length_le ⟨_, hboth⟩ (List.prefix_append _ _) hle
    have htail : spec'.openTag ++ rest' = middle ++ (spec.openTag ++ rest) := by
      rw [← hmiddle, List.append_assoc] at hboth
      exact List.append_cancel_left hboth
    have hmiddle_nil : middle = [] := by
      by_contra hne
      exact hstart before' middle hmiddle.symm hne spec' hspec' ⟨rest', htail⟩
    rw [hmiddle_nil, List.nil_append] at htail
    rw [hmiddle_nil, List.append_nil] at hmiddle
    have hsame : spec' = spec := by
      have hone : spec.openTag <+: spec'.openTag ++ rest' := ⟨rest, htail.symm⟩
      rcases List.prefix_or_prefix_of_prefix (List.prefix_append spec'.openTag rest') hone with
        hinit | hinit
      · exact hsep.eq_of_infix hspec' hmem hinit.isInfix
      · exact (hsep.eq_of_infix hmem hspec' hinit.isInfix).symm
    rw [Option.map_some, ← hsame, ← hmiddle]
    exact hfound

/-! ### What a turn does -/

lemma scan_active_of_some {tag : T} {closeTag content : Text} (hne : closeTag ≠ [])
    (h : splitOnce closeTag pending = some (before, rest)) :
    scan ⟨specs, pending, some ⟨tag, closeTag, content, hne⟩⟩ =
      (StreamTextChunk.append { extracted := [⟨tag, content ++ before⟩] }
        (scan ⟨specs, rest, none⟩).1, (scan ⟨specs, rest, none⟩).2) := by
  have hfind : find pending closeTag = some before.length := by rw [find, h]; rfl
  obtain ⟨before', rest', hsplit, -, htake, hdrop⟩ := find_eq_some hfind
  obtain ⟨rfl, rfl⟩ := Prod.mk.inj (Option.some.inj (hsplit.symm.trans h))
  have hless := length_drop_find hfind hne
  rw [hdrop] at hless
  rw [scan, scanTurns]
  dsimp only
  rw [hfind]
  dsimp only
  rw [htake, hdrop, scan_of_le hless]

lemma scan_active_of_none {tag : T} {closeTag content : Text} (hne : closeTag ≠ [])
    (h : splitOnce closeTag pending = none) :
    scan ⟨specs, pending, some ⟨tag, closeTag, content, hne⟩⟩ =
      ({}, ⟨specs, overlap pending closeTag,
        some ⟨tag, closeTag, content ++ beforeOverlap pending closeTag, hne⟩⟩) := by
  rw [scan, scanTurns]
  dsimp only
  rw [find_eq_none.mpr h]
  dsimp only [longestSuffixPrefixLen]
  rw [drop_overlap]
  rfl

lemma scan_idle_of_some (hsep : SeparateOpeners specs)
    (h : splitFirst InlineTagSpec.openTag specs pending = some (before, spec, rest)) :
    scan ⟨specs, pending, none⟩ = (StreamTextChunk.append { visibleText := before }
        (scan ⟨specs, rest, some ⟨spec.tag, spec.closeTag, [], spec.closeTag_ne⟩⟩).1,
        (scan ⟨specs, rest, some ⟨spec.tag, spec.closeTag, [], spec.closeTag_ne⟩⟩).2) := by
  obtain ⟨-, hpending, -⟩ := splitFirst_eq_some h
  have htake : pending.take before.length = before := by
    rw [hpending, List.take_left]
  have hdrop : pending.drop (before.length + spec.openTag.length) = rest := by
    rw [hpending, ← List.append_assoc, ← List.length_append, List.drop_left]
  have hless := length_drop_find (find_of_splitFirst h) spec.openTag_ne
  rw [hdrop] at hless
  rw [scan, scanTurns]
  dsimp only
  rw [findNextOpen_eq hsep, h]
  dsimp only [Option.map_some]
  rw [htake, hdrop, scan_of_le hless]

lemma scan_idle_of_none (hsep : SeparateOpeners specs)
    (h : splitFirst InlineTagSpec.openTag specs pending = none) :
    scan ⟨specs, pending, none⟩ =
      ({ visibleText :=
          pending.take (pending.length - keepLen InlineTagSpec.openTag specs pending) },
        ⟨specs, pending.drop (pending.length - keepLen InlineTagSpec.openTag specs pending),
          none⟩) := by
  rw [scan, scanTurns]
  dsimp only
  rw [findNextOpen_eq hsep, h]
  rfl

lemma specs_scanTurns (turns : ℕ) (parser : InlineHiddenTagParser T) :
    (scanTurns turns parser).2.specs = parser.specs := by
  induction turns generalizing parser with
  | zero => rfl
  | succ turns ih =>
    rw [scanTurns]
    cases parser.active with
    | some active =>
      dsimp only
      cases find parser.pending active.closeTag with
      | some closeIdx => exact ih _
      | none => rfl
    | none =>
      dsimp only
      cases parser.findNextOpen with
      | some found => exact ih _
      | none => rfl

lemma specs_pushStr (parser : InlineHiddenTagParser T) (chunk : Text) :
    (parser.pushStr chunk).2.specs = parser.specs :=
  specs_scanTurns _ _

/-! ### Where the text is cut -/

/-- What is pending is parsed alike before and after more text is pushed. -/
theorem scan_append (hsep : SeparateOpeners specs) (active : Option (ActiveTag T))
    (pending more : Text) :
    scan ⟨specs, pending ++ more, active⟩ =
      ((scan ⟨specs, pending, active⟩).1.append (pushStr (scan ⟨specs, pending, active⟩).2 more).1,
        (pushStr (scan ⟨specs, pending, active⟩).2 more).2) := by
  -- The induction is on the length of what is pending, which every tag that is found shortens.
  generalize hn : pending.length = n
  induction n using Nat.strong_induction_on generalizing pending active with
  | _ n ih =>
    cases active with
    | some active =>
      obtain ⟨tag, closeTag, content, hne⟩ := active
      cases hsplit : splitOnce closeTag pending with
      | some split =>
        obtain ⟨before, rest⟩ := split
        have hrest : rest.length < n := by
          have hpos := List.length_pos_of_ne_nil hne
          rw [← hn, splitOnce_eq_some hsplit, List.length_append, List.length_append]
          omega
        rw [scan_active_of_some hne hsplit,
          scan_active_of_some hne (splitOnce_append_of_some hsplit more),
          ih rest.length hrest none rest rfl, StreamTextChunk.append_assoc]
      | none =>
        rw [scan_active_of_none hne hsplit, pushStr]
        dsimp only
        have hmore := splitOnce_append_of_none hsplit more
        cases hlater : splitOnce closeTag (overlap pending closeTag ++ more) with
        | some split =>
          obtain ⟨before, rest⟩ := split
          rw [hlater] at hmore
          rw [scan_active_of_some hne hmore, scan_active_of_some hne hlater, List.append_assoc]
          rfl
        | none =>
          rw [hlater] at hmore
          rw [scan_active_of_none hne hmore, scan_active_of_none hne hlater,
            List.append_assoc, ← beforeOverlap_append_text hne, ← overlap_append hne]
          rfl
    | none =>
      cases hsplit : splitFirst InlineTagSpec.openTag specs pending with
      | some found =>
        obtain ⟨before, spec, rest⟩ := found
        have hrest : rest.length < n := by
          have hpos := List.length_pos_of_ne_nil spec.openTag_ne
          rw [← hn, (splitFirst_eq_some hsplit).2.1, List.length_append, List.length_append]
          omega
        rw [scan_idle_of_some hsep hsplit, scan_idle_of_some hsep
            (splitFirst_append_of_some hsep (openTags_ne specs) hsplit more),
          ih rest.length hrest (some ⟨spec.tag, spec.closeTag, [], spec.closeTag_ne⟩) rest rfl,
          StreamTextChunk.append_assoc]
      | none =>
        rw [scan_idle_of_none hsep hsplit, pushStr]
        dsimp only
        have hnone : ∀ spec ∈ specs, ¬spec.openTag <:+: pending :=
          fun spec hspec => splitFirst_eq_none (openTags_ne specs) hsplit hspec
        have hmore := splitFirst_append_of_none hnone
          (fun spec hspec => overlapLen_le_keepLen pending hspec) more
        cases hlater : splitFirst InlineTagSpec.openTag specs
            (pending.drop (pending.length - keepLen InlineTagSpec.openTag specs pending) ++
              more) with
        | some found =>
          obtain ⟨before, spec, rest⟩ := found
          rw [hlater] at hmore
          rw [scan_idle_of_some hsep hmore, scan_idle_of_some hsep hlater,
            ← StreamTextChunk.append_assoc]
          rfl
        | none =>
          rw [hlater] at hmore
          rw [scan_idle_of_none hsep hmore, scan_idle_of_none hsep hlater]
          obtain ⟨htake, hdrop⟩ := keep_append (openTags_ne specs) pending more
          rw [htake, hdrop]
          rfl

/-- **Two pushes are one push of both texts.** -/
theorem pushStr_append (hsep : SeparateOpeners parser.specs) (chunk next : Text) :
    parser.pushStr (chunk ++ next) =
      ((parser.pushStr chunk).1.append ((parser.pushStr chunk).2.pushStr next).1,
        ((parser.pushStr chunk).2.pushStr next).2) := by
  have hscan := scan_append hsep parser.active (parser.pending ++ chunk) next
  rw [List.append_assoc] at hscan
  exact hscan

end InlineHiddenTagParser

end Codex.StreamParser
