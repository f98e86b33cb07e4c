import Codex.Lib.Text
import Mathlib.Data.Finset.Basic

/-!
# Nicknames of agents

`core/src/agent/registry.rs`: a nickname is a name of a pool that is not in use, with the number of
resets as an ordinal behind it. When all names of a pool are in use the registry forgets what is in
use and counts a reset. The pools of the roles share what is in use and the count.

* `Issued.reserve`: what a call keeps;
* `nicknames_nodup`: **no nickname is issued twice**.
-/

namespace Codex.Agent

open Codex.Lib

/-! ### Names -/

/-- `suffix` of `format_agent_nickname` -/
def ordinalSuffix (value : ℕ) : Text :=
  if 11 ≤ value % 100 ∧ value % 100 ≤ 13 then "th".toList
  else
    match value % 10 with
    | 1 => "st".toList
    | 2 => "nd".toList
    | 3 => "rd".toList
    | _ => "th".toList

/-- What is between a name and its ordinal. -/
def nicknameThe : Text := " the ".toList

def formatAgentNickname (name : Text) (nicknameResetCount : ℕ) : Text :=
  match nicknameResetCount with
  | 0 => name
  | resetCount + 1 =>
    let value := resetCount + 1 + 1
    name ++ nicknameThe ++ Nat.toDigits 10 value ++ ordinalSuffix value

example : formatAgentNickname "Plato".toList 20 = "Plato the 21st".toList := by decide +kernel

/-- `IndexedRandom::choose`, for what the generator draws -/
def choose {α : Type} (items : List α) (random : ℕ) : Option α := items[random % items.length]?

/-- `ActiveAgents`, the nicknames -/
structure ActiveNicknames where
  usedAgentNicknames : Finset Text
  nicknameResetCount : ℕ

namespace ActiveNicknames

/-- `ActiveAgents::default` -/
def new : ActiveNicknames := ⟨∅, 0⟩

variable (agents : ActiveNicknames)

/-- `used_agent_nicknames.insert`, also of `register_spawned_thread` -/
def use (agentNickname : Text) : ActiveNicknames :=
  { agents with usedAgentNicknames := insert agentNickname agents.usedAgentNicknames }

def availableNames (names : List Text) : List Text :=
  (names.map fun name => formatAgentNickname name agents.nicknameResetCount).filter
    fun name => name ∉ agents.usedAgentNicknames

/-- `used_agent_nicknames.clear()` and `nickname_reset_count += 1` -/
def reset : ActiveNicknames := ⟨∅, agents.nicknameResetCount + 1⟩

/-- `reserve_agent_nickname`; `random` is what its two choices draw -/
def reserveAgentNickname (names : List Text) (preferred : Option Text)
    (random : ℕ × ℕ) : Option Text × ActiveNicknames :=
  match preferred with
  | some preferred => (some preferred, agents.use preferred)
  | none =>
    if names = [] then (none, agents)
    else
      match choose (agents.availableNames names) random.1 with
      | some name => (some name, agents.use name)
      | none =>
        match choose names random.2 with
        | some name =>
          let agentNickname := formatAgentNickname name (agents.nicknameResetCount + 1)
          (some agentNickname, agents.reset.use agentNickname)
        | none => (none, agents.reset)

end ActiveNicknames

/-! ### Generations -/

variable (value : ℕ)

lemma not_mem_space_ordinal : ' ' ∉ Nat.toDigits 10 value ++ ordinalSuffix value := by
  rw [List.mem_append, not_or]
  constructor
  · intro hmem
    have hdigit := Nat.isDigit_of_mem_toDigits (by decide) (by decide) hmem
    revert hdigit
    decide
  · unfold ordinalSuffix
    split_ifs
    · decide
    · split <;> decide

lemma not_isDigit_head_ordinalSuffix :
    ∃ first rest, ordinalSuffix value = first :: rest ∧ first.isDigit = false := by
  unfold ordinalSuffix
  split_ifs
  · exact ⟨'t', ['h'], by decide, by decide⟩
  · split
    · exact ⟨'s', ['t'], by decide, by decide⟩
    · exact ⟨'n', ['d'], by decide, by decide⟩
    · exact ⟨'r', ['d'], by decide, by decide⟩
    · exact ⟨'t', ['h'], by decide, by decide⟩

/-- The digits of an ordinal are its longest prefix of digits. -/
theorem takeWhile_ordinal :
    (Nat.toDigits 10 value ++ ordinalSuffix value).takeWhile Char.isDigit =
      Nat.toDigits 10 value := by
  obtain ⟨first, rest, hsuffix, hfirst⟩ := not_isDigit_head_ordinalSuffix value
  rw [hsuffix, List.takeWhile_append_of_pos, List.takeWhile_cons_of_neg, List.append_nil]
  · simp [hfirst]
  · intro c hc
    exact Nat.isDigit_of_mem_toDigits (by decide) (by decide) hc

lemma ordinal_injective {m n : ℕ}
    (h : Nat.toDigits 10 m ++ ordinalSuffix m = Nat.toDigits 10 n ++ ordinalSuffix n) : m = n := by
  apply toDigits_injective
  rw [← takeWhile_ordinal m, h, takeWhile_ordinal n]

lemma rtakeWhile_formatAgentNickname (name : Text) (resetCount : ℕ) :
    (formatAgentNickname name (resetCount + 1)).rtakeWhile (· ≠ ' ') =
      Nat.toDigits 10 (resetCount + 2) ++ ordinalSuffix (resetCount + 2) := by
  have hspace := not_mem_space_ordinal (resetCount + 2)
  have hsplit : formatAgentNickname name (resetCount + 1) = name ++ " the".toList ++ ' ' ::
      (Nat.toDigits 10 (resetCount + 2) ++ ordinalSuffix (resetCount + 2)) := by
    simp [formatAgentNickname, nicknameThe]
  rw [hsplit, List.rtakeWhile, List.reverse_append, List.reverse_cons, List.append_assoc,
    List.takeWhile_append_of_pos, List.singleton_append, List.takeWhile_cons_of_neg,
    List.append_nil, List.reverse_reverse]
  · simp
  · intro c hc
    rw [List.mem_reverse] at hc
    refine decide_eq_true ?_
    rintro rfl
    exact hspace hc

/-- **Nicknames of different generations are different**, if the names do not contain ` the `. -/
theorem formatAgentNickname_inj {name name' : Text} {m n : ℕ}
    (hname : ¬ nicknameThe <:+: name) (hname' : ¬ nicknameThe <:+: name')
    (h : formatAgentNickname name m = formatAgentNickname name' n) : m = n := by
  have hcontains : ∀ (name : Text) (k : ℕ), nicknameThe <:+: formatAgentNickname name (k + 1) := by
    intro name k
    exact ⟨name, Nat.toDigits 10 (k + 2) ++ ordinalSuffix (k + 2), by simp [formatAgentNickname]⟩
  cases m with
  | zero =>
    cases n with
    | zero => rfl
    | succ n =>
      have hthe := hcontains name' n
      rw [← h] at hthe
      exact absurd hthe hname
  | succ m =>
    cases n with
    | zero =>
      have hthe := hcontains name m
      rw [h] at hthe
      exact absurd hthe hname'
    | succ n =>
      have hordinal := congrArg (List.rtakeWhile (· ≠ ' ')) h
      rw [rtakeWhile_formatAgentNickname, rtakeWhile_formatAgentNickname] at hordinal
      have hvalue := ordinal_injective hordinal
      omega

/-! ### Runs -/

/-- What happens to the nicknames of a registry. -/
inductive NicknameCall where
  | reserve (names : List Text) (preferred : Option Text) (random : ℕ × ℕ)
  | register (agentNickname : Text)

/-- A registry, and what it has issued without a preference. -/
structure Nicknames where
  agents : ActiveNicknames
  issued : List Text

namespace Nicknames

def new : Nicknames := ⟨.new, []⟩

def step (nicknames : Nicknames) : NicknameCall → Nicknames
  | .reserve names none random =>
    let (agentNickname, agents) := nicknames.agents.reserveAgentNickname names none random
    ⟨agents, nicknames.issued ++ agentNickname.toList⟩
  | .reserve names (some preferred) random =>
    { nicknames with
      agents := (nicknames.agents.reserveAgentNickname names (some preferred) random).2 }
  | .register agentNickname => { nicknames with agents := nicknames.agents.use agentNickname }

def run (calls : List NicknameCall) : Nicknames := calls.foldl step new

end Nicknames

/-- Issued nicknames are different, of an earlier generation or in use. -/
structure Issued (nicknames : Nicknames) : Prop where
  nodup : nicknames.issued.Nodup
  generation : ∀ agentNickname ∈ nicknames.issued, ∃ name generation,
    ¬ nicknameThe <:+: name ∧ agentNickname = formatAgentNickname name generation ∧
      (generation < nicknames.agents.nicknameResetCount ∨
        generation = nicknames.agents.nicknameResetCount ∧
          agentNickname ∈ nicknames.agents.usedAgentNicknames)

section issued

variable {nicknames : Nicknames} {name : Text} {names : List Text} {random : ℕ × ℕ}

lemma Issued.new : Issued .new where
  nodup := List.nodup_nil
  generation _ h := absurd h List.not_mem_nil

lemma Issued.use (h : Issued nicknames) (agentNickname : Text) :
    Issued { nicknames with agents := nicknames.agents.use agentNickname } := by
  refine ⟨h.nodup, ?_⟩
  intro issued hissued
  obtain ⟨name, generation, hname, hformat, hwhen⟩ := h.generation issued hissued
  refine ⟨name, generation, hname, hformat, hwhen.imp_right ?_⟩
  rintro ⟨hnow, hused⟩
  exact ⟨hnow, Finset.mem_insert_of_mem hused⟩

/-- A reset ends the generation of all that was issued. -/
theorem Issued.reset (h : Issued nicknames) :
    Issued { nicknames with agents := nicknames.agents.reset } := by
  refine ⟨h.nodup, ?_⟩
  intro issued hissued
  obtain ⟨name, generation, hname, hformat, hwhen⟩ := h.generation issued hissued
  refine ⟨name, generation, hname, hformat, .inl ?_⟩
  show generation < nicknames.agents.nicknameResetCount + 1
  rcases hwhen with hlt | ⟨hnow, -⟩
  · exact hlt.trans (Nat.lt_succ_self _)
  · rw [hnow]
    exact Nat.lt_succ_self _

/-- A nickname of the current generation that is not in use was never issued. -/
theorem Issued.issue (h : Issued nicknames) (hname : ¬ nicknameThe <:+: name)
    (hnew : formatAgentNickname name nicknames.agents.nicknameResetCount ∉
      nicknames.agents.usedAgentNicknames) :
    Issued ⟨nicknames.agents.use (formatAgentNickname name nicknames.agents.nicknameResetCount),
      nicknames.issued ++ [formatAgentNickname name nicknames.agents.nicknameResetCount]⟩ := by
  have hfresh : formatAgentNickname name nicknames.agents.nicknameResetCount ∉
      nicknames.issued := by
    intro hmem
    obtain ⟨other, generation, hother, hformat, hwhen⟩ := h.generation _ hmem
    rcases hwhen with hlt | ⟨-, hused⟩
    · have hsame := formatAgentNickname_inj hname hother hformat
      omega
    · exact hnew hused
  refine ⟨?_, ?_⟩
  · rw [← List.concat_eq_append]
    exact h.nodup.concat hfresh
  · exact List.forall_mem_append.mpr ⟨(h.use _).generation,
      List.forall_mem_singleton.mpr ⟨name, _, hname, rfl, .inr ⟨rfl, Finset.mem_insert_self _ _⟩⟩⟩

lemma mem_of_choose {α : Type} {items : List α} {n : ℕ} {item : α}
    (h : choose items n = some item) : item ∈ items := List.mem_of_getElem? h

lemma Issued.reserve (h : Issued nicknames) (hnames : ∀ name ∈ names, ¬ nicknameThe <:+: name) :
    Issued (nicknames.step (.reserve names none random)) := by
  simp only [Nicknames.step, ActiveNicknames.reserveAgentNickname]
  by_cases hempty : names = []
  · rw [if_pos hempty, Option.toList_none, List.append_nil]
    exact h
  rw [if_neg hempty]
  cases havailable : choose (nicknames.agents.availableNames names) random.1 with
  | some nickname =>
    obtain ⟨hmem, hnew⟩ := List.mem_filter.mp (mem_of_choose havailable)
    obtain ⟨name, hname, rfl⟩ := List.mem_map.mp hmem
    exact h.issue (hnames name hname) (of_decide_eq_true hnew)
  | none =>
    cases hname : choose names random.2 with
    | some name =>
      exact h.reset.issue (hnames name (mem_of_choose hname)) (Finset.notMem_empty _)
    | none =>
      simp only [Option.toList_none, List.append_nil]
      exact h.reset

/-- The pools that calls without a preference choose from have no name with ` the `. -/
def NicknameCall.Plain : NicknameCall → Prop
  | .reserve names none _ => ∀ name ∈ names, ¬ nicknameThe <:+: name
  | _ => True

lemma Issued.step (h : Issued nicknames) {call : NicknameCall} (hplain : call.Plain) :
    Issued (nicknames.step call) := by
  rcases call with ⟨names, _ | preferred, random⟩ | agentNickname
  · exact h.reserve hplain
  · exact h.use preferred
  · exact h.use agentNickname

/-- **No nickname is issued twice**: in every run, whatever the pools, the draws and the resets, and
whatever comes into use between. -/
theorem nicknames_nodup {calls : List NicknameCall} (hplain : ∀ call ∈ calls, call.Plain) :
    (Nicknames.run calls).issued.Nodup := by
  have hrun : ∀ nicknames : Nicknames, Issued nicknames → Issued (calls.foldl .step nicknames) := by
    induction calls with
    | nil => exact fun _ h => h
    | cons call calls ih =>
      intro nicknames h
      have hstep := h.step (hplain call List.mem_cons_self)
      exact ih (fun other hother => hplain other (List.mem_cons_of_mem _ hother)) _ hstep
  exact (hrun .new Issued.new).nodup

/-- Two pools that share a name, and a reset. -/
theorem nicknames_nodup_twoPools :
    (Nicknames.run [.reserve ["Plato".toList] none (0, 0),
      .reserve ["Plato".toList, "Kant".toList] none (1, 0),
      .reserve ["Plato".toList] none (0, 0)]).issued.Nodup := by
  apply nicknames_nodup
  have hplato : ¬ nicknameThe <:+: "Plato".toList := by decide +kernel
  have hkant : ¬ nicknameThe <:+: "Kant".toList := by decide +kernel
  simp only [List.forall_mem_cons, NicknameCall.Plain]
  exact ⟨⟨hplato, nofun⟩, ⟨hplato, hkant, nofun⟩, ⟨hplato, nofun⟩, nofun⟩

end issued

end Codex.Agent
