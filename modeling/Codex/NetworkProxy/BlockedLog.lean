import Codex.NetworkProxy.Runtime
import Codex.Lib.Run

/-!
# The log of blocked requests

Every write of a whole state carries the log over by hand. `replace_config_state` copies it under
the write lock; `force_reload` copies the entries there but not the total; `reload_if_needed` and
`update_domain_list` write the log that they read under an earlier lock.

* `run_keepsLog`: **where every write finds the log it carries, nothing is lost**;
* `run_losesLog`: a total that is reset, an entry that is lost and one that comes back.
-/

namespace Codex.NetworkProxy

open Codex.Lib

variable {Hook Entry : Type}

/-! ### What the log should be -/

/-- The entries recorded since the last drain, after one more step. -/
def sinceDrainStep (log : List Entry) : Action Hook Entry → List Entry
  | .recordBlocked entry => log ++ [entry]
  | .drainBlocked => []
  | _ => log

/-- The entries recorded in a run since its last drain. -/
def recordedSinceDrain (actions : List (Action Hook Entry)) : List Entry :=
  actions.foldl sinceDrainStep []

/-- The action records an entry. -/
def Action.isRecord : Action Hook Entry → Bool
  | .recordBlocked _ => true
  | _ => false

/-- The buffer holds the last entries since the last drain, and the total counts all of them. -/
def LogKept [DecidableEq Hook] (env : RuntimeEnv Hook) (state : ConfigState Hook Entry)
    (actions : List (Action Hook Entry)) : Prop :=
  (run env state actions).state.blocked = (recordedSinceDrain actions).rtake maxBlockedEvents ∧
    (run env state actions).state.blockedTotal = actions.countP Action.isRecord

variable (proxy : Proxy Hook Entry)

/-- The state carries the log that the proxy holds. -/
def CarriesLog (newState : ConfigState Hook Entry) : Prop :=
  newState.blocked = proxy.state.blocked ∧ newState.blockedTotal = proxy.state.blockedTotal

/-- The condition under which a step keeps the log: a forced reload finds the total of its new
state, the later write of a reload or of a domain update finds the log that was read before, and the
total is not at the end of its range. -/
def KeepsLog : Action Hook Entry → Prop
  | .forceReload newState =>
    brokerUnchanged proxy newState = true → newState.blockedTotal = proxy.state.blockedTotal
  | .recordBlocked _ => proxy.state.blockedTotal < 2 ^ 64 - 1
  | .write i =>
    match proxy.tasks[i]? with
    | some (.reload newState) => CarriesLog proxy newState
    | some (.updateDomain _ _ previous newState) =>
      proxy.state.constraints = newState.constraints → proxy.state.config = previous →
        CarriesLog proxy newState
    | _ => True
  | _ => True

/-! ### Steps -/

variable {env : RuntimeEnv Hook} {proxy : Proxy Hook Entry}

lemma modeRead_state (mode : NetworkMode) : (modeRead env proxy mode).state = proxy.state := by
  simp only [modeRead]
  split
  · rfl
  · rfl

lemma domainRead_state [DecidableEq Hook] (kind : DomainListKind) (host : Text) :
    (domainRead env proxy kind host).state = proxy.state := by
  simp only [domainRead]
  cases hostParse host with
  | none => rfl
  | some host =>
    simp only
    split
    · rfl
    cases validatePolicyAgainstConstraints env.toProxyEnv
        (withDomain proxy.state.config kind host).network proxy.state.constraints with
    | error _ => rfl
    | ok _ =>
      simp only
      split
      · rfl
      · rfl

variable [DecidableEq Hook]

/-- A write under the condition leaves the log alone. -/
theorem writeTask_log {i : ℕ} (h : KeepsLog proxy (.write i)) :
    CarriesLog proxy (step env proxy (.write i)).state := by
  simp only [KeepsLog] at h
  simp only [step]
  cases htask : proxy.tasks[i]? with
  | none => exact ⟨rfl, rfl⟩
  | some task =>
    rw [htask] at h
    cases task with
    | reload newState => exact h
    | setMode mode constraints =>
      simp only [writeTask]
      split
      · exact ⟨rfl, rfl⟩
      · exact ⟨rfl, rfl⟩
    | updateDomain kind host previous newState =>
      simp only [writeTask]
      split
      · exact ⟨rfl, rfl⟩
      · rename_i hsame
        rw [not_or, not_ne_iff, not_ne_iff] at hsame
        exact h hsame.1 hsame.2

omit [DecidableEq Hook] in
lemma recordBlocked_blocked (state : ConfigState Hook Entry) (entry : Entry) :
    (recordBlocked state entry).blocked = (state.blocked ++ [entry]).rtake maxBlockedEvents := by
  rw [List.rtake, recordBlocked]

omit [DecidableEq Hook] in
lemma recordBlocked_total {state : ConfigState Hook Entry} (h : state.blockedTotal < 2 ^ 64 - 1)
    (entry : Entry) : (recordBlocked state entry).blockedTotal = state.blockedTotal + 1 := by
  simp only [recordBlocked]
  omega

lemma rtake_rtake_append (n : ℕ) (log : List Entry) (entry : Entry) :
    (log.rtake n ++ [entry]).rtake n = (log ++ [entry]).rtake n := by
  cases n with
  | zero => rw [List.rtake_zero, List.rtake_zero]
  | succ n =>
    rw [List.rtake_concat_succ, List.rtake_concat_succ]
    congr 1
    rw [List.rtake_eq_reverse_take_reverse, List.rtake_eq_reverse_take_reverse,
      List.rtake_eq_reverse_take_reverse, List.reverse_reverse, List.take_take,
      min_eq_left (Nat.le_succ n)]

/-- **One step** under the condition. -/
theorem step_keepsLog {log : List Entry} {count : ℕ} (action : Action Hook Entry)
    (h : KeepsLog proxy action) (hlog : proxy.state.blocked = log.rtake maxBlockedEvents)
    (hcount : proxy.state.blockedTotal = count) :
    (step env proxy action).state.blocked = (sinceDrainStep log action).rtake maxBlockedEvents ∧
      (step env proxy action).state.blockedTotal = count + if action.isRecord then 1 else 0 := by
  have hsame : ∀ {newState : ConfigState Hook Entry}, CarriesLog proxy newState →
      newState.blocked = log.rtake maxBlockedEvents ∧ newState.blockedTotal = count + 0 :=
    fun hcarries => ⟨hcarries.1.trans hlog, hcarries.2.trans hcount⟩
  have hself : CarriesLog proxy proxy.state := ⟨rfl, rfl⟩
  cases action with
  | reloadRead newState =>
    simp only [step]
    split
    · exact hsame hself
    · exact hsame hself
  | forceReload newState =>
    simp only [step]
    split
    · exact hsame ⟨rfl, h ‹_›⟩
    · exact hsame hself
  | replaceConfigState newState =>
    simp only [step]
    split
    · exact hsame ⟨rfl, rfl⟩
    · exact hsame hself
  | recordBlocked entry =>
    simp only [step, sinceDrainStep, Action.isRecord, if_true]
    refine ⟨?_, ?_⟩
    · rw [recordBlocked_blocked, hlog]
      exact rtake_rtake_append maxBlockedEvents log entry
    · rw [recordBlocked_total h, hcount]
  | drainBlocked => exact ⟨(List.rtake_nil maxBlockedEvents).symm, hcount⟩
  | modeRead mode =>
    simp only [step]
    rw [modeRead_state]
    exact hsame hself
  | domainRead kind host =>
    simp only [step]
    rw [domainRead_state]
    exact hsame hself
  | write i => exact hsame (writeTask_log h)

/-- **Where every write finds the log it carries, nothing is lost**: in a run from a state without
blocked requests, the total counts the recorded entries and the buffer holds the last of them since
the last drain. -/
theorem run_keepsLog (env : RuntimeEnv Hook) (state : ConfigState Hook Entry)
    (actions : List (Action Hook Entry)) (hblocked : state.blocked = [])
    (htotal : state.blockedTotal = 0)
    (h : Throughout (step env) KeepsLog (.start state) actions) : LogKept env state actions := by
  have hrun : ∀ (actions : List (Action Hook Entry)) (proxy : Proxy Hook Entry) (log : List Entry)
      (count : ℕ), Throughout (step env) KeepsLog proxy actions →
      proxy.state.blocked = log.rtake maxBlockedEvents → proxy.state.blockedTotal = count →
      (actions.foldl (step env) proxy).state.blocked =
          (actions.foldl sinceDrainStep log).rtake maxBlockedEvents ∧
        (actions.foldl (step env) proxy).state.blockedTotal =
          count + actions.countP Action.isRecord := by
    intro actions
    induction actions with
    | nil => exact fun proxy log count _ hlog hcount => ⟨hlog, hcount⟩
    | cons action actions ih =>
      intro proxy log count hc hlog hcount
      obtain ⟨hlog', hcount'⟩ := step_keepsLog action hc.1 hlog hcount
      obtain ⟨hblocked, htotal⟩ := ih _ _ _ hc.2 hlog' hcount'
      refine ⟨hblocked, ?_⟩
      rw [List.foldl_cons, htotal, List.countP_cons]
      omega
  have hnil : (Proxy.start state).state.blocked = ([] : List Entry).rtake maxBlockedEvents := by
    rw [List.rtake_nil]
    exact hblocked
  obtain ⟨hlog, hcount⟩ := hrun actions (.start state) [] 0 h hnil htotal
  exact ⟨hlog, hcount.trans (Nat.zero_add _)⟩

/-- Records around a reload, a drain and a replaced state. -/
def keptRun : List (Action Unit ℕ) :=
  [.recordBlocked 1, .reloadRead plainState, .write 0, .drainBlocked,
    .replaceConfigState plainState, .recordBlocked 2]

theorem run_keepsLog_keptRun : LogKept plainEnv plainState keptRun := by
  apply run_keepsLog plainEnv plainState keptRun rfl rfl
  have hfirst : (0 : ℕ) < 2 ^ 64 - 1 := by decide
  have hsecond : (1 : ℕ) < 2 ^ 64 - 1 := by decide
  exact ⟨hfirst, trivial, ⟨rfl, rfl⟩, trivial, trivial, hsecond, trivial⟩

/-- A forced reload resets the total; a reload and a domain update undo what was recorded, or
drained, between their read and their write. -/
theorem run_losesLog :
    ¬ LogKept plainEnv plainState [.recordBlocked 1, .forceReload plainState] ∧
    ¬ LogKept plainEnv plainState [.reloadRead plainState, .recordBlocked 1, .write 0] ∧
    ¬ LogKept plainEnv plainState
      [.domainRead .allow "example.com".toList, .recordBlocked 1, .write 0] ∧
    ¬ LogKept plainEnv plainState
      [.recordBlocked 1, .reloadRead plainState, .drainBlocked, .write 0] := by
  simp only [LogKept]
  decide +kernel

end Codex.NetworkProxy
