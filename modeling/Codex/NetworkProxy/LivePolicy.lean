import Codex.NetworkProxy.Runtime
import Codex.Lib.Run

/-!
# The live policy

A state that is committed satisfies the constraints committed with it, and its sets are compiled
from its domain lists. A domain update commits only over the configuration that it read; the mode is
written into whatever configuration is current, which is sound because no other check reads the
mode.

* `policy_live`: **the policy obeys its constraints in every run, and where every host is its own
  normal form no update is lost**;
* `update_lost`: an update lost to a host with a space at its end.
-/

namespace Codex.NetworkProxy

open Codex.Lib

/-! ### Effective entries -/

section effective

variable {entries : List NetworkDomainPermissionEntry}

variable (entries)

lemma effectiveEntries_append (last : NetworkDomainPermissionEntry) :
    effectiveEntries (entries ++ [last]) = upsertPermission (effectiveEntries entries) last := by
  rw [effectiveEntries, List.foldl_append]
  rfl

lemma rank_injective {p q : NetworkDomainPermission} (h : p.rank = q.rank) : p = q := by
  cases p <;> cases q <;> first | rfl | exact absurd h (by decide)

lemma entry_ext {e f : NetworkDomainPermissionEntry} (hpattern : e.pattern = f.pattern)
    (hrank : e.permission.rank = f.permission.rank) : e = f := by
  obtain ⟨pattern, permission⟩ := e
  obtain rfl : pattern = f.pattern := hpattern
  obtain rfl : permission = f.permission := rank_injective hrank
  rfl

lemma pattern_mem_effectiveEntries (pattern : Text) :
    (∃ e ∈ effectiveEntries entries, e.pattern = pattern) ↔ ∃ e ∈ entries, e.pattern = pattern := by
  induction entries using List.reverseRecOn with
  | nil => rfl
  | append_singleton entries last ih =>
    have hlast : (∃ e ∈ entries ++ [last], e.pattern = pattern) ↔
        (∃ e ∈ entries, e.pattern = pattern) ∨ last.pattern = pattern := by
      simp only [List.mem_append, List.mem_singleton, or_and_right, exists_or, exists_eq_left]
    rw [effectiveEntries_append, hlast, ← ih, upsertPermission]
    split
    · rename_i hany
      obtain ⟨other, hother, heq⟩ := List.any_eq_true.mp hany
      have heq' : other.pattern = last.pattern := of_decide_eq_true heq
      constructor
      · rintro ⟨e, he, rfl⟩
        obtain ⟨o, ho, hmap⟩ := List.mem_map.mp he
        split at hmap
        · rename_i hsame
          exact .inl ⟨o, ho, by rw [← hmap, hsame.1]⟩
        · exact .inl ⟨o, ho, by rw [← hmap]⟩
      · intro hpattern
        have hex : ∃ o ∈ effectiveEntries entries, o.pattern = pattern := by
          rcases hpattern with hex | rfl
          · exact hex
          · exact ⟨other, hother, heq'⟩
        obtain ⟨o, ho, rfl⟩ := hex
        refine ⟨_, List.mem_map_of_mem ho, ?_⟩
        split
        · rename_i hsame
          exact hsame.1.symm
        · rfl
    · simp only [List.mem_append, List.mem_singleton, or_and_right, exists_or, exists_eq_left]

/-- The effective entries are those of the highest permission that their pattern has. -/
theorem mem_effectiveEntries (e : NetworkDomainPermissionEntry) :
    e ∈ effectiveEntries entries ↔
      e ∈ entries ∧ ∀ f ∈ entries, f.pattern = e.pattern →
        f.permission.rank ≤ e.permission.rank := by
  induction entries using List.reverseRecOn generalizing e with
  | nil => simp [effectiveEntries]
  | append_singleton entries last ih =>
    rw [effectiveEntries_append, upsertPermission]
    split
    · rename_i hany
      obtain ⟨other, hother, heq⟩ := List.any_eq_true.mp hany
      have heq' : other.pattern = last.pattern := of_decide_eq_true heq
      rw [List.mem_map]
      constructor
      · rintro ⟨o, ho, hmap⟩
        obtain ⟨hmem, hmax⟩ := (ih o).mp ho
        split at hmap
        · rename_i hlt
          subst hmap
          refine ⟨List.mem_append_right _ (List.mem_singleton.mpr rfl), ?_⟩
          intro f hf hpattern
          rcases List.mem_append.mp hf with hf | hf
          · exact (hmax f hf (hpattern.trans hlt.1.symm)).trans hlt.2.le
          · rw [List.mem_singleton.mp hf]
        · rename_i hnot
          subst hmap
          refine ⟨List.mem_append_left _ hmem, ?_⟩
          intro f hf hpattern
          rcases List.mem_append.mp hf with hf | hf
          · exact hmax f hf hpattern
          · obtain rfl := List.mem_singleton.mp hf
            rw [not_and, not_lt] at hnot
            exact hnot hpattern.symm
      · rintro ⟨hmem, hmax⟩
        rcases List.mem_append.mp hmem with hmem | hmem
        · have hlast := hmax last (List.mem_append_right _ (List.mem_singleton.mpr rfl))
          refine ⟨e, (ih e).mpr ⟨hmem, fun f hf => hmax f (List.mem_append_left _ hf)⟩, ?_⟩
          rw [if_neg]
          rintro ⟨hpattern, hlt⟩
          exact absurd (hlast hpattern.symm) (not_le.mpr hlt)
        · obtain rfl := List.mem_singleton.mp hmem
          refine ⟨other, hother, ?_⟩
          have hle := hmax other (List.mem_append_left _ ((ih other).mp hother).1) heq'
          split
          · rfl
          · rename_i hnot
            rw [not_and, not_lt] at hnot
            exact entry_ext heq' (Nat.le_antisymm hle (hnot heq'))
    · rename_i hany
      have hnone : ∀ f ∈ entries, f.pattern ≠ last.pattern := by
        intro f hf hpattern
        obtain ⟨o, ho, heq⟩ :=
          (pattern_mem_effectiveEntries entries last.pattern).mpr ⟨f, hf, hpattern⟩
        exact hany (List.any_eq_true.mpr ⟨o, ho, decide_eq_true heq⟩)
      rw [List.mem_append, List.mem_singleton, ih]
      constructor
      · rintro (⟨hmem, hmax⟩ | rfl)
        · refine ⟨List.mem_append_left _ hmem, ?_⟩
          intro f hf hpattern
          rcases List.mem_append.mp hf with hf | hf
          · exact hmax f hf hpattern
          · rw [List.mem_singleton.mp hf] at hpattern
            exact absurd hpattern.symm (hnone e hmem)
        · refine ⟨List.mem_append_right _ (List.mem_singleton.mpr rfl), ?_⟩
          intro f hf hpattern
          rcases List.mem_append.mp hf with hf | hf
          · exact absurd hpattern (hnone f hf)
          · rw [List.mem_singleton.mp hf]
      · rintro ⟨hmem, hmax⟩
        rcases List.mem_append.mp hmem with hmem | hmem
        · exact .inl ⟨hmem, fun f hf => hmax f (List.mem_append_left _ hf)⟩
        · exact .inr (List.mem_singleton.mp hmem)

end effective

/-! ### Setting a host -/

section upsert

variable {Hook : Type} {network : NetworkProxySettings Hook} {host other : Text}
  {kind kind' : DomainListKind}

lemma DomainListKind.opposite_permission_ne (kind : DomainListKind) :
    kind.opposite.permission ≠ kind.permission := by
  cases kind with
  | allow => decide
  | deny => decide

lemma mem_entries {pattern : Text} :
    pattern ∈ kind.entries network ↔ (⟨pattern, kind.permission⟩ : NetworkDomainPermissionEntry) ∈
        effectiveEntries (network.domains.getD []) := by
  have hgetD : kind.entries network = ((effectiveEntries (network.domains.getD [])).filter
        (·.permission = kind.permission)).map (·.pattern) := by
    simp only [DomainListKind.entries, NetworkProxySettings.domainEntries]
    cases network.domains with
    | none => rfl
    | some domains =>
      simp only [Option.map_some, Option.getD_some, Option.filter]
      split
      · rfl
      · rename_i hnil
        simpa using hnil
  rw [hgetD, List.mem_map]
  constructor
  · rintro ⟨e, he, rfl⟩
    obtain ⟨hmem, hperm⟩ := List.mem_filter.mp he
    obtain ⟨pattern, permission⟩ := e
    obtain rfl : permission = kind.permission := of_decide_eq_true hperm
    exact hmem
  · intro h
    exact ⟨_, List.mem_filter.mpr ⟨h, decide_eq_true rfl⟩, rfl⟩

lemma listed_iff :
    listed kind network host = true ↔ (∃ entry ∈ kind.entries network, normalizeHost entry = host) ∧
        ∀ entry ∈ kind.opposite.entries network, normalizeHost entry ≠ host := by
  simp only [listed, Bool.and_eq_true, Bool.not_eq_true', List.any_eq_true, List.any_eq_false,
    beq_iff_eq]

variable {permission : NetworkDomainPermission}

/-- What is effective for a pattern of another host stays so. -/
theorem mem_entries_upsert_of_ne (hne : other ≠ normalizeHost host) {pattern : Text}
    (hpattern : normalizeHost pattern = other) :
    pattern ∈ kind.entries (upsertDomainPermission network host permission) ↔
      pattern ∈ kind.entries network := by
  have hmem : ∀ e : NetworkDomainPermissionEntry, e.pattern = pattern →
      (e ∈ ((upsertDomainPermission network host permission).domains.getD []) ↔
        e ∈ network.domains.getD []) := by
    intro e he
    have hkeep : normalizeHost e.pattern ≠ normalizeHost host := by
      rw [he, hpattern]
      exact hne
    have hlast : e ≠ ⟨host, permission⟩ := by
      rintro rfl
      exact hkeep rfl
    simp [upsertDomainPermission, hkeep, hlast]
  rw [mem_entries, mem_entries, mem_effectiveEntries, mem_effectiveEntries, hmem _ rfl]
  refine and_congr_right fun _ => forall_congr' fun f => ?_
  constructor
  · intro h hf heq
    exact h ((hmem f heq).mpr hf) heq
  · intro h hf heq
    exact h ((hmem f heq).mp hf) heq

lemma listed_upsert_of_ne (hne : other ≠ normalizeHost host)
    (h : listed kind network other = true) :
    listed kind (upsertDomainPermission network host permission) other = true := by
  rw [listed_iff] at h ⊢
  obtain ⟨⟨entry, hentry, heq⟩, hopposite⟩ := h
  refine ⟨⟨entry, (mem_entries_upsert_of_ne hne heq).mpr hentry, heq⟩, ?_⟩
  intro pattern hpattern heq'
  exact hopposite pattern ((mem_entries_upsert_of_ne hne heq').mp hpattern) heq'

/-- **A host in normal form that is set is on the list**, and not on the other one. -/
theorem listed_upsert (hnormal : normalizeHost host = host) :
    listed kind (upsertDomainPermission network host kind.permission) host = true := by
  have honly : ∀ e ∈ (upsertDomainPermission network host kind.permission).domains.getD [],
      normalizeHost e.pattern = host → e = ⟨host, kind.permission⟩ := by
    intro e he heq
    simp only [upsertDomainPermission, Option.getD_some, List.mem_append, List.mem_filter,
      List.mem_singleton, bne_iff_ne] at he
    rcases he with ⟨-, hne⟩ | he
    · exact absurd (heq.trans hnormal.symm) hne
    · exact he
  rw [listed_iff]
  constructor
  · refine ⟨host, ?_, hnormal⟩
    rw [mem_entries, mem_effectiveEntries]
    refine ⟨by simp [upsertDomainPermission], ?_⟩
    intro f hf heq
    have hf' : normalizeHost f.pattern = host := by
      rw [heq]
      exact hnormal
    rw [honly f hf hf']
  · intro pattern hpattern heq
    rw [mem_entries, mem_effectiveEntries] at hpattern
    have hperm := congrArg NetworkDomainPermissionEntry.permission (honly _ hpattern.1 heq)
    exact kind.opposite_permission_ne hperm

end upsert

/-! ### Lawful states -/

/-- The configuration satisfies the constraints, and the sets are compiled from its domain lists. -/
structure ConfigState.Lawful {Hook Entry : Type} (env : RuntimeEnv Hook)
    (state : ConfigState Hook Entry) : Prop where
  valid : validatePolicyAgainstConstraints env.toProxyEnv state.config.network
    state.constraints = .ok ()
  denied : compileGlobsetWithPolicy env true (state.config.network.deniedDomains.getD []) =
    some state.denySet
  allowed : compileGlobsetWithPolicy env false (state.config.network.allowedDomains.getD []) =
    some state.allowSet

variable {Hook Entry : Type}

/-- The state is what `buildConfigState` makes of a configuration that satisfies its constraints. -/
def ConfigState.Built (env : RuntimeEnv Hook) (state : ConfigState Hook Entry) : Prop :=
  validatePolicyAgainstConstraints env.toProxyEnv state.config.network state.constraints = .ok () ∧
    buildConfigState env state.config state.constraints = some state

section lawful

variable {Hook Entry : Type} {env : RuntimeEnv Hook} {state newState : ConfigState Hook Entry}
  {config : NetworkProxyConfig Hook} {constraints : NetworkProxyConstraints}

lemma buildConfigState_eq_some (h : buildConfigState env config constraints = some newState) :
    newState.config = config ∧ newState.constraints = constraints ∧
      compileGlobsetWithPolicy env true (config.network.deniedDomains.getD []) =
        some newState.denySet ∧
      compileGlobsetWithPolicy env false (config.network.allowedDomains.getD []) =
        some newState.allowSet := by
  simp only [buildConfigState] at h
  split at h
  · cases h
  split at h
  · cases h
  split at h
  · cases h
  obtain ⟨denySet, hdeny, h⟩ := Option.bind_eq_some_iff.mp h
  obtain ⟨allowSet, hallow, h⟩ := Option.bind_eq_some_iff.mp h
  split at h
  · cases h
  split at h
  · cases h
  cases h
  exact ⟨rfl, rfl, hdeny, hallow⟩

/-- What is built from a valid configuration is lawful. -/
theorem lawful_of_build
    (hvalid : validatePolicyAgainstConstraints env.toProxyEnv config.network constraints = .ok ())
    (h : buildConfigState env config constraints = some newState) : newState.Lawful env := by
  obtain ⟨rfl, rfl, hdenied, hallowed⟩ := buildConfigState_eq_some h
  exact ⟨hvalid, hdenied, hallowed⟩

lemma ConfigState.Lawful.withLog (h : state.Lawful env) (blocked : List Entry) (total : ℕ) :
    ({ state with blocked := blocked, blockedTotal := total } :
      ConfigState Hook Entry).Lawful env :=
  ⟨h.valid, h.denied, h.allowed⟩

lemma validate_withMode {mode : NetworkMode}
    (hvalid : validatePolicyAgainstConstraints env.toProxyEnv config.network constraints = .ok ())
    (hmode : validateMode mode constraints.mode = .ok ()) :
    validatePolicyAgainstConstraints env.toProxyEnv (withMode config mode).network constraints =
      .ok () := by
  simp only [validatePolicyAgainstConstraints] at hvalid ⊢
  obtain ⟨_, hhooks, hvalid⟩ := bind_eq_ok.mp hvalid
  obtain ⟨_, hpatterns, hvalid⟩ := bind_eq_ok.mp hvalid
  obtain ⟨_, henabled, hvalid⟩ := bind_eq_ok.mp hvalid
  obtain ⟨_, -, hvalid⟩ := bind_eq_ok.mp hvalid
  refine bind_eq_ok.mpr ⟨_, hhooks, bind_eq_ok.mpr ⟨_, hpatterns, bind_eq_ok.mpr ⟨_, henabled, ?_⟩⟩⟩
  exact bind_eq_ok.mpr ⟨_, hmode, hvalid⟩

lemma validateMode_of_validate
    (h : validatePolicyAgainstConstraints env.toProxyEnv config.network constraints = .ok ()) :
    validateMode config.network.mode constraints.mode = .ok () := by
  simp only [validatePolicyAgainstConstraints] at h
  obtain ⟨_, -, h⟩ := bind_eq_ok.mp h
  obtain ⟨_, -, h⟩ := bind_eq_ok.mp h
  obtain ⟨_, -, h⟩ := bind_eq_ok.mp h
  obtain ⟨_, hmode, -⟩ := bind_eq_ok.mp h
  exact hmode

lemma ConfigState.Lawful.withMode {mode : NetworkMode} (h : state.Lawful env)
    (hmode : validateMode mode state.constraints.mode = .ok ()) :
    ({ state with config := withMode state.config mode } : ConfigState Hook Entry).Lawful env :=
  ⟨validate_withMode h.valid hmode, h.denied, h.allowed⟩

end lawful

/-! ### Completed calls -/

/-- The later call may undo the earlier one. -/
def Completed.overrides : Completed → Completed → Prop
  | .replaced, _ => True
  | .mode _, .mode _ => True
  | .domain _ host, .domain _ host' => host = host'
  | _, _ => False

/-- The call shows in the settings. -/
def Reflected {Hook : Type} (network : NetworkProxySettings Hook) : Completed → Prop
  | .replaced => True
  | .mode mode => network.mode = mode
  | .domain kind host => listed kind network host = true

/-- Every completed call shows in the settings unless a later one has overridden it. -/
def NoUpdateLost (proxy : Proxy Hook Entry) : Prop :=
  ∀ before call after, proxy.completed = before ++ call :: after →
    (∀ later ∈ after, ¬ later.overrides call) → Reflected proxy.state.config.network call

/-- A state that is loaded is built. -/
def Action.LoadsBuilt (env : RuntimeEnv Hook) : Action Hook Entry → Prop
  | .reloadRead newState | .forceReload newState | .replaceConfigState newState =>
    newState.Built env
  | _ => True

/-- The host of a domain update satisfies `P`. -/
def Action.HostSatisfies (P : Text → Prop) : Action Hook Entry → Prop
  | .domainRead _ host => P (normalizeHost host)
  | _ => True

/-- The host of a domain update, once parsed, is its own normal form. -/
def Action.HostNormal : Action Hook Entry → Prop :=
  Action.HostSatisfies fun host => normalizeHost host = host

/-! ### Steps -/

/-- What holds of a call in progress. -/
def Task.Sound (env : RuntimeEnv Hook) (P : Text → Prop) :
    Task Hook Entry → Prop
  | .reload newState => newState.Lawful env
  | .setMode mode constraints => validateMode mode constraints.mode = .ok ()
  | .updateDomain kind host previous newState =>
    newState.Lawful env ∧ newState.config = withDomain previous kind host ∧ P host

/-- The state is lawful, and so is what the calls in progress will write. -/
structure Proxy.Sound {Hook Entry : Type} (env : RuntimeEnv Hook) (P : Text → Prop)
    (proxy : Proxy Hook Entry) : Prop where
  lawful : proxy.state.Lawful env
  tasks : ∀ task ∈ proxy.tasks, task.Sound env P

/-- What a step commits. -/
inductive Commits {Hook Entry : Type} (P : Text → Prop) (proxy next : Proxy Hook Entry) : Prop where
  | nothing (config : next.state.config = proxy.state.config)
      (completed : next.completed = proxy.completed)
  | replaced (completed : next.completed = proxy.completed ++ [.replaced])
  | mode (mode : NetworkMode) (config : next.state.config = withMode proxy.state.config mode)
      (completed : next.completed = proxy.completed ++ [.mode mode])
  | domain (kind : DomainListKind) (host : Text) (satisfies : P host)
      (config : next.state.config = withDomain proxy.state.config kind host)
      (completed : next.completed = proxy.completed ++ [.domain kind host])
  | present (kind : DomainListKind) (host : Text)
      (listed : listed kind proxy.state.config.network host = true)
      (config : next.state.config = proxy.state.config)
      (completed : next.completed = proxy.completed ++ [.domain kind host])

section step

variable {Hook Entry : Type} [DecidableEq Hook] {env : RuntimeEnv Hook} {P : Text → Prop}
  {proxy : Proxy Hook Entry}

omit [DecidableEq Hook] in
lemma Proxy.Sound.push (hsound : proxy.Sound env P) {task : Task Hook Entry}
    (htask : task.Sound env P) :
    ({ proxy with tasks := proxy.tasks ++ [task] } : Proxy Hook Entry).Sound env P := by
  refine ⟨hsound.lawful, ?_⟩
  exact List.forall_mem_append.mpr ⟨hsound.tasks, List.forall_mem_singleton.mpr htask⟩

omit [DecidableEq Hook] in
lemma modeRead_spec (hsound : proxy.Sound env P) (mode : NetworkMode) :
    (modeRead env proxy mode).Sound env P ∧ Commits P proxy (modeRead env proxy mode) := by
  simp only [modeRead]
  split
  · exact ⟨hsound, .nothing rfl rfl⟩
  · rename_i hvalid
    exact ⟨hsound.push (validateMode_of_validate hvalid), .nothing rfl rfl⟩

lemma domainRead_spec (hsound : proxy.Sound env P) (kind : DomainListKind) {host : Text}
    (hhost : P (normalizeHost host)) :
    (domainRead env proxy kind host).Sound env P ∧
      Commits P proxy (domainRead env proxy kind host) := by
  simp only [domainRead, hostParse]
  split_ifs with hempty
  · exact ⟨hsound, .nothing rfl rfl⟩
  simp only
  split
  · rename_i hlisted
    exact ⟨⟨hsound.lawful, hsound.tasks⟩, .present kind _ hlisted rfl rfl⟩
  split
  · exact ⟨hsound, .nothing rfl rfl⟩
  rename_i hvalid
  split
  · exact ⟨hsound, .nothing rfl rfl⟩
  · rename_i newState hbuild
    refine ⟨hsound.push ⟨?_, ?_, hhost⟩, .nothing rfl rfl⟩
    · exact (lawful_of_build hvalid hbuild).withLog _ _
    · exact (buildConfigState_eq_some hbuild).1

/-- A write finds the constraints, or the configuration, that it was validated for. -/
theorem writeTask_spec (hsound : proxy.Sound env P) {task : Task Hook Entry}
    (htask : task.Sound env P) :
    (writeTask proxy task).Sound env P ∧ Commits P proxy (writeTask proxy task) := by
  cases task with
  | reload newState => exact ⟨⟨htask, hsound.tasks⟩, .replaced rfl⟩
  | setMode mode constraints =>
    simp only [writeTask]
    split
    · exact ⟨hsound, .nothing rfl rfl⟩
    · rename_i hsame
      obtain rfl := not_ne_iff.mp hsame
      exact ⟨⟨hsound.lawful.withMode htask, hsound.tasks⟩, .mode mode rfl rfl⟩
  | updateDomain kind host previous newState =>
    simp only [writeTask]
    split
    · exact ⟨hsound, .nothing rfl rfl⟩
    · rename_i hsame
      rw [not_or, not_ne_iff, not_ne_iff] at hsame
      obtain ⟨hlawful, hconfig, hP⟩ := htask
      refine ⟨⟨hlawful, hsound.tasks⟩, .domain kind host hP ?_ rfl⟩
      rw [hsame.2]
      exact hconfig

omit [DecidableEq Hook] in
lemma ConfigState.Built.lawful {newState : ConfigState Hook Entry} (h : newState.Built env) :
    newState.Lawful env :=
  lawful_of_build h.1 h.2

/-- **One step** keeps the state lawful and commits at most one call. -/
theorem step_spec (hsound : proxy.Sound env P) (action : Action Hook Entry)
    (hload : action.LoadsBuilt env) (hhost : action.HostSatisfies P) :
    (step env proxy action).Sound env P ∧ Commits P proxy (step env proxy action) := by
  cases action with
  | reloadRead newState =>
    simp only [step]
    split
    · exact ⟨hsound.push ((ConfigState.Built.lawful hload).withLog _ _), .nothing rfl rfl⟩
    · exact ⟨hsound, .nothing rfl rfl⟩
  | forceReload newState =>
    simp only [step]
    split
    · exact ⟨⟨(ConfigState.Built.lawful hload).withLog _ _, hsound.tasks⟩, .replaced rfl⟩
    · exact ⟨hsound, .nothing rfl rfl⟩
  | replaceConfigState newState =>
    simp only [step]
    split
    · exact ⟨⟨(ConfigState.Built.lawful hload).withLog _ _, hsound.tasks⟩, .replaced rfl⟩
    · exact ⟨hsound, .nothing rfl rfl⟩
  | recordBlocked entry =>
    simp only [step, recordBlocked]
    exact ⟨⟨hsound.lawful.withLog _ _, hsound.tasks⟩, .nothing rfl rfl⟩
  | drainBlocked => exact ⟨⟨hsound.lawful.withLog _ _, hsound.tasks⟩, .nothing rfl rfl⟩
  | modeRead mode => exact modeRead_spec hsound mode
  | domainRead kind host => exact domainRead_spec hsound kind hhost
  | write i =>
    simp only [step]
    cases htask : proxy.tasks[i]? with
    | none => exact ⟨hsound, .nothing rfl rfl⟩
    | some task =>
      have hsound' : ({ proxy with tasks := proxy.tasks.eraseIdx i } :
          Proxy Hook Entry).Sound env P :=
        ⟨hsound.lawful, fun task h => hsound.tasks task (List.mem_of_mem_eraseIdx h)⟩
      have hmem := List.mem_of_getElem? htask
      obtain ⟨hnext, hcommits⟩ := writeTask_spec hsound' (hsound.tasks task hmem)
      refine ⟨hnext, ?_⟩
      cases hcommits with
      | nothing config completed => exact .nothing config completed
      | replaced completed => exact .replaced completed
      | mode mode config completed => exact .mode mode config completed
      | domain kind host satisfies config completed =>
        exact .domain kind host satisfies config completed
      | present kind host listed config completed =>
        exact .present kind host listed config completed

omit [DecidableEq Hook] in
/-- What the last call leaves as it was is still reflected. -/
theorem NoUpdateLost.append (h : NoUpdateLost proxy) {next : Proxy Hook Entry} {call : Completed}
    (hcompleted : next.completed = proxy.completed ++ [call])
    (hlast : Reflected next.state.config.network call)
    (hkeep : ∀ earlier, ¬ call.overrides earlier → Reflected proxy.state.config.network earlier →
      Reflected next.state.config.network earlier) : NoUpdateLost next := by
  intro before earlier after heq hafter
  rw [hcompleted] at heq
  rcases List.eq_nil_or_concat after with rfl | ⟨middle, last, rfl⟩
  · obtain ⟨-, hcall⟩ := List.append_inj' heq rfl
    obtain rfl := List.singleton_injective hcall
    exact hlast
  · rw [List.concat_eq_append, ← List.cons_append, ← List.append_assoc] at heq
    obtain ⟨hbefore, hcall⟩ := List.append_inj' heq rfl
    obtain rfl := List.singleton_injective hcall
    apply hkeep earlier
    · exact hafter call (by simp)
    · apply h before earlier middle hbefore
      intro later hlater
      exact hafter later (by simp [hlater])

omit [DecidableEq Hook] in
/-- **No commit loses an update** when the hosts are their own normal forms. -/
theorem NoUpdateLost.commit (h : NoUpdateLost proxy) {next : Proxy Hook Entry}
    (hcommits : Commits (fun host => normalizeHost host = host) proxy next) :
    NoUpdateLost next := by
  cases hcommits with
  | nothing config completed =>
    intro before call after heq hafter
    rw [config]
    exact h before call after (completed ▸ heq) hafter
  | replaced completed =>
    apply h.append completed trivial
    intro earlier hnot
    exact absurd trivial hnot
  | mode mode config completed =>
    apply h.append completed
    · rw [config]
      rfl
    · intro earlier hnot hreflected
      rw [config]
      cases earlier with
      | replaced => trivial
      | mode earlier => exact absurd trivial hnot
      | domain kind host => exact hreflected
  | domain kind host satisfies config completed =>
    apply h.append completed
    · rw [config]
      exact listed_upsert satisfies
    · intro earlier hnot hreflected
      rw [config]
      cases earlier with
      | replaced => trivial
      | mode earlier => exact hreflected
      | domain kind' other =>
        have hne : other ≠ normalizeHost host := by
          rw [satisfies]
          exact fun heq => hnot heq.symm
        exact listed_upsert_of_ne hne hreflected
  | present kind host listed config completed =>
    apply h.append completed
    · rw [config]
      exact listed
    · intro earlier _ hreflected
      rw [config]
      exact hreflected

/-! ### Runs -/

omit [DecidableEq Hook] in
variable {state : ConfigState Hook Entry}

lemma sound_start (h : state.Built env) : (Proxy.start state).Sound env P :=
  ⟨h.lawful, fun _ hmem => absurd hmem List.not_mem_nil⟩

lemma run_sound (hstate : state.Built env)
    (actions : List (Action Hook Entry)) (hload : ∀ action ∈ actions, action.LoadsBuilt env)
    (hhost : ∀ action ∈ actions, action.HostSatisfies P) :
    (run env state actions).Sound env P := by
  apply List.foldlRecOn actions (step env) (sound_start hstate)
  intro proxy hsound action hmem
  exact (step_spec hsound action (hload action hmem) (hhost action hmem)).1

/-- **The policy obeys its constraints in every run**, and where every host is its own normal form
no update is lost. -/
theorem policy_live (env : RuntimeEnv Hook) (state : ConfigState Hook Entry)
    (actions : List (Action Hook Entry)) (hstate : state.Built env)
    (hload : ∀ action ∈ actions, action.LoadsBuilt env) :
    (run env state actions).state.Lawful env ∧
      ((∀ action ∈ actions, action.HostNormal) → NoUpdateLost (run env state actions)) := by
  constructor
  · have htrivial : ∀ action ∈ actions, action.HostSatisfies fun _ => True := by
      intro action _
      cases action <;> trivial
    exact (run_sound hstate actions hload htrivial).lawful
  · intro hhost
    have hboth : (run env state actions).Sound env (fun host => normalizeHost host = host) ∧
        NoUpdateLost (run env state actions) := by
      rw [run]
      apply List.foldlRecOn (motive := fun proxy : Proxy Hook Entry =>
        proxy.Sound env (fun host => normalizeHost host = host) ∧ NoUpdateLost proxy)
      · refine ⟨sound_start hstate, ?_⟩
        intro before call after heq
        exact absurd heq.symm (by simp [Proxy.start])
      · rintro proxy ⟨hsound, hkept⟩ action hmem
        obtain ⟨hnext, hcommits⟩ := step_spec hsound action (hload action hmem) (hhost action hmem)
        exact ⟨hnext, hkept.commit hcommits⟩
    exact hboth.2

end step

/-- A host is denied while the mode is set, then allowed; the policy is reloaded at the end. -/
def liveRun : List (Action Unit ℕ) :=
  [.modeRead .limited, .domainRead .deny "example.com".toList, .write 1, .write 0,
    .domainRead .allow "example.com:443".toList, .write 0, .reloadRead plainState]

theorem policy_live_liveRun :
    (run plainEnv plainState liveRun).state.Lawful plainEnv ∧
      NoUpdateLost (run plainEnv plainState liveRun) := by
  have hbuilt : plainState.Built plainEnv := ⟨by decide +kernel, rfl⟩
  have hlive := policy_live plainEnv plainState liveRun hbuilt (by
    simp only [liveRun, List.forall_mem_cons, List.not_mem_nil]
    exact ⟨trivial, trivial, trivial, trivial, trivial, trivial, hbuilt, fun _ h => h.elim⟩)
  refine ⟨hlive.1, hlive.2 ?_⟩
  simp only [liveRun, List.forall_mem_cons, List.not_mem_nil]
  refine ⟨trivial, ?_, trivial, trivial, ?_, trivial, trivial, fun _ h => h.elim⟩
  · show normalizeHost (normalizeHost _) = normalizeHost _
    decide +kernel
  · show normalizeHost (normalizeHost _) = normalizeHost _
    decide +kernel

/-- A host with a space before its port parses to a host with a space at its end. Allowing it drops
the entry of the host without the space, which was denied. -/
theorem update_lost :
    plainState.Built plainEnv ∧ ¬ NoUpdateLost (run plainEnv plainState
        [.domainRead .deny "example.com".toList, .write 0,
          .domainRead .allow "example.com :443".toList, .write 0]) := by
  refine ⟨⟨by decide +kernel, rfl⟩, ?_⟩
  intro h
  have hlisted : listed .deny _ "example.com".toList = true :=
    h [] (.domain .deny "example.com".toList) [.domain .allow "example.com ".toList]
      (by decide +kernel) (by simp [Completed.overrides])
  cases hlisted

end Codex.NetworkProxy
