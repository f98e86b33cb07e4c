import Codex.Agent.Slots

/-!
# Runs of the agent registry

A reservation that was dropped leaves nothing behind: the other calls of the run, without those that
were refused, do the same when it is never made. `Without` relates the states of the two runs while
the reservation is live or being dropped.

* `slots_accounted`: **every run that spares the root path accounts for its slots**;
* `slot_leaked`: an agent committed at the root path.
-/

namespace Codex.Agent

open Codex.Lib

/-! ### Leaving a reservation out -/

/-- The reservation that the step is of. -/
def Action.reservation? : Action → Option ℕ
  | .reserveUnlimited reservation | .load reservation _ | .exchange reservation _
  | .reserveAgentPath reservation _ | .commit reservation _ | .drop reservation
  | .dropped reservation => some reservation
  | .release _ _ | .released | .registerRoot _ => none

namespace Agents

/-- What stays of the step of another call: a slot is taken without waiting, and calls that are
refused are left out. -/
def keptSteps (agents : Agents) (action : Action) : List Action :=
  match action with
  | .load _ _ => []
  | .exchange reservation spurious =>
    match agents.reserving.lookup reservation with
    | some (maxThreads, current) =>
      if agents.registry.totalCount = current ∧ !spurious then
        [.load reservation maxThreads, .exchange reservation false]
      else []
    | none => []
  | .reserveAgentPath _ agentPath =>
    if (agents.registry.agentTree.lookup agentPath.text).isSome then [] else [action]
  | _ => [action]

/-- The steps that stay when the reservation `r` is left out. -/
def withoutStep (r : ℕ) (agents : Agents) (action : Action) : List Action :=
  if action.reservation? = some r then [] else keptSteps agents action

/-- The run without the reservation `r`. -/
def without (r : ℕ) : Agents → List Action → List Action
  | _, [] => []
  | agents, action :: actions =>
    withoutStep r agents action ++
      match step agents action with
      | some next => without r next actions
      | none => []

/-- The unit of the counter that a live reservation has. -/
def slotOf (agents : Agents) (r : ℕ) : ℕ := if r ∈ agents.reservations then 1 else 0

/-- The other state has what the first one has, without the reservation `r`. -/
structure Without (r : ℕ) (agents other : Agents) : Prop where
  free : ∀ path, Holds agents.reservations r path → other.registry.agentTree.lookup path.text = none
  tree : ∀ key, (∀ path, Holds agents.reservations r path → key ≠ path.text) →
    other.registry.agentTree.lookup key = agents.registry.agentTree.lookup key
  count : agents.registry.totalCount =
    other.registry.totalCount + agents.slotOf r + agents.dropping.count r
  reservations : ∀ r' ≠ r, other.reservations.lookup r' = agents.reservations.lookup r'
  dropping : ∀ r' ≠ r, other.dropping.count r' = agents.dropping.count r'
  releasing : other.releasing = agents.releasing
  reserving : ∀ r', r' ∉ other.reserving

lemma slotOf_of_mem {r : ℕ} {agents : Agents} (h : r ∈ agents.reservations) : agents.slotOf r = 1 :=
  if_pos h

lemma slotOf_of_notMem {r : ℕ} {agents : Agents} (h : r ∉ agents.reservations) :
    agents.slotOf r = 0 :=
  if_neg h

namespace Without

variable {r : ℕ} {agents other next : Agents} {reservation : ℕ} {key : Text}
  {metadata : AgentMetadata} (h : Without r agents other)
include h

variable {threadId : ThreadId}

/-- What the reservation holds is not the key of an agent that is registered. -/
theorem lookup_eq (hsound : agents.Sound)
    (hlookup : agents.registry.agentTree.lookup key = some metadata)
    (hid : metadata.agentId = some threadId) :
    other.registry.agentTree.lookup key = some metadata := by
  rw [h.tree key ?_, hlookup]
  rintro path hheld rfl
  obtain ⟨-, m, hm, hmid⟩ := hsound.tree.held r path hheld
  obtain rfl := Option.some.inj (hm.symm.trans hlookup)
  cases hmid.symm.trans hid

/-- A key that is free stays free without the reservation. -/
theorem lookup_eq_none (hsound : agents.Sound)
    (hlookup : agents.registry.agentTree.lookup key = none) :
    other.registry.agentTree.lookup key = none := by
  rw [h.tree key ?_, hlookup]
  rintro path hheld rfl
  obtain ⟨-, m, hm, -⟩ := hsound.tree.held r path hheld
  exact absurd (hlookup.symm.trans hm).symm (Option.some_ne_none m)

/-- Nothing is found without the reservation that was not there. -/
theorem lookup_of_lookup (hlookup : other.registry.agentTree.lookup key = some metadata) :
    agents.registry.agentTree.lookup key = some metadata := by
  rw [← h.tree key ?_, hlookup]
  rintro path hheld rfl
  cases hlookup.symm.trans (h.free path hheld)

lemma unregistered (hunregistered : agents.registry.Unregistered threadId) :
    other.registry.Unregistered threadId := by
  rw [AgentRegistry.unregistered_iff] at hunregistered ⊢
  intro key metadata hlookup
  exact hunregistered key metadata (h.lookup_of_lookup hlookup)

lemma count_le : other.registry.totalCount ≤ agents.registry.totalCount := by
  rw [h.count, Nat.add_assoc]
  exact Nat.le_add_right _ _

/-- Another reservation that is in no list is in none of the other state. -/
theorem unused (hr : reservation ≠ r)
    (hfresh : reservation ∉ agents.reservations ∧ reservation ∉ agents.dropping) :
    other.Unused reservation := by
  refine ⟨?_, h.reserving _, ?_⟩
  · rw [← AList.lookup_eq_none, h.reservations reservation hr]
    exact AList.lookup_eq_none.mpr hfresh.1
  · rw [← List.count_eq_zero, h.dropping reservation hr]
    exact List.count_eq_zero.mpr hfresh.2

lemma mem_dropping (hr : reservation ≠ r) :
    reservation ∈ other.dropping ↔ reservation ∈ agents.dropping := by
  rw [← List.count_pos_iff, ← List.count_pos_iff, h.dropping reservation hr]

/-! ### Steps of the reservation -/

lemma take_own (hlive : r ∉ agents.reservations)
    (hregistry : next.registry = (agents.take r).registry)
    (hreservations : next.reservations = agents.reservations.insert r none)
    (hdropping : next.dropping = agents.dropping) (hreleasing : next.releasing = agents.releasing) :
    Without r next other := by
  have hnone : ∀ p, ¬ Holds agents.reservations r p := fun p hp => hlive (mem_reservations hp)
  have hnext : ∀ p, ¬ Holds next.reservations r p := by
    intro p hp
    rw [hreservations] at hp
    exact hnone p ((TreeSound.holds_insert_none hnone r p).mp hp)
  refine ⟨fun p hp => absurd hp (hnext p), ?_, ?_, ?_, ?_, ?_, h.reserving⟩
  · intro key _
    rw [hregistry]
    exact h.tree key fun p hp => absurd hp (hnone p)
  · have hcount := h.count
    have hmem : r ∈ next.reservations := by
      rw [hreservations]
      exact (AList.mem_insert _).mpr (.inl rfl)
    have htotal : next.registry.totalCount = agents.registry.totalCount + 1 := by
      rw [hregistry]
      rfl
    rw [slotOf_of_notMem hlive] at hcount
    rw [htotal, slotOf_of_mem hmem, hdropping]
    omega
  · intro r' hr'
    rw [hreservations, AList.lookup_insert_ne hr', h.reservations r' hr']
  · rw [hdropping]
    exact h.dropping
  · rw [hreleasing, h.releasing]

lemma reserveAgentPath_own {path : AgentPath}
    {registry : AgentRegistry} (hlookup : agents.reservations.lookup r = some none)
    (hreserve : agents.registry.reserveAgentPath path = .ok registry) :
    Without r
      { agents with
        registry := registry
        reservations := agents.reservations.insert r (some path) } other := by
  have hnone : ∀ p, ¬ Holds agents.reservations r p := by
    intro p hp
    exact absurd (Option.some.inj (hlookup.symm.trans hp)).symm (Option.some_ne_none p)
  have htree : ∀ key, other.registry.agentTree.lookup key = agents.registry.agentTree.lookup key :=
    fun key => h.tree key fun p hp => absurd hp (hnone p)
  have hholds : ∀ p, Holds (agents.reservations.insert r (some path)) r p ↔ p = path := by
    intro p
    rw [Holds, AList.lookup_insert, Option.some_inj, Option.some_inj]
    exact eq_comm
  simp only [AgentRegistry.reserveAgentPath] at hreserve
  split_ifs at hreserve with hfree
  cases hreserve
  rw [Bool.not_eq_true, Option.isSome_eq_false_iff, Option.isNone_iff_eq_none] at hfree
  refine ⟨?_, ?_, ?_, ?_, h.dropping, h.releasing, h.reserving⟩
  · intro p hp
    rw [(hholds p).mp hp, htree, hfree]
  · intro key hkey
    rw [htree, AList.lookup_insert_ne (hkey path ((hholds path).mpr rfl))]
  · have hcount := h.count
    rw [slotOf_of_mem (mem_reservations hlookup)] at hcount
    rw [slotOf_of_mem ((AList.mem_insert _).mpr (.inl rfl))]
    exact hcount
  · intro r' hr'
    rw [AList.lookup_insert_ne hr', h.reservations r' hr']

variable {reserved : Option AgentPath}

lemma drop_own (hsound : agents.Sound) (hlookup : agents.reservations.lookup r = some reserved) :
    Without r (agents.drop r reserved) other := by
  have hnone : ∀ p, ¬ Holds (agents.reservations.erase r) r p :=
    fun p hp => absurd rfl ((TreeSound.holds_erase r p).mp hp).1
  have hregistry := drop_agentTree hsound hlookup
  refine ⟨fun p hp => absurd hp (hnone p), ?_, ?_, ?_, ?_, h.releasing, h.reserving⟩
  · intro key _
    rw [hregistry]
    cases reserved with
    | none =>
      apply h.tree key
      intro p hp
      exact absurd (Option.some.inj (hlookup.symm.trans hp)).symm (Option.some_ne_none p)
    | some path =>
      rw [lookup_erase_eq_ite]
      split_ifs with hkey
      · rw [hkey, h.free path hlookup]
      · apply h.tree key
        intro p hp
        rw [← Option.some.inj (Option.some.inj (hlookup.symm.trans hp))]
        exact hkey
  · have hcount := h.count
    have hgone : r ∉ (agents.drop r reserved).reservations :=
      fun hr => (AList.mem_erase.mp hr).1 rfl
    have htotal : (agents.drop r reserved).registry.totalCount = agents.registry.totalCount := by
      rw [hregistry]
      cases reserved with
      | none => rfl
      | some _ => rfl
    have hdropping : (agents.drop r reserved).dropping = r :: agents.dropping := rfl
    rw [slotOf_of_mem (mem_reservations hlookup)] at hcount
    rw [htotal, slotOf_of_notMem hgone, hdropping, List.count_cons_self]
    omega
  · intro r' hr'
    simp only [Agents.drop]
    rw [AList.lookup_erase_ne hr', h.reservations r' hr']
  · intro r' hr'
    simp only [Agents.drop]
    rw [List.count_cons_of_ne hr'.symm, h.dropping r' hr']

lemma dropped_own (hsound : agents.Sound) (hmem : r ∈ agents.dropping) :
    Without r
      { agents.setCount (fetchSub agents.registry.totalCount) with
        dropping := agents.dropping.erase r } other := by
  have hfetch := fetchSub_of_pos (hsound.dropped hmem).1
  have hcount := h.count
  have hpos := List.count_pos_iff.mpr hmem
  refine ⟨h.free, h.tree, ?_, h.reservations, ?_, h.releasing, h.reserving⟩
  · show fetchSub agents.registry.totalCount = other.registry.totalCount + agents.slotOf r + _
    rw [List.count_erase_self]
    omega
  · intro r' hr'
    rw [List.count_erase_of_ne hr', h.dropping r' hr']

/-- The reservation itself takes a step: the other state stays. -/
theorem step_own (hsound : agents.Sound) {action : Action}
    (hown : action.reservation? = some r) (hcommit : ∀ metadata, action ≠ .commit r metadata)
    (hstep : Steps agents action next) : Without r next other := by
  cases hstep with
  | reserveUnlimited hunused =>
    cases hown
    exact h.take_own hunused.1 rfl rfl rfl rfl
  | load _ => exact ⟨h.free, h.tree, h.count, h.reservations, h.dropping, h.releasing, h.reserving⟩
  | exchanged hlookup =>
    cases hown
    exact h.take_own (hsound.reserving _ _ _ hlookup).2.1 rfl rfl rfl rfl
  | retried _ _ =>
    exact ⟨h.free, h.tree, h.count, h.reservations, h.dropping, h.releasing, h.reserving⟩
  | reservedPath hlookup hreserve =>
    cases hown
    exact h.reserveAgentPath_own hlookup hreserve
  | refusedPath _ => exact h
  | committed _ _ =>
    cases hown
    exact absurd rfl (hcommit _)
  | drop hlookup =>
    cases hown
    exact h.drop_own hsound hlookup
  | dropped hmem =>
    cases hown
    exact h.dropped_own hsound hmem
  | release _ _ => cases hown
  | unknown _ => exact h
  | released _ => cases hown
  | registerRoot => cases hown

/-! ### Steps of the others -/

lemma take_both {next' : Agents} (hr : reservation ≠ r) (hfresh : reservation ∉ agents.reservations)
    (hnext : next = { agents.take reservation with reserving := next.reserving })
    (hnext' : next' = { other.take reservation with reserving := next'.reserving })
    (hreserving : ∀ r', r' ∉ next'.reserving) : Without r next next' := by
  have hnone : ∀ p, ¬ Holds agents.reservations reservation p :=
    fun p hp => hfresh (mem_reservations hp)
  rw [hnext, hnext']
  refine ⟨?_, ?_, ?_, ?_, h.dropping, h.releasing, hreserving⟩
  · intro p hp
    exact h.free p ((TreeSound.holds_insert_none hnone r p).mp hp)
  · intro key hkey
    exact h.tree key fun p hp => hkey p ((TreeSound.holds_insert_none hnone r p).mpr hp)
  · have hslot : slotOf { agents.take reservation with reserving := next.reserving } r =
        agents.slotOf r := by
      have hmem : r ∈ agents.reservations.insert reservation none ↔ r ∈ agents.reservations :=
        (AList.mem_insert _).trans (or_iff_right hr.symm)
      simp only [slotOf, Agents.take, hmem]
    have hcount := h.count
    rw [hslot]
    simp only [Agents.take, setCount]
    omega
  · intro r' hr'
    simp only [Agents.take, lookup_insert_eq_ite, h.reservations r' hr']

lemma take_free (hr : reservation ≠ r) (hunused : agents.Unused reservation) :
    ∃ other', step other (.reserveUnlimited reservation) = some other' ∧
      Without r (agents.take reservation) other' := by
  have hunused' := h.unused hr ⟨hunused.1, hunused.2.2⟩
  refine ⟨other.take reservation, ?_, h.take_both hr hunused.1 rfl rfl h.reserving⟩
  simp only [step, if_pos hunused']

lemma take_other (hsound : agents.Sound) {maxThreads : ℕ} (hr : reservation ≠ r)
    (hlookup : agents.reserving.lookup reservation =
      some (maxThreads, agents.registry.totalCount)) :
    ∃ other', run other [.load reservation maxThreads, .exchange reservation false] = some other' ∧
      Without r
        { agents.take reservation with
          reserving := agents.reserving.erase reservation } other' := by
  obtain ⟨hlt, hfresh⟩ := hsound.reserving _ _ _ hlookup
  have hunused := h.unused hr hfresh
  have hfree : ¬ other.registry.totalCount ≥ maxThreads := not_le.mpr (h.count_le.trans_lt hlt)
  have hload : step other (.load reservation maxThreads) =
      some { other with
        reserving :=
          other.reserving.insert reservation (maxThreads, other.registry.totalCount) } := by
    simp only [step, if_pos hunused, retry, if_neg hfree]
  refine ⟨{ other.take reservation with
    reserving := (other.reserving.insert reservation
      (maxThreads, other.registry.totalCount)).erase reservation }, ?_, ?_⟩
  · rw [run, List.foldlM_cons, hload]
    simp [step, AList.lookup_insert, Agents.take, setCount]
  · refine h.take_both hr hfresh.1 rfl rfl ?_
    intro r' hr'
    obtain ⟨hne, hmem⟩ := AList.mem_erase.mp hr'
    exact h.reserving r' (((AList.mem_insert _).mp hmem).resolve_left hne)

variable {registry registry' : AgentRegistry}

/-- An operation on the tree away from what the reservation holds is the same on both. -/
theorem insert_other {reservations others : AList fun _ : ℕ => Option AgentPath}
    (hkey : ∀ p, Holds agents.reservations r p → key ≠ p.text)
    (hown : reservations.lookup r = agents.reservations.lookup r)
    (hothers : ∀ r' ≠ r, others.lookup r' = reservations.lookup r')
    (htree : registry.agentTree = agents.registry.agentTree.insert key metadata)
    (htree' : registry'.agentTree = other.registry.agentTree.insert key metadata)
    (hcount : registry.totalCount = agents.registry.totalCount)
    (hcount' : registry'.totalCount = other.registry.totalCount) :
    Without r { agents with registry := registry, reservations := reservations }
      { other with registry := registry', reservations := others } := by
  have hholds : ∀ p, Holds reservations r p ↔ Holds agents.reservations r p := by
    intro p
    rw [Holds, Holds, hown]
  have hslot : slotOf { agents with registry := registry, reservations := reservations } r =
      agents.slotOf r := by
    simp only [slotOf, ← AList.lookup_isSome, hown]
  refine ⟨?_, ?_, ?_, hothers, h.dropping, h.releasing, h.reserving⟩
  · intro p hp
    have hp' := (hholds p).mp hp
    rw [htree', AList.lookup_insert_ne (hkey p hp').symm]
    exact h.free p hp'
  · intro k hk
    rw [htree', htree, lookup_insert_eq_ite, lookup_insert_eq_ite]
    split_ifs
    · rfl
    · exact h.tree k fun p hp => hk p ((hholds p).mpr hp)
  · rw [hslot, hcount, hcount']
    exact h.count

lemma erase_other (htree : registry.agentTree = agents.registry.agentTree.erase key)
    (htree' : registry'.agentTree = other.registry.agentTree.erase key)
    (hcount : registry.totalCount = agents.registry.totalCount)
    (hcount' : registry'.totalCount = other.registry.totalCount) :
    Without r { agents with registry := registry } { other with registry := registry' } := by
  refine ⟨?_, ?_, ?_, h.reservations, h.dropping, h.releasing, h.reserving⟩
  · intro p hp
    rw [htree', lookup_erase_eq_ite, h.free p hp, ite_self]
  · intro k hk
    rw [htree', htree, lookup_erase_eq_ite, lookup_erase_eq_ite]
    split_ifs
    · rfl
    · exact h.tree k hk
  · have hcounts := h.count
    simp only [slotOf] at hcounts ⊢
    rw [hcount, hcount']
    exact hcounts

lemma erase_reservation (hr : reservation ≠ r) :
    Without r { agents with reservations := agents.reservations.erase reservation }
      { other with reservations := other.reservations.erase reservation } := by
  have hholds : ∀ p, Holds (agents.reservations.erase reservation) r p ↔
      Holds agents.reservations r p :=
    fun p => (TreeSound.holds_erase r p).trans (and_iff_right hr.symm)
  have hslot : slotOf { agents with reservations := agents.reservations.erase reservation } r =
      agents.slotOf r := by
    have hmem : r ∈ agents.reservations.erase reservation ↔ r ∈ agents.reservations :=
      AList.mem_erase.trans (and_iff_right hr.symm)
    simp only [slotOf, hmem]
  refine ⟨fun p hp => h.free p ((hholds p).mp hp), ?_, ?_, ?_, h.dropping, h.releasing, h.reserving⟩
  · intro k hk
    exact h.tree k fun p hp => hk p ((hholds p).mpr hp)
  · rw [hslot]
    exact h.count
  · intro r' hr'
    simp only [lookup_erase_eq_ite, h.reservations r' hr']

variable (hsound : agents.Sound)
include hsound

lemma reserveAgentPath_other (hr : reservation ≠ r) {path : AgentPath} {registry : AgentRegistry}
    (hlookup : agents.reservations.lookup reservation = some none)
    (hreserve : agents.registry.reserveAgentPath path = .ok registry) :
    agents.registry.agentTree.lookup path.text = none ∧
      ∃ other', step other (.reserveAgentPath reservation path) = some other' ∧ Without r
          { agents with
            registry := registry
            reservations := agents.reservations.insert reservation (some path) } other' := by
  simp only [AgentRegistry.reserveAgentPath] at hreserve
  split_ifs at hreserve with hfree
  rw [Bool.not_eq_true, Option.isSome_eq_false_iff, Option.isNone_iff_eq_none] at hfree
  have hfree' := h.lookup_eq_none hsound hfree
  have hlookup' := (h.reservations reservation hr).trans hlookup
  have hreserve' : other.registry.reserveAgentPath path =
      .ok { other.registry with
        agentTree := other.registry.agentTree.insert path.text
          { AgentMetadata.default with agentPath := some path } } := by
    rw [AgentRegistry.reserveAgentPath, hfree', Option.isSome_none, if_neg Bool.false_ne_true]
  refine ⟨hfree, { other with
    registry := { other.registry with
      agentTree := other.registry.agentTree.insert path.text
        { AgentMetadata.default with agentPath := some path } }
    reservations := other.reservations.insert reservation (some path) }, ?_, ?_⟩
  · simp only [step, hlookup', hreserve']
  cases hreserve
  refine h.insert_other ?_ (AList.lookup_insert_ne hr.symm) ?_ rfl rfl rfl rfl
  · rintro p hp heq
    obtain ⟨-, m, hm, -⟩ := hsound.tree.held r p hp
    exact absurd (hfree.symm.trans (heq ▸ hm)).symm (Option.some_ne_none m)
  · intro r' hr'
    rw [lookup_insert_eq_ite, lookup_insert_eq_ite, h.reservations r' hr']

lemma commit_other (hr : reservation ≠ r)
    (hlookup : agents.reservations.lookup reservation = some metadata.agentPath)
    (hcommits : agents.CommitsTo metadata.agentPath metadata) :
    ∃ other', step other (.commit reservation metadata) = some other' ∧ Without r
        { agents with
          registry := agents.registry.registerSpawnedThread metadata
          reservations := agents.reservations.erase reservation } other' := by
  obtain ⟨threadId, hid, hfresh⟩ := (Option.any_eq_true _ _).mp hcommits.2
  have hfresh' := h.unregistered (of_decide_eq_true hfresh)
  have hcommits' : other.CommitsTo metadata.agentPath metadata :=
    ⟨rfl, (Option.any_eq_true _ _).mpr ⟨threadId, hid, decide_eq_true hfresh'⟩⟩
  have hlookup' := (h.reservations reservation hr).trans hlookup
  refine ⟨{ other with
    registry := other.registry.registerSpawnedThread metadata
    reservations := other.reservations.erase reservation }, ?_, ?_⟩
  · simp only [step, hlookup', if_pos hcommits']
  have hkey : ∀ p, Holds agents.reservations r p →
      AgentRegistry.spawnedKey metadata threadId ≠ p.text :=
    fun p hp => (hsound.tree.spawnedKey_ne hlookup hr.symm hp).symm
  simp only [AgentRegistry.registerSpawnedThread, hid]
  refine h.insert_other hkey (AList.lookup_erase_ne hr.symm) ?_ rfl rfl rfl rfl
  intro r' hr'
  rw [lookup_erase_eq_ite, lookup_erase_eq_ite, h.reservations r' hr']

lemma drop_other (hother : other.Sound) (hr : reservation ≠ r)
    (hlookup : agents.reservations.lookup reservation = some reserved) :
    ∃ other', step other (.drop reservation) = some other' ∧
      Without r (agents.drop reservation reserved) other' := by
  have hlookup' := (h.reservations reservation hr).trans hlookup
  refine ⟨other.drop reservation reserved, by simp only [step, hlookup'], ?_⟩
  have hregistry := drop_agentTree hsound hlookup
  have hregistry' := drop_agentTree hother hlookup'
  have hgone : Without r
      { agents with
        registry := (agents.drop reservation reserved).registry
        reservations := agents.reservations.erase reservation }
      { other with
        registry := (other.drop reservation reserved).registry
        reservations := other.reservations.erase reservation } := by
    rw [hregistry, hregistry']
    cases reserved with
    | none => exact h.erase_reservation hr
    | some path => exact (h.erase_reservation hr).erase_other rfl rfl rfl rfl
  refine ⟨hgone.free, hgone.tree, ?_, hgone.reservations, ?_, hgone.releasing, hgone.reserving⟩
  · have hcount := hgone.count
    have hslot : (agents.drop reservation reserved).slotOf r =
        slotOf { agents with
          registry := (agents.drop reservation reserved).registry
          reservations := agents.reservations.erase reservation } r := rfl
    have hdropping : (agents.drop reservation reserved).dropping.count r =
        agents.dropping.count r := List.count_cons_of_ne hr
    rw [hslot, hdropping]
    exact hcount
  · intro r' hr'
    simp only [Agents.drop, List.count_cons, h.dropping r' hr']

lemma dropped_other (hother : other.Sound)
    (hr : reservation ≠ r) (hmem : reservation ∈ agents.dropping) :
    ∃ other', step other (.dropped reservation) = some other' ∧ Without r
        { agents.setCount (fetchSub agents.registry.totalCount) with
          dropping := agents.dropping.erase reservation } other' := by
  have hmem' := (h.mem_dropping hr).mpr hmem
  have hfetch := fetchSub_of_pos (hsound.dropped hmem).1
  have hfetch' := fetchSub_of_pos (hother.dropped hmem').1
  refine ⟨{ other.setCount (fetchSub other.registry.totalCount) with
    dropping := other.dropping.erase reservation }, ?_, ?_⟩
  · simp only [step, if_pos hmem']
  refine ⟨h.free, h.tree, ?_, h.reservations, ?_, h.releasing, h.reserving⟩
  · have hcount := h.count
    show fetchSub agents.registry.totalCount =
      fetchSub other.registry.totalCount + agents.slotOf r + _
    rw [List.count_erase_of_ne hr.symm]
    omega
  · intro r' hr'
    by_cases heq : r' = reservation
    · subst heq
      rw [List.count_erase_self, List.count_erase_self, h.dropping r' hr']
    · rw [List.count_erase_of_ne heq, List.count_erase_of_ne heq, h.dropping r' hr']

lemma released_other (hother : other.Sound) (hpos : 0 < agents.releasing) :
    ∃ other', step other .released = some other' ∧ Without r
        { agents.setCount (fetchSub agents.registry.totalCount) with
          releasing := agents.releasing - 1 } other' := by
  have hpos' : 0 < other.releasing := h.releasing ▸ hpos
  have hfetch := fetchSub_of_pos (hsound.released hpos).1
  have hfetch' := fetchSub_of_pos (hother.released hpos').1
  refine ⟨{ other.setCount (fetchSub other.registry.totalCount) with
    releasing := other.releasing - 1 }, ?_, ?_⟩
  · simp only [step, if_pos hpos']
  refine ⟨h.free, h.tree, ?_, h.reservations, h.dropping, ?_, h.reserving⟩
  · have hcount := h.count
    show fetchSub agents.registry.totalCount =
      fetchSub other.registry.totalCount + agents.slotOf r + agents.dropping.count r
    omega
  · simp only [h.releasing]

lemma release_other (hlookup : agents.registry.agentTree.lookup key = some metadata)
    (hid : metadata.agentId = some threadId) :
    ∃ other', step other (.release threadId (some key)) = some other' ∧
      Without r (agents.release key metadata) other' := by
  have hlookup' := h.lookup_eq hsound hlookup hid
  refine ⟨other.release key metadata, by simp only [step, hlookup', if_pos hid], ?_⟩
  have htree : Without r
      { agents with
        registry := { agents.registry with agentTree := agents.registry.agentTree.erase key } }
      { other with
        registry := { other.registry with agentTree := other.registry.agentTree.erase key } } :=
    h.erase_other rfl rfl rfl rfl
  refine ⟨htree.free, htree.tree, htree.count, htree.reservations, htree.dropping, ?_,
    htree.reserving⟩
  simp only [Agents.release, h.releasing]

lemma registerRoot_other (threadId : ThreadId) :
    Without r { agents with registry := agents.registry.registerRootThread threadId }
      { other with registry := other.registry.registerRootThread threadId } := by
  have hkey : ∀ p, Holds agents.reservations r p → AgentPath.root.text ≠ p.text := by
    intro p hp heq
    have hroot := (hsound.tree.held r p hp).1
    rw [← AgentPath.text_injective heq] at hroot
    cases hroot
  have hsame := h.tree _ hkey
  simp only [AgentRegistry.registerRootThread, hsame]
  split_ifs
  · exact h
  · exact h.insert_other hkey rfl h.reservations rfl rfl rfl rfl

end Without

/-! ### Runs -/

variable {r : ℕ} {agents other next : Agents} {action : Action} {actions : List Action}

lemma run_cons_eq_some :
    run agents (action :: actions) = some next ↔
      ∃ middle, step agents action = some middle ∧ run middle actions = some next := by
  rw [run, List.foldlM_cons]
  exact Option.bind_eq_some_iff

lemma run_singleton (agents : Agents) (action : Action) :
    run agents [action] = step agents action := by
  rw [run, List.foldlM_cons]
  cases step agents action with
  | none => rfl
  | some next => rfl

lemma run_append_eq_some {actions actions' : List Action} {middle : Agents}
    (h : run agents actions = some middle) (h' : run middle actions' = some next) :
    run agents (actions ++ actions') = some next := by
  rw [run, List.foldlM_append]
  exact Option.bind_eq_some_iff.mpr ⟨middle, h, h'⟩

lemma run_preserves {I : Agents → Prop} {C : Action → Prop}
    (hstep : ∀ agents action next, C action → I agents → Steps agents action next → I next)
    (hc : ∀ action ∈ actions, C action) (hI : I agents) (hrun : run agents actions = some next) :
    I next := by
  induction actions generalizing agents with
  | nil =>
    cases hrun
    exact hI
  | cons action actions ih =>
    obtain ⟨middle, hmiddle, hrest⟩ := run_cons_eq_some.mp hrun
    obtain ⟨haction, hc⟩ := List.forall_mem_cons.mp hc
    exact ih hc (hstep _ _ _ haction hI (step_cases hmiddle)) hrest

lemma run_sound (hroot : ∀ action ∈ actions, action.SparesRoot) (h : agents.Sound)
    (hrun : run agents actions = some next) : next.Sound :=
  run_preserves (fun _ _ _ hroot h hstep => step_sound h hroot hstep) hroot h hrun

lemma start_sound : start.Sound := by
  refine ⟨⟨?_, ?_, ?_⟩, ?_, rfl⟩
  · intro key metadata hlookup
    cases hlookup
  · intro r path hheld
    cases Eq.symm hheld
  · intro r r' path hheld
    cases Eq.symm hheld
  · intro r maxThreads current hlookup
    cases hlookup

lemma sparesRoot_withoutStep (hroot : action.SparesRoot) :
    ∀ other ∈ withoutStep r agents action, other.SparesRoot := by
  intro other hmem
  rw [withoutStep] at hmem
  split at hmem
  · cases hmem
  cases action with
  | load _ _ => cases hmem
  | exchange reservation spurious =>
    simp only [keptSteps] at hmem
    split at hmem
    · split at hmem
      · simp only [List.mem_cons, List.not_mem_nil, or_false] at hmem
        rcases hmem with rfl | rfl
        · trivial
        · trivial
      · cases hmem
    · cases hmem
  | reserveAgentPath reservation agentPath =>
    simp only [keptSteps] at hmem
    split at hmem
    · cases hmem
    · obtain rfl := List.mem_singleton.mp hmem
      exact hroot
  | _ =>
    obtain rfl := List.mem_singleton.mp hmem
    exact hroot

/-- **One step**, and the step of the run without the reservation. -/
theorem step_without (h : Without r agents other) (hsound : agents.Sound) (hother : other.Sound)
    (hcommit : ∀ metadata, action ≠ .commit r metadata) (hstep : step agents action = some next) :
    ∃ other', run other (withoutStep r agents action) = some other' ∧ Without r next other' := by
  have hsteps := step_cases hstep
  rw [withoutStep]
  split
  · rename_i hown
    exact ⟨other, rfl, h.step_own hsound hown hcommit hsteps⟩
  rename_i hown
  have hr : ∀ {reservation}, action.reservation? = some reservation → reservation ≠ r := by
    rintro reservation hreservation rfl
    exact hown hreservation
  cases hsteps with
  | reserveUnlimited hunused =>
    obtain ⟨other', hstep', hwithout⟩ := h.take_free (hr rfl) hunused
    exact ⟨other', (run_singleton _ _).trans hstep', hwithout⟩
  | load _ =>
    exact ⟨other, rfl, h.free, h.tree, h.count, h.reservations, h.dropping, h.releasing,
      h.reserving⟩
  | exchanged hlookup =>
    simp only [keptSteps, hlookup, Bool.not_false, and_self, if_true]
    exact h.take_other hsound (hr rfl) hlookup
  | retried hlookup hfailed =>
    simp only [keptSteps, hlookup, if_neg hfailed]
    exact ⟨other, rfl, h.free, h.tree, h.count, h.reservations, h.dropping, h.releasing,
      h.reserving⟩
  | reservedPath hlookup hreserve =>
    obtain ⟨hfree, other', hstep', hwithout⟩ :=
      h.reserveAgentPath_other hsound (hr rfl) hlookup hreserve
    simp only [keptSteps, hfree, Option.isSome_none, Bool.false_eq_true, if_false]
    exact ⟨other', (run_singleton _ _).trans hstep', hwithout⟩
  | refusedPath hrefused =>
    simp only [keptSteps, hrefused, if_true]
    exact ⟨other, rfl, h⟩
  | committed hlookup hcommits =>
    obtain ⟨other', hstep', hwithout⟩ := h.commit_other hsound (hr rfl) hlookup hcommits
    exact ⟨other', (run_singleton _ _).trans hstep', hwithout⟩
  | drop hlookup =>
    obtain ⟨other', hstep', hwithout⟩ := h.drop_other hsound hother (hr rfl) hlookup
    exact ⟨other', (run_singleton _ _).trans hstep', hwithout⟩
  | dropped hmem =>
    obtain ⟨other', hstep', hwithout⟩ := h.dropped_other hsound hother (hr rfl) hmem
    exact ⟨other', (run_singleton _ _).trans hstep', hwithout⟩
  | release hlookup hid =>
    obtain ⟨other', hstep', hwithout⟩ := h.release_other hsound hlookup hid
    exact ⟨other', (run_singleton _ _).trans hstep', hwithout⟩
  | unknown hunregistered =>
    refine ⟨other, (run_singleton _ _).trans ?_, h⟩
    simp only [step, if_pos (h.unregistered hunregistered)]
  | released hpos =>
    obtain ⟨other', hstep', hwithout⟩ := h.released_other hsound hother hpos
    exact ⟨other', (run_singleton _ _).trans hstep', hwithout⟩
  | registerRoot => exact ⟨_, run_singleton _ _, h.registerRoot_other hsound _⟩

lemma run_without (h : Without r agents other) (hsound : agents.Sound) (hother : other.Sound)
    (hroot : ∀ action ∈ actions, action.SparesRoot)
    (hcommit : ∀ metadata, .commit r metadata ∉ actions) (hrun : run agents actions = some next) :
    ∃ other', run other (without r agents actions) = some other' ∧ Without r next other' := by
  induction actions generalizing agents other with
  | nil =>
    cases hrun
    exact ⟨other, rfl, h⟩
  | cons action actions ih =>
    obtain ⟨middle, hmiddle, hrest⟩ := run_cons_eq_some.mp hrun
    obtain ⟨haction, hactions⟩ := List.forall_mem_cons.mp hroot
    have hnot : ∀ metadata, action ≠ .commit r metadata := by
      rintro metadata rfl
      exact hcommit metadata List.mem_cons_self
    obtain ⟨other₁, hrun₁, hwithout₁⟩ := step_without h hsound hother hnot hmiddle
    have hsound₁ := step_sound hsound haction (step_cases hmiddle)
    have hother₁ := run_sound (sparesRoot_withoutStep haction) hother hrun₁
    obtain ⟨other₂, hrun₂, hwithout₂⟩ := ih hwithout₁ hsound₁ hother₁ hactions
      (fun metadata hmem => hcommit metadata (List.mem_cons_of_mem _ hmem)) hrest
    refine ⟨other₂, ?_, hwithout₂⟩
    rw [without, hmiddle]
    exact run_append_eq_some hrun₁ hrun₂

/-! ### The accounting -/

/-- No call is in progress. -/
def Idle (agents : Agents) : Prop :=
  agents.reserving.keys = [] ∧ agents.dropping = [] ∧ agents.releasing = 0

/-- The tree has an agent with the path that is registered. -/
def RegisteredAt (agents : Agents) (key : Text) (path : AgentPath) : Prop :=
  ∃ metadata, agents.registry.agentTree.lookup key = some metadata ∧
    metadata.agentId.isSome = true ∧ metadata.agentPath = some path

/-- The slots and paths of a state are accounted for. -/
structure Accounted (agents : Agents) : Prop where
  exact : agents.Idle →
    agents.registry.totalCount = agents.liveReservations + agents.registeredAgents
  /-- a call that has still to give its unit back will find it -/
  noUnderflow : agents.dropping ≠ [] ∨ 0 < agents.releasing → 0 < agents.registry.totalCount
  agents_distinct : ∀ key key' path, agents.RegisteredAt key path →
    agents.RegisteredAt key' path → key = key'
  reservations_distinct : ∀ reservation reservation' path,
    Holds agents.reservations reservation path → Holds agents.reservations reservation' path →
      reservation = reservation'
  apart : ∀ reservation key path, Holds agents.reservations reservation path →
    ¬ agents.RegisteredAt key path

/-- The trees and the counters agree. -/
def SameRegistry (agents other : Agents) : Prop :=
  (∀ key, other.registry.agentTree.lookup key = agents.registry.agentTree.lookup key) ∧
    other.registry.totalCount = agents.registry.totalCount

lemma Sound.key_of_registeredAt (h : agents.Sound) {key : Text} {path : AgentPath}
    (hregistered : agents.RegisteredAt key path) : key = path.text := by
  obtain ⟨metadata, hlookup, hid, hpath⟩ := hregistered
  rcases h.tree.entries key metadata hlookup with ⟨threadId, -, hkey⟩ | ⟨hnone, -⟩
  · rw [hkey, AgentRegistry.spawnedKey, hpath]
  · rw [hnone] at hid
    cases hid

lemma Sound.accounted (h : agents.Sound) : agents.Accounted := by
  have hcount := h.count
  refine ⟨?_, ?_, ?_, h.tree.exclusive, ?_⟩
  · rintro ⟨-, hdropping, hreleasing⟩
    rw [hcount, hdropping, hreleasing]
    rfl
  · rintro (hdropping | hreleasing)
    · have hpos := List.length_pos_of_ne_nil hdropping
      omega
    · omega
  · intro key key' path hkey hkey'
    rw [h.key_of_registeredAt hkey, h.key_of_registeredAt hkey']
  · intro reservation key path hheld hregistered
    obtain rfl := h.key_of_registeredAt hregistered
    obtain ⟨metadata, hlookup, hid, -⟩ := hregistered
    obtain ⟨-, other, hother, hnone⟩ := h.tree.held reservation path hheld
    rw [Option.some.inj (hlookup.symm.trans hother), hnone] at hid
    cases hid

lemma Without.sameRegistry (h : Without r agents other) (hlive : r ∉ agents.reservations)
    (hdropping : r ∉ agents.dropping) : agents.SameRegistry other := by
  refine ⟨fun key => h.tree key fun path hheld => absurd (mem_reservations hheld) hlive, ?_⟩
  rw [h.count, slotOf_of_notMem hlive, List.count_eq_zero.mpr hdropping]
  rfl

/-- **Every run that spares the root path accounts for its slots**: the counter is exact and within
the limit, no path is held twice, and a reservation that was dropped leaves the tree and the counter
as they are in the run without it. -/
theorem slots_accounted (actions : List Action) (agents : Agents)
    (hroot : ∀ action ∈ actions, action.SparesRoot) (hrun : run start actions = some agents) :
    agents.Accounted ∧ (∀ maxThreads, (∀ action ∈ actions, action.HasLimit maxThreads) →
        agents.registry.totalCount ≤ maxThreads) ∧
      ∀ r, (∀ metadata, .commit r metadata ∉ actions) → r ∉ agents.reservations →
        r ∉ agents.dropping →
        ∃ other, run start (without r start actions) = some other ∧ agents.SameRegistry other := by
  refine ⟨(run_sound hroot start_sound hrun).accounted, ?_, ?_⟩
  · intro maxThreads hlimit
    have hstart : start.Sound ∧ start.Limited maxThreads := by
      refine ⟨start_sound, Nat.zero_le _, ?_⟩
      intro reservation limit current hlookup
      cases hlookup
    have hboth : agents.Sound ∧ agents.Limited maxThreads := by
      refine run_preserves (I := fun agents => agents.Sound ∧ agents.Limited maxThreads)
        (C := fun action => action.SparesRoot ∧ action.HasLimit maxThreads) ?_
        (fun action hmem => ⟨hroot action hmem, hlimit action hmem⟩) hstart hrun
      rintro agents action next ⟨hroot, hlimit⟩ ⟨hsound, hlimited⟩ hstep
      exact ⟨step_sound hsound hroot hstep, step_limited hsound hlimited hlimit hstep⟩
    exact hboth.2.count
  · intro r hcommit hlive hdropping
    have hstart : Without r start start :=
      ⟨fun _ _ => rfl, fun _ _ => rfl, rfl, fun _ _ => rfl, fun _ _ => rfl, rfl,
        fun _ => AList.notMem_empty _⟩
    obtain ⟨other, hother, hwithout⟩ :=
      run_without hstart start_sound start_sound hroot hcommit hrun
    exact ⟨other, hother, hwithout.sameRegistry hlive hdropping⟩

/-! ### Fixed runs -/

/-- A child of the root. -/
def researcher : AgentPath := ⟨"/root/researcher".toList, by decide +kernel⟩

/-- An agent that is committed. -/
def spawned (threadId : String) (path : Option AgentPath) : AgentMetadata :=
  { AgentMetadata.default with agentId := some threadId.toList, agentPath := path }

/-- Two reservations with limit 2 want the same path; the second one is dropped, the first one
committed and its agent released. -/
def spawnRun : List Action :=
  [.load 0 2, .load 1 2, .exchange 0 false, .exchange 1 false, .exchange 1 false,
    .reserveAgentPath 0 researcher, .reserveAgentPath 1 researcher, .drop 1,
    .commit 0 (spawned "a" (some researcher)), .dropped 1, .registerRoot "r".toList,
    .release "a".toList (some researcher.text), .released, .release "a".toList none]

lemma spawnRun_isSome : (run start spawnRun).isSome = true := by decide +kernel

/-- The state after `spawnRun`. -/
def spawnEnd : Agents := (run start spawnRun).get spawnRun_isSome

theorem slots_accounted_spawnRun :
    spawnEnd.Accounted ∧ spawnEnd.registry.totalCount ≤ 2 ∧
      ∃ other, run start (without 1 start spawnRun) = some other ∧ spawnEnd.SameRegistry other := by
  have hroot : ∀ action ∈ spawnRun, action.SparesRoot := by
    have hresearcher : researcher.isRoot = false := by decide +kernel
    simp [spawnRun, Action.SparesRoot, hresearcher]
  obtain ⟨haccounted, hlimit, hdropped⟩ :=
    slots_accounted spawnRun spawnEnd hroot (Option.some_get spawnRun_isSome).symm
  refine ⟨haccounted, hlimit 2 (by simp [spawnRun, Action.HasLimit]), ?_⟩
  exact hdropped 1 (by simp [spawnRun]) (by decide +kernel) (by decide +kernel)

/-- The root path is reserved and committed: its unit of the counter is never given back, also not
when the agent is released. And while it is reserved, the root cannot be registered. -/
theorem slot_leaked :
    (∃ agents, run start
        [.reserveUnlimited 0, .reserveAgentPath 0 AgentPath.root,
          .commit 0 (spawned "a" (some AgentPath.root)),
          .release "a".toList (some AgentPath.root.text)] = some agents ∧
      agents.Idle ∧ agents.registry.totalCount = 1 ∧
      agents.liveReservations = 0 ∧ agents.registeredAgents = 0 ∧ ¬ agents.Accounted) ∧
    ∃ agents, run start
        [.reserveUnlimited 0, .reserveAgentPath 0 AgentPath.root, .registerRoot "r".toList,
          .drop 0, .dropped 0] = some agents ∧
      agents.registry.agentTree.lookup AgentPath.root.text = none := by
  constructor
  · have hrun : (run start
        [.reserveUnlimited 0, .reserveAgentPath 0 AgentPath.root,
          .commit 0 (spawned "a" (some AgentPath.root)),
          .release "a".toList (some AgentPath.root.text)]).any (fun agents =>
        agents.reserving.keys = [] ∧ agents.dropping = [] ∧ agents.releasing = 0 ∧
          agents.registry.totalCount = 1 ∧ agents.liveReservations = 0 ∧
          agents.registeredAgents = 0) = true := by decide +kernel
    obtain ⟨agents, hagents, hfacts⟩ := (Option.any_eq_true _ _).mp hrun
    obtain ⟨hreserving, hdropping, hreleasing, htotal, hlive, hregistered⟩ :=
      of_decide_eq_true hfacts
    have hidle : agents.Idle := ⟨hreserving, hdropping, hreleasing⟩
    refine ⟨agents, hagents, hidle, htotal, hlive, hregistered, ?_⟩
    intro h
    have hexact := h.exact hidle
    omega
  · have hrun : (run start
        [.reserveUnlimited 0, .reserveAgentPath 0 AgentPath.root, .registerRoot "r".toList,
          .drop 0, .dropped 0]).any (fun agents =>
        agents.registry.agentTree.lookup AgentPath.root.text = none) = true := by decide +kernel
    obtain ⟨agents, hagents, hnone⟩ := (Option.any_eq_true _ _).mp hrun
    exact ⟨agents, hagents, of_decide_eq_true hnone⟩

end Agents

end Codex.Agent
