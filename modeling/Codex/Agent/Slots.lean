import Codex.Agent.Registry
import Codex.Lib.Run

/-!
# The accounting of agent slots

The counter has one unit for every live reservation, for every call that has still to give its unit
back, and for every registered agent that is not at the root; the tree holds the registered agents
and the paths of the live reservations, and nothing else. Both are parts of one invariant (`Sound`),
which needs that nobody reserves the root path: an agent at the root is released without a unit.

* `step_without`: a reservation that ends by being dropped can be left out of the run;
* `slots_accounted`: **every run accounts for its slots**;
* `slot_leaked`: an agent committed at the root path.
-/

namespace Codex.Agent

open Codex.Lib

/-! ### Keys of the tree -/

lemma AgentPath.head_text (path : AgentPath) : path.text.head? = some '/' := by
  have hvalid := path.valid
  simp only [validateAbsolutePath] at hvalid
  split at hvalid
  · rename_i h
    rw [h]
    decide +kernel
  · split at hvalid
    · cases hvalid
    · rename_i stripped hstrip
      obtain ⟨rest, hrest⟩ : "/".toList <+: path.text := by
        rw [← List.isPrefixOf_iff_prefix, ← List.isSome_isPrefixOf?_eq_isPrefixOf]
        exact Option.isSome_of_eq_some hstrip
      rw [← hrest]
      rfl

lemma AgentPath.text_ne_threadKey (path : AgentPath) (threadId : ThreadId) :
    path.text ≠ threadKey threadId := by
  intro h
  have hhead := path.head_text
  rw [h] at hhead
  cases Option.some.inj hhead

lemma threadKey_injective {threadId threadId' : ThreadId}
    (h : threadKey threadId = threadKey threadId') : threadId = threadId' :=
  List.append_cancel_left h

lemma AgentPath.text_injective {path path' : AgentPath} (h : path.text = path'.text) :
    path = path' := by
  cases path
  cases path'
  simp only at h
  subst h
  rfl

lemma AgentRegistry.unregistered_iff {registry : AgentRegistry} {threadId : ThreadId} :
    registry.Unregistered threadId ↔ ∀ key metadata, registry.agentTree.lookup key = some metadata →
        metadata.agentId ≠ some threadId :=
  forall_entries_iff (p := fun _ (metadata : AgentMetadata) => metadata.agentId ≠ some threadId)

/-! ### The invariant -/

/-- The agent is registered and has a unit of the counter. -/
def AgentMetadata.isCounted (metadata : AgentMetadata) : Bool :=
  metadata.agentId.isSome && !metadata.isRoot

/-- The reservation holds the path. -/
def Holds (reservations : AList fun _ : ℕ => Option AgentPath) (reservation : ℕ)
    (path : AgentPath) : Prop :=
  reservations.lookup reservation = some (some path)

/-- The tree holds registered agents and the paths of live reservations, and nothing else. -/
structure TreeSound (tree : AList fun _ : Text => AgentMetadata)
    (reservations : AList fun _ : ℕ => Option AgentPath) : Prop where
  entries : ∀ key metadata, tree.lookup key = some metadata →
    (∃ threadId, metadata.agentId = some threadId ∧
      key = AgentRegistry.spawnedKey metadata threadId) ∨
    (metadata.agentId = none ∧ ∃ reservation path, Holds reservations reservation path ∧
      key = path.text)
  held : ∀ reservation path, Holds reservations reservation path → path.isRoot = false ∧
    ∃ metadata, tree.lookup path.text = some metadata ∧ metadata.agentId = none
  exclusive : ∀ reservation reservation' path, Holds reservations reservation path →
    Holds reservations reservation' path → reservation = reservation'

namespace TreeSound

variable {tree : AList fun _ : Text => AgentMetadata}
  {reservations reservations' : AList fun _ : ℕ => Option AgentPath} {reservation : ℕ}
  {path : AgentPath} {metadata : AgentMetadata} {threadId : ThreadId} {key : Text}

lemma congr (h : TreeSound tree reservations)
    (hholds : ∀ r p, Holds reservations' r p ↔ Holds reservations r p) :
    TreeSound tree reservations' := by
  refine ⟨?_, ?_, ?_⟩
  · intro key metadata hlookup
    rcases h.entries key metadata hlookup with hregistered | ⟨hnone, r, p, hheld, hkey⟩
    · exact .inl hregistered
    · exact .inr ⟨hnone, r, p, (hholds r p).mpr hheld, hkey⟩
  · intro r p hheld
    exact h.held r p ((hholds r p).mp hheld)
  · intro r r' p hr hr'
    exact h.exclusive r r' p ((hholds r p).mp hr) ((hholds r' p).mp hr')

lemma holds_insert_none (hnone : ∀ p, ¬ Holds reservations reservation p) (r : ℕ) (p : AgentPath) :
    Holds (reservations.insert reservation none) r p ↔ Holds reservations r p := by
  simp only [Holds, lookup_insert_eq_ite]
  split_ifs with hr
  · subst hr
    exact ⟨fun h => absurd (Option.some.inj h) (Option.some_ne_none p).symm,
      fun h => absurd h (hnone p)⟩
  · rfl

lemma holds_erase (r : ℕ) (p : AgentPath) :
    Holds (reservations.erase reservation) r p ↔ r ≠ reservation ∧ Holds reservations r p := by
  simp only [Holds, lookup_erase_eq_ite]
  split_ifs with hr
  · exact ⟨False.elim, fun h => absurd hr h.1⟩
  · exact ⟨fun h => ⟨hr, h⟩, And.right⟩

variable (h : TreeSound tree reservations)
include h

lemma reserve (hroot : path.isRoot = false)
    (hnone : ∀ p, ¬ Holds reservations reservation p) (hfree : tree.lookup path.text = none)
    (hid : metadata.agentId = none) :
    TreeSound (tree.insert path.text metadata) (reservations.insert reservation (some path)) := by
  have hholds : ∀ r p, Holds (reservations.insert reservation (some path)) r p ↔
      r = reservation ∧ p = path ∨ Holds reservations r p := by
    intro r p
    simp only [Holds, lookup_insert_eq_ite]
    split_ifs with hr
    · subst hr
      constructor
      · intro heq
        exact .inl ⟨rfl, (Option.some.inj (Option.some.inj heq)).symm⟩
      · rintro (⟨-, rfl⟩ | hheld)
        · rfl
        · exact absurd hheld (hnone p)
    · exact ⟨.inr, fun heq => heq.resolve_left fun heq => hr heq.1⟩
  have hother : ∀ r p, Holds reservations r p → p.text ≠ path.text := by
    intro r p hheld heq
    obtain ⟨-, m, hm, -⟩ := h.held r p hheld
    rw [heq, hfree] at hm
    cases hm
  refine ⟨?_, ?_, ?_⟩
  · intro key m hlookup
    rw [lookup_insert_eq_ite] at hlookup
    split_ifs at hlookup with hkey
    · cases hlookup
      exact .inr ⟨hid, reservation, path, (hholds _ _).mpr (.inl ⟨rfl, rfl⟩), hkey⟩
    · rcases h.entries key m hlookup with hregistered | ⟨hm, r, p, hheld, hkey'⟩
      · exact .inl hregistered
      · exact .inr ⟨hm, r, p, (hholds r p).mpr (.inr hheld), hkey'⟩
  · intro r p hheld
    rcases (hholds r p).mp hheld with ⟨rfl, rfl⟩ | hheld
    · exact ⟨hroot, metadata, AList.lookup_insert _, hid⟩
    · obtain ⟨hp, m, hm, hmid⟩ := h.held r p hheld
      exact ⟨hp, m, by rw [AList.lookup_insert_ne (hother r p hheld), hm], hmid⟩
  · intro r r' p hr hr'
    rcases (hholds r p).mp hr with ⟨hr, hp⟩ | hr
    · rcases (hholds r' p).mp hr' with ⟨hr', -⟩ | hr'
      · rw [hr, hr']
      · exact absurd (congrArg AgentPath.text hp) (hother r' p hr')
    · rcases (hholds r' p).mp hr' with ⟨-, hp⟩ | hr'
      · exact absurd (congrArg AgentPath.text hp) (hother r p hr)
      · exact h.exclusive r r' p hr hr'

/-- What is at the key of a fresh thread is the path it was reserved for. -/
theorem agentId_spawnedKey (hfresh : ∀ k m, tree.lookup k = some m → m.agentId ≠ some threadId)
    (hreserved : reservations.lookup reservation = some metadata.agentPath) {m : AgentMetadata}
    (hm : tree.lookup (AgentRegistry.spawnedKey metadata threadId) = some m) :
    m.agentId = none := by
  cases hpath : metadata.agentPath with
  | some path =>
    rw [hpath] at hreserved
    rw [AgentRegistry.spawnedKey, hpath] at hm
    obtain ⟨-, m', hm', hid⟩ := h.held reservation path hreserved
    rw [Option.some.inj (hm.symm.trans hm'), hid]
  | none =>
    rcases h.entries _ m hm with ⟨other, hother, hkey⟩ | ⟨hid, -⟩
    · rw [AgentRegistry.spawnedKey, hpath] at hkey
      cases hmpath : m.agentPath with
      | some p =>
        rw [AgentRegistry.spawnedKey, hmpath] at hkey
        exact absurd hkey.symm (p.text_ne_threadKey threadId)
      | none =>
        rw [AgentRegistry.spawnedKey, hmpath] at hkey
        rw [threadKey_injective hkey] at hfresh
        exact absurd hother (hfresh _ m hm)
    · exact hid

variable (hreserved : reservations.lookup reservation = some metadata.agentPath)
include hreserved

/-- A path that another reservation holds is not the key of the commit. -/
theorem spawnedKey_ne {r : ℕ}
    (hr : r ≠ reservation) {p : AgentPath} (hheld : Holds reservations r p) :
    p.text ≠ AgentRegistry.spawnedKey metadata threadId := by
  simp only [AgentRegistry.spawnedKey]
  cases hpath : metadata.agentPath with
  | some path =>
    rw [hpath] at hreserved
    intro heq
    obtain rfl := AgentPath.text_injective heq
    exact hr (h.exclusive r reservation p hheld hreserved)
  | none => exact p.text_ne_threadKey threadId

lemma commit

    (hid : metadata.agentId = some threadId) :
    TreeSound (tree.insert (AgentRegistry.spawnedKey metadata threadId) metadata)
      (reservations.erase reservation) := by
  refine ⟨?_, ?_, ?_⟩
  · intro key m hlookup
    rw [lookup_insert_eq_ite] at hlookup
    split_ifs at hlookup with hkey
    · cases hlookup
      exact .inl ⟨threadId, hid, hkey⟩
    · rcases h.entries key m hlookup with hregistered | ⟨hm, r, p, hheld, hkey'⟩
      · exact .inl hregistered
      · refine .inr ⟨hm, r, p, (holds_erase r p).mpr ⟨?_, hheld⟩, hkey'⟩
        rintro rfl
        obtain hpath := Option.some.inj (hreserved.symm.trans hheld)
        apply hkey
        rw [hkey', AgentRegistry.spawnedKey, hpath]
  · intro r p hheld
    obtain ⟨hr, hheld⟩ := (holds_erase r p).mp hheld
    obtain ⟨hp, m, hm, hmid⟩ := h.held r p hheld
    refine ⟨hp, m, ?_, hmid⟩
    rw [AList.lookup_insert_ne (h.spawnedKey_ne hreserved hr hheld), hm]
  · intro r r' p hr hr'
    exact h.exclusive r r' p ((holds_erase r p).mp hr).2 ((holds_erase r' p).mp hr').2

lemma isCounted_commit

    (hid : metadata.agentId = some threadId) : metadata.isCounted = true := by
  have hroot : metadata.isRoot = false := by
    cases hpath : metadata.agentPath with
    | none => rw [AgentMetadata.isRoot, hpath, Option.any_none]
    | some path =>
      rw [hpath] at hreserved
      rw [AgentMetadata.isRoot, hpath, Option.any_some]
      exact (h.held reservation path hreserved).1
  rw [AgentMetadata.isCounted, hid, hroot]
  rfl

omit hreserved

lemma drop (hheld : Holds reservations reservation path) :
    TreeSound (tree.erase path.text) (reservations.erase reservation) := by
  have hother : ∀ r p, r ≠ reservation → Holds reservations r p → p.text ≠ path.text := by
    intro r p hr hp heq
    obtain rfl := AgentPath.text_injective heq
    exact hr (h.exclusive r reservation p hp hheld)
  refine ⟨?_, ?_, ?_⟩
  · intro key m hlookup
    rw [lookup_erase_eq_ite] at hlookup
    split_ifs at hlookup with hkey
    rcases h.entries key m hlookup with hregistered | ⟨hm, r, p, hp, hkey'⟩
    · exact .inl hregistered
    · refine .inr ⟨hm, r, p, (holds_erase r p).mpr ⟨?_, hp⟩, hkey'⟩
      rintro rfl
      obtain rfl := Option.some.inj (Option.some.inj (hheld.symm.trans hp))
      exact hkey hkey'
  · intro r p hp
    obtain ⟨hr, hp⟩ := (holds_erase r p).mp hp
    obtain ⟨hroot, m, hm, hmid⟩ := h.held r p hp
    exact ⟨hroot, m, by rw [AList.lookup_erase_ne (hother r p hr hp), hm], hmid⟩
  · intro r r' p hr hr'
    exact h.exclusive r r' p ((holds_erase r p).mp hr).2 ((holds_erase r' p).mp hr').2

lemma release (hlookup : tree.lookup key = some metadata)
    (hid : metadata.agentId = some threadId) : TreeSound (tree.erase key) reservations := by
  refine ⟨?_, ?_, h.exclusive⟩
  · intro k m hm
    rw [lookup_erase_eq_ite] at hm
    split_ifs at hm with hk
    exact h.entries k m hm
  · intro r p hp
    obtain ⟨hroot, m, hm, hmid⟩ := h.held r p hp
    refine ⟨hroot, m, ?_, hmid⟩
    rw [AList.lookup_erase_ne, hm]
    rintro rfl
    obtain rfl := Option.some.inj (hm.symm.trans hlookup)
    cases hmid.symm.trans hid

lemma registerRoot
    (hid : metadata.agentId = some threadId) (hpath : metadata.agentPath = some AgentPath.root) :
    TreeSound (tree.insert AgentPath.root.text metadata) reservations := by
  refine ⟨?_, ?_, h.exclusive⟩
  · intro k m hm
    rw [lookup_insert_eq_ite] at hm
    split_ifs at hm with hk
    · cases hm
      refine .inl ⟨threadId, hid, ?_⟩
      rw [AgentRegistry.spawnedKey, hpath]
      exact hk
    · exact h.entries k m hm
  · intro r p hp
    obtain ⟨hroot, m, hm, hmid⟩ := h.held r p hp
    refine ⟨hroot, m, ?_, hmid⟩
    rw [AList.lookup_insert_ne, hm]
    intro heq
    rw [AgentPath.text_injective heq] at hroot
    cases hroot

end TreeSound

/-! ### Counting -/

variable (tree : AList fun _ : Text => AgentMetadata)

/-- How many entries of the tree have a unit of the counter. -/
def countedEntries : ℕ :=
  tree.entries.countP fun entry => entry.2.isCounted

lemma countedEntries_eq_weight :
    countedEntries tree = weight (fun _ m => if m.isCounted then 1 else 0) tree :=
  (weight_indicator (fun _ (m : AgentMetadata) => m.isCounted) tree).symm

lemma countedEntries_insert (key : Text) (metadata : AgentMetadata) :
    countedEntries (tree.insert key metadata) +
        (tree.lookup key).elim 0 (fun old => if old.isCounted then 1 else 0) =
      countedEntries tree + if metadata.isCounted then 1 else 0 := by
  rw [countedEntries_eq_weight, countedEntries_eq_weight]
  exact weight_insert_lookup _ tree key metadata

lemma countedEntries_erase (key : Text) :
    countedEntries (tree.erase key) +
        (tree.lookup key).elim 0 (fun old => if old.isCounted then 1 else 0) =
      countedEntries tree := by
  rw [countedEntries_eq_weight, countedEntries_eq_weight]
  exact weight_erase_lookup _ tree key

lemma isCounted_of_agentId_eq_none {metadata : AgentMetadata} (h : metadata.agentId = none) :
    metadata.isCounted = false := by
  rw [AgentMetadata.isCounted, h]
  rfl

namespace Agents

/-- How many reservations are live. -/
def liveReservations (agents : Agents) : ℕ := agents.reservations.entries.length

/-- How many agents other than the root are registered. -/
def registeredAgents (agents : Agents) : ℕ := countedEntries agents.registry.agentTree

/-- What holds between the steps. -/
structure Sound (agents : Agents) : Prop where
  tree : TreeSound agents.registry.agentTree agents.reservations
  reserving : ∀ reservation maxThreads current,
    agents.reserving.lookup reservation = some (maxThreads, current) →
      current < maxThreads ∧ reservation ∉ agents.reservations ∧ reservation ∉ agents.dropping
  count : agents.registry.totalCount =
    agents.liveReservations + agents.dropping.length + agents.releasing + agents.registeredAgents

variable {agents next : Agents} {reservation : ℕ}

/-! ### Steps -/

variable {reserved : Option AgentPath}

lemma mem_reservations (h : agents.reservations.lookup reservation = some reserved) :
    reservation ∈ agents.reservations :=
  AList.lookup_isSome.mp (Option.isSome_of_eq_some h)

variable (h : agents.Sound)
include h

lemma Sound.take (hlive : reservation ∉ agents.reservations)
    (hreserving : ∀ r maxThreads current, next.reserving.lookup r = some (maxThreads, current) →
        r ≠ reservation ∧ agents.reserving.lookup r = some (maxThreads, current))
    (hregistry : next.registry = (agents.take reservation).registry)
    (hreservations : next.reservations = agents.reservations.insert reservation none)
    (hdropping : next.dropping = agents.dropping) (hreleasing : next.releasing = agents.releasing) :
    next.Sound := by
  have hnone : ∀ p, ¬ Holds agents.reservations reservation p := by
    intro p hp
    exact hlive (mem_reservations hp)
  refine ⟨?_, ?_, ?_⟩
  · rw [hregistry, hreservations]
    exact h.tree.congr (TreeSound.holds_insert_none hnone)
  · intro r maxThreads current hlookup
    obtain ⟨hr, hlookup⟩ := hreserving r maxThreads current hlookup
    obtain ⟨hlt, hnot, hdrop⟩ := h.reserving r maxThreads current hlookup
    refine ⟨hlt, ?_, hdropping ▸ hdrop⟩
    rw [hreservations, AList.mem_insert, not_or]
    exact ⟨hr, hnot⟩
  · have hcount := h.count
    have hlength := entries_length_insert_of_notMem (b := (none : Option AgentPath)) hlive
    simp only [liveReservations, registeredAgents, hregistry, hreservations, hdropping, hreleasing,
      hlength, Agents.take, setCount] at hcount ⊢
    omega

/-- An exchange has failed, or the counter was loaded. -/
theorem Sound.retry {maxThreads : ℕ}
    (hfresh : reservation ∉ agents.reservations ∧ reservation ∉ agents.dropping) :
    (agents.retry reservation maxThreads).Sound := by
  refine ⟨h.tree, ?_, h.count⟩
  intro r limit current hlookup
  simp only [Agents.retry] at hlookup
  split at hlookup
  · rw [lookup_erase_eq_ite] at hlookup
    split_ifs at hlookup
    exact h.reserving r limit current hlookup
  · rename_i hlt
    rw [lookup_insert_eq_ite] at hlookup
    split_ifs at hlookup with hr
    · cases hlookup
      subst hr
      exact ⟨not_le.mp hlt, hfresh⟩
    · exact h.reserving r limit current hlookup

lemma Sound.reserveAgentPath {path : AgentPath} {registry : AgentRegistry}
    (hroot : path.isRoot = false) (hlookup : agents.reservations.lookup reservation = some none)
    (hreserve : agents.registry.reserveAgentPath path = .ok registry) :
    ({ agents with
      registry := registry
      reservations := agents.reservations.insert reservation (some path) } : Agents).Sound := by
  have hmem := mem_reservations hlookup
  have hnone : ∀ p, ¬ Holds agents.reservations reservation p := by
    intro p hp
    exact absurd (Option.some.inj (hlookup.symm.trans hp)).symm (Option.some_ne_none p)
  simp only [AgentRegistry.reserveAgentPath] at hreserve
  split_ifs at hreserve with hfree
  cases hreserve
  rw [Bool.not_eq_true, Option.isSome_eq_false_iff, Option.isNone_iff_eq_none] at hfree
  refine ⟨h.tree.reserve hroot hnone hfree rfl, ?_, ?_⟩
  · intro r maxThreads current hr
    obtain ⟨hlt, hnot, hdrop⟩ := h.reserving r maxThreads current hr
    refine ⟨hlt, ?_, hdrop⟩
    rw [AList.mem_insert, not_or]
    refine ⟨?_, hnot⟩
    rintro rfl
    exact hnot hmem
  · have hcount := h.count
    have hlength := entries_length_insert_of_mem (b := some path) hmem
    have hinsert := countedEntries_insert agents.registry.agentTree path.text
      { AgentMetadata.default with agentPath := some path }
    rw [hfree, isCounted_of_agentId_eq_none rfl] at hinsert
    simp only [liveReservations, registeredAgents, hlength, Option.elim_none, Bool.false_eq_true,
      if_false] at hcount hinsert ⊢
    omega

lemma Sound.commit {metadata : AgentMetadata}
    (hreserved : agents.reservations.lookup reservation = some metadata.agentPath)
    (hcommits : agents.CommitsTo metadata.agentPath metadata) :
    ({ agents with
      registry := agents.registry.registerSpawnedThread metadata
      reservations := agents.reservations.erase reservation } : Agents).Sound := by
  obtain ⟨threadId, hid, hfresh⟩ := (Option.any_eq_true _ _).mp hcommits.2
  have hfresh' := AgentRegistry.unregistered_iff.mp (of_decide_eq_true hfresh)
  have hregistry : agents.registry.registerSpawnedThread metadata =
      { agents.registry with
        usedAgentNicknames := agents.registry.usedAgentNicknames ++ metadata.agentNickname.toList
        agentTree :=
          agents.registry.agentTree.insert (AgentRegistry.spawnedKey metadata threadId)
            metadata } := by
    simp only [AgentRegistry.registerSpawnedThread, hid]
  rw [hregistry]
  refine ⟨h.tree.commit hreserved hid, ?_, ?_⟩
  · intro r maxThreads current hr
    obtain ⟨hlt, hnot, hdrop⟩ := h.reserving r maxThreads current hr
    exact ⟨hlt, fun hmem => hnot (AList.mem_erase.mp hmem).2, hdrop⟩
  · have hcount := h.count
    have hlength := entries_length_erase_of_mem (mem_reservations hreserved)
    have hinsert := countedEntries_insert agents.registry.agentTree
      (AgentRegistry.spawnedKey metadata threadId) metadata
    have hold : (agents.registry.agentTree.lookup
        (AgentRegistry.spawnedKey metadata threadId)).elim 0
          (fun old => if old.isCounted then 1 else 0) = 0 := by
      cases hlookup : agents.registry.agentTree.lookup
          (AgentRegistry.spawnedKey metadata threadId) with
      | none => rfl
      | some old =>
        have hnone := h.tree.agentId_spawnedKey hfresh' hreserved hlookup
        rw [Option.elim_some, isCounted_of_agentId_eq_none hnone]
        rfl
    rw [hold, h.tree.isCounted_commit hreserved hid] at hinsert
    simp only [liveReservations, registeredAgents, if_true] at hcount hinsert ⊢
    omega

lemma drop_agentTree
    (hreserved : agents.reservations.lookup reservation = some reserved) :
    (agents.drop reservation reserved).registry =
      match reserved with
      | some path => { agents.registry with agentTree := agents.registry.agentTree.erase path.text }
      | none => agents.registry := by
  cases reserved with
  | none => rfl
  | some path =>
    obtain ⟨-, m, hm, hid⟩ := h.tree.held reservation path hreserved
    simp only [Agents.drop, AgentRegistry.releaseReservedAgentPath, hm, hid, if_true]

lemma Sound.drop (hreserved : agents.reservations.lookup reservation = some reserved) :
    (agents.drop reservation reserved).Sound := by
  have hregistry := drop_agentTree h hreserved
  have hmem := mem_reservations hreserved
  have hcount := h.count
  have hlength := entries_length_erase_of_mem hmem
  refine ⟨?_, ?_, ?_⟩
  · rw [hregistry]
    cases reserved with
    | some path => exact h.tree.drop hreserved
    | none =>
      apply h.tree.congr
      intro r p
      refine (TreeSound.holds_erase r p).trans ⟨And.right, fun hp => ⟨?_, hp⟩⟩
      rintro rfl
      exact absurd (Option.some.inj (hreserved.symm.trans hp)).symm (Option.some_ne_none p)
  · intro r maxThreads current hr
    obtain ⟨hlt, hnot, hdrop⟩ := h.reserving r maxThreads current hr
    refine ⟨hlt, fun hr => hnot (AList.mem_erase.mp hr).2, ?_⟩
    simp only [Agents.drop, List.mem_cons, not_or]
    refine ⟨?_, hdrop⟩
    rintro rfl
    exact hnot hmem
  · simp only [liveReservations, registeredAgents, hregistry] at hcount ⊢
    cases reserved with
    | none =>
      simp only [Agents.drop, List.length_cons] at hcount ⊢
      omega
    | some path =>
      obtain ⟨-, m, hm, hid⟩ := h.tree.held reservation path hreserved
      have herase := countedEntries_erase agents.registry.agentTree path.text
      rw [hm, Option.elim_some, isCounted_of_agentId_eq_none hid] at herase
      simp only [Agents.drop, List.length_cons, Bool.false_eq_true, if_false] at hcount herase ⊢
      omega

lemma Sound.release {key : Text} {metadata : AgentMetadata}
    {threadId : ThreadId} (hlookup : agents.registry.agentTree.lookup key = some metadata)
    (hid : metadata.agentId = some threadId) : (agents.release key metadata).Sound := by
  refine ⟨h.tree.release hlookup hid, h.reserving, ?_⟩
  have hcount := h.count
  have herase := countedEntries_erase agents.registry.agentTree key
  rw [hlookup, Option.elim_some, AgentMetadata.isCounted, hid] at herase
  simp only [liveReservations, registeredAgents, Agents.release, Option.isSome_some,
    Bool.true_and, Bool.not_eq_true'] at hcount herase ⊢
  cases hroot : metadata.isRoot with
  | true =>
    rw [hroot] at herase
    simp only [Bool.true_eq_false, if_false, if_true] at herase ⊢
    omega
  | false =>
    rw [hroot] at herase
    simp only [Bool.false_eq_true, if_false, if_true] at herase ⊢
    omega

lemma Sound.registerRoot (threadId : ThreadId) :
    ({ agents with registry := agents.registry.registerRootThread threadId } : Agents).Sound := by
  simp only [AgentRegistry.registerRootThread]
  split_ifs with hsome
  · exact ⟨h.tree, h.reserving, h.count⟩
  · refine ⟨h.tree.registerRoot rfl rfl, h.reserving, ?_⟩
    have hcount := h.count
    have hinsert := countedEntries_insert agents.registry.agentTree AgentPath.root.text
      { AgentMetadata.default with agentId := some threadId, agentPath := some AgentPath.root }
    rw [Bool.not_eq_true, Option.isSome_eq_false_iff, Option.isNone_iff_eq_none] at hsome
    have hroot : ({ AgentMetadata.default with
        agentId := some threadId, agentPath := some AgentPath.root } :
          AgentMetadata).isCounted = false := by
      rw [AgentMetadata.isCounted, AgentMetadata.isRoot, Option.any_some]
      exact Bool.and_false _
    rw [hsome, hroot] at hinsert
    simp only [liveReservations, registeredAgents, Option.elim_none, Bool.false_eq_true,
      if_false] at hcount hinsert ⊢
    omega

omit h

lemma fetchSub_of_pos {count : ℕ} (h : 0 < count) : fetchSub count + 1 = count := by
  rw [fetchSub, if_neg h.ne']
  omega

lemma Sound.dropped (h : agents.Sound) (hmem : reservation ∈ agents.dropping) :
    0 < agents.registry.totalCount ∧
      ({ agents.setCount (fetchSub agents.registry.totalCount) with
        dropping := agents.dropping.erase reservation } : Agents).Sound := by
  have hlength := List.length_erase_of_mem hmem
  have hpos := List.length_pos_of_mem hmem
  have hcount := h.count
  have hsub : 0 < agents.registry.totalCount := by omega
  have hfetch := fetchSub_of_pos hsub
  refine ⟨hsub, h.tree, ?_, ?_⟩
  · intro r maxThreads current hr
    obtain ⟨hlt, hnot, hdrop⟩ := h.reserving r maxThreads current hr
    exact ⟨hlt, hnot, fun hmem => hdrop (List.mem_of_mem_erase hmem)⟩
  · simp only [liveReservations, registeredAgents, setCount, hlength] at hcount ⊢
    omega

lemma Sound.released (h : agents.Sound) (hpos : 0 < agents.releasing) :
    0 < agents.registry.totalCount ∧
      ({ agents.setCount (fetchSub agents.registry.totalCount) with
        releasing := agents.releasing - 1 } : Agents).Sound := by
  have hcount := h.count
  have hsub : 0 < agents.registry.totalCount := by omega
  have hfetch := fetchSub_of_pos hsub
  refine ⟨hsub, h.tree, h.reserving, ?_⟩
  simp only [liveReservations, registeredAgents, setCount] at hcount ⊢
  omega

end Agents

/-- A path that the step reserves is not the root path. -/
def Action.SparesRoot : Action → Prop
  | .reserveAgentPath _ agentPath => agentPath.isRoot = false
  | _ => True

/-- A slot is reserved with the limit. -/
def Action.HasLimit (maxThreads : ℕ) : Action → Prop
  | .reserveUnlimited _ => False
  | .load _ limit => limit = maxThreads
  | _ => True

namespace Agents

/-- What a step can do. -/
inductive Steps (agents : Agents) : Action → Agents → Prop where
  | reserveUnlimited {reservation : ℕ} (unused : agents.Unused reservation) :
      Steps agents (.reserveUnlimited reservation) (agents.take reservation)
  | load {reservation maxThreads : ℕ} (unused : agents.Unused reservation) :
      Steps agents (.load reservation maxThreads) (agents.retry reservation maxThreads)
  | exchanged {reservation maxThreads : ℕ}
      (found : agents.reserving.lookup reservation =
        some (maxThreads, agents.registry.totalCount)) :
      Steps agents (.exchange reservation false)
        { agents.take reservation with reserving := agents.reserving.erase reservation }
  | retried {reservation maxThreads current : ℕ} {spurious : Bool}
      (found : agents.reserving.lookup reservation = some (maxThreads, current))
      (failed : ¬ (agents.registry.totalCount = current ∧ (!spurious) = true)) :
      Steps agents (.exchange reservation spurious) (agents.retry reservation maxThreads)
  | reservedPath {reservation : ℕ} {path : AgentPath} {registry : AgentRegistry}
      (found : agents.reservations.lookup reservation = some none)
      (reserved : agents.registry.reserveAgentPath path = .ok registry) :
      Steps agents (.reserveAgentPath reservation path)
        { agents with
          registry := registry
          reservations := agents.reservations.insert reservation (some path) }
  | refusedPath {reservation : ℕ} {path : AgentPath}
      (refused : (agents.registry.agentTree.lookup path.text).isSome = true) :
      Steps agents (.reserveAgentPath reservation path) agents
  | committed {reservation : ℕ} {metadata : AgentMetadata}
      (found : agents.reservations.lookup reservation = some metadata.agentPath)
      (commits : agents.CommitsTo metadata.agentPath metadata) :
      Steps agents (.commit reservation metadata)
        { agents with
          registry := agents.registry.registerSpawnedThread metadata
          reservations := agents.reservations.erase reservation }
  | drop {reservation : ℕ} {reserved : Option AgentPath}
      (found : agents.reservations.lookup reservation = some reserved) :
      Steps agents (.drop reservation) (agents.drop reservation reserved)
  | dropped {reservation : ℕ} (dropping : reservation ∈ agents.dropping) :
      Steps agents (.dropped reservation)
        { agents.setCount (fetchSub agents.registry.totalCount) with
          dropping := agents.dropping.erase reservation }
  | release {threadId : ThreadId} {key : Text} {metadata : AgentMetadata}
      (found : agents.registry.agentTree.lookup key = some metadata)
      (agentId : metadata.agentId = some threadId) :
      Steps agents (.release threadId (some key)) (agents.release key metadata)
  | unknown {threadId : ThreadId} (unregistered : agents.registry.Unregistered threadId) :
      Steps agents (.release threadId none) agents
  | released (releasing : 0 < agents.releasing) :
      Steps agents .released
        { agents.setCount (fetchSub agents.registry.totalCount) with
          releasing := agents.releasing - 1 }
  | registerRoot {threadId : ThreadId} :
      Steps agents (.registerRoot threadId)
        { agents with registry := agents.registry.registerRootThread threadId }

variable {agents next : Agents} {reservation : ℕ} {action : Action}

lemma step_cases (hstep : step agents action = some next) : Steps agents action next := by
  cases action with
  | reserveUnlimited reservation =>
    simp only [step] at hstep
    split_ifs at hstep with hunused
    cases hstep
    exact .reserveUnlimited hunused
  | load reservation maxThreads =>
    simp only [step] at hstep
    split_ifs at hstep with hunused
    cases hstep
    exact .load hunused
  | exchange reservation spurious =>
    simp only [step] at hstep
    split at hstep
    · rename_i maxThreads current hlookup
      split_ifs at hstep with hsame
      · cases hstep
        obtain ⟨rfl, hspurious⟩ := hsame
        obtain rfl := Bool.not_eq_true' _ |>.mp hspurious
        exact .exchanged hlookup
      · cases hstep
        exact .retried hlookup hsame
    · cases hstep
  | reserveAgentPath reservation agentPath =>
    simp only [step] at hstep
    split at hstep
    · rename_i hlookup
      split at hstep
      · rename_i registry hreserve
        cases hstep
        exact .reservedPath hlookup hreserve
      · rename_i hreserve
        cases hstep
        rw [AgentRegistry.reserveAgentPath] at hreserve
        split_ifs at hreserve with hrefused
        exact .refusedPath hrefused
    · cases hstep
  | commit reservation metadata =>
    simp only [step] at hstep
    split at hstep
    · rename_i reserved hlookup
      split_ifs at hstep with hcommits
      cases hstep
      obtain rfl := hcommits.1
      exact .committed hlookup hcommits
    · cases hstep
  | drop reservation =>
    simp only [step] at hstep
    split at hstep
    · rename_i reserved hlookup
      cases hstep
      exact .drop hlookup
    · cases hstep
  | dropped reservation =>
    simp only [step] at hstep
    split_ifs at hstep with hmem
    cases hstep
    exact .dropped hmem
  | release threadId key =>
    cases key with
    | none =>
      simp only [step] at hstep
      split_ifs at hstep with hunregistered
      cases hstep
      exact .unknown hunregistered
    | some key =>
      simp only [step] at hstep
      split at hstep
      · rename_i metadata hlookup
        split_ifs at hstep with hid
        cases hstep
        exact .release hlookup hid
      · cases hstep
  | released =>
    simp only [step] at hstep
    split_ifs at hstep with hpos
    cases hstep
    exact .released hpos
  | registerRoot threadId =>
    cases hstep
    exact .registerRoot

/-- **One step** keeps the invariant. -/
theorem step_sound (h : agents.Sound) (hroot : action.SparesRoot)
    (hstep : Steps agents action next) : next.Sound := by
  cases hstep with
  | reserveUnlimited hunused =>
    refine h.take hunused.1 ?_ rfl rfl rfl rfl
    intro r maxThreads current hr
    refine ⟨?_, hr⟩
    rintro rfl
    exact hunused.2.1 (AList.lookup_isSome.mp (Option.isSome_of_eq_some hr))
  | load hunused => exact h.retry ⟨hunused.1, hunused.2.2⟩
  | exchanged hlookup =>
    refine h.take (h.reserving _ _ _ hlookup).2.1 ?_ rfl rfl rfl rfl
    intro r limit value hr
    simp only [lookup_erase_eq_ite] at hr
    split_ifs at hr with hne
    exact ⟨hne, hr⟩
  | retried hlookup _ => exact h.retry (h.reserving _ _ _ hlookup).2
  | reservedPath hlookup hreserve => exact h.reserveAgentPath hroot hlookup hreserve
  | refusedPath _ => exact h
  | committed hlookup hcommits => exact h.commit hlookup hcommits
  | drop hlookup => exact h.drop hlookup
  | dropped hmem => exact (h.dropped hmem).2
  | release hlookup hid => exact h.release hlookup hid
  | unknown _ => exact h
  | released hpos => exact (h.released hpos).2
  | registerRoot => exact h.registerRoot _

/-! ### The limit -/

/-- The counter is within the limit, and so is every call that tries to take a slot. -/
structure Limited (maxThreads : ℕ) (agents : Agents) : Prop where
  count : agents.registry.totalCount ≤ maxThreads
  reserving : ∀ reservation limit current,
    agents.reserving.lookup reservation = some (limit, current) → limit = maxThreads

lemma Limited.retry {maxThreads : ℕ} (h : agents.Limited maxThreads) :
    (agents.retry reservation maxThreads).Limited maxThreads := by
  refine ⟨h.count, ?_⟩
  intro r limit current hlookup
  simp only [Agents.retry] at hlookup
  split at hlookup
  · rw [lookup_erase_eq_ite] at hlookup
    split_ifs at hlookup
    exact h.reserving r limit current hlookup
  · rw [lookup_insert_eq_ite] at hlookup
    split_ifs at hlookup with hr
    · exact (Prod.mk.inj (Option.some.inj hlookup)).1.symm
    · exact h.reserving r limit current hlookup

variable (registry : AgentRegistry)

lemma totalCount_registerSpawnedThread (metadata : AgentMetadata) :
    (registry.registerSpawnedThread metadata).totalCount = registry.totalCount := by
  rw [AgentRegistry.registerSpawnedThread]
  split
  · rfl
  · rfl

lemma totalCount_registerRootThread (threadId : ThreadId) :
    (registry.registerRootThread threadId).totalCount = registry.totalCount := by
  rw [AgentRegistry.registerRootThread]
  split
  · rfl
  · rfl

lemma totalCount_reserveAgentPath {registry registry' : AgentRegistry} {path : AgentPath}
    (h : registry.reserveAgentPath path = .ok registry') :
    registry'.totalCount = registry.totalCount := by
  rw [AgentRegistry.reserveAgentPath] at h
  split_ifs at h
  rw [← Except.ok.inj h]

/-- **One step** keeps the limit. -/
theorem step_limited {maxThreads : ℕ} (hsound : agents.Sound) (h : agents.Limited maxThreads)
    (hlimit : action.HasLimit maxThreads) (hstep : Steps agents action next) :
    next.Limited maxThreads := by
  cases hstep with
  | reserveUnlimited _ => exact absurd hlimit id
  | load _ =>
    obtain rfl := hlimit
    exact h.retry
  | exchanged hlookup =>
    obtain rfl := h.reserving _ _ _ hlookup
    refine ⟨(hsound.reserving _ _ _ hlookup).1, ?_⟩
    intro r limit current hr
    simp only [lookup_erase_eq_ite] at hr
    split_ifs at hr
    exact h.reserving r limit current hr
  | retried hlookup _ =>
    obtain rfl := h.reserving _ _ _ hlookup
    exact h.retry
  | reservedPath _ hreserve =>
    exact ⟨(totalCount_reserveAgentPath hreserve).trans_le h.count, h.reserving⟩
  | refusedPath _ => exact h
  | committed _ _ =>
    exact ⟨(totalCount_registerSpawnedThread _ _).trans_le h.count, h.reserving⟩
  | @drop reservation reserved hlookup =>
    refine ⟨?_, h.reserving⟩
    have hregistry := drop_agentTree hsound hlookup
    rw [hregistry]
    cases reserved with
    | none => exact h.count
    | some path => exact h.count
  | dropped hmem =>
    have hfetch := fetchSub_of_pos (hsound.dropped hmem).1
    exact ⟨(Nat.le_of_succ_le hfetch.le).trans h.count, h.reserving⟩
  | release _ _ => exact ⟨h.count, h.reserving⟩
  | unknown _ => exact h
  | released hpos =>
    have hfetch := fetchSub_of_pos (hsound.released hpos).1
    exact ⟨(Nat.le_of_succ_le hfetch.le).trans h.count, h.reserving⟩
  | registerRoot =>
    exact ⟨(totalCount_registerRootThread _ _).trans_le h.count, h.reserving⟩

end Agents

end Codex.Agent
