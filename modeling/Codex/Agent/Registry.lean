import Codex.Lib.AssocMap
import Codex.Lib.Text

/-!
# The agent registry

`core/src/agent/registry.rs`: the tree of agents behind its lock, the atomic count of spawned
threads, and the reservations that end by a commit or by being dropped. A step of the model is what
one call does under the lock once, or one access to the atomic counter. A call that needs several
of these is in progress in between: the loop of `try_increment_spawned`, a reservation that is being
dropped, and a release that has removed its agent.

The counter is a number without an upper bound, since every unit of it is a value in memory; below
zero it wraps. The pool of nicknames and the task messages are not read by these calls.
-/

namespace Codex.Agent

open Codex.Lib

/-! ### Paths -/

def validateAgentName (agentName : Text) : Bool :=
  agentName ≠ [] && agentName ≠ "root".toList && agentName ≠ ".".toList &&
    agentName ≠ "..".toList && '/' ∉ agentName &&
    agentName.all fun c => c.isLower || c.isDigit || c = '_'

def validateAbsolutePath (path : Text) : Bool :=
  if path = "/morpheus".toList then true
  else
    match stripPrefix "/".toList path with
    | none => false
    | some stripped =>
      match stripped.splitOn '/' with
      | [] => false
      | root :: segments =>
        root = "root".toList && stripped.getLast? ≠ some '/' && segments.all validateAgentName

structure AgentPath where
  text : Text
  valid : validateAbsolutePath text = true
  deriving DecidableEq

namespace AgentPath

def root : AgentPath := ⟨"/root".toList, by decide +kernel⟩

def isRoot (path : AgentPath) : Bool := path.text = "/root".toList

end AgentPath

/-! ### The registry -/

/-- `ThreadId`, as it is written out -/
abbrev ThreadId := Text

structure AgentMetadata where
  agentId : Option ThreadId
  agentPath : Option AgentPath
  agentNickname : Option Text
  agentRole : Option Text
  lastTaskMessage : Option Text

def AgentMetadata.default : AgentMetadata := ⟨none, none, none, none, none⟩

/-- `AgentRegistry`, with the fields of `ActiveAgents` -/
structure AgentRegistry where
  agentTree : AList fun _ : Text => AgentMetadata
  usedAgentNicknames : List Text
  totalCount : ℕ

/-- The agent is at the root. -/
def AgentMetadata.isRoot (metadata : AgentMetadata) : Bool :=
  metadata.agentPath.any AgentPath.isRoot

/-- The key of `register_spawned_thread` for an agent without a path -/
def threadKey (threadId : ThreadId) : Text := "thread:".toList ++ threadId

/-- `fetch_sub(1)` -/
def fetchSub (count : ℕ) : ℕ := if count = 0 then 2 ^ 64 - 1 else count - 1

namespace AgentRegistry

variable (registry : AgentRegistry)

def registerRootThread (threadId : ThreadId) : AgentRegistry :=
  if (registry.agentTree.lookup AgentPath.root.text).isSome then registry
  else
    { registry with
      agentTree := registry.agentTree.insert AgentPath.root.text
        { AgentMetadata.default with agentId := some threadId, agentPath := some AgentPath.root } }

variable (metadata : AgentMetadata)

/-- The key of `register_spawned_thread` -/
def spawnedKey (threadId : ThreadId) : Text :=
  match metadata.agentPath with
  | some agentPath => agentPath.text
  | none => threadKey threadId

def registerSpawnedThread : AgentRegistry :=
  match metadata.agentId with
  | none => registry
  | some threadId =>
    { registry with
      usedAgentNicknames := registry.usedAgentNicknames ++ metadata.agentNickname.toList
      agentTree := registry.agentTree.insert (spawnedKey metadata threadId) metadata }

def reserveAgentPath (agentPath : AgentPath) : Except Text AgentRegistry :=
  if (registry.agentTree.lookup agentPath.text).isSome then
    .error ("agent path \x60".toList ++ agentPath.text ++ "\x60 already exists".toList)
  else
    .ok { registry with
      agentTree := registry.agentTree.insert agentPath.text
        { AgentMetadata.default with agentPath := some agentPath } }

def releaseReservedAgentPath (agentPath : AgentPath) : AgentRegistry :=
  match registry.agentTree.lookup agentPath.text with
  | some metadata =>
    if metadata.agentId = none then
      { registry with agentTree := registry.agentTree.erase agentPath.text }
    else registry
  | none => registry

/-- No entry of the tree is for the thread. -/
def Unregistered (threadId : ThreadId) : Prop :=
  ∀ entry ∈ registry.agentTree.entries, entry.2.agentId ≠ some threadId

instance (registry : AgentRegistry) (threadId : ThreadId) :
    Decidable (registry.Unregistered threadId) :=
  inferInstanceAs (Decidable (∀ entry ∈ registry.agentTree.entries, _))

end AgentRegistry

/-! ### Calls -/

/-- The registry, what the live reservations hold, and the calls in progress. -/
structure Agents where
  registry : AgentRegistry
  /-- the live reservations, with `reserved_agent_path` -/
  reservations : AList fun _ : ℕ => Option AgentPath
  /-- in the loop of `try_increment_spawned`, with `max_threads` and `current` -/
  reserving : AList fun _ : ℕ => ℕ × ℕ
  /-- dropped reservations that have released their path -/
  dropping : List ℕ
  /-- how many releases have removed a counted agent -/
  releasing : ℕ

/-- One step of a call; a reservation has a number of its own. -/
inductive Action where
  /-- `reserve_spawn_slot` without a limit -/
  | reserveUnlimited (reservation : ℕ)
  /-- `reserve_spawn_slot` with a limit, up to the load of the counter -/
  | load (reservation : ℕ) (maxThreads : ℕ)
  /-- one `compare_exchange_weak`, which may fail for no reason -/
  | exchange (reservation : ℕ) (spurious : Bool)
  | reserveAgentPath (reservation : ℕ) (agentPath : AgentPath)
  | commit (reservation : ℕ) (metadata : AgentMetadata)
  /-- the drop of a reservation, up to the release of its path -/
  | drop (reservation : ℕ)
  /-- the rest of the drop -/
  | dropped (reservation : ℕ)
  /-- `release_spawned_thread`, up to the removal; `key` is what the search of the tree finds -/
  | release (threadId : ThreadId) (key : Option Text)
  /-- the rest of a release -/
  | released
  | registerRoot (threadId : ThreadId)

namespace Agents

/-- Nothing is registered or reserved. -/
def start : Agents := ⟨⟨∅, [], 0⟩, ∅, ∅, [], 0⟩

variable (agents : Agents) (reservation : ℕ)

/-- The number is of no reservation yet. -/
def Unused : Prop :=
  reservation ∉ agents.reservations ∧ reservation ∉ agents.reserving ∧ reservation ∉ agents.dropping

instance (agents : Agents) (reservation : ℕ) : Decidable (agents.Unused reservation) :=
  inferInstanceAs (Decidable (_ ∧ _ ∧ _))

/-- Another value of the counter. -/
def setCount (count : ℕ) : Agents :=
  { agents with registry := { agents.registry with totalCount := count } }

/-- The slot is taken: the reservation is live. -/
def take : Agents :=
  { agents.setCount (agents.registry.totalCount + 1) with
    reservations := agents.reservations.insert reservation none }

/-- The loop of `try_increment_spawned` after an exchange that has found another value -/
def retry (reservation maxThreads : ℕ) : Agents :=
  let updated := agents.registry.totalCount
  { agents with
    reserving :=
      if updated ≥ maxThreads then agents.reserving.erase reservation
      else agents.reserving.insert reservation (maxThreads, updated) }

variable (reserved : Option AgentPath)

/-- What a commit is called with: a fresh thread and the path that was reserved, if any. -/
def CommitsTo (metadata : AgentMetadata) : Prop :=
  metadata.agentPath = reserved ∧ metadata.agentId.any (fun threadId =>
    agents.registry.Unregistered threadId) = true

instance (agents : Agents) (reserved : Option AgentPath) (metadata : AgentMetadata) :
    Decidable (agents.CommitsTo reserved metadata) :=
  inferInstanceAs (Decidable (_ ∧ _))

/-- `Drop for SpawnReservation`, up to the counter -/
def drop : Agents :=
  { agents with
    registry :=
      match reserved with
      | some agentPath => agents.registry.releaseReservedAgentPath agentPath
      | none => agents.registry
    reservations := agents.reservations.erase reservation
    dropping := reservation :: agents.dropping }

/-- `release_spawned_thread` with the entry found at `key`, up to the counter -/
def release (key : Text) (metadata : AgentMetadata) : Agents :=
  { agents with
    registry := { agents.registry with agentTree := agents.registry.agentTree.erase key }
    releasing := agents.releasing + if metadata.isRoot then 0 else 1 }

/-- One step, where it can be taken. -/
def step : Action → Option Agents
  | .reserveUnlimited reservation =>
    if agents.Unused reservation then some (agents.take reservation) else none
  | .load reservation maxThreads =>
    if agents.Unused reservation then some (agents.retry reservation maxThreads) else none
  | .exchange reservation spurious =>
    match agents.reserving.lookup reservation with
    | some (maxThreads, current) =>
      if agents.registry.totalCount = current ∧ !spurious then
        some { agents.take reservation with
          reserving := agents.reserving.erase reservation }
      else some (agents.retry reservation maxThreads)
    | none => none
  | .reserveAgentPath reservation agentPath =>
    match agents.reservations.lookup reservation with
    | some none =>
      match agents.registry.reserveAgentPath agentPath with
      | .ok registry =>
        some { agents with
          registry := registry
          reservations := agents.reservations.insert reservation (some agentPath) }
      | .error _ => some agents
    | _ => none
  | .commit reservation metadata =>
    match agents.reservations.lookup reservation with
    | some reserved =>
      if agents.CommitsTo reserved metadata then
        some { agents with
          registry := agents.registry.registerSpawnedThread metadata
          reservations := agents.reservations.erase reservation }
      else none
    | none => none
  | .drop reservation =>
    match agents.reservations.lookup reservation with
    | some reserved => some (agents.drop reservation reserved)
    | none => none
  | .dropped reservation =>
    if reservation ∈ agents.dropping then
      some { agents.setCount (fetchSub agents.registry.totalCount) with
        dropping := agents.dropping.erase reservation }
    else none
  | .release threadId (some key) =>
    match agents.registry.agentTree.lookup key with
    | some metadata =>
      if metadata.agentId = some threadId then some (agents.release key metadata) else none
    | none => none
  | .release threadId none =>
    if agents.registry.Unregistered threadId then some agents else none
  | .released =>
    if 0 < agents.releasing then
      some { agents.setCount (fetchSub agents.registry.totalCount) with
        releasing := agents.releasing - 1 }
    else none
  | .registerRoot threadId =>
    some { agents with registry := agents.registry.registerRootThread threadId }

/-- The state after a run from `agents`. -/
def run (actions : List Action) : Option Agents := actions.foldlM step agents

end Agents

end Codex.Agent
