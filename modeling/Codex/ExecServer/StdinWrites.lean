import Codex.ExecServer.SessionRegistry
import Codex.Lib.Recent

/-!
# Writes to the stdin of a process

`exec-server/src/local_process.rs`: a handler of a write looks up the process, looks for its id
among those that were accepted, waits for room in the channel of the process, and looks again under
the lock before it sends and remembers the id. Handlers run side by side and may be cancelled
wherever they wait. What they wait for, and whether the channel still has a receiver, is an action
of the environment.
-/

namespace Codex.ExecServer

open Codex.Lib

/-! ### Accepted ids -/

def retainedStdinWriteIdsPerProcess : ℕ := 4096

structure AcceptedStdinWriteIds where
  ids : Finset Text
  order : List Text

namespace AcceptedStdinWriteIds

/-- `AcceptedStdinWriteIds::default` -/
def new : AcceptedStdinWriteIds := ⟨∅, []⟩

variable (accepted : AcceptedStdinWriteIds)

def contains (writeId : Text) : Bool := writeId ∈ accepted.ids

/-- The `while` of `remember` -/
def evict (ids : Finset Text) : List Text → AcceptedStdinWriteIds
  | [] => ⟨ids, []⟩
  | evicted :: order =>
    if (evicted :: order).length > retainedStdinWriteIdsPerProcess then
      evict (ids.erase evicted) order
    else ⟨ids, evicted :: order⟩

def remember (writeId : Text) : AcceptedStdinWriteIds :=
  if writeId ∈ accepted.ids then accepted
  else evict (insert writeId accepted.ids) (accepted.order ++ [writeId])

end AcceptedStdinWriteIds

section remember

variable {accepted : AcceptedStdinWriteIds} {writeId : Text} {history : List Text}

/-- The ids and their order hold the same, the last of a history. -/
structure AcceptedStdinWriteIds.Remembers (accepted : AcceptedStdinWriteIds)
    (history : List Text) : Prop where
  recent : Recent retainedStdinWriteIdsPerProcess accepted.order history
  ids : accepted.ids = accepted.order.toFinset

namespace AcceptedStdinWriteIds

lemma Remembers.new : Remembers .new [] := ⟨Recent.nil _, rfl⟩

lemma Remembers.contains_iff (h : accepted.Remembers history) :
    accepted.contains writeId = true ↔ writeId ∈ accepted.order := by
  rw [contains, decide_eq_true_iff, h.ids, List.mem_toFinset]

lemma evict_of_le {ids : Finset Text} {order : List Text}
    (h : order.length ≤ retainedStdinWriteIdsPerProcess) : evict ids order = ⟨ids, order⟩ := by
  cases order with
  | nil => rfl
  | cons evicted order => rw [evict, if_neg (not_lt.mpr h)]

/-- An id that is new is remembered, and the oldest makes room for it. -/
theorem Remembers.remember (h : accepted.Remembers history) (hnew : writeId ∉ accepted.order) :
    (accepted.remember writeId).Remembers (history ++ [writeId]) := by
  have hids : writeId ∉ accepted.ids := by
    rw [h.ids, List.mem_toFinset]
    exact hnew
  have hinsert : insert writeId accepted.ids = (accepted.order ++ [writeId]).toFinset := by
    rw [h.ids, List.toFinset_append, Finset.union_comm]
    rfl
  rw [AcceptedStdinWriteIds.remember, if_neg hids, hinsert]
  rcases h.recent.length_le.lt_or_eq with hroom | hfull
  · rw [evict_of_le (by rw [List.length_append]; exact hroom)]
    exact ⟨h.recent.push_of_lt hnew hroom, rfl⟩
  · obtain ⟨ids, order⟩ := accepted
    cases order with
    | nil => exact absurd hfull (by decide : 0 ≠ retainedStdinWriteIdsPerProcess)
    | cons oldest order =>
      have hlength : (order ++ [writeId]).length = retainedStdinWriteIdsPerProcess := by
        rw [← hfull, List.length_append, List.length_singleton, List.length_cons]
      have hlong : (oldest :: (order ++ [writeId])).length > retainedStdinWriteIdsPerProcess := by
        rw [List.length_cons, hlength]
        exact Nat.lt_succ_self _
      rw [List.cons_append, evict, if_pos hlong, evict_of_le hlength.le]
      refine ⟨h.recent.push_of_eq hnew hfull, ?_⟩
      -- the oldest id does not come again in the order
      have hnot : oldest ∉ order ++ [writeId] := by
        rw [List.mem_append, List.mem_singleton]
        rintro (hmem | rfl)
        · exact (List.nodup_cons.mp h.recent.nodup).1 hmem
        · exact hnew List.mem_cons_self
      rw [List.toFinset_cons, Finset.erase_insert]
      rwa [List.mem_toFinset]

end AcceptedStdinWriteIds

end remember

/-! ### Handlers -/

/-- `WriteParams`, for one process -/
structure WriteParams where
  chunk : List UInt8
  writeId : Text
  deriving DecidableEq

inductive WriteStatus where
  | accepted
  | unknownProcess
  | starting
  | stdinClosed

/-- What the map of processes has for the process. -/
inductive ProcessEntry where
  | unknown
  | starting
  | running (tty pipeStdin : Bool)

/-- `invalid_params("writeId must not be empty".to_string())` -/
def emptyWriteId : JSONRPCErrorError := ⟨-32602, "writeId must not be empty".toList⟩

/-- `internal_error("failed to write to process stdin".to_string())` -/
def failedToWrite : JSONRPCErrorError := ⟨-32603, "failed to write to process stdin".toList⟩

/-- Where a handler of `exec_write` is: what it does next, or how it ended. -/
inductive WriteStage where
  | lookUp
  | check
  | reserve
  | commit
  | done (result : Except JSONRPCErrorError WriteStatus)
  | cancelled

/-- A handler of `exec_write`. -/
structure WriteHandler where
  params : WriteParams
  stage : WriteStage

/-- The writes to a process; `sent` is what `permit.send` was called with. -/
structure StdinWrites where
  entry : ProcessEntry
  accepted : AcceptedStdinWriteIds
  handlers : List WriteHandler
  sent : List WriteParams

namespace StdinWrites

/-- A process without writes. -/
def new (entry : ProcessEntry) : StdinWrites := ⟨entry, .new, [], []⟩

variable (s : StdinWrites)

/-- The ids of what was sent. -/
def sentIds : List Text := s.sent.map WriteParams.writeId

/-- `exec_write`, up to the first lock of the accepted ids -/
def lookUp (params : WriteParams) : WriteStage :=
  if params.writeId = [] then .done (.error emptyWriteId)
  else
    match s.entry with
    | .unknown => .done (.ok .unknownProcess)
    | .starting => .done (.ok .starting)
    | .running tty pipeStdin =>
      if !tty && !pipeStdin then .done (.ok .stdinClosed) else .check

variable (i : ℕ)

/-- The handler is at this stage now. -/
def setStage (stage : WriteStage) : StdinWrites :=
  { s with handlers := s.handlers.modify i fun handler => { handler with stage := stage } }

/-- `exec_write`, the section under the last lock -/
def commit (params : WriteParams) : StdinWrites :=
  if s.accepted.contains params.writeId then s.setStage i (.done (.ok .accepted))
  else
    { s with
      sent := s.sent ++ [params]
      accepted := s.accepted.remember params.writeId }.setStage i (.done (.ok .accepted))

/-- `exec_write`, from one `await` to the next; `granted` is what `reserve` gives -/
def advance (granted : Bool) : StdinWrites :=
  match s.handlers[i]? with
  | none => s
  | some handler =>
    match handler.stage with
    | .lookUp => s.setStage i (s.lookUp handler.params)
    | .check =>
      if s.accepted.contains handler.params.writeId then s.setStage i (.done (.ok .accepted))
      else s.setStage i .reserve
    | .reserve =>
      if granted then s.setStage i .commit else s.setStage i (.done (.error failedToWrite))
    | .commit => s.commit i handler.params
    | .done _ => s
    | .cancelled => s

/-- A handler is dropped, unless it has ended. -/
def cancel : StdinWrites :=
  match s.handlers[i]? with
  | none => s
  | some handler =>
    match handler.stage with
    | .done _ => s
    | _ => s.setStage i .cancelled

/-- What happens to the writes of a process. -/
inductive Action where
  | setEntry (entry : ProcessEntry)
  | request (params : WriteParams)
  | advance (i : ℕ) (granted : Bool)
  | cancel (i : ℕ)

def step : Action → StdinWrites
  | .setEntry entry => { s with entry := entry }
  | .request params => { s with handlers := s.handlers ++ [⟨params, .lookUp⟩] }
  | .advance i granted => s.advance i granted
  | .cancel i => s.cancel i

/-- The state after these actions. -/
def run (entry : ProcessEntry) (actions : List Action) : StdinWrites :=
  actions.foldl step (new entry)

end StdinWrites

/-! ### What a write keeps -/

/-- The ids that are remembered, those that were sent, and the handlers that say so. -/
structure Writes (s : StdinWrites) : Prop where
  remembers : s.accepted.Remembers s.sentIds
  spaced : Spaced retainedStdinWriteIdsPerProcess s.sentIds
  accepted : ∀ handler ∈ s.handlers, handler.stage = .done (.ok .accepted) →
    handler.params.writeId ∈ s.sentIds
  requested : ∀ params ∈ s.sent, params ∈ s.handlers.map WriteHandler.params

namespace Writes

variable {s : StdinWrites} {i : ℕ} {stage : WriteStage} {handler : WriteHandler}

lemma new (entry : ProcessEntry) : Writes (.new entry) where
  remembers := .new
  spaced := .nil _
  accepted _ h := absurd h List.not_mem_nil
  requested _ h := absurd h List.not_mem_nil

lemma map_params_setStage (s : StdinWrites) (i : ℕ) (stage : WriteStage) :
    (s.setStage i stage).handlers.map WriteHandler.params = s.handlers.map WriteHandler.params := by
  apply List.ext_getElem?
  intro j
  rw [StdinWrites.setStage, List.getElem?_map, List.getElem?_modify, List.getElem?_map]
  cases s.handlers[j]? with
  | none => rfl
  | some handler =>
    rw [Option.map_eq_map, Option.map_some, Option.map_some, Option.map_some]
    split_ifs <;> rfl

/-- A handler goes on; if it ends with `Accepted`, its id was sent. -/
theorem setStage (h : Writes s) (hhandler : s.handlers[i]? = some handler)
    (haccepted : stage = .done (.ok .accepted) → handler.params.writeId ∈ s.sentIds) :
    Writes (s.setStage i stage) where
  remembers := h.remembers
  spaced := h.spaced
  accepted := by
    intro other hother hstage
    obtain ⟨j, hj⟩ := List.mem_iff_getElem?.mp hother
    rw [StdinWrites.setStage, List.getElem?_modify, Option.map_eq_map, Option.map_eq_some_iff] at hj
    obtain ⟨before, hbefore, rfl⟩ := hj
    by_cases hij : i = j
    · rw [if_pos hij] at hstage ⊢
      rw [← hij, hhandler] at hbefore
      cases hbefore
      exact haccepted hstage
    · rw [if_neg hij] at hstage ⊢
      exact h.accepted before (List.mem_of_getElem? hbefore) hstage
  requested := by
    rw [map_params_setStage]
    exact h.requested

/-- What is sent was not remembered, and is remembered now. -/
theorem send (h : Writes s) (hhandler : s.handlers[i]? = some handler)
    (hnew : handler.params.writeId ∉ s.accepted.order) :
    Writes { s with
      sent := s.sent ++ [handler.params]
      accepted := s.accepted.remember handler.params.writeId } := by
  have hids : (s.sent ++ [handler.params]).map WriteParams.writeId =
      s.sentIds ++ [handler.params.writeId] := by
    rw [List.map_append, List.map_singleton]
    rfl
  constructor
  · rw [StdinWrites.sentIds, hids]
    exact h.remembers.remember hnew
  · rw [StdinWrites.sentIds, hids]
    exact h.spaced.push h.remembers.recent hnew
  · intro other hother hstage
    rw [StdinWrites.sentIds, hids]
    exact List.mem_append_left _ (h.accepted other hother hstage)
  · exact List.forall_mem_append.mpr ⟨h.requested,
      List.forall_mem_singleton.mpr (List.mem_map_of_mem (List.mem_of_getElem? hhandler))⟩

lemma mem_sentIds_of_contains (h : Writes s) {writeId : Text}
    (hcontains : s.accepted.contains writeId = true) : writeId ∈ s.sentIds :=
  h.remembers.recent.suffix.subset (h.remembers.contains_iff.mp hcontains)

lemma commit (h : Writes s) (hhandler : s.handlers[i]? = some handler) :
    Writes (s.commit i handler.params) := by
  unfold StdinWrites.commit
  split_ifs with hcontains
  · exact h.setStage hhandler fun _ => h.mem_sentIds_of_contains hcontains
  · have hnew : handler.params.writeId ∉ s.accepted.order :=
      fun hmem => hcontains (h.remembers.contains_iff.mpr hmem)
    refine (h.send hhandler hnew).setStage hhandler fun _ => ?_
    exact List.mem_map_of_mem (List.mem_append_right _ (List.mem_singleton_self _))

lemma lookUp_ne_accepted (s : StdinWrites) (params : WriteParams) :
    s.lookUp params ≠ .done (.ok .accepted) := by
  unfold StdinWrites.lookUp
  split_ifs
  · exact nofun
  · split
    · exact nofun
    · exact nofun
    · split_ifs <;> exact nofun

lemma advance (h : Writes s) (i : ℕ) (granted : Bool) : Writes (s.advance i granted) := by
  unfold StdinWrites.advance
  split
  · exact h
  · rename_i handler hhandler
    split
    · exact h.setStage hhandler fun haccepted => absurd haccepted (lookUp_ne_accepted _ _)
    · split_ifs with hcontains
      · exact h.setStage hhandler fun _ => h.mem_sentIds_of_contains hcontains
      · exact h.setStage hhandler nofun
    · split_ifs
      · exact h.setStage hhandler nofun
      · exact h.setStage hhandler nofun
    · exact h.commit hhandler
    · exact h
    · exact h

lemma cancel (h : Writes s) (i : ℕ) : Writes (s.cancel i) := by
  unfold StdinWrites.cancel
  split
  · exact h
  · rename_i handler hhandler
    split
    · exact h
    · exact h.setStage hhandler nofun

lemma step (h : Writes s) (action : StdinWrites.Action) : Writes (s.step action) := by
  cases action with
  | setEntry entry => exact ⟨h.remembers, h.spaced, h.accepted, h.requested⟩
  | request params =>
    refine ⟨h.remembers, h.spaced, ?_, ?_⟩
    · intro handler hhandler hstage
      rcases List.mem_append.mp hhandler with hold | hlast
      · exact h.accepted handler hold hstage
      · rw [List.mem_singleton.mp hlast] at hstage
        exact nomatch hstage
    · intro sent hsent
      rw [StdinWrites.step, List.map_append]
      exact List.mem_append_left _ (h.requested sent hsent)
  | advance i granted => exact h.advance i granted
  | cancel i => exact h.cancel i

lemma run (entry : ProcessEntry) (actions : List StdinWrites.Action) :
    Writes (StdinWrites.run entry actions) := by
  refine List.foldlRecOn (motive := Writes) actions StdinWrites.step (new entry) ?_
  intro s h action _
  exact h.step action

end Writes

/-! ### Accepted writes -/

/-- Fewer than 4096 other ids were accepted since any acceptance of this one. -/
def StdinWrites.FewSince (s : StdinWrites) (writeId : Text) : Prop :=
  ∀ before since, s.sentIds = before ++ writeId :: since →
    (since.toFinset.erase writeId).card < retainedStdinWriteIdsPerProcess

/-- A retry has the bytes of the write that it repeats. -/
def StdinWrites.RetriesRepeat (s : StdinWrites) : Prop :=
  ∀ handler ∈ s.handlers, ∀ other ∈ s.handlers, handler.params.writeId = other.params.writeId →
    handler.params = other.params

/-- **In every run, the set and the queue of the ids hold the same ids without repetition, what has
an id that is remembered is sent at most once, and what was accepted was sent exactly once.** -/
theorem sent_once (entry : ProcessEntry) (actions : List StdinWrites.Action) :
    let s := StdinWrites.run entry actions
    s.accepted.order.Nodup ∧ s.accepted.ids = s.accepted.order.toFinset ∧
      (∀ writeId, s.FewSince writeId → s.sentIds.count writeId ≤ 1) ∧
      ∀ handler ∈ s.handlers, handler.stage = .done (.ok .accepted) →
        s.FewSince handler.params.writeId →
        s.sentIds.count handler.params.writeId = 1 ∧
          (s.RetriesRepeat → s.sent.count handler.params = 1) := by
  intro s
  have h : Writes s := Writes.run entry actions
  have hle : ∀ writeId, s.FewSince writeId → s.sentIds.count writeId ≤ 1 :=
    fun writeId hfew => h.spaced.count_le_one hfew
  refine ⟨h.remembers.recent.nodup, h.remembers.ids, hle, ?_⟩
  intro handler hhandler hstage hfew
  have hmem := h.accepted handler hhandler hstage
  have hone : s.sentIds.count handler.params.writeId = 1 :=
    le_antisymm (hle _ hfew) (List.count_pos_iff.mpr hmem)
  refine ⟨hone, fun hretries => le_antisymm ?_ (List.count_pos_iff.mpr ?_)⟩
  · rw [← hone]
    exact List.count_le_count_map
  · obtain ⟨params, hparams, hid⟩ := List.mem_map.mp hmem
    obtain ⟨other, hother, rfl⟩ := List.mem_map.mp (h.requested params hparams)
    rw [← hretries other hother handler hhandler hid]
    exact hparams

end Codex.ExecServer
