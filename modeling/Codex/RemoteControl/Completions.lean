import Codex.RemoteControl.ClientTracker

/-!
# Completions of outbound tasks

An outbound task reports the client and the stream it was spawned for, not its connection, and the
websocket reader closes whatever connection they have by then.

* `Matched`: the tasks of a key were spawned for its connection;
* `completion_closes_own`: the completions then close their own connections only.
-/

namespace Codex.RemoteControl

open Codex.Lib

namespace ClientTracker

/-! ### Calls that open nothing -/

/-- No tasks and no connections but those that were there. -/
structure Subtracker (tracker' tracker : ClientTracker) : Prop where
  joinSet : ∀ task ∈ tracker'.joinSet, task ∈ tracker.joinSet
  clients : ∀ key client', tracker'.clients key = some client' →
    ∃ client, tracker.clients key = some client ∧ client.connectionId = client'.connectionId

namespace Subtracker

variable {tracker tracker' tracker'' : ClientTracker}

lemma of_eq (hjoin : tracker'.joinSet = tracker.joinSet)
    (hclients : tracker'.clients = tracker.clients) : tracker'.Subtracker tracker :=
  ⟨fun _ h => hjoin ▸ h, fun _ client' h => ⟨client', hclients ▸ h, rfl⟩⟩

lemma refl (tracker : ClientTracker) : tracker.Subtracker tracker := of_eq rfl rfl

lemma trans (h' : tracker''.Subtracker tracker') (h : tracker'.Subtracker tracker) :
    tracker''.Subtracker tracker := by
  refine ⟨fun task htask => h.joinSet task (h'.joinSet task htask), ?_⟩
  intro key client'' hclient''
  obtain ⟨client', hclient', hid'⟩ := h'.clients key client'' hclient''
  obtain ⟨client, hclient, hid⟩ := h.clients key client' hclient'
  exact ⟨client, hclient, hid.trans hid'⟩

/-- A client's entry may change but for its connection. -/
theorem of_update {key : ClientKey} {client client' : ClientState}
    (hjoin : tracker'.joinSet = tracker.joinSet) (hclient : tracker.clients key = some client)
    (hclients : tracker'.clients = Function.update tracker.clients key (some client'))
    (hid : client'.connectionId = client.connectionId) : tracker'.Subtracker tracker := by
  refine ⟨fun _ h => hjoin ▸ h, ?_⟩
  intro other state hstate
  rw [hclients] at hstate
  by_cases hother : other = key
  · subst hother
    rw [Function.update_self, Option.some.injEq] at hstate
    subst hstate
    exact ⟨client, hclient, hid.symm⟩
  · rw [Function.update_of_ne hother] at hstate
    exact ⟨state, hstate, rfl⟩

end Subtracker

variable {tracker tracker' : ClientTracker}

variable (tracker)

variable (key : ClientKey)

lemma subtracker_removeClient : (tracker.removeClient key).Subtracker tracker := by
  refine ⟨fun _ h => h, ?_⟩
  intro other client hclient
  by_cases hother : other = key
  · subst hother
    simp [removeClient] at hclient
  · simp only [removeClient, Function.update_of_ne hother] at hclient
    exact ⟨client, hclient, rfl⟩

lemma subtracker_closeClient (sending : Sending) :
    (tracker.closeClient key sending).1.Subtracker tracker := by
  unfold closeClient
  cases tracker.clients key with
  | none => exact .refl tracker
  | some client =>
    have hsend : ((tracker.removeClient key).sendConnectionClosed client.connectionId
        sending).1.Subtracker (tracker.removeClient key) :=
      .of_eq (joinSet_sendConnectionClosed _ _ _) (clients_sendConnectionClosed _ _ _)
    exact hsend.trans (subtracker_removeClient tracker key)

lemma subtracker_sendTransportEvent (event : TransportEvent)
    (sending : Sending) : (tracker.sendTransportEvent event sending).1.Subtracker tracker :=
  .of_eq (joinSet_sendTransportEvent _ _ _) (clients_sendTransportEvent _ _ _)

lemma subtracker_record (seqId : Option ℕ) :
    (tracker.recordInboundMessageDelivery key seqId).Subtracker tracker := by
  unfold recordInboundMessageDelivery
  split
  · rename_i hclient
    exact .of_update rfl hclient rfl rfl
  · exact .refl tracker

variable {tracker}

variable {key : ClientKey}

lemma subtracker_touch {client : ClientState} (hclient : tracker.clients key = some client)
    (now : ℕ) :
    (tracker.touch key client now).Subtracker tracker :=
  .of_update rfl hclient rfl rfl

lemma subtracker_forwardMessage {client : ClientState} (hclient : tracker.clients key = some client)
    (message : JSONRPCMessage) (seqId : Option ℕ) (now : ℕ) (sending : Sending) :
    (tracker.forwardMessage key client message seqId now sending).1.Subtracker tracker := by
  unfold forwardMessage
  have htouch := subtracker_touch hclient now
  have hsend := subtracker_sendTransportEvent (tracker.touch key client now)
    (.incomingMessage client.connectionId message seqId) sending
  refine andThen_of (P := fun tracker' => tracker'.Subtracker tracker) (hsend.trans htouch) ?_
  intro next hnext
  rw [hnext] at hsend
  exact (subtracker_record next key seqId).trans (hsend.trans htouch)

variable (tracker)

lemma subtracker_forwardFirstMessage (key : ClientKey)
    (isLegacy : Bool) (connectionId : ConnectionId) (message : JSONRPCMessage) (seqId : Option ℕ)
    (sending : Sending) :
    (tracker.forwardFirstMessage key isLegacy connectionId message seqId sending).1.Subtracker
      tracker := by
  have hsend := subtracker_sendTransportEvent tracker
    (.incomingMessage connectionId message seqId) sending
  unfold forwardFirstMessage
  generalize tracker.sendTransportEvent (.incomingMessage connectionId message seqId) sending =
    result at hsend
  obtain ⟨next, ending⟩ := result
  cases ending with
  | done =>
    cases isLegacy with
    | true => exact hsend
    | false => exact (subtracker_record next key seqId).trans hsend
  | stopped =>
    dsimp only
    cases next.clients key with
    | none => exact hsend
    | some client =>
      have hspawn : ((next.removeClient key).spawnConnectionClosed
          client.connectionId).Subtracker (next.removeClient key) := .of_eq rfl rfl
      exact hspawn.trans ((subtracker_removeClient next key).trans hsend)
  | aborted => exact hsend

lemma subtracker_closeClients (keys : List (ClientKey × Sending)) :
    (tracker.closeClients keys).1.Subtracker tracker := by
  have hfold : ∀ result : ClientTracker × Ending, result.1.Subtracker tracker →
      (keys.foldl (fun result entry =>
        andThen result fun tracker => tracker.closeClient entry.1 entry.2) result).1.Subtracker
          tracker := by
    induction keys with
    | nil => exact fun _ h => h
    | cons first keys ih =>
      intro result hresult
      obtain ⟨key, sending⟩ := first
      refine ih _ (andThen_of (P := fun tracker' => tracker'.Subtracker tracker) hresult ?_)
      rintro next rfl
      exact (subtracker_closeClient next key sending).trans hresult
  exact hfold _ (.refl tracker)

/-! ### Tasks of the connections -/

/-- The tasks that are not reported yet were spawned for the connections that their keys have. -/
def Matched : Prop :=
  ∀ task ∈ tracker.joinSet, ∀ client, tracker.clients task.1 = some client →
    client.connectionId = task.2

/-- No earlier connection of the client and the stream has a task that is not reported yet. -/
def KeyIsFree : Action → Prop
  | .handle envelope handling =>
    isInitialize envelope = true → ∀ task ∈ tracker.joinSet,
      task.1 ≠ (envelope.clientId, tracker.streamIdOf envelope handling.randomStreamId)
  | _ => True

variable {tracker}

variable (h : tracker.Matched)
include h

lemma Matched.subtracker (hsub : tracker'.Subtracker tracker) : tracker'.Matched := by
  intro task htask client' hclient'
  obtain ⟨client, hclient, hid⟩ := hsub.clients task.1 client' hclient'
  exact hid.symm.trans (h task (hsub.joinSet task htask) client hclient)

/-- A connection of a key without tasks starts with its own. -/
theorem Matched.insertClient (hfree : ∀ task ∈ tracker.joinSet, task.1 ≠ key)
    (isLegacy : Bool) (connectionId : ConnectionId) (now : ℕ) :
    (tracker.insertClient key isLegacy connectionId now).Matched := by
  intro task htask client hclient
  simp only [ClientTracker.insertClient, List.mem_append, List.mem_singleton] at htask hclient
  rcases htask with htask | rfl
  · rw [Function.update_of_ne (hfree task htask)] at hclient
    exact h task htask client hclient
  · rw [Function.update_self, Option.some.injEq] at hclient
    rw [← hclient]

lemma Matched.openConnection (hfree : ∀ task ∈ tracker.joinSet, task.1 ≠ key)
    (isLegacy : Bool) (message : JSONRPCMessage) (seqId : Option ℕ) (handling : Handling) :
    (tracker.openConnection key isLegacy message seqId handling).1.Matched := by
  unfold ClientTracker.openConnection
  have hnext : ({ tracker with nextConnectionId := tracker.nextConnectionId + 1 } :
      ClientTracker).Subtracker tracker := .of_eq rfl rfl
  have hsend := subtracker_sendTransportEvent
    { tracker with nextConnectionId := tracker.nextConnectionId + 1 }
    (.connectionOpened tracker.nextConnectionId key) handling.opening
  have hopened := hsend.trans hnext
  refine andThen_of (h.subtracker hopened) ?_
  intro next heq
  rw [heq] at hopened
  have hinsert := (h.subtracker hopened).insertClient
    (fun task htask => hfree task (hopened.joinSet task htask)) isLegacy tracker.nextConnectionId
    handling.now
  exact hinsert.subtracker (subtracker_forwardFirstMessage _ _ _ _ _ _ _)

lemma Matched.handleClientMessage {isInitialize : Bool}
    (hfree : isInitialize = true → ∀ task ∈ tracker.joinSet, task.1 ≠ key) (isLegacy : Bool)
    (message : JSONRPCMessage) (seqId : Option ℕ) (handling : Handling) :
    (tracker.handleClientMessage key isLegacy isInitialize message seqId handling).1.Matched := by
  unfold ClientTracker.handleClientMessage
  split
  · exact h
  have hclose : (if isInitialize && (tracker.clients key).isSome then
      tracker.closeClient key handling.closing else (tracker, .done)).1.Subtracker tracker := by
    split
    · exact subtracker_closeClient _ _ _
    · exact .refl tracker
  refine andThen_of (h.subtracker hclose) ?_
  intro next heq
  rw [heq] at hclose
  have hmatched := h.subtracker hclose
  cases hclient : next.clients key with
  | some client => exact hmatched.subtracker (subtracker_forwardMessage hclient _ _ _ _)
  | none =>
    cases isInitialize with
    | false => exact hmatched
    | true =>
      exact hmatched.openConnection (fun task htask =>
        hfree rfl task (hclose.joinSet task htask)) _ _ _ _

lemma Matched.handleMessage {envelope : ClientEnvelope}
    {handling : Handling} (hfree : tracker.KeyIsFree (.handle envelope handling)) :
    (tracker.handleMessage envelope handling).1.Matched := by
  have htake : (tracker.takeLegacyStreamId envelope).Subtracker tracker := by
    unfold takeLegacyStreamId
    split
    · exact .of_eq rfl rfl
    · exact .refl tracker
  have hmatched := h.subtracker htake
  unfold ClientTracker.handleMessage
  simp only
  split
  · exact hmatched
  cases envelope.event with
  | clientMessage message =>
    exact hmatched.handleClientMessage (fun hinit task htask =>
      hfree hinit task (htake.joinSet task htask)) _ _ _ _
  | clientMessageChunk _ _ _ _ => exact hmatched
  | ack _ => exact hmatched
  | ping =>
    simp only
    split
    · rename_i client hclient
      exact hmatched.subtracker (subtracker_touch hclient _)
    · exact hmatched
  | clientClosed => exact hmatched.subtracker (subtracker_closeClient _ _ _)

lemma Matched.step {action : Action} (hfree : tracker.KeyIsFree action) :
    (tracker.step action).Matched := by
  cases action with
  | handle envelope handling => exact h.handleMessage hfree
  | sweep now keys => exact h.subtracker (subtracker_closeClients _ _)
  | completion task sending =>
    simp only [ClientTracker.step]
    split
    · have herase : ({ tracker with joinSet := tracker.joinSet.erase task } :
          ClientTracker).Subtracker tracker :=
        ⟨fun _ htask => List.mem_of_mem_erase htask, fun _ client hclient => ⟨client, hclient, rfl⟩⟩
      exact h.subtracker ((subtracker_closeClient _ _ _).trans herase)
    · exact h
  | land connectionIds => exact h.subtracker (.of_eq (joinSet_land _ _) (clients_land _ _))
  | otherConnection => exact h.subtracker (.of_eq rfl rfl)

omit h

/-- Of the connections, at most this one is closed or loses its entry. -/
structure ClosesOnly (connectionId : ConnectionId) (tracker tracker' : ClientTracker) : Prop where
  closed : ∀ other, tracker'.Closing other → tracker.Closing other ∨ other = connectionId
  kept : ∀ key client, tracker.clients key = some client → client.connectionId ≠ connectionId →
    tracker'.clients key = some client

lemma closesOnly_closeClient (tracker : ClientTracker) {connectionId : ConnectionId}
    (h : ∀ client, tracker.clients key = some client → client.connectionId = connectionId)
    (sending : Sending) :
    ClosesOnly connectionId tracker (tracker.closeClient key sending).1 := by
  unfold closeClient
  cases hclient : tracker.clients key with
  | none => exact ⟨fun _ hclosing => .inl hclosing, fun _ _ hother _ => hother⟩
  | some client =>
    constructor
    · intro other hclosing
      rw [closing_sendConnectionClosed, h client hclient] at hclosing
      exact hclosing
    · intro other state hstate hne
      have hother : other ≠ key := by
        rintro rfl
        exact hne (h state hstate)
      rw [clients_sendConnectionClosed]
      simp only [removeClient, Function.update_of_ne hother]
      exact hstate

/-- Where connections are only opened for keys without tasks, the completion of a task closes the
connection that it was spawned for or none. -/
theorem completion_closes_own (nextConnectionId : ConnectionId) {actions : List Action}
    (hfree : Throughout step KeyIsFree (new nextConnectionId) actions)
    (task : ClientKey × ConnectionId) (sending : Sending)
    (htask : task ∈ ((new nextConnectionId).run actions).joinSet) :
    ClosesOnly task.2 ((new nextConnectionId).run actions)
      (((new nextConnectionId).run actions).step (.completion task sending)) := by
  have hmatched : ((new nextConnectionId).run actions).Matched := by
    refine hfree.preserves (fun tracker action hkey h => h.step hkey) ?_
    intro task htask
    cases htask
  simp only [step, if_pos htask]
  obtain ⟨hclosed, hkept⟩ := closesOnly_closeClient
    { (new nextConnectionId).run actions with
      joinSet := ((new nextConnectionId).run actions).joinSet.erase task }
    (hmatched task htask) sending
  exact ⟨hclosed, hkept⟩

/-- A client that sends `initialize` on a stream. -/
def initializeOn (clientId : ClientId) (streamId : StreamId) : Action :=
  .handle ⟨.clientMessage (.request "initialize".toList []), clientId, some streamId, none⟩
    ⟨0, [], ⟨[], .sent⟩, ⟨[], .sent⟩, ⟨[], .sent⟩⟩

/-- Two clients; the task of the first connection is reported before its stream is opened again. -/
def reopening : List Action :=
  [initializeOn ['c'] ['s'], initializeOn ['d'] ['t'], .completion ((['c'], ['s']), 0) ⟨[], .sent⟩,
    initializeOn ['c'] ['s']]

/-- The task of the connection that was opened again closes that one. -/
theorem completion_closes_own_reopening :
    ClosesOnly 2 ((new 0).run reopening)
      (((new 0).run reopening).step (.completion ((['c'], ['s']), 2) ⟨[], .sent⟩)) := by
  have hother : ∀ task ∈ ((new 0).run (reopening.take 1)).joinSet, task.1 ≠ (['d'], ['t']) := by
    decide +kernel
  have hreported : ∀ task ∈ ((new 0).run (reopening.take 3)).joinSet, task.1 ≠ (['c'], ['s']) := by
    decide +kernel
  have hfree : Throughout step KeyIsFree (new 0) reopening :=
    ⟨fun _ task htask => absurd htask List.not_mem_nil, fun _ => hother, trivial,
      fun _ => hreported, trivial⟩
  exact completion_closes_own 0 hfree ((['c'], ['s']), 2) ⟨[], .sent⟩ (by decide +kernel)

/-- A client that initializes its stream again loses its new connection to the task of the old. -/
theorem completion_closes_reopened :
    ¬ ∀ (nextConnectionId : ConnectionId) (actions : List Action) (task : ClientKey × ConnectionId)
        (sending : Sending), task ∈ ((new nextConnectionId).run actions).joinSet →
      ClosesOnly task.2 ((new nextConnectionId).run actions)
        (((new nextConnectionId).run actions).step (.completion task sending)) := by
  intro hclaim
  have hkept := (hclaim 0 [initializeOn ['c'] ['s'], initializeOn ['c'] ['s']]
    ((['c'], ['s']), 0) ⟨[], .sent⟩ (by decide +kernel)).kept (['c'], ['s']) ⟨1, 0, none⟩
    (by decide +kernel) (by decide)
  cases hkept

end ClientTracker

end Codex.RemoteControl
