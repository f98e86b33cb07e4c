import Codex.RemoteControl.ClientTracker

/-!
# The life of a connection

Every connection is opened once, then gets messages, and is closed at most once, whatever envelopes
arrive and wherever forwarding fails. What a connection's events are so far depends on where it is:
not opened, in the tracker's map, its close on the way, or closed (`Phase`).

* `Inv.landOne`, `Inv.closeClient`, `Inv.deliver`, `Inv.insertClient`: the changes of one phase;
* `lifeCycles_run`: the lives of all connections in every run.
-/

namespace Codex.RemoteControl

open Codex.Lib

/-! ### Messages of one connection -/

/-- The sequence numbers of the messages that do not start a connection. -/
def numbers (messages : List (JSONRPCMessage × Option ℕ)) : List ℕ :=
  (messages.filter fun (message, _) => !startsConnection message).filterMap (·.2)

/-- An `initialize` comes first or not at all, and the sequence numbers rise. -/
structure Ordered (messages : List (JSONRPCMessage × Option ℕ)) : Prop where
  startsFirst : ∀ m ∈ messages.tail, startsConnection m.1 = false
  increasing : (numbers messages).Pairwise (· < ·)

/-- The number that a client's entry holds is that of a message, and no later one was delivered. -/
structure Counted (client : ClientState) (messages : List (JSONRPCMessage × Option ℕ)) : Prop where
  delivered : ∀ n, client.lastInboundSeqId = some n → ∃ message, (message, some n) ∈ messages
  bound : ∀ n ∈ numbers messages, ∃ last, client.lastInboundSeqId = some last ∧ n ≤ last

/-- The events of messages on a connection. -/
def asEvents (connectionId : ConnectionId) (messages : List (JSONRPCMessage × Option ℕ)) :
    List TransportEvent :=
  messages.map fun (message, seqId) => .incomingMessage connectionId message seqId

/-- The entry after a delivery. -/
def ClientState.count (client : ClientState) (seqId : Option ℕ) : ClientState :=
  match seqId with
  | some n => { client with lastInboundSeqId := some n }
  | none => client

section messages

variable {messages : List (JSONRPCMessage × Option ℕ)} {client : ClientState}
  {message : JSONRPCMessage} {seqId : Option ℕ}

lemma numbers_append (hnot : startsConnection message = false) :
    numbers (messages ++ [(message, seqId)]) = numbers messages ++ seqId.toList := by
  unfold numbers
  rw [List.filter_append, List.filterMap_append]
  cases seqId <;> simp [hnot]

lemma ordered_append (hordered : Ordered messages) (hcounted : Counted client messages)
    (hnot : startsConnection message = false)
    (hlater : ∀ n, seqId = some n → ∀ last, client.lastInboundSeqId = some last → last < n) :
    Ordered (messages ++ [(message, seqId)]) ∧
      Counted (client.count seqId) (messages ++ [(message, seqId)]) := by
  have hbelow : ∀ n, seqId = some n → ∀ k ∈ numbers messages, k < n := by
    intro n hn k hk
    obtain ⟨last, hlast, hle⟩ := hcounted.bound k hk
    exact lt_of_le_of_lt hle (hlater n hn last hlast)
  refine ⟨⟨?_, ?_⟩, ?_⟩
  · intro m hm
    cases messages with
    | nil => cases hm
    | cons first rest =>
      rw [List.cons_append, List.tail_cons, List.mem_append, List.mem_singleton] at hm
      rcases hm with hm | rfl
      · exact hordered.startsFirst m hm
      · exact hnot
  · rw [numbers_append hnot, List.pairwise_append]
    refine ⟨hordered.increasing, ?_, ?_⟩
    · cases seqId <;> simp
    · intro k hk n hn
      exact hbelow n (Option.mem_toList.mp hn) k hk
  · cases seqId with
    | none =>
      refine ⟨?_, ?_⟩
      · intro n hn
        obtain ⟨m, hm⟩ := hcounted.delivered n hn
        exact ⟨m, List.mem_append_left _ hm⟩
      · rw [numbers_append hnot, Option.toList_none, List.append_nil]
        exact hcounted.bound
    | some n =>
      refine ⟨?_, ?_⟩
      · rintro k hk
        obtain rfl : n = k := Option.some.inj hk
        exact ⟨message, List.mem_append_right _ List.mem_cons_self⟩
      · rw [numbers_append hnot]
        intro k hk
        rcases List.mem_append.mp hk with hk | hk
        · exact ⟨n, rfl, le_of_lt (hbelow n rfl k hk)⟩
        · simp only [Option.toList_some, List.mem_singleton] at hk
          exact ⟨n, rfl, le_of_eq hk⟩

/-- The message that starts a connection; it may be counted or not. -/
theorem ordered_first (hstarts : startsConnection message = true)
    (hclient : client.lastInboundSeqId = none) (seqId : Option ℕ) :
    Ordered [(message, seqId)] ∧ Counted client [(message, seqId)] ∧
      Counted (client.count seqId) [(message, seqId)] := by
  have hnumbers : numbers [(message, seqId)] = [] := by
    simp [numbers, hstarts]
  have hbound : ∀ state : ClientState, ∀ n ∈ numbers [(message, seqId)],
      ∃ last, state.lastInboundSeqId = some last ∧ n ≤ last := by
    intro state n hn
    simp [hnumbers] at hn
  refine ⟨⟨by simp, by simp [hnumbers]⟩, ⟨?_, hbound _⟩, ⟨?_, hbound _⟩⟩
  · intro n hn
    simp [hclient] at hn
  · cases seqId with
    | none =>
      intro n hn
      simp [ClientState.count, hclient] at hn
    | some k =>
      intro n hn
      obtain rfl : k = n := Option.some.inj hn
      exact ⟨message, List.mem_cons_self⟩

end messages

namespace ClientTracker

/-! ### Phases -/

variable (tracker : ClientTracker) (connectionId : ConnectionId)

/-- The events of a connection. -/
def events : List TransportEvent :=
  tracker.sent.filter fun event => event.connectionId = connectionId

/-- The connection is in the map of the tracker at no key. -/
def Unlisted : Prop :=
  ∀ key client, tracker.clients key = some client → client.connectionId ≠ connectionId

/-- Nothing is known of the connection. -/
structure Unopened (tracker : ClientTracker) (connectionId : ConnectionId) : Prop where
  events : tracker.events connectionId = []
  landed : connectionId ∉ tracker.inFlight
  unlisted : tracker.Unlisted connectionId

/-- Where a connection is, and what its events are there. -/
inductive Phase (tracker : ClientTracker) (connectionId : ConnectionId) : Prop
  | unopened (h : tracker.Unopened connectionId)
  | opened (key : ClientKey) (client : ClientState) (messages : List (JSONRPCMessage × Option ℕ))
      (hclient : tracker.clients key = some client) (hid : client.connectionId = connectionId)
      (honly : ∀ other state, tracker.clients other = some state →
        state.connectionId = connectionId → other = key)
      (hlanded : connectionId ∉ tracker.inFlight)
      (hevents : tracker.events connectionId =
        .connectionOpened connectionId key :: asEvents connectionId messages)
      (hordered : Ordered messages) (hcounted : Counted client messages)
  | closing (key : ClientKey) (messages : List (JSONRPCMessage × Option ℕ))
      (hflight : connectionId ∈ tracker.inFlight) (hunlisted : tracker.Unlisted connectionId)
      (hevents : tracker.events connectionId =
        .connectionOpened connectionId key :: asEvents connectionId messages)
      (hordered : Ordered messages)
  | closed (key : ClientKey) (messages : List (JSONRPCMessage × Option ℕ))
      (hlanded : connectionId ∉ tracker.inFlight) (hunlisted : tracker.Unlisted connectionId)
      (hevents : tracker.events connectionId =
        .connectionOpened connectionId key :: asEvents connectionId messages ++
          [.connectionClosed connectionId])
      (hordered : Ordered messages)

/-- The invariant of a run. -/
structure Inv (tracker : ClientTracker) : Prop where
  phase : ∀ connectionId, tracker.Phase connectionId
  fresh : ∀ connectionId, tracker.nextConnectionId ≤ connectionId → tracker.Unopened connectionId
  nodup : tracker.inFlight.Nodup

/-- A connection that a change does not touch. -/
structure Same (tracker tracker' : ClientTracker) (connectionId : ConnectionId) : Prop where
  events : tracker'.events connectionId = tracker.events connectionId
  inFlight : connectionId ∈ tracker'.inFlight ↔ connectionId ∈ tracker.inFlight
  clients : ∀ key client, client.connectionId = connectionId →
    (tracker'.clients key = some client ↔ tracker.clients key = some client)

section phases

variable {tracker tracker' : ClientTracker} {connectionId : ConnectionId}

lemma Same.refl (tracker : ClientTracker) (connectionId : ConnectionId) :
    Same tracker tracker connectionId := ⟨rfl, Iff.rfl, fun _ _ _ => Iff.rfl⟩

variable (hsame : Same tracker tracker' connectionId)
include hsame

lemma Unlisted.congr (h : tracker.Unlisted connectionId) : tracker'.Unlisted connectionId := by
  intro key client hclient hid
  exact h key client ((hsame.clients key client hid).mp hclient) hid

lemma Unopened.congr (h : tracker.Unopened connectionId) : tracker'.Unopened connectionId :=
  ⟨hsame.events.trans h.events, fun hin => h.landed (hsame.inFlight.mp hin), h.unlisted.congr hsame⟩

lemma Phase.congr (h : tracker.Phase connectionId) : tracker'.Phase connectionId := by
  cases h with
  | unopened h => exact .unopened (h.congr hsame)
  | opened key client messages hclient hid honly hlanded hevents hordered hcounted =>
    refine .opened key client messages ((hsame.clients key client hid).mpr hclient) hid ?_
      (fun hin => hlanded (hsame.inFlight.mp hin)) (hsame.events.trans hevents) hordered hcounted
    intro other state hstate hid'
    exact honly other state ((hsame.clients other state hid').mp hstate) hid'
  | closing key messages hflight hunlisted hevents hordered =>
    exact .closing key messages (hsame.inFlight.mpr hflight) (hunlisted.congr hsame)
      (hsame.events.trans hevents) hordered
  | closed key messages hlanded hunlisted hevents hordered =>
    exact .closed key messages (fun hin => hlanded (hsame.inFlight.mp hin))
      (hunlisted.congr hsame) (hsame.events.trans hevents) hordered

omit hsame

lemma Inv.of_local (h : tracker.Inv) (connectionId : ConnectionId)
    (hsame : ∀ other, other ≠ connectionId → Same tracker tracker' other)
    (hphase : tracker'.Phase connectionId) (hlt : connectionId < tracker'.nextConnectionId)
    (hnext : tracker.nextConnectionId ≤ tracker'.nextConnectionId)
    (hnodup : tracker'.inFlight.Nodup) : tracker'.Inv := by
  refine ⟨?_, ?_, hnodup⟩
  · intro other
    by_cases hother : other = connectionId
    · exact hother ▸ hphase
    · exact (h.phase other).congr (hsame other hother)
  · intro other hle
    have hother : other ≠ connectionId := by
      rintro rfl
      exact absurd hle (not_le.mpr hlt)
    exact (h.fresh other (le_trans hnext hle)).congr (hsame other hother)

lemma Inv.of_same (h : tracker.Inv) (hsame : ∀ other, Same tracker tracker' other)
    (hnext : tracker.nextConnectionId ≤ tracker'.nextConnectionId)
    (hnodup : tracker'.inFlight.Nodup) : tracker'.Inv :=
  ⟨fun other => (h.phase other).congr (hsame other),
    fun other hle => (h.fresh other (le_trans hnext hle)).congr (hsame other), hnodup⟩

lemma Inv.lt_of_listed (h : tracker.Inv) {key : ClientKey} {client : ClientState}
    (hclient : tracker.clients key = some client) :
    client.connectionId < tracker.nextConnectionId := by
  by_contra hle
  exact (h.fresh _ (not_lt.mp hle)).unlisted key client hclient rfl

end phases

/-! ### Closes -/

section closes

variable {tracker tracker' : ClientTracker}

variable (tracker)

variable {connectionId : ConnectionId}

lemma events_enqueue (event : TransportEvent) (h : event.connectionId = connectionId) :
    (tracker.enqueue event).events connectionId = tracker.events connectionId ++ [event] := by
  unfold events enqueue
  rw [List.filter_append]
  simp [h]

lemma events_enqueue_other {event : TransportEvent} (h : event.connectionId ≠ connectionId) :
    (tracker.enqueue event).events connectionId = tracker.events connectionId := by
  unfold events enqueue
  rw [List.filter_append]
  simp [h]

lemma same_landOne {connectionId other : ConnectionId}
    (hother : other ≠ connectionId) : Same tracker (tracker.landOne connectionId) other := by
  unfold landOne
  split
  · refine ⟨?_, List.mem_erase_of_ne hother, fun _ _ _ => Iff.rfl⟩
    exact events_enqueue_other tracker fun h => hother h.symm
  · exact .refl tracker other

variable {tracker}

variable (h : tracker.Inv)
include h

lemma Inv.landOne (connectionId : ConnectionId) : (tracker.landOne connectionId).Inv := by
  by_cases hflight : connectionId ∈ tracker.inFlight
  · have hland : tracker.landOne connectionId =
        { tracker.enqueue (.connectionClosed connectionId) with
          inFlight := tracker.inFlight.erase connectionId } := if_pos hflight
    refine h.of_local connectionId (fun other hother => same_landOne tracker hother) ?_ ?_ ?_ ?_
    · cases h.phase connectionId with
      | unopened hunopened => exact absurd hflight hunopened.landed
      | opened key client messages hclient hid honly hlanded => exact absurd hflight hlanded
      | closing key messages hflight hunlisted hevents hordered =>
        rw [hland]
        refine .closed key messages h.nodup.not_mem_erase hunlisted ?_ hordered
        have hclosed := events_enqueue tracker (.connectionClosed connectionId)
          (show _ = connectionId from rfl)
        rw [hevents] at hclosed
        exact hclosed
      | closed key messages hlanded => exact absurd hflight hlanded
    · rw [hland]
      by_contra hle
      exact (h.fresh connectionId (not_lt.mp hle)).landed hflight
    · rw [hland]
      exact le_rfl
    · rw [hland]
      exact h.nodup.erase connectionId
  · rwa [ClientTracker.landOne, if_neg hflight]

lemma Inv.land (connectionIds : List ConnectionId) : (tracker.land connectionIds).Inv := by
  unfold ClientTracker.land
  induction connectionIds generalizing tracker with
  | nil => exact h
  | cons first rest ih => exact ih (h.landOne first)

/-- A connection in the map is opened and its close is not on the way. -/
theorem Inv.opened_of_listed {key : ClientKey} {client : ClientState}
    (hclient : tracker.clients key = some client) :
    ∃ messages, client.connectionId ∉ tracker.inFlight ∧
      (∀ other state, tracker.clients other = some state →
        state.connectionId = client.connectionId → other = key) ∧
      tracker.events client.connectionId =
        .connectionOpened client.connectionId key :: asEvents client.connectionId messages ∧
      Ordered messages ∧ Counted client messages := by
  cases h.phase client.connectionId with
  | unopened hunopened => exact absurd rfl (hunopened.unlisted key client hclient)
  | opened key' client' messages hclient' hid honly hlanded hevents hordered hcounted =>
    obtain rfl := honly key client hclient rfl
    obtain rfl : client = client' := Option.some.inj (hclient.symm.trans hclient')
    exact ⟨messages, hlanded, honly, hevents, hordered, hcounted⟩
  | closing key' messages hflight hunlisted => exact absurd rfl (hunlisted key client hclient)
  | closed key' messages hlanded hunlisted => exact absurd rfl (hunlisted key client hclient)

/-- The close of a listed connection is handed to a detached task. -/
theorem Inv.removeClient {key : ClientKey} {client : ClientState}
    (hclient : tracker.clients key = some client) :
    ((tracker.removeClient key).spawnConnectionClosed client.connectionId).Inv := by
  obtain ⟨messages, hlanded, honly, hevents, hordered, -⟩ := h.opened_of_listed hclient
  have hremoved : ∀ other state, ((tracker.removeClient key).spawnConnectionClosed
      client.connectionId).clients other = some state ↔
        other ≠ key ∧ tracker.clients other = some state := by
    intro other state
    show Function.update tracker.clients key none other = some state ↔ _
    by_cases hother : other = key
    · subst hother
      simp
    · simp [hother]
  refine h.of_local client.connectionId (fun other hother => ⟨rfl, ?_, ?_⟩) ?_
    (h.lt_of_listed hclient) le_rfl ?_
  · show other ∈ tracker.inFlight ++ [client.connectionId] ↔ other ∈ tracker.inFlight
    simp [hother]
  · intro key' state hid
    rw [hremoved]
    refine and_iff_right_of_imp ?_
    rintro hstate rfl
    obtain rfl : client = state := Option.some.inj (hclient.symm.trans hstate)
    exact hother hid.symm
  · refine .closing key messages (List.mem_append_right _ List.mem_cons_self) ?_ hevents hordered
    intro other state hstate hid
    obtain ⟨hne, hstate⟩ := (hremoved other state).mp hstate
    exact hne (honly other state hstate hid)
  · show (tracker.inFlight ++ [client.connectionId]).Nodup
    rw [List.nodup_append]
    refine ⟨h.nodup, by simp, ?_⟩
    rintro a ha b hb rfl
    rw [List.mem_singleton] at hb
    exact hlanded (hb ▸ ha)

lemma Inv.closeClient (key : ClientKey) (sending : Sending) :
    (tracker.closeClient key sending).1.Inv := by
  unfold ClientTracker.closeClient
  cases hclient : tracker.clients key with
  | none => exact h
  | some client =>
    have hspawned := (h.removeClient hclient).land sending.landed
    simp only [sendConnectionClosed]
    cases sending.outcome with
    | sent => exact hspawned.landOne client.connectionId
    | failed => exact hspawned
    | aborted => exact hspawned

lemma Inv.closeClients (keys : List (ClientKey × Sending)) : (tracker.closeClients keys).1.Inv := by
  have hfold : ∀ result : ClientTracker × Ending, result.1.Inv →
      (keys.foldl (fun result entry =>
        andThen result fun tracker => tracker.closeClient entry.1 entry.2) result).1.Inv := by
    induction keys with
    | nil => exact fun _ h => h
    | cons first keys ih =>
      intro result hresult
      refine ih _ (andThen_of (P := Inv) hresult ?_)
      rintro next rfl
      exact hresult.closeClient first.1 first.2
  exact hfold _ h

end closes

/-! ### Messages -/

section delivers

variable {tracker tracker' : ClientTracker} {key : ClientKey} {client client' : ClientState}
  {message : JSONRPCMessage} {seqId : Option ℕ} {messages : List (JSONRPCMessage × Option ℕ)}

/-- An entry of the map changes but for its connection, and events of that connection are sent. -/
theorem Inv.of_update (h : tracker.Inv) (hclient : tracker.clients key = some client)
    (hclients : tracker'.clients = Function.update tracker.clients key (some client'))
    (hid : client'.connectionId = client.connectionId)
    (hevents : tracker'.events client.connectionId =
      .connectionOpened client.connectionId key :: asEvents client.connectionId messages)
    (hothers : ∀ other, other ≠ client.connectionId → tracker'.events other = tracker.events other)
    (hordered : Ordered messages) (hcounted : Counted client' messages)
    (hflight : tracker'.inFlight = tracker.inFlight)
    (hnext : tracker'.nextConnectionId = tracker.nextConnectionId) : tracker'.Inv := by
  obtain ⟨-, hlanded, honly, -⟩ := h.opened_of_listed hclient
  have hupdated : ∀ other, other ≠ key → tracker'.clients other = tracker.clients other := by
    intro other hother
    rw [hclients, Function.update_of_ne hother]
  have hself : tracker'.clients key = some client' := by
    rw [hclients, Function.update_self]
  refine h.of_local client.connectionId
    (fun other hother => ⟨hothers other hother, by rw [hflight], ?_⟩) ?_
    (hnext ▸ h.lt_of_listed hclient) (le_of_eq hnext.symm) (hflight ▸ h.nodup)
  · intro key' state hstate
    by_cases hkey : key' = key
    · subst hkey
      rw [hself, hclient, Option.some.injEq, Option.some.injEq]
      constructor
      · rintro rfl
        exact absurd (hstate.symm.trans hid) hother
      · rintro rfl
        exact absurd hstate.symm hother
    · rw [hupdated key' hkey]
  · refine .opened key client' messages hself hid ?_ (hflight ▸ hlanded) hevents hordered hcounted
    intro other state hstate hstateId
    by_contra hother
    rw [hupdated other hother] at hstate
    exact hother (honly other state hstate hstateId)

lemma Inv.touch (h : tracker.Inv) (hclient : tracker.clients key = some client) (now : ℕ) :
    (tracker.touch key client now).Inv := by
  obtain ⟨messages, -, -, hevents, hordered, hcounted⟩ := h.opened_of_listed hclient
  exact h.of_update hclient rfl rfl hevents (fun _ _ => rfl) hordered
    ⟨hcounted.delivered, hcounted.bound⟩ rfl rfl

lemma recordInboundMessageDelivery_eq (hclient : tracker.clients key = some client) :
    tracker.recordInboundMessageDelivery key seqId =
      { tracker with
        clients := Function.update tracker.clients key (some (client.count seqId)) } := by
  cases seqId with
  | none =>
    have hsame : Function.update tracker.clients key (some client) = tracker.clients := by
      rw [← hclient, Function.update_eq_self]
    simp [recordInboundMessageDelivery, ClientState.count, hsame]
  | some n => simp [recordInboundMessageDelivery, ClientState.count, hclient]

/-- A message is sent on a listed connection, and counted or not. -/
theorem Inv.deliver (h : tracker.Inv) (hclient : tracker.clients key = some client)
    (hid : client'.connectionId = client.connectionId)

    (hevents : tracker.events client.connectionId =
      .connectionOpened client.connectionId key :: asEvents client.connectionId messages)
    (hordered : Ordered (messages ++ [(message, seqId)]))
    (hcounted : Counted client' (messages ++ [(message, seqId)])) :
    ({ tracker.enqueue (.incomingMessage client.connectionId message seqId) with
      clients := Function.update tracker.clients key (some client') } : ClientTracker).Inv := by
  refine h.of_update hclient rfl hid ?_ ?_ hordered hcounted rfl rfl
  · have hsent := events_enqueue tracker (.incomingMessage client.connectionId message seqId)
      (show _ = client.connectionId from rfl)
    rw [hevents] at hsent
    refine hsent.trans ?_
    simp [asEvents]
  · intro other hother
    exact events_enqueue_other tracker fun heq => hother heq.symm

/-- A message that does not start a connection is forwarded. -/
theorem Inv.forwardMessage (h : tracker.Inv) (hclient : tracker.clients key = some client)
    (hnot : startsConnection message = false)
    (hlater : ∀ n, seqId = some n → ∀ last, client.lastInboundSeqId = some last → last < n)
    (now : ℕ) (sending : Sending) :
    (tracker.forwardMessage key client message seqId now sending).1.Inv := by
  let touched : ClientState := { client with lastActivityAt := now }
  have hland := (h.touch hclient now).land sending.landed
  have htouched : ((tracker.touch key client now).land sending.landed).clients key =
      some touched := by
    rw [clients_land]
    exact Function.update_self _ _ _
  obtain ⟨messages, -, -, hevents, hordered, hcounted⟩ := hland.opened_of_listed htouched
  obtain ⟨hordered', hcounted'⟩ := ordered_append hordered hcounted hnot hlater
  unfold ClientTracker.forwardMessage sendTransportEvent
  cases sending.outcome with
  | sent =>
    have hid : (touched.count seqId).connectionId = touched.connectionId := by
      cases seqId <;> rfl
    have hqueued : (((tracker.touch key client now).land sending.landed).enqueue
        (.incomingMessage client.connectionId message seqId)).clients key = some touched := htouched
    have hsent := hland.deliver htouched hid hevents hordered' hcounted'
    simp only [andThen]
    rw [recordInboundMessageDelivery_eq hqueued]
    exact hsent
  | failed => exact hland
  | aborted => exact hland

/-- A connection that was not opened is opened and listed. -/
theorem Inv.insertClient (h : tracker.Inv) {connectionId : ConnectionId}
    (hunopened : tracker.Unopened connectionId) (hlt : connectionId < tracker.nextConnectionId)
    (hkey : tracker.clients key = none) (isLegacy : Bool) (now : ℕ) :
    ((tracker.enqueue (.connectionOpened connectionId key)).insertClient key isLegacy connectionId
      now).Inv := by
  have hclients : ∀ other state,
      ((tracker.enqueue (.connectionOpened connectionId key)).insertClient
      key isLegacy connectionId now).clients other = some state ↔
        if other = key then state = ⟨connectionId, now, none⟩
        else tracker.clients other = some state := by
    intro other state
    show Function.update tracker.clients key _ other = some state ↔ _
    by_cases hother : other = key
    · subst hother
      simp [eq_comm]
    · simp [hother]
  refine h.of_local connectionId (fun other hother => ⟨?_, Iff.rfl, ?_⟩) ?_ hlt le_rfl h.nodup
  · exact events_enqueue_other tracker fun heq => hother heq.symm
  · intro key' state hid
    rw [hclients]
    split
    · rename_i heq
      subst heq
      rw [hkey]
      constructor
      · rintro rfl
        exact absurd hid.symm hother
      · intro hnone
        cases hnone
    · rfl
  · refine .opened key ⟨connectionId, now, none⟩ [] ((hclients _ _).mpr (by simp)) rfl ?_
      hunopened.landed ?_ ⟨by simp, by simp [numbers]⟩ ⟨by simp, by simp [numbers]⟩
    · intro other state hstate hid
      by_contra hother
      have hstate := (hclients other state).mp hstate
      rw [if_neg hother] at hstate
      exact hunopened.unlisted other state hstate hid
    · have hevents := events_enqueue tracker (.connectionOpened connectionId key)
        (show _ = connectionId from rfl)
      rw [hunopened.events] at hevents
      exact hevents

end delivers

/-! ### Opening -/

section opens

variable {tracker : ClientTracker} {key : ClientKey} {client : ClientState}
  {message : JSONRPCMessage} {seqId : Option ℕ}

lemma same_land (tracker : ClientTracker) (connectionIds : List ConnectionId)
    {connectionId : ConnectionId} (h : connectionId ∉ tracker.inFlight) :
    Same tracker (tracker.land connectionIds) connectionId := by
  unfold ClientTracker.land
  induction connectionIds generalizing tracker with
  | nil => exact .refl tracker connectionId
  | cons first rest ih =>
    have hfirst : Same tracker (tracker.landOne first) connectionId := by
      by_cases heq : connectionId = first
      · subst heq
        rw [ClientTracker.landOne, if_neg h]
        exact .refl tracker connectionId
      · exact same_landOne tracker heq
    have hrest := ih (tracker.landOne first) fun hin => h (hfirst.inFlight.mp hin)
    exact ⟨hrest.events.trans hfirst.events, hrest.inFlight.trans hfirst.inFlight,
      fun key client hid => (hrest.clients key client hid).trans (hfirst.clients key client hid)⟩

lemma nextConnectionId_land (tracker : ClientTracker) (connectionIds : List ConnectionId) :
    (tracker.land connectionIds).nextConnectionId = tracker.nextConnectionId := by
  unfold ClientTracker.land
  induction connectionIds generalizing tracker with
  | nil => rfl
  | cons first rest ih =>
    rw [List.foldl_cons, ih, landOne]
    split <;> rfl

/-- The first message of a new connection is forwarded, or the connection is given up. -/
theorem Inv.forwardFirstMessage (h : tracker.Inv) (hclient : tracker.clients key = some client)
    (hnew : client.lastInboundSeqId = none)
    (hevents : tracker.events client.connectionId = [.connectionOpened client.connectionId key])
    (hstarts : startsConnection message = true) (isLegacy : Bool) (sending : Sending) :
    (tracker.forwardFirstMessage key isLegacy client.connectionId message seqId sending).1.Inv := by
  have hland := h.land sending.landed
  have hlisted : (tracker.land sending.landed).clients key = some client := by
    rw [clients_land, hclient]
  have hevents' : (tracker.land sending.landed).events client.connectionId =
      .connectionOpened client.connectionId key :: asEvents client.connectionId [] := by
    obtain ⟨-, hlanded, -⟩ := h.opened_of_listed hclient
    rw [(same_land tracker sending.landed hlanded).events, hevents]
    rfl
  obtain ⟨hordered, hcounted, hcounted'⟩ := ordered_first hstarts hnew seqId
  unfold ClientTracker.forwardFirstMessage sendTransportEvent
  cases sending.outcome with
  | sent =>
    cases isLegacy with
    | true =>
      have hsent := hland.deliver hlisted rfl hevents' hordered hcounted
      have hsame : Function.update (tracker.land sending.landed).clients key (some client) =
          (tracker.land sending.landed).clients := by
        rw [← hlisted, Function.update_eq_self]
      rw [hsame] at hsent
      exact hsent
    | false =>
      have hid : (client.count seqId).connectionId = client.connectionId := by
        cases seqId <;> rfl
      have hsent := hland.deliver hlisted hid hevents' hordered hcounted'
      have hqueued : ((tracker.land sending.landed).enqueue
          (.incomingMessage client.connectionId message seqId)).clients key = some client :=
        hlisted
      simp only [Bool.false_eq_true, if_false]
      rw [recordInboundMessageDelivery_eq hqueued]
      exact hsent
  | failed =>
    simp only [hlisted]
    exact hland.removeClient hlisted
  | aborted => exact hland

lemma Inv.openConnection (h : tracker.Inv) (hkey : tracker.clients key = none)
    (hstarts : startsConnection message = true) (isLegacy : Bool) (handling : Handling) :
    (tracker.openConnection key isLegacy message seqId handling).1.Inv := by
  let counted : ClientTracker := { tracker with nextConnectionId := tracker.nextConnectionId + 1 }
  have hsame : ∀ other, Same tracker counted other := fun other =>
    ⟨rfl, Iff.rfl, fun _ _ _ => Iff.rfl⟩
  have hcounted : counted.Inv := h.of_same hsame (Nat.le_succ _) h.nodup
  have hunopened : counted.Unopened tracker.nextConnectionId :=
    (h.fresh tracker.nextConnectionId le_rfl).congr (hsame _)
  have hland := hcounted.land handling.opening.landed
  have hunopened' := hunopened.congr (same_land counted handling.opening.landed hunopened.landed)
  have hkey' : (counted.land handling.opening.landed).clients key = none := by
    rw [clients_land]
    exact hkey
  have hlt : tracker.nextConnectionId <
      (counted.land handling.opening.landed).nextConnectionId := by
    rw [nextConnectionId_land]
    exact Nat.lt_succ_self _
  unfold ClientTracker.openConnection sendTransportEvent
  cases handling.opening.outcome with
  | sent =>
    have hinsert := hland.insertClient hunopened' hlt hkey' isLegacy handling.now
    have hevents := events_enqueue (counted.land handling.opening.landed)
      (.connectionOpened tracker.nextConnectionId key) (show _ = tracker.nextConnectionId from rfl)
    rw [hunopened'.events] at hevents
    exact hinsert.forwardFirstMessage (Function.update_self _ _ _) rfl hevents hstarts isLegacy
      handling.forwarding
  | failed => exact hland
  | aborted => exact hland

end opens

/-! ### Calls -/

section calls

variable {tracker : ClientTracker}

lemma lt_of_not_isDuplicate {key : ClientKey} {seqId : Option ℕ} {client : ClientState}
    (h : tracker.isDuplicate key seqId = false) (hclient : tracker.clients key = some client) :
    ∀ n, seqId = some n → ∀ last, client.lastInboundSeqId = some last → last < n := by
  rintro n rfl last hlast
  simpa [isDuplicate, hclient, hlast] using h

lemma Inv.handleClientMessage (h : tracker.Inv) (key : ClientKey) (isLegacy : Bool)
    (message : JSONRPCMessage) (seqId : Option ℕ) (handling : Handling) :
    (tracker.handleClientMessage key isLegacy (startsConnection message) message seqId
      handling).1.Inv := by
  unfold ClientTracker.handleClientMessage
  cases hstarts : startsConnection message with
  | false =>
    by_cases hduplicate : tracker.isDuplicate key seqId = true
    · simp only [hduplicate, Bool.not_false, Bool.and_self, if_true]
      exact h
    · rw [Bool.not_eq_true] at hduplicate
      simp only [hduplicate, Bool.and_false, Bool.false_and, Bool.false_eq_true, if_false, andThen,
        Bool.not_false, if_true]
      cases hclient : tracker.clients key with
      | none => exact h
      | some client =>
        exact h.forwardMessage hclient hstarts (lt_of_not_isDuplicate hduplicate hclient) _ _
  | true =>
    simp only [Bool.not_true, Bool.false_and, Bool.false_eq_true, if_false, Bool.true_and]
    by_cases hlisted : (tracker.clients key).isSome = true
    · rw [if_pos hlisted]
      refine andThen_of (P := Inv) (h.closeClient key handling.closing) ?_
      intro next hnext
      have hclosed := h.closeClient key handling.closing
      have hkey : next.clients key = none := by
        have hclients := clients_closeClient tracker handling.closing key
        rw [hnext] at hclients
        rw [hclients, Function.update_self]
      rw [hnext] at hclosed
      simp only [hkey]
      exact hclosed.openConnection hkey hstarts isLegacy handling
    · rw [if_neg hlisted]
      have hkey : tracker.clients key = none := by simpa using hlisted
      simp only [andThen, hkey]
      exact h.openConnection hkey hstarts isLegacy handling

lemma Inv.handleMessage (h : tracker.Inv) (envelope : ClientEnvelope) (handling : Handling) :
    (tracker.handleMessage envelope handling).1.Inv := by
  have htake : (tracker.takeLegacyStreamId envelope).Inv := by
    unfold takeLegacyStreamId
    split
    · exact h.of_same (fun other => ⟨rfl, Iff.rfl, fun _ _ _ => Iff.rfl⟩) le_rfl h.nodup
    · exact h
  unfold ClientTracker.handleMessage
  simp only
  split
  · exact htake
  cases hevent : envelope.event with
  | clientMessage message =>
    have hinit : isInitialize envelope = startsConnection message := by
      simp [isInitialize, hevent]
    rw [hinit]
    exact htake.handleClientMessage _ _ _ _ _
  | clientMessageChunk _ _ _ _ => exact htake
  | ack _ => exact htake
  | ping =>
    simp only
    split
    · rename_i client hclient
      exact htake.touch hclient _
    · exact htake
  | clientClosed => exact htake.closeClient _ _

lemma Inv.step (h : tracker.Inv) (action : Action) : (tracker.step action).Inv := by
  have hsame : ∀ tracker' : ClientTracker, tracker'.sent = tracker.sent →
      tracker'.inFlight = tracker.inFlight → tracker'.clients = tracker.clients →
      tracker.nextConnectionId ≤ tracker'.nextConnectionId → tracker'.Inv := by
    intro tracker' hsent hflight hclients hnext
    refine h.of_same (fun other => ⟨?_, by rw [hflight], fun _ _ _ => by rw [hclients]⟩) hnext
      (hflight ▸ h.nodup)
    unfold events
    rw [hsent]
  cases action with
  | handle envelope handling => exact h.handleMessage envelope handling
  | sweep now keys => exact h.closeClients _
  | completion task sending =>
    simp only [ClientTracker.step]
    split
    · exact (hsame { tracker with joinSet := tracker.joinSet.erase task } rfl rfl rfl
        le_rfl).closeClient _ _
    · exact h
  | land connectionIds => exact h.land connectionIds
  | otherConnection =>
    exact hsame { tracker with nextConnectionId := tracker.nextConnectionId + 1 } rfl rfl rfl
      (Nat.le_succ _)

lemma Inv.new (nextConnectionId : ConnectionId) : (new nextConnectionId).Inv := by
  have hunopened : ∀ connectionId, (ClientTracker.new nextConnectionId).Unopened connectionId :=
    fun connectionId => ⟨rfl, List.not_mem_nil, fun key client hclient => nomatch hclient⟩
  exact ⟨fun connectionId => .unopened (hunopened connectionId),
    fun connectionId _ => hunopened connectionId, List.nodup_nil⟩

end calls

/-! ### Lives of connections -/

/-- What is claimed of the connections that a run opens. -/
structure LifeCycles (tracker : ClientTracker) : Prop where
  /-- one `ConnectionOpened`, then messages, then at most one `ConnectionClosed` -/
  life : ∀ connectionId, tracker.events connectionId = [] ∨
    ∃ key messages ending, Ordered messages ∧
      (ending = [] ∨ ending = [.connectionClosed connectionId]) ∧
      tracker.events connectionId =
        .connectionOpened connectionId key :: asEvents connectionId messages ++ ending
  /-- of the connections of a client and a stream, all but one are closed or being closed -/
  oneOpen : ∀ connectionId connectionId' key,
    .connectionOpened connectionId key ∈ tracker.sent → ¬ tracker.Closing connectionId →
    .connectionOpened connectionId' key ∈ tracker.sent → ¬ tracker.Closing connectionId' →
    connectionId = connectionId'
  /-- the number that further messages are compared with is that of a message that was sent -/
  counted : ∀ key client n, tracker.clients key = some client → client.lastInboundSeqId = some n →
    ∃ message, .incomingMessage client.connectionId message (some n) ∈ tracker.sent

variable {tracker : ClientTracker}

/-- A connection that was opened for a key and is not being closed is the one the key has. -/
theorem Inv.listed_of_opened (h : tracker.Inv) {connectionId : ConnectionId} {key : ClientKey}
    (hopened : .connectionOpened connectionId key ∈ tracker.sent)
    (hclosing : ¬ tracker.Closing connectionId) :
    ∃ client, tracker.clients key = some client ∧ client.connectionId = connectionId := by
  have hmem : .connectionOpened connectionId key ∈ tracker.events connectionId :=
    List.mem_filter.mpr ⟨hopened, by simp [TransportEvent.connectionId]⟩
  cases h.phase connectionId with
  | unopened hunopened =>
    simp [hunopened.events] at hmem
  | opened key' client messages hclient hid honly hlanded hevents hordered hcounted =>
    rw [hevents, List.mem_cons] at hmem
    rcases hmem with heq | hmem
    · obtain ⟨-, rfl⟩ := TransportEvent.connectionOpened.inj heq
      exact ⟨client, hclient, hid⟩
    · simp [asEvents] at hmem
  | closing key' messages hflight => exact absurd (.inl hflight) hclosing
  | closed key' messages hlanded hunlisted hevents hordered =>
    have hclosed : .connectionClosed connectionId ∈ tracker.events connectionId := by
      rw [hevents]
      exact List.mem_append_right _ List.mem_cons_self
    exact absurd (.inr (List.mem_filter.mp hclosed).1) hclosing

lemma Inv.lifeCycles (h : tracker.Inv) : tracker.LifeCycles := by
  refine ⟨?_, ?_, ?_⟩
  · intro connectionId
    cases h.phase connectionId with
    | unopened hunopened => exact .inl hunopened.events
    | opened key client messages hclient hid honly hlanded hevents hordered hcounted =>
      exact .inr ⟨key, messages, [], hordered, .inl rfl, by rw [hevents, List.append_nil]⟩
    | closing key messages hflight hunlisted hevents hordered =>
      exact .inr ⟨key, messages, [], hordered, .inl rfl, by rw [hevents, List.append_nil]⟩
    | closed key messages hlanded hunlisted hevents hordered =>
      exact .inr ⟨key, messages, _, hordered, .inr rfl, hevents⟩
  · intro connectionId connectionId' key hopened hclosing hopened' hclosing'
    obtain ⟨client, hclient, rfl⟩ := h.listed_of_opened hopened hclosing
    obtain ⟨client', hclient', rfl⟩ := h.listed_of_opened hopened' hclosing'
    rw [Option.some.inj (hclient.symm.trans hclient')]
  · intro key client n hclient hn
    obtain ⟨messages, -, -, hevents, -, hcounted⟩ := h.opened_of_listed hclient
    obtain ⟨message, hmessage⟩ := hcounted.delivered n hn
    have hmem : .incomingMessage client.connectionId message (some n) ∈
        tracker.events client.connectionId := by
      rw [hevents]
      exact List.mem_cons_of_mem _ (List.mem_map.mpr ⟨_, hmessage, rfl⟩)
    exact ⟨message, (List.mem_filter.mp hmem).1⟩

/-- In every run, whatever envelopes arrive and wherever forwarding fails or is cut off. -/
theorem lifeCycles_run (nextConnectionId : ConnectionId) (actions : List Action) :
    ((new nextConnectionId).run actions).LifeCycles := by
  have hinv : ((new nextConnectionId).run actions).Inv :=
    List.foldlRecOn actions step (Inv.new nextConnectionId) fun _ h action _ => h.step action
  exact hinv.lifeCycles

end ClientTracker

end Codex.RemoteControl
