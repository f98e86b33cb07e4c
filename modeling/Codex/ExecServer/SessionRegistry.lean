import Codex.ExecServer.SessionEvents

/-!
# The sessions of the exec server

`exec-server/src/server/session_registry.rs`: a session outlives its connection for a while and may
be taken up by another one. The map of the sessions and the attachment of each session have locks of
their own, so a detach may come between any two sections of an attach that holds the lock of the
map; a timer that a detach has started runs on after the session was attached again.

An action is one section under a lock. `log` is what has happened so far, with times. A uuid is an
id that was not used before.

* `Attachments.step`: how the entries of the sessions and the log belong together;
* `exclusive_run`: who is attached, where notifications go, and when a session expires.
-/

namespace Codex.ExecServer

open Codex.Lib

structure ConnectionId where
  uuid : ℕ
  deriving DecidableEq

/-- `DETACHED_SESSION_TTL`, in milliseconds -/
def detachedSessionTtl : ℕ := 30000

structure JSONRPCErrorError where
  code : ℤ
  message : Text
  deriving DecidableEq

/-- `invalid_request(format!("unknown session id {session_id}"))` -/
def unknownSession (sessionId : Text) : JSONRPCErrorError :=
  ⟨-32600, "unknown session id ".toList ++ sessionId⟩

def sessionAlreadyAttached (sessionId : Text) : JSONRPCErrorError :=
  ⟨-32010, "session ".toList ++ sessionId ++ " is already attached to another connection".toList⟩

/-! ### The entry of a session -/

/-- `SessionEntry` with its `AttachmentState`; `notificationSender` and `processRunning`
belong to its `ProcessHandler` -/
structure SessionEntry (Sender : Type) where
  currentConnectionId : Option ConnectionId
  detachedConnectionId : Option ConnectionId
  detachedExpiresAt : Option ℕ
  notificationSender : Option Sender
  processRunning : Bool

variable {Sender : Type}

namespace SessionEntry

def new (notifications : Sender) (connectionId : ConnectionId) : SessionEntry Sender :=
  ⟨some connectionId, none, none, some notifications, true⟩

variable (entry : SessionEntry Sender) (connectionId : ConnectionId)

def attach : SessionEntry Sender :=
  { entry with
    currentConnectionId := some connectionId
    detachedConnectionId := none
    detachedExpiresAt := none }

def detach (now : ℕ) : Option (SessionEntry Sender) :=
  if entry.currentConnectionId ≠ some connectionId then none
  else
    some { entry with
      notificationSender := none
      currentConnectionId := none
      detachedConnectionId := some connectionId
      detachedExpiresAt := some (now + detachedSessionTtl) }

def hasActiveConnection : Bool := entry.currentConnectionId.isSome

def isExpired (now : ℕ) : Bool :=
  entry.detachedExpiresAt.any fun deadline => decide (now ≥ deadline)

def isDetachedConnectionExpired (now : ℕ) : Bool :=
  entry.currentConnectionId.isNone && entry.detachedConnectionId == some connectionId &&
    entry.isExpired now

end SessionEntry

/-! ### The registry -/

/-- The section of `SessionRegistry::attach` that comes next, with the lock of the map. -/
inductive AttachSection where
  | isExpired
  | hasActiveConnection
  | setNotificationSender
  | attach
  | remove

/-- Who holds the lock of the map: nobody, an `attach` of an existing session, or an
`expire_if_detached` that is about to remove its session. -/
inductive RegistryLock (Sender : Type) where
  | free
  | attaching (sessionId : Text) (connectionId : ConnectionId) (notifications : Sender)
      (next : AttachSection)
  | expiring (sessionId : Text) (connectionId : ConnectionId)

/-- A task that `SessionHandle::detach` has spawned. -/
structure ExpiryTimer where
  sessionId : Text
  connectionId : ConnectionId
  wakesAt : ℕ
  deriving DecidableEq

/-- What has happened; the timer is missing when an `attach` has found the session expired. -/
inductive RegistryEvent where
  | attached (sessionId : Text) (connectionId : ConnectionId)
  | refused (connectionId : ConnectionId) (error : JSONRPCErrorError)
  | detached (sessionId : Text) (connectionId : ConnectionId) (now : ℕ)
  | expired (sessionId : Text) (timer : Option ConnectionId) (now : ℕ)
  | shutDown (sessionId : Text)
  deriving DecidableEq

/-- `SessionRegistry`. `sessions` are the keys of the map; an entry is shared by its
handles, and stays when its session has left the map. `shutdowns` are sessions that have left it and
whose processes are about to be shut down, `senders` the senders of the connections. -/
structure SessionRegistry (Sender : Type) where
  sessions : List Text
  entries : AList fun _ : Text => SessionEntry Sender
  lock : RegistryLock Sender
  timers : List ExpiryTimer
  shutdowns : List Text
  senders : AList fun _ : ConnectionId => Sender
  now : ℕ
  log : List RegistryEvent

/-- A section under a lock, or the passing of time. -/
inductive RegistryAction (Sender : Type) where
  | advance (duration : ℕ)
  | attachNew (sessionId : Text) (connectionId : ConnectionId) (notifications : Sender)
  | attachResume (sessionId : Text) (connectionId : ConnectionId) (notifications : Sender)
  | attachNext
  | detach (sessionId : Text) (connectionId : ConnectionId)
  | expire (timer : ExpiryTimer)
  | expireNext
  | shutdown (sessionId : Text)

namespace SessionRegistry

def new : SessionRegistry Sender := ⟨[], ∅, .free, [], [], ∅, 0, []⟩

variable (registry : SessionRegistry Sender) (sessionId : Text) (connectionId : ConnectionId)

/-- The sections of `attach` for a new session -/
def attachNew (notifications : Sender) : SessionRegistry Sender :=
  { registry with
    sessions := sessionId :: registry.sessions
    entries := registry.entries.insert sessionId (.new notifications connectionId)
    senders := registry.senders.insert connectionId notifications
    log := registry.log ++ [.attached sessionId connectionId] }

/-- The error of an `attach`, with which the lock is free again -/
def refuse (error : JSONRPCErrorError) : SessionRegistry Sender :=
  { registry with lock := .free, log := registry.log ++ [.refused connectionId error] }

/-- `sessions.remove`, with which the lock is free again -/
def remove (timer : Option ConnectionId) : SessionRegistry Sender :=
  { registry with
    lock := .free
    sessions := registry.sessions.filter fun other => other != sessionId
    shutdowns := sessionId :: registry.shutdowns
    log := registry.log ++ [.expired sessionId timer registry.now] }

/-- The sections of `attach` for the entry of an existing session -/
def attachSection
    (notifications : Sender) (entry : SessionEntry Sender) :
    AttachSection → SessionRegistry Sender
  | .isExpired =>
    let next := if entry.isExpired registry.now then .remove else .hasActiveConnection
    { registry with lock := .attaching sessionId connectionId notifications next }
  | .hasActiveConnection =>
    if entry.hasActiveConnection then
      registry.refuse connectionId (sessionAlreadyAttached sessionId)
    else
      { registry with
        lock := .attaching sessionId connectionId notifications .setNotificationSender }
  | .setNotificationSender =>
    { registry with
      entries := registry.entries.insert sessionId
        { entry with notificationSender := some notifications }
      lock := .attaching sessionId connectionId notifications .attach }
  | .attach =>
    { registry with
      entries := registry.entries.insert sessionId (entry.attach connectionId)
      lock := .free
      senders := registry.senders.insert connectionId notifications
      log := registry.log ++ [.attached sessionId connectionId] }
  | .remove =>
    (registry.remove sessionId none).refuse connectionId (unknownSession sessionId)

/-- The section of `SessionHandle::detach`, and the timer it starts -/
def detach (registry : SessionRegistry Sender) (sessionId : Text) (connectionId : ConnectionId) :
    SessionRegistry Sender :=
  match (registry.entries.lookup sessionId).bind fun entry =>
    entry.detach connectionId registry.now with
  | none => registry
  | some entry =>
    { registry with
      entries := registry.entries.insert sessionId entry
      timers := ⟨sessionId, connectionId, registry.now + detachedSessionTtl⟩ :: registry.timers
      log := registry.log ++ [.detached sessionId connectionId registry.now] }

/-- `expire_if_detached` up to its check -/
def expire (timer : ExpiryTimer) : SessionRegistry Sender :=
  let registry := { registry with timers := registry.timers.erase timer }
  match registry.entries.lookup timer.sessionId with
  | none => registry
  | some entry =>
    if timer.sessionId ∈ registry.sessions ∧
        entry.isDetachedConnectionExpired timer.connectionId registry.now then
      { registry with lock := .expiring timer.sessionId timer.connectionId }
    else registry

def shutdown : SessionRegistry Sender :=
  match registry.entries.lookup sessionId with
  | none => registry
  | some entry =>
    { registry with
      entries := registry.entries.insert sessionId { entry with processRunning := false }
      shutdowns := registry.shutdowns.erase sessionId
      log := registry.log ++ [.shutDown sessionId] }

/-- One section; nothing happens when it cannot be entered. -/
def step (action : RegistryAction Sender) : SessionRegistry Sender :=
  match action, registry.lock with
  | .advance duration, _ => { registry with now := registry.now + duration }
  | .attachNew sessionId connectionId notifications, .free =>
    -- The ids are new uuids.
    if sessionId ∈ registry.entries ∨ connectionId ∈ registry.senders then registry
    else registry.attachNew sessionId connectionId notifications
  | .attachResume sessionId connectionId notifications, .free =>
    if connectionId ∈ registry.senders then registry
    else if sessionId ∈ registry.sessions then
      { registry with lock := .attaching sessionId connectionId notifications .isExpired }
    else registry.refuse connectionId (unknownSession sessionId)
  | .attachNext, .attaching sessionId connectionId notifications next =>
    match registry.entries.lookup sessionId with
    | none => registry
    | some entry => registry.attachSection sessionId connectionId notifications entry next
  | .detach sessionId connectionId, _ => registry.detach sessionId connectionId
  | .expire timer, .free =>
    if timer ∈ registry.timers ∧ registry.now ≥ timer.wakesAt then registry.expire timer
    else registry
  | .expireNext, .expiring sessionId connectionId => registry.remove sessionId (some connectionId)
  | .shutdown sessionId, _ =>
    if sessionId ∈ registry.shutdowns then registry.shutdown sessionId else registry
  | _, _ => registry

/-- The sections of all calls, in the order in which they are entered. -/
def run (actions : List (RegistryAction Sender)) : SessionRegistry Sender := actions.foldl step new

/-! ### What the log says -/

variable (log : List RegistryEvent) (sessionId : Text)

/-- The connections that are attached to a session: those of an attach without a detach after it. -/
def openConnections : List ConnectionId :=
  log.foldl (fun connections event =>
    match event with
    | .attached session connectionId =>
      if session = sessionId then connections ++ [connectionId] else connections
    | .detached session connectionId _ =>
      if session = sessionId then connections.erase connectionId else connections
    | _ => connections) []

/-- The last connection that was detached from a session, and when. -/
def lastDetach : Option (ConnectionId × ℕ) :=
  log.foldl (fun last event =>
    match event with
    | .detached session connectionId now =>
      if session = sessionId then some (connectionId, now) else last
    | _ => last) none

/-- The event is neither an attach nor a detach of the session. -/
def Unrelated : RegistryEvent → Prop
  | .attached session _ => session ≠ sessionId
  | .detached session _ _ => session ≠ sessionId
  | _ => True

variable (connectionId : ConnectionId)

lemma openConnections_attached
    :
    openConnections (log ++ [.attached sessionId connectionId]) sessionId =
      openConnections log sessionId ++ [connectionId] := by
  simp [openConnections]

lemma openConnections_detached (now : ℕ) :
    openConnections (log ++ [.detached sessionId connectionId now]) sessionId =
      (openConnections log sessionId).erase connectionId := by
  simp [openConnections]

lemma openConnections_unrelated {log : List RegistryEvent} {sessionId : Text}
    (event : RegistryEvent) (h : Unrelated sessionId event) :
    openConnections (log ++ [event]) sessionId = openConnections log sessionId := by
  rcases event with ⟨session, c⟩ | _ | ⟨session, c, now⟩ | _ | _
  all_goals simp_all [openConnections, Unrelated]

lemma lastDetach_unrelated {log : List RegistryEvent} {sessionId : Text}
    (event : RegistryEvent) (h : Unrelated sessionId event) :
    lastDetach (log ++ [event]) sessionId = lastDetach log sessionId := by
  rcases event with ⟨session, c⟩ | _ | ⟨session, c, now⟩ | _ | _
  all_goals simp_all [lastDetach, Unrelated]

/-- When a session may expire, and when its process may be shut down. -/
def Justified (before : List RegistryEvent) : RegistryEvent → Prop
  | .expired sessionId timer now =>
    openConnections before sessionId = [] ∧ ∃ connectionId detachedAt,
      lastDetach before sessionId = some (connectionId, detachedAt) ∧
      detachedAt + detachedSessionTtl ≤ now ∧ ∀ started, timer = some started →
        started = connectionId
  | .shutDown sessionId =>
    openConnections before sessionId = [] ∧ ∃ timer now, .expired sessionId timer now ∈ before
  | _ => True

/-! ### The invariant -/

/-- The entry of a session and the log. -/
structure EntryHolds (senders : AList fun _ : ConnectionId => Sender) (log : List RegistryEvent)
    (sessionId : Text) (entry : SessionEntry Sender) : Prop where
  open_eq : openConnections log sessionId = entry.currentConnectionId.toList
  routed : ∀ connectionId, entry.currentConnectionId = some connectionId →
    ∃ sender, senders.lookup connectionId = some sender ∧ entry.notificationSender = some sender
  deadline : ∀ expiresAt, entry.detachedExpiresAt = some expiresAt →
    entry.currentConnectionId = none ∧ ∃ connectionId detachedAt,
      lastDetach log sessionId = some (connectionId, detachedAt) ∧
      entry.detachedConnectionId = some connectionId ∧ expiresAt = detachedAt + detachedSessionTtl

/-- What the call with the lock knows of the entry, whatever detaches come in between. -/
def LockHolds : RegistryLock Sender → Prop
  | .free => True
  | .attaching sessionId connectionId notifications next =>
    sessionId ∈ registry.sessions ∧ connectionId ∉ registry.senders ∧
      ∀ entry, registry.entries.lookup sessionId = some entry →
        match next with
        | .isExpired => True
        | .hasActiveConnection => True
        | .setNotificationSender => entry.currentConnectionId = none
        | .attach => entry.currentConnectionId = none ∧
            entry.notificationSender = some notifications
        | .remove => entry.isExpired registry.now
  | .expiring sessionId connectionId =>
    sessionId ∈ registry.sessions ∧ ∀ entry, registry.entries.lookup sessionId = some entry →
      entry.isDetachedConnectionExpired connectionId registry.now

/-- What holds of the registry between two sections. -/
structure Attachments (registry : SessionRegistry Sender) : Prop where
  entry : ∀ sessionId entry, registry.entries.lookup sessionId = some entry →
    EntryHolds registry.senders registry.log sessionId entry
  unused : ∀ sessionId, sessionId ∉ registry.entries → openConnections registry.log sessionId = []
  known : ∀ sessionId ∈ registry.sessions, sessionId ∈ registry.entries
  lock : LockHolds registry registry.lock
  gone : ∀ sessionId ∈ registry.shutdowns, sessionId ∈ registry.entries ∧
    sessionId ∉ registry.sessions ∧ openConnections registry.log sessionId = [] ∧
    ∃ timer now, .expired sessionId timer now ∈ registry.log
  history : ∀ before event after, registry.log = before ++ event :: after → Justified before event

section steps

variable {registry : SessionRegistry Sender} {sessionId : Text} {connectionId : ConnectionId}
  {entry : SessionEntry Sender} {event : RegistryEvent} {log : List RegistryEvent}
  {senders : AList fun _ : ConnectionId => Sender}

lemma EntryHolds.append (h : EntryHolds senders log sessionId entry) (event : RegistryEvent)
    (hevent : Unrelated sessionId event) :
    EntryHolds senders (log ++ [event]) sessionId entry := by
  refine ⟨?_, h.routed, ?_⟩
  · rw [openConnections_unrelated event hevent, h.open_eq]
  · rw [lastDetach_unrelated event hevent]
    exact h.deadline

lemma EntryHolds.insert (h : EntryHolds senders log sessionId entry) {sender : Sender}
    (hnew : connectionId ∉ senders) :
    EntryHolds (senders.insert connectionId sender) log sessionId entry := by
  refine ⟨h.open_eq, fun current hcurrent => ?_, h.deadline⟩
  obtain ⟨sender', hsender', hrouted⟩ := h.routed current hcurrent
  refine ⟨sender', ?_, hrouted⟩
  rw [AList.lookup_insert_ne, hsender']
  rintro rfl
  exact hnew (AList.lookup_isSome.mp (Option.isSome_of_eq_some hsender'))

lemma history_append
    (h : ∀ before event after, log = before ++ event :: after → Justified before event)
    (hevent : Justified log event) :
    ∀ before other after, log ++ [event] = before ++ other :: after → Justified before other := by
  intro before other after heq
  rcases List.eq_nil_or_concat after with rfl | ⟨rest, last, rfl⟩
  · obtain ⟨rfl, hother⟩ := List.append_inj' heq rfl
    obtain rfl := List.singleton_inj.mp hother
    exact hevent
  · rw [List.concat_eq_append, ← List.cons_append, ← List.append_assoc] at heq
    exact h before other rest (List.append_inj' heq rfl).1

lemma isExpired_mono {now later : ℕ} (h : entry.isExpired now) (hle : now ≤ later) :
    entry.isExpired later := by
  unfold SessionEntry.isExpired at h ⊢
  rcases hdeadline : entry.detachedExpiresAt with _ | deadline
  · simp [hdeadline] at h
  · rw [hdeadline, Option.any_some, decide_eq_true_iff] at h
    rw [Option.any_some, decide_eq_true_iff]
    omega

/-- A session that has expired: nobody is attached, and the deadline of the last detach is over. -/
theorem EntryHolds.expired (h : EntryHolds senders log sessionId entry) {now : ℕ}
    (hexpired : entry.isExpired now) : entry.currentConnectionId = none ∧
      ∃ connectionId detachedAt, lastDetach log sessionId = some (connectionId, detachedAt) ∧
        entry.detachedConnectionId = some connectionId ∧ detachedAt + detachedSessionTtl ≤ now := by
  unfold SessionEntry.isExpired at hexpired
  rcases hdeadline : entry.detachedExpiresAt with _ | expiresAt
  · simp [hdeadline] at hexpired
  · rw [hdeadline, Option.any_some, decide_eq_true_iff] at hexpired
    obtain ⟨hcurrent, connectionId, detachedAt, hlast, hdetached, rfl⟩ := h.deadline _ hdeadline
    exact ⟨hcurrent, connectionId, detachedAt, hlast, hdetached, hexpired⟩

variable (h : Attachments registry)
include h

lemma Attachments.lookup (hmem : sessionId ∈ registry.sessions) :
    ∃ entry, registry.entries.lookup sessionId = some entry :=
  Option.isSome_iff_exists.mp (AList.lookup_isSome.mpr (h.known sessionId hmem))

lemma Attachments.advance (duration : ℕ) :
    Attachments { registry with now := registry.now + duration } := by
  refine ⟨h.entry, h.unused, h.known, ?_, h.gone, h.history⟩
  have hlock := h.lock
  have hle : registry.now ≤ registry.now + duration := Nat.le_add_right _ _
  simp only
  rcases hl : registry.lock with _ | ⟨sid, c, notifications, next⟩ | ⟨sid, c⟩
  · trivial
  · rw [hl] at hlock
    obtain ⟨hmem, hnew, hnext⟩ := hlock
    refine ⟨hmem, hnew, fun entry hentry => ?_⟩
    have hholds := hnext entry hentry
    rcases next with _ | _ | _ | _ | _
    · trivial
    · trivial
    · exact hholds
    · exact hholds
    · exact isExpired_mono hholds hle
  · rw [hl] at hlock
    refine ⟨hlock.1, fun entry hentry => ?_⟩
    have hholds := hlock.2 entry hentry
    unfold SessionEntry.isDetachedConnectionExpired at hholds ⊢
    rw [Bool.and_eq_true] at hholds ⊢
    exact ⟨hholds.1, isExpired_mono hholds.2 hle⟩

lemma Attachments.setLock {lock : RegistryLock Sender}
    (hlock : LockHolds registry lock) : Attachments { registry with lock := lock } :=
  ⟨h.entry, h.unused, h.known, hlock, h.gone, h.history⟩

lemma Attachments.append (event : RegistryEvent)
    (hevent : ∀ sessionId, Unrelated sessionId event) (hjustified : Justified registry.log event)
    (lock : RegistryLock Sender) (hlock : LockHolds registry lock) :
    Attachments { registry with lock := lock, log := registry.log ++ [event] } where
  entry := fun sessionId entry hentry =>
    (h.entry sessionId entry hentry).append _ (hevent sessionId)
  unused := by
    intro sessionId hmem
    rw [openConnections_unrelated event (hevent sessionId)]
    exact h.unused sessionId hmem
  known := h.known
  lock := hlock
  gone := by
    intro sessionId hmem
    obtain ⟨hentry, hsession, hopen, timer, now, hexpired⟩ := h.gone sessionId hmem
    refine ⟨hentry, hsession, ?_, timer, now, List.mem_append_left _ hexpired⟩
    rw [openConnections_unrelated event (hevent sessionId), hopen]
  history := history_append h.history hjustified

lemma Attachments.refuse (connectionId : ConnectionId)
    (error : JSONRPCErrorError) : Attachments (registry.refuse connectionId error) :=
  h.append (.refused connectionId error) (fun _ => trivial) trivial .free trivial

lemma Attachments.remove {timer : Option ConnectionId} (hmem : sessionId ∈ registry.sessions)
    (hentry : registry.entries.lookup sessionId = some entry)
    (hexpired : entry.isExpired registry.now)
    (htimer : ∀ started, timer = some started → entry.detachedConnectionId = some started) :
    Attachments (registry.remove sessionId timer) := by
  have hholds := h.entry sessionId entry hentry
  obtain ⟨hcurrent, c, detachedAt, hlast, hdetached, hover⟩ := hholds.expired hexpired
  have hopen : openConnections registry.log sessionId = [] := by
    rw [hholds.open_eq, hcurrent]
    rfl
  have hjustified : Justified registry.log (.expired sessionId timer registry.now) := by
    refine ⟨hopen, c, detachedAt, hlast, hover, fun started hstarted => ?_⟩
    rw [htimer started hstarted] at hdetached
    exact Option.some.inj hdetached
  have happend := h.append (.expired sessionId timer registry.now) (fun _ => trivial) hjustified
    .free trivial
  refine ⟨happend.entry, happend.unused, ?_, trivial, ?_, happend.history⟩
  · intro other hother
    exact h.known other (List.mem_of_mem_filter hother)
  · intro other hother
    rcases List.mem_cons.mp hother with rfl | hother
    · refine ⟨h.known other hmem, ?_, ?_, timer, registry.now, ?_⟩
      · simp [SessionRegistry.remove]
      · simp only [SessionRegistry.remove]
        rw [openConnections_unrelated (.expired _ _ _) trivial, hopen]
      · exact List.mem_append_right _ List.mem_cons_self
    · obtain ⟨hknown, hsession, hrest⟩ := happend.gone other hother
      refine ⟨hknown, fun hmem' => hsession (List.mem_of_mem_filter hmem'), hrest⟩

/-- A connection is attached to a session to which none is. -/
theorem Attachments.attached (entry : SessionEntry Sender)
    {notifications : Sender} {sessions : List Text}
    (hsessions : ∀ other ∈ sessions, other = sessionId ∨ other ∈ registry.sessions)
    (hopen : openConnections registry.log sessionId = []) (hgone : sessionId ∉ registry.shutdowns)
    (hconnection : connectionId ∉ registry.senders)
    (hcurrent : entry.currentConnectionId = some connectionId)
    (hsender : entry.notificationSender = some notifications)
    (hdeadline : entry.detachedExpiresAt = none) :
    Attachments { registry with
      sessions := sessions
      entries := registry.entries.insert sessionId entry
      lock := .free
      senders := registry.senders.insert connectionId notifications
      log := registry.log ++ [.attached sessionId connectionId] } where
  entry := by
    intro other found hfound
    by_cases hother : other = sessionId
    · subst hother
      have hfound' := AList.lookup_insert registry.entries ▸ hfound
      cases hfound'
      refine ⟨?_, ?_, ?_⟩
      · rw [openConnections_attached, hopen, hcurrent]
        rfl
      · intro current hcurrent'
        rw [hcurrent] at hcurrent'
        cases hcurrent'
        exact ⟨notifications, AList.lookup_insert _, hsender⟩
      · intro expiresAt hexpiresAt
        simp [hdeadline] at hexpiresAt
    · have hfound' := AList.lookup_insert_ne hother ▸ hfound
      exact ((h.entry other found hfound').append (.attached sessionId connectionId)
        fun heq => hother heq.symm).insert hconnection
  unused := by
    intro other hother
    rw [AList.mem_insert, not_or] at hother
    rw [openConnections_unrelated (.attached sessionId connectionId) fun heq => hother.1 heq.symm,
      h.unused other hother.2]
  known := by
    intro other hother
    rw [AList.mem_insert]
    exact (hsessions other hother).imp_right (h.known other)
  lock := trivial
  gone := by
    intro other hother
    obtain ⟨hknown, hsession, hopen', timer, now, hexpired⟩ := h.gone other hother
    have hne : other ≠ sessionId := fun heq => hgone (heq ▸ hother)
    refine ⟨(AList.mem_insert _).mpr (.inr hknown), ?_, ?_, timer, now,
      List.mem_append_left _ hexpired⟩
    · intro hmem
      rcases hsessions other hmem with heq | hmem
      · exact hne heq
      · exact hsession hmem
    · rw [openConnections_unrelated (.attached sessionId connectionId) fun heq => hne heq.symm,
        hopen']
  history := history_append h.history trivial

/-- The entry of a session is replaced by one for which the log says the same. -/
theorem Attachments.setEntry (entry' : SessionEntry Sender) (hmem : sessionId ∈ registry.entries)
    (hholds : EntryHolds registry.senders registry.log sessionId entry')
    {lock : RegistryLock Sender}
    (hlock : LockHolds { registry with entries := registry.entries.insert sessionId entry' } lock) :
    Attachments { registry with
      entries := registry.entries.insert sessionId entry', lock := lock } where
  entry := by
    intro other entry hentry
    by_cases hother : other = sessionId
    · subst hother
      have hentry' := AList.lookup_insert registry.entries ▸ hentry
      cases hentry'
      exact hholds
    · have hentry' := AList.lookup_insert_ne hother ▸ hentry
      exact h.entry other entry hentry'
  unused := by
    intro other hother
    rw [AList.mem_insert, not_or] at hother
    exact h.unused other hother.2
  known := fun other hother => (AList.mem_insert _).mpr (.inr (h.known other hother))
  lock := hlock
  gone := by
    intro other hother
    obtain ⟨hknown, hrest⟩ := h.gone other hother
    exact ⟨(AList.mem_insert _).mpr (.inr hknown), hrest⟩
  history := h.history

/-- A detach does not change what the call with the lock knows: where it matters, no connection is
attached, and there is nothing to detach. -/
theorem LockHolds.detach (hentry : registry.entries.lookup sessionId = some entry)
    (hcurrent : entry.currentConnectionId = some connectionId) (entry' : SessionEntry Sender)
    (hcurrent' : entry'.currentConnectionId = none) :
    LockHolds { registry with entries := registry.entries.insert sessionId entry' }
      registry.lock := by
  have hlock := h.lock
  rcases hl : registry.lock with _ | ⟨other, c, notifications, next⟩ | ⟨other, c⟩
  · trivial
  · rw [hl] at hlock
    obtain ⟨hmem, hnew, hnext⟩ := hlock
    refine ⟨hmem, hnew, fun found hfound => ?_⟩
    by_cases hother : other = sessionId
    · subst hother
      have hfound' := AList.lookup_insert registry.entries ▸ hfound
      cases hfound'
      have hholds := hnext entry hentry
      rcases next with _ | _ | _ | _ | _
      · trivial
      · trivial
      · exact hcurrent'
      · rw [hcurrent] at hholds
        exact absurd hholds.1 nofun
      · have hnone := ((h.entry _ _ hentry).expired hholds).1
        simp [hcurrent] at hnone
    · have hfound' := AList.lookup_insert_ne hother ▸ hfound
      exact hnext found hfound'
  · rw [hl] at hlock
    refine ⟨hlock.1, fun found hfound => ?_⟩
    by_cases hother : other = sessionId
    · subst hother
      have hholds := hlock.2 entry hentry
      simp [SessionEntry.isDetachedConnectionExpired, hcurrent] at hholds
    · have hfound' := AList.lookup_insert_ne hother ▸ hfound
      exact hlock.2 found hfound'

lemma Attachments.detach (sessionId : Text)
    (connectionId : ConnectionId) : Attachments (registry.detach sessionId connectionId) := by
  rw [SessionRegistry.detach]
  rcases hentry : registry.entries.lookup sessionId with _ | entry
  · exact h
  · by_cases hcurrent : entry.currentConnectionId = some connectionId
    · have hholds := h.entry sessionId entry hentry
      have hopen : openConnections registry.log sessionId = [connectionId] := by
        rw [hholds.open_eq, hcurrent]
        rfl
      have hopen' : openConnections
          (registry.log ++ [.detached sessionId connectionId registry.now]) sessionId = [] := by
        rw [openConnections_detached, hopen, List.erase_cons_head]
      have hmem : sessionId ∈ registry.entries :=
        AList.lookup_isSome.mp (Option.isSome_of_eq_some hentry)
      have hother : ∀ other, other ≠ sessionId →
          Unrelated other (.detached sessionId connectionId registry.now) :=
        fun other hne heq => hne heq.symm
      simp only [Option.bind_some, SessionEntry.detach, hcurrent, ne_eq, not_true, if_false]
      refine ⟨?_, ?_, ?_, LockHolds.detach h hentry hcurrent _ rfl, ?_,
        history_append h.history trivial⟩
      · intro other found hfound
        by_cases heq : other = sessionId
        · subst heq
          have hfound' := AList.lookup_insert registry.entries ▸ hfound
          cases hfound'
          refine ⟨hopen', nofun, ?_⟩
          rintro _ ⟨⟩
          refine ⟨rfl, connectionId, registry.now, ?_, rfl, rfl⟩
          simp [lastDetach]
        · have hfound' := AList.lookup_insert_ne heq ▸ hfound
          exact (h.entry other found hfound').append _ (hother other heq)
      · intro other hunused
        rw [AList.mem_insert, not_or] at hunused
        rw [openConnections_unrelated _ (hother other hunused.1), h.unused other hunused.2]
      · intro other hknown
        exact (AList.mem_insert _).mpr (.inr (h.known other hknown))
      · intro other hgone
        obtain ⟨hknown, hsession, hempty, timer, now, hexpired⟩ := h.gone other hgone
        refine ⟨(AList.mem_insert _).mpr (.inr hknown), hsession, ?_, timer, now,
          List.mem_append_left _ hexpired⟩
        by_cases heq : other = sessionId
        · rw [heq, hopen']
        · rw [openConnections_unrelated _ (hother other heq), hempty]
    · simp only [Option.bind_some, SessionEntry.detach, ne_eq, hcurrent, not_false_iff, if_true]
      exact h

lemma Attachments.expire (timer : ExpiryTimer) : Attachments (registry.expire timer) := by
  have htimers : Attachments { registry with timers := registry.timers.erase timer } :=
    ⟨h.entry, h.unused, h.known, h.lock, h.gone, h.history⟩
  rw [SessionRegistry.expire]
  simp only
  rcases hentry : registry.entries.lookup timer.sessionId with _ | entry
  · exact htimers
  · simp only
    split_ifs with hcheck
    · apply htimers.setLock
      refine ⟨hcheck.1, fun found hfound => ?_⟩
      rw [hentry] at hfound
      cases hfound
      exact hcheck.2
    · exact htimers

omit h

/-- What the call with the lock knows does not depend on the process. -/
theorem LockHolds.setRunning (hentry : registry.entries.lookup sessionId = some entry)
    (h : LockHolds registry registry.lock) :
    LockHolds { registry with
      entries := registry.entries.insert sessionId { entry with processRunning := false } }
      registry.lock := by
  have hfind : ∀ other found, (registry.entries.insert sessionId
      { entry with processRunning := false }).lookup other = some found →
      ∃ before, registry.entries.lookup other = some before ∧
        (found = before ∨ found = { before with processRunning := false }) := by
    intro other found hfound
    by_cases hother : other = sessionId
    · subst hother
      rw [AList.lookup_insert] at hfound
      exact ⟨entry, hentry, .inr (Option.some.inj hfound).symm⟩
    · rw [AList.lookup_insert_ne hother] at hfound
      exact ⟨found, hfound, .inl rfl⟩
  rcases hl : registry.lock with _ | ⟨other, c, notifications, next⟩ | ⟨other, c⟩
  · trivial
  · rw [hl] at h
    refine ⟨h.1, h.2.1, fun found hfound => ?_⟩
    obtain ⟨before, hbefore, rfl | rfl⟩ := hfind other found hfound
    · exact h.2.2 found hbefore
    · have hholds := h.2.2 before hbefore
      rcases next with _ | _ | _ | _ | _
      · trivial
      · trivial
      · exact hholds
      · exact hholds
      · exact hholds
  · rw [hl] at h
    refine ⟨h.1, fun found hfound => ?_⟩
    obtain ⟨before, hbefore, rfl | rfl⟩ := hfind other found hfound
    · exact h.2 found hbefore
    · exact h.2 before hbefore

variable (h : Attachments registry)
include h

lemma Attachments.shutdown (hgone : sessionId ∈ registry.shutdowns) :
    Attachments (registry.shutdown sessionId) := by
  rw [SessionRegistry.shutdown]
  rcases hentry : registry.entries.lookup sessionId with _ | entry
  · exact h
  · obtain ⟨hknown, -, hopen, hexpired⟩ := h.gone sessionId hgone
    have hholds := h.entry sessionId entry hentry
    have hset := h.setEntry { entry with processRunning := false } hknown
      ⟨hholds.open_eq, hholds.routed, hholds.deadline⟩ (LockHolds.setRunning hentry h.lock)
    have happend := hset.append (.shutDown sessionId) (fun _ => trivial) ⟨hopen, hexpired⟩ _
      hset.lock
    exact ⟨happend.entry, happend.unused, happend.known, happend.lock,
      fun other hother => happend.gone other (List.mem_of_mem_erase hother), happend.history⟩

/-- The next section of the attach that holds the lock. -/
theorem Attachments.attachSection {notifications : Sender} {next : AttachSection}
    (hlock : registry.lock = .attaching sessionId connectionId notifications next)
    (hentry : registry.entries.lookup sessionId = some entry) :
    Attachments (registry.attachSection sessionId connectionId notifications entry next) := by
  have hheld := h.lock
  rw [hlock] at hheld
  obtain ⟨hmem, hnew, hnext⟩ := hheld
  have hfacts := hnext entry hentry
  have hholds := h.entry sessionId entry hentry
  have hunique : ∀ found, registry.entries.lookup sessionId = some found → found = entry :=
    fun found hfound => Option.some.inj (hfound.symm.trans hentry)
  rcases next with _ | _ | _ | _ | _
  · apply h.setLock
    refine ⟨hmem, hnew, fun found hfound => ?_⟩
    obtain rfl := hunique found hfound
    split_ifs with hexpired
    · exact hexpired
    · trivial
  · simp only [SessionRegistry.attachSection]
    split_ifs with hactive
    · exact h.refuse _ _
    · apply h.setLock
      refine ⟨hmem, hnew, fun found hfound => ?_⟩
      obtain rfl := hunique found hfound
      simpa [SessionEntry.hasActiveConnection] using hactive
  · apply h.setEntry { entry with notificationSender := some notifications } (h.known _ hmem)
    · refine ⟨hholds.open_eq, fun current hcurrent => ?_, hholds.deadline⟩
      simp [hfacts] at hcurrent
    · refine ⟨hmem, hnew, fun found hfound => ?_⟩
      have hfound' := AList.lookup_insert registry.entries ▸ hfound
      cases hfound'
      exact ⟨hfacts, rfl⟩
  · apply h.attached (entry.attach connectionId) (fun other hother => .inr hother) ?_ ?_ hnew rfl
      hfacts.2 rfl
    · rw [hholds.open_eq, hfacts.1]
      rfl
    · intro hgone
      exact (h.gone sessionId hgone).2.1 hmem
  · exact (h.remove hmem hentry hfacts fun _ hnone =>
      (Option.some_ne_none _ hnone.symm).elim).refuse
      _ _

lemma Attachments.attachNew (notifications : Sender)
    (hlock : registry.lock = .free) (hsession : sessionId ∉ registry.entries)
    (hconnection : connectionId ∉ registry.senders) :
    Attachments (registry.attachNew sessionId connectionId notifications) := by
  rw [SessionRegistry.attachNew, hlock]
  apply h.attached (.new notifications connectionId) (fun other => List.mem_cons.mp)
    (h.unused sessionId hsession) ?_ hconnection rfl rfl rfl
  intro hgone
  exact hsession (h.gone sessionId hgone).1

/-- **One section.** -/
theorem Attachments.step (action : RegistryAction Sender) : Attachments (registry.step action) := by
  rcases action with duration | ⟨sid, c, notifications⟩ | ⟨sid, c, notifications⟩ | _ | ⟨sid, c⟩ |
    timer | _ | sid
  · exact h.advance duration
  · rcases hlock : registry.lock with _ | ⟨_, _, _, _⟩ | ⟨_, _⟩
    all_goals simp only [SessionRegistry.step, hlock]
    · split_ifs with hused
      · exact h
      · rw [not_or] at hused
        exact h.attachNew notifications hlock hused.1 hused.2
    · exact h
    · exact h
  · rcases hlock : registry.lock with _ | ⟨_, _, _, _⟩ | ⟨_, _⟩
    all_goals simp only [SessionRegistry.step, hlock]
    · split_ifs with hused hmem
      · exact h
      · exact h.setLock ⟨hmem, hused, fun _ _ => trivial⟩
      · exact h.refuse _ _
    · exact h
    · exact h
  · rcases hlock : registry.lock with _ | ⟨held, connection, sender, next⟩ | ⟨_, _⟩
    all_goals simp only [SessionRegistry.step, hlock]
    · exact h
    · rcases hentry : registry.entries.lookup held with _ | entry
      · exact h
      · exact h.attachSection hlock hentry
    · exact h
  · exact h.detach sid c
  · rcases hlock : registry.lock with _ | ⟨_, _, _, _⟩ | ⟨_, _⟩
    all_goals simp only [SessionRegistry.step, hlock]
    · split_ifs with hwoke
      · exact h.expire timer
      · exact h
    · exact h
    · exact h
  · rcases hlock : registry.lock with _ | ⟨_, _, _, _⟩ | ⟨held, connection⟩
    all_goals simp only [SessionRegistry.step, hlock]
    · exact h
    · exact h
    · have hheld := h.lock
      rw [hlock] at hheld
      obtain ⟨entry, hentry⟩ := h.lookup hheld.1
      have hexpired := hheld.2 entry hentry
      simp only [SessionEntry.isDetachedConnectionExpired, Bool.and_eq_true, beq_iff_eq] at hexpired
      refine h.remove hheld.1 hentry hexpired.2 fun started hstarted => ?_
      rw [hexpired.1.2, Option.some.inj hstarted]
  · simp only [SessionRegistry.step]
    split_ifs with hgone
    · exact h.shutdown hgone
    · exact h

omit h

lemma attachments_run (actions : List (RegistryAction Sender)) : Attachments (run actions) := by
  rw [run]
  induction actions using List.reverseRecOn with
  | nil =>
    refine ⟨nofun, fun _ _ => rfl, nofun, trivial, nofun, ?_⟩
    intro before event after hlog
    exact absurd hlog.symm (List.append_ne_nil_of_right_ne_nil _ (List.cons_ne_nil _ _))
  | append_singleton actions action ih =>
    rw [List.foldl_append]
    exact ih.step action

end steps

/-- **Attachment is exclusive and expiry is safe.** In whatever order the sections of the calls are
entered: at most one connection is attached to a session, and it is the current one of the entry;
the notifications of the session go to the sender of that connection; a detach by any other
connection changes nothing; and a session has only expired, and its process was only shut down, when
no connection was attached, the deadline of the last detach was over, and a timer that removed it
was the one of that detach. -/
theorem exclusive_run (actions : List (RegistryAction Sender)) :
    (∀ sessionId entry, (run actions).entries.lookup sessionId = some entry →
      openConnections (run actions).log sessionId = entry.currentConnectionId.toList ∧
      (openConnections (run actions).log sessionId).length ≤ 1 ∧
      ∀ connectionId, entry.currentConnectionId = some connectionId → ∃ sender,
        (run actions).senders.lookup connectionId = some sender ∧
        entry.notificationSender = some sender) ∧
    (∀ sessionId connectionId, connectionId ∉ openConnections (run actions).log sessionId →
      (run actions).step (.detach sessionId connectionId) = run actions) ∧
    (∀ before sessionId timer now after,
      (run actions).log = before ++ .expired sessionId timer now :: after →
        openConnections before sessionId = [] ∧ ∃ connectionId detachedAt,
          lastDetach before sessionId = some (connectionId, detachedAt) ∧
          detachedAt + detachedSessionTtl ≤ now ∧
          ∀ started, timer = some started → started = connectionId) ∧
    (∀ before sessionId after, (run actions).log = before ++ .shutDown sessionId :: after →
      openConnections before sessionId = [] ∧
        ∃ timer now, .expired sessionId timer now ∈ before) := by
  have h := attachments_run actions
  refine ⟨?_, ?_, ?_, ?_⟩
  · intro sessionId entry hentry
    have hholds := h.entry sessionId entry hentry
    refine ⟨hholds.open_eq, ?_, hholds.routed⟩
    rw [hholds.open_eq]
    exact Option.length_toList_le
  · intro sessionId connectionId hclosed
    simp only [step, detach]
    rcases hentry : (run actions).entries.lookup sessionId with _ | entry
    · rfl
    · have hne : entry.currentConnectionId ≠ some connectionId := by
        intro hcurrent
        rw [(h.entry _ _ hentry).open_eq, hcurrent] at hclosed
        exact hclosed List.mem_cons_self
      simp only [Option.bind_some, SessionEntry.detach, if_pos hne]
  · intro before sessionId timer now after hlog
    exact h.history _ _ _ hlog
  · intro before sessionId after hlog
    exact h.history _ _ _ hlog

-- A session is detached, taken up by another connection in time, and expires after that.
example : (run [.attachNew ['s'] ⟨1⟩ (), .detach ['s'] ⟨1⟩, .advance 20000,
    .attachResume ['s'] ⟨2⟩ (), .attachNext, .attachNext, .attachNext, .attachNext, .advance 20000,
    .expire ⟨['s'], ⟨1⟩, 30000⟩, .expireNext, .detach ['s'] ⟨2⟩, .advance 30000,
    .expire ⟨['s'], ⟨2⟩, 70000⟩, .expireNext, .shutdown ['s']]).log =
    [.attached ['s'] ⟨1⟩, .detached ['s'] ⟨1⟩ 0, .attached ['s'] ⟨2⟩, .detached ['s'] ⟨2⟩ 40000,
      .expired ['s'] (some ⟨2⟩) 70000, .shutDown ['s']] := by decide +kernel

end SessionRegistry

end Codex.ExecServer
