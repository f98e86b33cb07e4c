import Codex.ExecServer.Process
import Codex.Lib.AssocMap

/-!
# The events of a client session

`exec-server/src/client.rs` and `client_recovery.rs`: the events of a process reach its session in
any order. Those that are early wait in a map; what was lost with a connection is put together from
a read of the retained output, where the exit and the close have no entries of their own.

* `SessionState.publishOrderedEvent`: a notification;
* `SessionState.setFailure`: the session is given up.
-/

namespace Codex.ExecServer

open Codex.Lib

/-- `saturating_add(1)` of a `u64` -/
def saturatingSucc (n : ℕ) : ℕ := min (n + 1) u64Max

structure OrderedSessionEvents where
  lastPublishedSeq : ℕ
  exitPublished : Bool
  closedPublished : Bool
  pending : AList fun _ : ℕ => ExecProcessEvent
  failure : Option Text

/-- `SessionState`; `events` is what was published -/
structure SessionState where
  orderedEvents : OrderedSessionEvents
  events : List ExecProcessEvent

/-- `ExecServerError::Protocol` and `ExecServerError::Json` -/
inductive ExecServerError where
  | protocol (message : Text)
  | json (message : Text)
  deriving DecidableEq

/-- A number in a message. -/
def numberText (n : ℕ) : Text := (toString n).toList

namespace OrderedSessionEvents

/-- `OrderedSessionEvents::default` -/
def new : OrderedSessionEvents := ⟨0, false, false, ∅, none⟩

variable (ordered : OrderedSessionEvents)

/-- `pending.entry(seq).or_insert(event)` -/
def orInsert (seq : ℕ) (event : ExecProcessEvent) : OrderedSessionEvents :=
  match ordered.pending.lookup seq with
  | some _ => ordered
  | none => { ordered with pending := ordered.pending.insert seq event }

/-- `pending.range(first..=last)`, the keys in their order -/
def pendingRange (first last : ℕ) : List ℕ :=
  (List.range' first (last + 1 - first)).filter fun seq => (ordered.pending.lookup seq).isSome

/-- The loop of `first_missing_seq` -/
def firstMissing : ℕ → List ℕ → ℕ
  | expected, [] => expected
  | expected, seq :: rest =>
    if seq ≠ expected then expected else firstMissing (saturatingSucc expected) rest

variable (targetSeq : ℕ)

def firstMissingSeq : ℕ :=
  let expected := saturatingSucc ordered.lastPublishedSeq
  firstMissing expected (ordered.pendingRange expected targetSeq)

/-- `exit_known` in `recover_events` -/
def exitKnown : Bool :=
  ordered.exitPublished || (ordered.pendingRange 0 targetSeq).any fun seq =>
    (ordered.pending.lookup seq).any (·.isExited)

/-- `missing_count` in `recover_events` -/
def missingCount : ℕ :=
  targetSeq - ordered.lastPublishedSeq -
    (ordered.pendingRange (saturatingSucc ordered.lastPublishedSeq) targetSeq).length

/-- The loop over the chunks in `recover_events` -/
def insertChunk (chunk : ProcessOutputChunk) : OrderedSessionEvents :=
  if chunk.seq > ordered.lastPublishedSeq then ordered.orInsert chunk.seq (.output chunk)
  else ordered

/-- The part for `closed` in `recover_events` -/
def insertClosed : Except ExecServerError OrderedSessionEvents :=
  match ordered.pending.lookup targetSeq with
  | some (.closed _) => .ok ordered
  | some _ =>
    .error (.protocol ("process close sequence ".toList ++ numberText targetSeq ++
      " conflicts with recovered output".toList))
  | none => .ok { ordered with pending := ordered.pending.insert targetSeq (.closed targetSeq) }

def recoveryGapError : ExecServerError :=
  .protocol ("process events are no longer retained while recovering through sequence ".toList ++
    numberText targetSeq)

/-- The part for `exited` in `recover_events`, which also refuses gaps -/
def insertExited (exited : Bool)
    (exitCode : Option ℤ) : Except ExecServerError OrderedSessionEvents :=
  let missingCount := ordered.missingCount targetSeq
  if exited && !ordered.exitKnown targetSeq then
    if missingCount ≠ 1 then .error (recoveryGapError targetSeq)
    else
      match exitCode with
      | none =>
        .error (.protocol "recovering exited process did not include its exit code".toList)
      | some exitCode =>
        let seq := ordered.firstMissingSeq targetSeq
        .ok { ordered with pending := ordered.pending.insert seq (.exited seq exitCode) }
  else if missingCount ≠ 0 then .error (recoveryGapError targetSeq)
  else .ok ordered

end OrderedSessionEvents

namespace SessionState

def new : SessionState := ⟨.new, []⟩

variable (session : SessionState)

/-- The body of the loop of `publish_ready` -/
def publishEvent (seq : ℕ) (event : ExecProcessEvent) : SessionState where
  orderedEvents := { session.orderedEvents with
    lastPublishedSeq := seq
    exitPublished := session.orderedEvents.exitPublished || event.isExited
    closedPublished := session.orderedEvents.closedPublished || event.isClosed
    pending := session.orderedEvents.pending.erase seq }
  events := session.events ++ [event]

/-- The loop of `publish_ready`, with `published_closed` -/
def publishRounds : ℕ → SessionState → Bool → Bool × SessionState
  | 0, session, publishedClosed => (publishedClosed, session)
  | rounds + 1, session, publishedClosed =>
    let nextSeq := saturatingSucc session.orderedEvents.lastPublishedSeq
    match session.orderedEvents.pending.lookup nextSeq with
    | some event =>
      publishRounds rounds (session.publishEvent nextSeq event) (publishedClosed || event.isClosed)
    | none => (publishedClosed, session)

/-- `publish_ready`; every round takes an event from the map -/
def publishReady : Bool × SessionState :=
  publishRounds session.orderedEvents.pending.entries.length session false

/-- The checks before an event is taken in `publish_ordered_event` and `recover_events` -/
def isOver (seq : ℕ) : Bool :=
  session.orderedEvents.failure.isSome || session.orderedEvents.closedPublished ||
    decide (seq ≤ session.orderedEvents.lastPublishedSeq)

def publishOrderedEvent (event : ExecProcessEvent) : Bool × SessionState :=
  match event.seq with
  | none => (false, { session with events := session.events ++ [event] })
  | some seq =>
    if session.isOver seq then (false, session)
    else
      publishReady { session with orderedEvents := session.orderedEvents.orInsert seq event }

def setFailure (message : Text) : SessionState :=
  if session.orderedEvents.failure.isSome || session.orderedEvents.closedPublished then session
  else
    ⟨{ session.orderedEvents with failure := some message, pending := ∅ },
      session.events ++ [.failed message]⟩

/-- `recover_events`, with the session after it -/
def recoverEvents (response : ReadResponse) : Except ExecServerError Bool × SessionState :=
  match response.failure with
  | some message =>
    (.error (.protocol ("process failed while recovering: ".toList ++ message)), session)
  | none =>
    let targetSeq := response.nextSeq - 1
    if session.isOver targetSeq then (.ok false, session)
    else
      let ordered := response.chunks.foldl .insertChunk session.orderedEvents
      match if response.closed then ordered.insertClosed targetSeq else .ok ordered with
      | .error error => (.error error, { session with orderedEvents := ordered })
      | .ok ordered =>
        match ordered.insertExited targetSeq response.exited response.exitCode with
        | .error error => (.error error, { session with orderedEvents := ordered })
        | .ok ordered =>
          let (publishedClosed, session) := publishReady { session with orderedEvents := ordered }
          (.ok publishedClosed, session)

end SessionState

end Codex.ExecServer
