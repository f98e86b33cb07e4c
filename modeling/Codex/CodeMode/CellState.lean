import Codex.Lib.Text

/-!
# The phase of a code-mode cell

`code-mode/src/cell_actor/types.rs`: the shared `CellState` is the linearization point of a cell's
terminal outcome. Every function here is what one call does while it holds the phase lock once.

A response channel is the number of the call that waits for it. `dropped` are the calls whose
receiver is gone, and `replies` is the history of what was sent, in sending order: an immediate
answer (`ready_event`, `closed_event`) is sent to its own call.
-/

namespace Codex.CodeMode

open Codex.Lib

inductive ObserveMode
  | yieldAfter (duration : ℕ)
  | pendingFrontier
  deriving DecidableEq

inductive CellEvent (Item : Type)
  | yielded (contentItems : List Item)
  | pending (contentItems : List Item) (pendingToolCallIds : List Text)
  | completed (contentItems : List Item) (errorText : Option Text)
  | terminated (contentItems : List Item)
  deriving DecidableEq

inductive CellError
  | busy
  | alreadyTerminating
  | closed

/-- The calls that wait for an answer: `observe` (and the creation of the cell) and `terminate`. -/
inductive Caller
  | observer (call : ℕ)
  | terminator (call : ℕ)
  deriving DecidableEq

/-- `Result<CellEvent, CellError>` -/
abbrev CellReply (Item : Type) := Except CellError (CellEvent Item)

inductive CellPhase (Item : Type)
  | running
  | terminating (responseTx : ℕ)
  | completed (pendingInitialYieldItems : Option (List Item)) (event : CellEvent Item)
  | completionClaimed (event : CellEvent Item)
  | tombstone

structure CellState (Item : Type) where
  phase : CellPhase Item
  cancelled : Bool
  dropped : List Caller
  replies : List (Caller × CellReply Item)

inductive CompletionDelivery
  | delivered
  | buffered
  | rejected (responseTx : Option ℕ)

inductive CompletionCommit (Item : Type)
  | committed
  | rejected (event : CellEvent Item)

inductive ObservationDelivery
  | running (responseTx : ℕ)
  | delivered
  | buffered
  | closed

variable {Item : Type}

def prependInitialYield (event : CellEvent Item) (pendingInitialYieldItems : Option (List Item)) :
    CellEvent Item :=
  match pendingInitialYieldItems with
  | none => event
  | some initial =>
    match event with
    | .yielded contentItems => .yielded (initial ++ contentItems)
    | .pending contentItems ids => .pending (initial ++ contentItems) ids
    | .completed contentItems errorText => .completed (initial ++ contentItems) errorText
    | .terminated contentItems => .terminated (initial ++ contentItems)

namespace CellState

def new (cancelled : Bool) : CellState Item :=
  { phase := .running, cancelled, dropped := [], replies := [] }

variable (state : CellState Item)

/-- An answer that needs no channel. -/
def answer (caller : Caller) (reply : CellReply Item) : CellState Item :=
  { state with replies := state.replies ++ [(caller, reply)] }

/-- `oneshot::Sender::send`: it fails when the receiver is gone. -/
def send (caller : Caller) (reply : CellReply Item) : Bool × CellState Item :=
  if caller ∈ state.dropped then (false, state) else (true, state.answer caller reply)

def acceptingObservations : Bool :=
  (match state.phase with
    | .running => true
    | .completed _ _ => true
    | _ => false) && !state.cancelled

/-- `request_termination`, called as the given call -/
def requestTermination (call : ℕ) : CellState Item :=
  match state.phase with
  | .running => { state with phase := .terminating call, cancelled := true }
  | .terminating _ => state.answer (.terminator call) (.error .alreadyTerminating)
  | .completed pendingInitialYieldItems event =>
    let event := prependInitialYield event pendingInitialYieldItems
    { state with phase := .completionClaimed event, cancelled := true }.answer
      (.terminator call) (.ok event)
  | .completionClaimed _ => state.answer (.terminator call) (.error .alreadyTerminating)
  | .tombstone => state.answer (.terminator call) (.error .closed)

/-- `commit_completion`; the caller runs `commit` when the answer is `committed` -/
def commitCompletion (event : CellEvent Item)
    (pendingInitialYieldItems : Option (List Item)) : CompletionCommit Item × CellState Item :=
  match state.phase, state.cancelled with
  | .running, false =>
    (.committed, { state with phase := .completed pendingInitialYieldItems event })
  | _, _ => (.rejected event, state)

def deliverCompletion (responseTx : Option ℕ) : CompletionDelivery × CellState Item :=
  match state.phase with
  | .completed _ event =>
    match responseTx with
    | none => (.buffered, state)
    | some tx =>
      match state.send (.observer tx) (.ok event) with
      | (true, state) => (.delivered, { state with phase := .tombstone, cancelled := true })
      | (false, state) => (.buffered, state)
  | _ => (.rejected responseTx, state)

/-- `route_observation`, the completed phase: the initial yield goes first to an observer
that waits for a yield -/
def routeCompleted (pendingInitialYieldItems : Option (List Item))
    (event : CellEvent Item) (mode : ObserveMode) (tx : ℕ) :
    ObservationDelivery × CellState Item :=
  match pendingInitialYieldItems, mode with
  | some contentItems, .yieldAfter _ =>
    match state.send (.observer tx) (.ok (.yielded contentItems)) with
    | (true, state) => (.buffered, { state with phase := .completed none event })
    | (false, state) => (.buffered, state)
  | _, _ =>
    match state.send (.observer tx)
        (.ok (prependInitialYield event pendingInitialYieldItems)) with
    | (true, state) => (.delivered, { state with phase := .tombstone, cancelled := true })
    | (false, state) => (.buffered, state)

def routeObservation (mode : ObserveMode) (tx : ℕ) : ObservationDelivery × CellState Item :=
  match state.phase with
  | .running => (.running tx, state)
  | .completed pendingInitialYieldItems event =>
    state.routeCompleted pendingInitialYieldItems event mode tx
  | .terminating _ => (.closed, (state.send (.observer tx) (.error .closed)).2)
  | .completionClaimed _ => (.closed, (state.send (.observer tx) (.error .closed)).2)
  | .tombstone => (.closed, (state.send (.observer tx) (.error .closed)).2)

/-- The event `finish_termination` settles on. -/
def finalEvent (phase : CellPhase Item) (event : CellEvent Item) : Option (CellEvent Item) :=
  match phase with
  | .running => some event
  | .terminating _ => some event
  | .completed pendingInitialYieldItems event =>
    some (prependInitialYield event pendingInitialYieldItems)
  | .completionClaimed completedEvent => some completedEvent
  | .tombstone => none

/-- `finish_termination` of the state; a terminating phase answers its terminator -/
def finishTermination (event : CellEvent Item) : Option (CellEvent Item) × CellState Item :=
  let answered := match state.phase with
    | .terminating responseTx => (state.send (.terminator responseTx) (.ok event)).2
    | _ => state
  (finalEvent state.phase event, { answered with phase := .tombstone, cancelled := true })

def tombstone (state : CellState Item) : CellState Item :=
  { state with phase := .tombstone, cancelled := true }

end CellState

end Codex.CodeMode
