import Codex.CodeMode.CellState

/-!
# The cell actor

`code-mode/src/cell_actor/mod.rs`: one actor owns a running cell. It receives the events of the
runtime thread and the observations of callers, and ends with one terminal event. A step of the
model is one of:

* a call of `CellHandle::observe` (up to its check, and its send) or `CellHandle::terminate`;
* a cancellation of the session, which also stands for the drop of the last handle; a caller that
  drops its receiver;
* a branch of `tokio::select!`, in any order in which they are ready: the priorities, the durations
  of timers and `yield_deadline_elapsed` only choose among them;
* the next stage of a branch that takes the phase lock or waits. `finish_callbacks` is waited for
  before the stages `committing` and `finishing`.

Callbacks of the cell (notifications, tool calls) are left out: they send commands to the runtime.
`commits`, `received` and `answered` are histories: the writes applied to the session, the events
received, and for every `Continue` or `Resume` the number of `Pending` events received when it was
sent.
-/

namespace Codex.CodeMode

open Codex.Lib

variable {Item Value : Type}

/-- `HashMap<String, JsonValue>`, the stored values a cell wrote -/
abbrev StoredValueWrites (Value : Type) := List (Text × Value)

inductive RuntimeCommand (Value : Type)
  | toolResponse (id : Text) (result : Value)
  | toolError (id : Text) (errorText : Text)
  | timeoutFired (id : ℕ)
  | observePendingFrontier
  | terminate

inductive RuntimeControlCommand
  | continue
  | resume
  | terminate

/-- `RuntimeEvent`; of a tool call its id, of a notification nothing -/
inductive RuntimeEvent (Item Value : Type)
  | started
  | pending
  | contentItem (item : Item)
  | yieldRequested
  | toolCall (id : Text)
  | notify
  | result (storedValueWrites : StoredValueWrites Value) (errorText : Option Text)
  | threadPanicked

/-- `Observer`, and the data of `CellCommand::Observe` -/
structure Observer where
  mode : ObserveMode
  responseTx : ℕ
  deriving DecidableEq

/-- Where the actor is in its loop. -/
inductive Stage (Item Value : Type)
  /-- at `tokio::select!` -/
  | select
  /-- a command is received, its receiver was there -/
  | routing (command : Observer)
  /-- `route_observation` answered `Running` -/
  | admitting (command : Observer)
  /-- before `commit_completion` -/
  | committing (storedValueWrites : StoredValueWrites Value) (event : CellEvent Item)
  /-- before `deliver_completion` -/
  | delivering (rejectedEvent : Option (CellEvent Item))
  /-- before `finish_termination` takes the lock -/
  | finishing (observerTx : Option ℕ) (event : CellEvent Item)
  /-- `finish_termination` has left the lock -/
  | replying (observerTx : Option ℕ) (event : Option (CellEvent Item))
  /-- after the loop -/
  | leaving
  | tombstoned
  | closed

/-- The actor with its channels: the parts of `CellContext` and `CellHandle`, and the local
variables of `run_cell`. -/
structure Cell (Item Value : Type) where
  state : CellState Item
  observing : List Observer
  commandRx : Option (List Observer)
  nextCall : ℕ
  contentItems : List Item
  pendingToolCallIds : List Text
  pendingFrontierReady : Bool
  observer : Option Observer
  termination : Bool
  runtimeClosed : Bool
  runtimePaused : Bool
  yieldTimer : Option ℕ
  stage : Stage Item Value
  runtimeTx : List (RuntimeCommand Value)
  runtimeControlTx : List RuntimeControlCommand
  commits : List (StoredValueWrites Value)
  received : List (RuntimeEvent Item Value)
  answered : List ℕ

inductive CellAction (Item Value : Type)
  | observe (mode : ObserveMode)
  | sendObserve (command : Observer)
  | terminate
  | cancelSession
  | dropReceiver (caller : Caller)
  | cancelledBranch
  | commandBranch
  | timerBranch
  | eventBranch (event : Option (RuntimeEvent Item Value))
  | advance

def observerTimer (observer : Observer) : Option ℕ :=
  match observer.mode with
  | .yieldAfter duration => some duration
  | .pendingFrontier => none

/-- `rejected_completion_content`; only completed events are rejected, the rest panics -/
def rejectedCompletionContent (event : Option (CellEvent Item)) : List Item :=
  match event with
  | some (.completed contentItems _) => contentItems
  | _ => []

/-- `matches!(mode, ObserveMode::YieldAfter(_))` -/
def ObserveMode.isYieldAfter : ObserveMode → Bool
  | .yieldAfter _ => true
  | .pendingFrontier => false

def RuntimeEvent.isPending : RuntimeEvent Item Value → Bool
  | .pending => true
  | _ => false

/-- The number of `Pending` events. -/
def pendingCount (events : List (RuntimeEvent Item Value)) : ℕ :=
  events.countP RuntimeEvent.isPending

namespace Cell

/-- A cell at its creation: `call 0` is the initial observer. -/
def start (cancelled : Bool) (initialObserveMode : ObserveMode) : Cell Item Value :=
  { state := .new cancelled, observing := [], commandRx := some [], nextCall := 1,
    contentItems := [], pendingToolCallIds := [], pendingFrontierReady := false,
    observer := some ⟨initialObserveMode, 0⟩, termination := false, runtimeClosed := false,
    runtimePaused := false, yieldTimer := none, stage := .select, runtimeTx := [],
    runtimeControlTx := [], commits := [], received := [], answered := [] }

/-! ### Callers -/

variable (cell : Cell Item Value) (mode : ObserveMode)

/-- `CellHandle::observe`, up to the check -/
def observe : Cell Item Value :=
  if cell.state.acceptingObservations then
    { cell with
      observing := cell.observing ++ [⟨mode, cell.nextCall⟩], nextCall := cell.nextCall + 1 }
  else
    { cell with
      state := cell.state.answer (.observer cell.nextCall) (.error .closed),
      nextCall := cell.nextCall + 1 }

variable (command : Observer)

/-- `CellHandle::observe`, the send -/
def sendObserve : Cell Item Value :=
  if command ∈ cell.observing then
    match cell.commandRx with
    | some commands =>
      { cell with
        observing := cell.observing.erase command, commandRx := some (commands ++ [command]) }
    | none =>
      { cell with
        observing := cell.observing.erase command,
        state := cell.state.answer (.observer command.responseTx) (.error .closed) }
  else cell

def terminate : Cell Item Value :=
  { cell with
    state := cell.state.requestTermination cell.nextCall, nextCall := cell.nextCall + 1 }

/-! ### Messages to the runtime -/

/-- A `Continue` or `Resume`. -/
def sendControl (control : RuntimeControlCommand) : Cell Item Value :=
  { cell with
    runtimeControlTx := cell.runtimeControlTx ++ [control],
    answered := cell.answered ++ [pendingCount cell.received] }

def resumeForObservation : Cell Item Value :=
  if cell.runtimePaused then
    { cell.sendControl (match mode with
        | .yieldAfter _ => .continue
        | .pendingFrontier => .resume) with runtimePaused := false }
  else
    match mode with
    | .pendingFrontier =>
      { cell with runtimeTx := cell.runtimeTx ++ [.observePendingFrontier] }
    | .yieldAfter _ => cell

def beginTermination : Cell Item Value :=
  { cell with
    state := { cell.state with cancelled := true },
    runtimeTx := cell.runtimeTx ++ [.terminate],
    runtimeControlTx := cell.runtimeControlTx ++ [.terminate] }

/-! ### Branches of the loop -/

/-- `finish_termination` with `observer.take()` and what is left of the output. -/
def finish : Cell Item Value :=
  { cell with
    observer := none, contentItems := [],
    stage := .finishing (cell.observer.map Observer.responseTx) (.terminated cell.contentItems) }

/-- The branch of `cancellation_token.cancelled()` -/
def cancelledBranch : Cell Item Value :=
  let next :=
    { cell with termination := true, yieldTimer := none, commandRx := none }.beginTermination
  if cell.runtimeClosed then next.finish else next

/-- The branch of `command_rx.recv()`, up to `is_closed` -/
def commandBranch : Cell Item Value :=
  match cell.commandRx with
  | some (command :: commands) =>
    if .observer command.responseTx ∈ cell.state.dropped then
      { cell with commandRx := some commands }
    else { cell with commandRx := some commands, stage := .routing command }
  | _ => cell

/-- `send_observer_event` with `observer.take()` -/
def sendObserverEvent (event : CellEvent Item) : Bool × Cell Item Value :=
  match cell.observer with
  | none => (false, cell)
  | some observer =>
    let sent := cell.state.send (.observer observer.responseTx) (.ok event)
    (sent.1, { cell with observer := none, state := sent.2 })

/-- The items of an event that was not delivered go before the others. -/
def restoreUndeliveredYield (delivered : Bool) (undeliveredItems contentItems : List Item) :
    List Item :=
  if delivered then contentItems else undeliveredItems ++ contentItems

/-- `Yielded` to the observer, with `std::mem::take(&mut content_items)` -/
def yieldToObserver : Cell Item Value :=
  let sent := { cell with contentItems := [], yieldTimer := none }.sendObserverEvent
    (.yielded cell.contentItems)
  { sent.2 with
    contentItems := restoreUndeliveredYield sent.1 cell.contentItems sent.2.contentItems }

/-- The branch of the yield timer -/
def timerBranch : Cell Item Value :=
  if cell.yieldTimer.isSome then cell.yieldToObserver else cell

/-- The observer waits for the pending frontier. -/
def observesFrontier : Bool :=
  match cell.observer with
  | some observer => observer.mode == .pendingFrontier
  | none => false

/-- `RuntimeEvent::Pending` -/
def pendingEvent : Cell Item Value :=
  if cell.observesFrontier then
    let taken :=
      { cell with
        contentItems := [], pendingToolCallIds := [], runtimePaused := true, yieldTimer := none }
    match taken.sendObserverEvent (.pending cell.contentItems cell.pendingToolCallIds) with
    | (true, next) => { next with pendingFrontierReady := false }
    | (false, next) =>
      { next with
        contentItems := cell.contentItems, pendingToolCallIds := cell.pendingToolCallIds,
        pendingFrontierReady := true }
  else
    { cell.sendControl .continue with pendingToolCallIds := [], runtimePaused := false }

/-- `RuntimeEvent::YieldRequested` -/
def yieldRequestedEvent : Cell Item Value :=
  match cell.observer with
  | some observer => if observer.mode.isYieldAfter then cell.yieldToObserver else cell
  | none => cell

variable (storedValueWrites : StoredValueWrites Value)

/-- The end of the runtime, by a result or without one. -/
def runtimeEnded (errorText : Option Text) : Cell Item Value :=
  if cell.termination || cell.state.cancelled then { cell with runtimeClosed := true }.finish
  else
    { cell with
      runtimeClosed := true, contentItems := [],
      stage := .committing storedValueWrites (.completed cell.contentItems errorText) }

/-- The branch of `event_rx.recv()`, after the event is received -/
def handleEvent : Option (RuntimeEvent Item Value) → Cell Item Value
  | none => cell.runtimeEnded [] (some "exec runtime ended unexpectedly".toList)
  | some .started => { cell with yieldTimer := cell.observer.bind observerTimer }
  | some .pending => cell.pendingEvent
  | some (.contentItem item) => { cell with contentItems := cell.contentItems ++ [item] }
  | some .yieldRequested => cell.yieldRequestedEvent
  | some .notify => cell
  | some (.toolCall id) => { cell with pendingToolCallIds := cell.pendingToolCallIds ++ [id] }
  | some (.result storedValueWrites errorText) =>
    { cell with yieldTimer := none }.runtimeEnded storedValueWrites errorText
  | some .threadPanicked => cell

/-- The branch of `event_rx.recv()` -/
def eventBranch (event : Option (RuntimeEvent Item Value)) : Cell Item Value :=
  if cell.runtimeClosed then cell
  else { cell with received := cell.received ++ event.toList }.handleEvent event

/-! ### Stages -/

/-- What `run_cell` does with a routed observation. -/
inductive Admission
  | busy
  | frontierReady
  | accepted
  deriving DecidableEq

/-- An observer whose receiver is gone makes room. -/
def forgetClosedObserver : Cell Item Value :=
  match cell.observer with
  | some observer =>
    if .observer observer.responseTx ∈ cell.state.dropped then
      { cell with observer := none, yieldTimer := none }
    else cell
  | none => cell

def admission : Admission :=
  if cell.observer.isSome || cell.termination then .busy
  else if mode == .pendingFrontier && cell.pendingFrontierReady then .frontierReady
  else .accepted

/-- A frontier that no observer took goes to this one; what was taken out for an event that
was not delivered is put back. -/
def deliverFrontier (tx : ℕ) : Cell Item Value :=
  let taken :=
    { cell with contentItems := [], pendingToolCallIds := [], pendingFrontierReady := false }
  match taken.state.send (.observer tx)
      (.ok (.pending cell.contentItems cell.pendingToolCallIds)) with
  | (true, state) => { taken with state }
  | (false, state) =>
    { taken with
      state, contentItems := cell.contentItems, pendingToolCallIds := cell.pendingToolCallIds,
      pendingFrontierReady := true }

/-- The observation becomes the observer. -/
def accept : Cell Item Value :=
  let observed := { cell with observer := some command, yieldTimer := observerTimer command }
  if cell.runtimePaused && command.mode.isYieldAfter then
    { observed with
      pendingFrontierReady := false, pendingToolCallIds := [] }.resumeForObservation command.mode
  else observed.resumeForObservation command.mode

/-- The command branch, after `Running` -/
def admitObservation : Cell Item Value :=
  let cell := { cell.forgetClosedObserver with stage := .select }
  match cell.admission command.mode with
  | .busy =>
    { cell with
      state := (cell.state.send (.observer command.responseTx) (.error .busy)).2 }
  | .frontierReady => cell.deliverFrontier command.responseTx
  | .accepted => cell.accept command

/-- The command branch, `route_observation` -/
def route : Cell Item Value :=
  match cell.state.routeObservation command.mode command.responseTx with
  | (.running _, state) => { cell with state, stage := .admitting command }
  | (.delivered, state) => { cell with state, stage := .leaving }
  | (.buffered, state) => { cell with state, stage := .select }
  | (.closed, state) => { cell with state, stage := .select }

/-- `RuntimeCellHost::commit_completion`; the writes extend the stored values of the
session -/
def commit (event : CellEvent Item) : Cell Item Value :=
  match cell.state.commitCompletion event none with
  | (.committed, state) =>
    { cell with
      state, commits := cell.commits ++ [storedValueWrites], stage := .delivering none }
  | (.rejected event, state) => { cell with state, stage := .delivering (some event) }

/-- `deliver_completion` with `observer.take()`. -/
def deliver (rejectedEvent : Option (CellEvent Item)) : Cell Item Value :=
  match cell.state.deliverCompletion (cell.observer.map Observer.responseTx) with
  | (.delivered, state) => { cell with state, observer := none, stage := .leaving }
  | (.buffered, state) => { cell with state, observer := none, stage := .select }
  | (.rejected responseTx, state) =>
    { cell with
      state, observer := none,
      stage := .finishing responseTx (.terminated (rejectedCompletionContent rejectedEvent)) }

/-- `finish_termination`, the send to the observer -/
def replyToObserver (observerTx : Option ℕ) (event : Option (CellEvent Item)) : Cell Item Value :=
  match event, observerTx with
  | some event, some tx =>
    { cell with
      state := (cell.state.send (.observer tx) (.ok event)).2, stage := .leaving }
  | _, _ => { cell with stage := .leaving }

def advance : Cell Item Value :=
  match cell.stage with
  | .select => cell
  | .routing command => cell.route command
  | .admitting command => cell.admitObservation command
  | .committing storedValueWrites event => cell.commit storedValueWrites event
  | .delivering rejectedEvent => cell.deliver rejectedEvent
  | .finishing observerTx event =>
    let finished := cell.state.finishTermination event
    { cell with state := finished.2, stage := .replying observerTx finished.1 }
  | .replying observerTx event => cell.replyToObserver observerTx event
  | .leaving => { cell with state := cell.state.tombstone, stage := .tombstoned }
  | .tombstoned => { cell with commandRx := none, stage := .closed }.beginTermination
  | .closed => cell

/-- A branch runs at `tokio::select!` only. -/
def atSelect (branch : Cell Item Value) : Cell Item Value :=
  match cell.stage with
  | .select => branch
  | _ => cell

/-- A step that is not possible changes nothing. -/
def step : CellAction Item Value → Cell Item Value
  | .observe mode => cell.observe mode
  | .sendObserve command => cell.sendObserve command
  | .terminate => cell.terminate
  | .cancelSession => { cell with state := { cell.state with cancelled := true } }
  | .dropReceiver caller =>
    { cell with state := { cell.state with dropped := cell.state.dropped ++ [caller] } }
  | .cancelledBranch =>
    if cell.state.cancelled && !cell.termination then cell.atSelect cell.cancelledBranch
    else cell
  | .commandBranch => cell.atSelect cell.commandBranch
  | .timerBranch => cell.atSelect cell.timerBranch
  | .eventBranch event => cell.atSelect (cell.eventBranch event)
  | .advance => cell.advance

/-- A cell after a list of steps. -/
def run (actions : List (CellAction Item Value)) : Cell Item Value :=
  actions.foldl step cell

end Cell

end Codex.CodeMode
