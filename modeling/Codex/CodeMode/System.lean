import Codex.CodeMode.Cell

/-!
# The cell and its runtime thread

`code-mode/src/runtime/mod.rs`: the runtime thread runs the script, takes commands, and when it
finds none it sends `Pending` and waits for a control command. A `System` is the thread with the
cell actor and the channels between them; the script is any sequence of events and results.

* `step_view`, `handleEvent_view`: what a step of the actor does to its side of the pause.
-/

namespace Codex.CodeMode

open Codex.Lib

variable {Item Value : Type}

/-! ### The system -/

/-- Where the runtime thread is. -/
inductive RuntimeThread
  /-- the script runs -/
  | running
  /-- at `command_rx.try_recv()` -/
  | polling
  /-- at `control_rx.recv()` -/
  | paused
  /-- at `command_rx.recv()` -/
  | waiting
  /-- `run_runtime` has returned or panicked -/
  | returning
  | ended
  deriving DecidableEq

structure System (Item Value : Type) where
  cell : Cell Item Value
  thread : RuntimeThread
  events : List (RuntimeEvent Item Value)
  emitted : List (RuntimeEvent Item Value)
  processed : List (RuntimeCommand Value)

inductive SystemAction (Item Value : Type)
  /-- a step of the actor other than the branch of `event_rx.recv()` -/
  | cell (action : CellAction Item Value)
  /-- the branch of `event_rx.recv()` -/
  | receive
  /-- a tool call or a timer sends a command -/
  | respond (command : RuntimeCommand Value)
  /-- the script emits an event -/
  | emit (event : RuntimeEvent Item Value)
  /-- `send_result`, then the return -/
  | complete (storedValueWrites : StoredValueWrites Value) (errorText : Option Text)
  /-- the return without a result, or a panic -/
  | unwind
  /-- the completion state is `Pending`; `next_runtime_command` starts -/
  | poll
  /-- the next stage of `next_runtime_command` -/
  | nextCommand
  /-- the supervisor of the thread ends -/
  | exit (panicked : Bool)

/-- The events a script emits. -/
def RuntimeEvent.isScript : RuntimeEvent Item Value → Bool
  | .started => true
  | .contentItem _ => true
  | .yieldRequested => true
  | .toolCall _ => true
  | .notify => true
  | _ => false

def Stage.isClosed : Stage Item Value → Bool
  | .closed => true
  | _ => false

/-- The cell has called `begin_termination`. -/
def Cell.terminationBegun (cell : Cell Item Value) : Bool := cell.termination || cell.stage.isClosed

namespace System

def start (cancelled : Bool) (initialObserveMode : ObserveMode) : System Item Value :=
  { cell := .start cancelled initialObserveMode, thread := .running, events := [], emitted := [],
    processed := [] }

variable (sys : System Item Value)

def send (event : RuntimeEvent Item Value) : System Item Value :=
  { sys with events := sys.events ++ [event], emitted := sys.emitted ++ [event] }

/-- The `match command` of `run_runtime`. -/
def process (command : RuntimeCommand Value) : System Item Value :=
  { sys with
    processed := sys.processed ++ [command],
    thread := match command with
      | .terminate => .returning
      | _ => .running }

/-- `command_rx.recv()`, when there is a command. -/
def receiveCommand : Option (System Item Value) :=
  match sys.cell.runtimeTx with
  | [] => none
  | command :: commands =>
    some ({ sys with cell := { sys.cell with runtimeTx := commands } }.process command)

/-- `control_rx.recv()`; when it is empty, its end is the end of the actor. -/
def receiveControl : System Item Value :=
  match sys.cell.runtimeControlTx with
  | [] =>
    match sys.cell.stage with
    | .closed => { sys with thread := .returning }
    | _ => sys
  | control :: controls =>
    let next := { sys with cell := { sys.cell with runtimeControlTx := controls } }
    match control with
    | .continue => { next with thread := .waiting }
    | .resume => { next with thread := .polling }
    | .terminate => next.process .terminate

/-- `next_runtime_command` with `PauseUntilResumed`, one wait at a time -/
def nextRuntimeCommand : System Item Value :=
  match sys.thread with
  | .polling =>
    match sys.receiveCommand with
    | some next => next
    | none => { sys.send .pending with thread := .paused }
  | .paused => sys.receiveControl
  | .waiting => sys.receiveCommand.getD sys
  | _ => sys

/-- `event_rx.recv()`: the queue ends when the thread has. -/
def receive : System Item Value :=
  match sys.cell.stage, sys.cell.runtimeClosed, sys.events with
  | .select, false, event :: events =>
    { sys with cell := sys.cell.eventBranch (some event), events }
  | .select, false, [] =>
    if sys.thread = .ended then { sys with cell := sys.cell.eventBranch none } else sys
  | _, _, _ => sys

/-- A step that is not possible changes nothing. -/
def step (sys : System Item Value) : SystemAction Item Value → System Item Value
  | .cell action =>
    match action with
    | .eventBranch _ => sys
    | action => { sys with cell := sys.cell.step action }
  | .receive => sys.receive
  | .respond command =>
    { sys with cell := { sys.cell with runtimeTx := sys.cell.runtimeTx ++ [command] } }
  | .emit event =>
    if sys.thread = .running && event.isScript then sys.send event else sys
  | .complete storedValueWrites errorText =>
    if sys.thread = .running then
      { sys.send (.result storedValueWrites errorText) with thread := .returning }
    else sys
  | .unwind => if sys.thread = .running then { sys with thread := .returning } else sys
  | .poll => if sys.thread = .running then { sys with thread := .polling } else sys
  | .nextCommand => sys.nextRuntimeCommand
  | .exit panicked =>
    if sys.thread = .returning then
      { (if panicked then sys.send .threadPanicked else sys) with thread := .ended }
    else sys

def run (actions : List (SystemAction Item Value)) : System Item Value :=
  actions.foldl step sys

end System

/-! ### The actor's side of the pause -/

/-- What the actor knows and does about the pause. -/
structure PauseView (Item Value : Type) where
  paused : Bool
  ready : Bool
  control : List RuntimeControlCommand
  answered : List ℕ
  received : List (RuntimeEvent Item Value)
  begun : Bool

namespace Cell

variable (cell : Cell Item Value)

def view : PauseView Item Value :=
  { paused := cell.runtimePaused, ready := cell.pendingFrontierReady,
    control := cell.runtimeControlTx, answered := cell.answered, received := cell.received,
    begun := cell.terminationBegun }

/-- The actor is about to take a routed observation as its observer. -/
def acceptsObservation : Bool :=
  match cell.stage with
  | .admitting command => cell.forgetClosedObserver.admission command.mode == .accepted
  | _ => false

/-- The step takes an observation. -/
def accepts : CellAction Item Value → Bool
  | .advance => cell.acceptsObservation
  | _ => false

end Cell

/-- What a step can do to the pause; `accepts` says that it takes an observation. -/
inductive ViewStep (accepts : Bool) (view : PauseView Item Value) : PauseView Item Value → Prop
  | same : ViewStep accepts view view
  | begun : ViewStep accepts view
      { view with control := view.control ++ [.terminate], begun := true }
  | ready (ready : Bool) (h : view.ready = true) : ViewStep accepts view { view with ready }
  | resumed (control : RuntimeControlCommand) (hcontrol : control ≠ .terminate)
      (haccepts : accepts = true) (hpaused : view.paused = true) : ViewStep accepts view
      { view with
        paused := false, ready := false, control := view.control ++ [control],
        answered := view.answered ++ [pendingCount view.received] }

/-- What the receipt of an event can do to the pause. -/
inductive ViewEvent (view : PauseView Item Value) (event : RuntimeEvent Item Value) :
    PauseView Item Value → Prop
  | other (h : event.isPending = false) :
      ViewEvent view event { view with received := view.received ++ [event] }
  | frontier (ready : Bool) (h : event.isPending = true) : ViewEvent view event
      { view with paused := true, ready, received := view.received ++ [event] }
  | continued (h : event.isPending = true) : ViewEvent view event
      { view with
        paused := false, received := view.received ++ [event],
        control := view.control ++ [.continue],
        answered := view.answered ++ [pendingCount (view.received ++ [event])] }

namespace Cell

variable {cell : Cell Item Value}

lemma view_setStage {stage : Stage Item Value} (h : stage.isClosed = cell.stage.isClosed) :
    ({ cell with stage } : Cell Item Value).view = cell.view := by
  simp only [view, terminationBegun, h]

end Cell

lemma ViewStep.of_eq {accepts : Bool} {view view' : PauseView Item Value} (h : view' = view) :
    ViewStep accepts view view' := by
  rw [h]
  exact .same

namespace Cell

variable {cell : Cell Item Value}

lemma sendObserverEvent_view (cell : Cell Item Value) (event : CellEvent Item) :
    (cell.sendObserverEvent event).2.view = cell.view := by
  unfold sendObserverEvent
  split
  · rfl
  · rfl

lemma yieldToObserver_view : cell.yieldToObserver.view = cell.view := by
  have hsent := sendObserverEvent_view { cell with contentItems := [], yieldTimer := none }
    (.yielded cell.contentItems)
  unfold yieldToObserver
  exact hsent

variable (hstage : cell.stage = .select)
include hstage

lemma finish_view : cell.finish.view = cell.view :=
  view_setStage (by rw [hstage]; rfl)

lemma cancelledBranch_view :
    cell.cancelledBranch.view =
      { cell.view with control := cell.view.control ++ [.terminate], begun := true } := by
  unfold cancelledBranch
  split_ifs
  · exact finish_view hstage
  · rfl

lemma commandBranch_view : cell.commandBranch.view = cell.view := by
  unfold commandBranch
  split
  · split_ifs
    · rfl
    · exact view_setStage (by rw [hstage]; rfl)
  · rfl

omit hstage

lemma timerBranch_view : cell.timerBranch.view = cell.view := by
  unfold timerBranch
  split_ifs
  · exact yieldToObserver_view
  · rfl

variable (command : Observer)

lemma route_view (hstage : cell.stage = .routing command) :
    (cell.route command).view = cell.view := by
  unfold route
  split
  all_goals exact view_setStage (by rw [hstage]; rfl)

lemma commit_view {storedValueWrites : StoredValueWrites Value} {event : CellEvent Item}
    (hstage : cell.stage = .committing storedValueWrites event) :
    (cell.commit storedValueWrites event).view = cell.view := by
  unfold commit
  split
  all_goals exact view_setStage (by rw [hstage]; rfl)

lemma deliver_view {rejectedEvent : Option (CellEvent Item)}
    (hstage : cell.stage = .delivering rejectedEvent) :
    (cell.deliver rejectedEvent).view = cell.view := by
  unfold deliver
  split
  all_goals exact view_setStage (by rw [hstage]; rfl)

lemma replyToObserver_view {observerTx : Option ℕ} {event : Option (CellEvent Item)}
    (hstage : cell.stage = .replying observerTx event) :
    (cell.replyToObserver observerTx event).view = cell.view := by
  unfold replyToObserver
  split
  all_goals exact view_setStage (by rw [hstage]; rfl)

/-- The pause after `Continue` or `Resume`. -/
def answer (view : PauseView Item Value) (control : RuntimeControlCommand) : PauseView Item Value :=
  { view with
    paused := false, ready := false, control := view.control ++ [control],
    answered := view.answered ++ [pendingCount view.received] }

lemma resumeForObservation_view_of_paused (hpaused : cell.runtimePaused = true)
    (hready : cell.pendingFrontierReady = false) (mode : ObserveMode) :
    ∃ control, control ≠ .terminate ∧
      (cell.resumeForObservation mode).view = answer cell.view control := by
  unfold resumeForObservation
  rw [if_pos hpaused]
  cases mode with
  | yieldAfter duration =>
    refine ⟨.continue, RuntimeControlCommand.noConfusion, ?_⟩
    simp only [view, answer, sendControl, hready]
    rfl
  | pendingFrontier =>
    refine ⟨.resume, RuntimeControlCommand.noConfusion, ?_⟩
    simp only [view, answer, sendControl, hready]
    rfl

lemma resumeForObservation_view_of_not_paused (hpaused : cell.runtimePaused = false)
    (mode : ObserveMode) : (cell.resumeForObservation mode).view = cell.view := by
  unfold resumeForObservation
  rw [if_neg (by rw [hpaused]; exact Bool.false_ne_true)]
  cases mode with
  | yieldAfter duration => rfl
  | pendingFrontier => rfl

lemma ready_of_admission {mode : ObserveMode} (h : cell.admission mode = .accepted)
    (hmode : mode.isYieldAfter = false) : cell.pendingFrontierReady = false := by
  cases mode with
  | yieldAfter duration => exact absurd hmode Bool.false_ne_true.symm
  | pendingFrontier =>
    unfold admission at h
    cases hready : cell.pendingFrontierReady with
    | false => rfl
    | true =>
      simp only [hready] at h
      split_ifs at h
      exact absurd rfl ‹_›

/-- An observation that is taken answers the pause, if there is one. -/
theorem accept_view (hadmission : cell.admission command.mode = .accepted) :
    (cell.accept command).view = cell.view ∨
      (cell.runtimePaused = true ∧ ∃ control, control ≠ .terminate ∧
        (cell.accept command).view = answer cell.view control) := by
  unfold accept
  dsimp only
  by_cases hpaused : cell.runtimePaused = true
  · refine .inr ⟨hpaused, ?_⟩
    split_ifs with hmode
    · apply resumeForObservation_view_of_paused
      · exact hpaused
      · rfl
    · have hready : cell.pendingFrontierReady = false :=
        ready_of_admission hadmission (by simpa [hpaused] using hmode)
      apply resumeForObservation_view_of_paused
      · exact hpaused
      · exact hready
  · have hrunning : cell.runtimePaused = false := Bool.eq_false_iff.mpr hpaused
    refine .inl ?_
    rw [if_neg (by rw [hrunning]; exact Bool.false_ne_true)]
    apply resumeForObservation_view_of_not_paused
    exact hrunning

lemma deliverFrontier_view (cell : Cell Item Value) (tx : ℕ) :
    ∃ ready, (cell.deliverFrontier tx).view = { cell.view with ready } := by
  unfold deliverFrontier
  dsimp only
  split
  · exact ⟨false, rfl⟩
  · exact ⟨true, rfl⟩

lemma ready_of_frontierReady {mode : ObserveMode} (h : cell.admission mode = .frontierReady) :
    cell.pendingFrontierReady = true := by
  unfold admission at h
  split_ifs at h with hbusy hready
  exact (Bool.and_eq_true_iff.mp hready).2

lemma forgetClosedObserver_view : cell.forgetClosedObserver.view = cell.view := by
  unfold forgetClosedObserver
  split
  · split_ifs
    · rfl
    · rfl
  · rfl

lemma admitObservation_view (hstage : cell.stage = .admitting command) :
    ViewStep cell.acceptsObservation cell.view (cell.admitObservation command).view := by
  have hforgot : cell.forgetClosedObserver.stage = cell.stage := by
    unfold forgetClosedObserver
    split
    · split_ifs
      · rfl
      · rfl
    · rfl
  have hview : ({ cell.forgetClosedObserver with stage := .select } : Cell Item Value).view =
      cell.view := by
    rw [view_setStage (by rw [hforgot, hstage]; rfl), forgetClosedObserver_view]
  have hpaused : cell.forgetClosedObserver.runtimePaused = cell.runtimePaused :=
    congrArg PauseView.paused forgetClosedObserver_view
  have hready : cell.forgetClosedObserver.pendingFrontierReady = cell.pendingFrontierReady :=
    congrArg PauseView.ready forgetClosedObserver_view
  unfold admitObservation
  dsimp only
  split
  next => exact .of_eq hview
  next hadmission =>
    obtain ⟨ready, heq⟩ := deliverFrontier_view { cell.forgetClosedObserver with stage := .select }
      command.responseTx
    rw [heq, hview]
    exact .ready ready (hready.symm.trans (ready_of_frontierReady hadmission))
  next hadmission =>
    have haccepts : cell.acceptsObservation = true := by
      unfold acceptsObservation
      rw [hstage]
      exact beq_iff_eq.mpr hadmission
    rcases accept_view command hadmission with heq | ⟨hp, control, hcontrol, heq⟩
    · exact .of_eq (heq.trans hview)
    · rw [heq, hview]
      exact .resumed control hcontrol haccepts (hpaused.symm.trans hp)

lemma advance_view : ViewStep cell.acceptsObservation cell.view cell.advance.view := by
  unfold advance
  cases hstage : cell.stage with
  | select => exact .same
  | routing command => exact .of_eq (route_view command hstage)
  | admitting command => exact admitObservation_view command hstage
  | committing writes event => exact .of_eq (commit_view hstage)
  | delivering rejected => exact .of_eq (deliver_view hstage)
  | finishing observerTx event => exact .of_eq (view_setStage (by rw [hstage]; rfl))
  | replying observerTx event => exact .of_eq (replyToObserver_view hstage)
  | leaving => exact .of_eq (view_setStage (by rw [hstage]; rfl))
  | tombstoned =>
    have hview : ({ cell with commandRx := none, stage := .closed } :
        Cell Item Value).beginTermination.view =
        { cell.view with control := cell.view.control ++ [.terminate], begun := true } := by
      simp only [view, beginTermination, terminationBegun, Stage.isClosed, Bool.or_true]
    rw [hview]
    exact .begun
  | closed => exact .same

lemma sendObserve_view : (cell.sendObserve command).view = cell.view := by
  unfold sendObserve
  split_ifs
  · split
    · rfl
    · rfl
  · rfl

lemma atSelect_view {accepts : Bool} {branch : Cell Item Value}
    (h : cell.stage = .select → ViewStep accepts cell.view branch.view) :
    ViewStep accepts cell.view (cell.atSelect branch).view := by
  unfold atSelect
  split
  next hstage => exact h hstage
  next => exact .same

/-- **What a step of the actor or its callers does to the pause.** -/
theorem step_view (action : CellAction Item Value)
    (haction : ∀ event, action ≠ .eventBranch event) :
    ViewStep (cell.accepts action) cell.view (cell.step action).view := by
  cases action with
  | observe mode =>
    simp only [step, observe]
    split_ifs
    · exact .same
    · exact .same
  | sendObserve command => exact .of_eq (sendObserve_view command)
  | terminate => exact .same
  | cancelSession => exact .same
  | dropReceiver caller => exact .same
  | cancelledBranch =>
    simp only [step]
    split_ifs
    · refine atSelect_view fun hstage => ?_
      rw [cancelledBranch_view hstage]
      exact .begun
    · exact .same
  | commandBranch => exact atSelect_view fun hstage => .of_eq (commandBranch_view hstage)
  | timerBranch => exact atSelect_view fun _ => .of_eq timerBranch_view
  | eventBranch event => exact absurd rfl (haction event)
  | advance => exact advance_view

lemma runtimeEnded_view (hstage : cell.stage = .select)
    (storedValueWrites : StoredValueWrites Value) (errorText : Option Text) :
    (cell.runtimeEnded storedValueWrites errorText).view = cell.view := by
  unfold runtimeEnded
  split_ifs
  · apply finish_view
    exact hstage
  · exact view_setStage (by rw [hstage]; rfl)

/-- A `Pending` is taken to the observer or answered at once. -/
theorem pendingEvent_view (cell : Cell Item Value) (received : List (RuntimeEvent Item Value)) :
    (∃ ready, ({ cell with received } : Cell Item Value).pendingEvent.view =
      { cell.view with paused := true, ready, received }) ∨
    ({ cell with received } : Cell Item Value).pendingEvent.view =
      { cell.view with
        paused := false, received, control := cell.view.control ++ [.continue],
        answered := cell.view.answered ++ [pendingCount received] } := by
  unfold pendingEvent
  split_ifs
  · have hsent := sendObserverEvent_view
      { cell with
        received, contentItems := [], pendingToolCallIds := [], runtimePaused := true,
        yieldTimer := none }
      (.pending cell.contentItems cell.pendingToolCallIds)
    dsimp only
    split
    next next heq =>
      rw [heq] at hsent
      exact .inl ⟨false, congrArg (fun view : PauseView Item Value =>
        { view with ready := false }) hsent⟩
    next next heq =>
      rw [heq] at hsent
      exact .inl ⟨true, congrArg (fun view : PauseView Item Value =>
        { view with ready := true }) hsent⟩
  · exact .inr rfl

lemma yieldRequestedEvent_view : cell.yieldRequestedEvent.view = cell.view := by
  unfold yieldRequestedEvent
  split
  · split_ifs
    · exact yieldToObserver_view
    · rfl
  · rfl

variable (hstage : cell.stage = .select)
include hstage

/-- **What the receipt of an event does to the pause.** -/
theorem handleEvent_view (event : RuntimeEvent Item Value) :
    ViewEvent cell.view event
      (({ cell with received := cell.received ++ [event] } : Cell Item Value).handleEvent
        (some event)).view := by
  cases event with
  | pending =>
    rcases pendingEvent_view cell (cell.received ++ [.pending]) with ⟨ready, heq⟩ | heq
    · simp only [handleEvent]
      rw [heq]
      exact .frontier ready rfl
    · simp only [handleEvent]
      rw [heq]
      exact .continued rfl
  | yieldRequested =>
    simp only [handleEvent]
    rw [yieldRequestedEvent_view]
    exact .other rfl
  | result writes errorText =>
    simp only [handleEvent]
    rw [runtimeEnded_view]
    · exact .other rfl
    · exact hstage
  | started => exact .other rfl
  | contentItem item => exact .other rfl
  | toolCall id => exact .other rfl
  | notify => exact .other rfl
  | threadPanicked => exact .other rfl

/-- The end of the events does nothing to the pause. -/
theorem eventBranch_none_view : (cell.eventBranch none).view = cell.view := by
  unfold eventBranch
  split_ifs
  · rfl
  · have hreceived : cell.received ++ [] = cell.received := List.append_nil _
    simp only [Option.toList_none, hreceived, handleEvent]
    exact runtimeEnded_view hstage _ _

lemma eventBranch_some_view (hclosed : cell.runtimeClosed = false)
    (event : RuntimeEvent Item Value) :
    ViewEvent cell.view event (cell.eventBranch (some event)).view := by
  unfold eventBranch
  rw [if_neg (by rw [hclosed]; exact Bool.false_ne_true)]
  exact handleEvent_view hstage event

end Cell

end Codex.CodeMode
