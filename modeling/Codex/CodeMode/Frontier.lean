import Codex.CodeMode.Outcome
import Codex.CodeMode.Pause
import Codex.Lib.Run

/-!
# The pending frontier

A `Pending` event that reaches an observer leaves the thread paused, and only a further observation
or the end of the cell lets it go on.

* `step_cell_cases`: the system runs the cell;
* `pause_respected`: **the pending-frontier pause is respected**.
-/

namespace Codex.CodeMode

open Codex.Lib

variable {Item Value : Type}

/-! ### The delivery of a frontier -/

def CellEvent.isFrontier : CellEvent Item → Bool
  | .pending _ _ => true
  | _ => false

/-- The `Pending` events sent, in sending order. -/
def frontiers (replies : List (Caller × CellReply Item)) : List (CellEvent Item) :=
  (replies.filterMap sentEvent).filter CellEvent.isFrontier

lemma CellEvent.not_isFrontier {event : CellEvent Item} (h : event.isTerminal = true) :
    event.isFrontier = false := by
  cases event with
  | yielded items => rfl
  | pending items ids => cases h
  | completed items errorText => rfl
  | terminated items => rfl

variable {replies : List (Caller × CellReply Item)} (caller : Caller)

lemma frontiers_error (error : CellError) :
    frontiers (replies ++ [(caller, .error error)]) = frontiers replies := by
  simp [frontiers, sentEvent, Except.toOption]

lemma frontiers_ok {event : CellEvent Item} (hevent : event.isFrontier = false) :
    frontiers (replies ++ [(caller, .ok event)]) = frontiers replies := by
  simp [frontiers, sentEvent, Except.toOption, hevent]

lemma frontiers_pending (contentItems : List Item) (ids : List Text) :
    frontiers (replies ++ [(caller, .ok (.pending contentItems ids))]) ≠ frontiers replies := by
  simp [frontiers, sentEvent, Except.toOption, CellEvent.isFrontier]

namespace CellState

variable {state : CellState Item}

lemma frontiers_send_error (caller : Caller) (error : CellError) :
    frontiers (state.send caller (.error error)).2.replies = frontiers state.replies := by
  rcases Cell.send_cases state caller (.error error) with heq | heq
  · rw [heq]
  · rw [heq]
    exact frontiers_error caller error

lemma frontiers_send_ok (caller : Caller) {event : CellEvent Item}
    (hevent : event.isFrontier = false) :
    frontiers (state.send caller (.ok event)).2.replies = frontiers state.replies := by
  rcases Cell.send_cases state caller (.ok event) with heq | heq
  · rw [heq]
  · rw [heq]
    exact frontiers_ok caller hevent

lemma isFrontier_prepend (event : CellEvent Item) (items : Option (List Item)) :
    (prependInitialYield event items).isFrontier = event.isFrontier := by
  cases items with
  | none => rfl
  | some items => cases event <;> rfl

end CellState

/-- The event a phase holds. -/
def CellPhase.event? : CellPhase Item → Option (CellEvent Item)
  | .completed _ event => some event
  | .completionClaimed event => some event
  | _ => none

/-- The phase holds no `Pending` event. -/
def CellPhase.NoFrontier (phase : CellPhase Item) : Prop :=
  ∀ event, phase.event? = some event → event.isFrontier = false

namespace Cell

variable {cell : Cell Item Value}

lemma Unsettled.noFrontier {items : List Item} (h : cell.Unsettled items) :
    cell.state.phase.NoFrontier := by
  intro event hevent
  rcases h.1.cases with hphase | ⟨tx, hphase⟩
  · rw [hphase] at hevent
    cases hevent
  · rw [hphase] at hevent
    cases hevent

lemma Settled.noFrontier {settled : CellEvent Item} (h : cell.Settled settled)
    (hholds : cell.state.phase.Holds settled) : cell.state.phase.NoFrontier := by
  intro event hevent
  rcases hholds.cases with hphase | hphase
  · rw [hphase] at hevent
    cases hevent
    exact CellEvent.not_isFrontier h.isTerminal
  · rw [hphase] at hevent
    cases hevent
    exact CellEvent.not_isFrontier h.isTerminal

lemma Progress.noFrontier (h : cell.Progress) : cell.state.phase.NoFrontier := by
  have hbuffered : cell.Buffered → cell.state.phase.NoFrontier :=
    fun ⟨_, hholds, hsettled, _⟩ => Settled.noFrontier hsettled hholds
  have htombstone : cell.state.phase = .tombstone → cell.state.phase.NoFrontier := by
    intro hphase event hevent
    rw [hphase] at hevent
    cases hevent
  have hready : cell.Ready → cell.state.phase.NoFrontier :=
    fun h => h.elim (fun h => h.1.noFrontier) (fun h => hbuffered h.1)
  unfold Progress at h
  split at h
  next => exact hready h
  next => exact hready h
  next => exact h.1.noFrontier
  next =>
    obtain ⟨items, errorText, -, hunsettled, -⟩ := h
    exact hunsettled.noFrontier
  next =>
    obtain ⟨items, errorText, -, hunsettled⟩ := h
    exact hunsettled.noFrontier
  next => exact hbuffered h
  next =>
    rcases h with ⟨items, -, hunsettled⟩ | ⟨settled, hholds, hsettled, -⟩
    · exact hunsettled.noFrontier
    · exact Settled.noFrontier hsettled hholds
  next => exact htombstone h.1
  next => exact htombstone h.1
  next => exact htombstone h.1
  next => exact htombstone h.1

lemma requestTermination_frontiers (h : cell.state.phase.NoFrontier) (call : ℕ) :
    frontiers (cell.state.requestTermination call).replies = frontiers cell.state.replies := by
  unfold CellState.requestTermination
  split
  next => rfl
  next => exact frontiers_error _ _
  next items event hphase =>
    refine frontiers_ok _ ?_
    rw [CellState.isFrontier_prepend]
    exact h event (by rw [hphase]; rfl)
  next => exact frontiers_error _ _
  next => exact frontiers_error _ _

lemma routeCompleted_frontiers {items : Option (List Item)} {event : CellEvent Item}
    (hevent : event.isFrontier = false) (mode : ObserveMode) (tx : ℕ) :
    frontiers (cell.state.routeCompleted items event mode tx).2.replies =
      frontiers cell.state.replies := by
  unfold CellState.routeCompleted
  split
  next contentItems duration =>
    rcases send_cases cell.state (.observer tx) (.ok (.yielded contentItems)) with heq | heq
    · rw [heq]
    · rw [heq]
      exact frontiers_ok _ rfl
  next =>
    rcases send_cases cell.state (.observer tx) (.ok (prependInitialYield event items)) with
      heq | heq
    · rw [heq]
    · rw [heq]
      exact frontiers_ok _ ((CellState.isFrontier_prepend event items).trans hevent)

lemma route_frontiers (h : cell.state.phase.NoFrontier) (command : Observer) :
    frontiers (cell.route command).state.replies = frontiers cell.state.replies := by
  have hroute : (cell.route command).state =
      (cell.state.routeObservation command.mode command.responseTx).2 := by
    unfold route
    split
    all_goals
      rename_i heq
      rw [heq]
  rw [hroute]
  unfold CellState.routeObservation
  split
  next => rfl
  next items event hphase =>
    have hevent : event.isFrontier = false := h event (by rw [hphase]; rfl)
    exact routeCompleted_frontiers hevent _ _
  next => exact CellState.frontiers_send_error _ _
  next => exact CellState.frontiers_send_error _ _
  next => exact CellState.frontiers_send_error _ _

lemma yieldToObserver_frontiers :
    frontiers cell.yieldToObserver.state.replies = frontiers cell.state.replies := by
  rcases yieldToObserver_cases cell with heq | ⟨observer, -, heq⟩
  · rw [heq]
  · rw [heq]
    exact frontiers_ok _ rfl

lemma deliver_frontiers (h : cell.state.phase.NoFrontier)
    (rejectedEvent : Option (CellEvent Item)) :
    frontiers (cell.deliver rejectedEvent).state.replies = frontiers cell.state.replies := by
  have hdeliver : (cell.deliver rejectedEvent).state =
      (cell.state.deliverCompletion (cell.observer.map Observer.responseTx)).2 := by
    unfold deliver
    split
    all_goals
      rename_i heq
      rw [heq]
  rw [hdeliver]
  unfold CellState.deliverCompletion
  split
  next items event hphase =>
    have hevent : event.isFrontier = false := h event (by rw [hphase]; rfl)
    split
    · rfl
    · rename_i tx heq
      rcases send_cases cell.state (.observer tx) (.ok event) with hsend | hsend
      · rw [hsend]
      · rw [hsend]
        exact frontiers_ok _ hevent
  next => rfl

lemma finishTermination_frontiers {event : CellEvent Item}
    (hevent : ∀ tx, cell.state.phase = .terminating tx → event.isFrontier = false) :
    frontiers (cell.state.finishTermination event).2.replies = frontiers cell.state.replies := by
  unfold CellState.finishTermination
  dsimp only
  split
  · exact CellState.frontiers_send_ok _ (hevent _ ‹_›)
  · rfl

lemma replyToObserver_frontiers {observerTx : Option ℕ} {event : Option (CellEvent Item)}
    (hevent : ∀ sent, event = some sent → sent.isFrontier = false) :
    frontiers (cell.replyToObserver observerTx event).state.replies =
      frontiers cell.state.replies := by
  unfold replyToObserver
  split
  · exact CellState.frontiers_send_ok _ (hevent _ rfl)
  · rfl

lemma resumeForObservation_state (mode : ObserveMode) :
    (cell.resumeForObservation mode).state = cell.state := by
  unfold resumeForObservation
  split_ifs
  · rfl
  · cases mode with
    | yieldAfter duration => rfl
    | pendingFrontier => rfl

lemma accept_state (command : Observer) : (cell.accept command).state = cell.state := by
  unfold accept
  dsimp only
  split_ifs
  · rw [resumeForObservation_state]
  · rw [resumeForObservation_state]

/-- A frontier reaches an observer in a pause only. -/
theorem admitObservation_frontiers (hready : cell.pendingFrontierReady = true →
    cell.runtimePaused = true) (command : Observer) :
    frontiers (cell.admitObservation command).state.replies = frontiers cell.state.replies ∨
      (cell.admitObservation command).runtimePaused = true := by
  obtain ⟨observer, yieldTimer, heq⟩ := forgetClosedObserver_eq cell
  unfold admitObservation
  rw [heq]
  dsimp only
  split
  next => exact .inl (CellState.frontiers_send_error _ _)
  next hadmission =>
    refine .inr ?_
    have hfrontier : cell.pendingFrontierReady = true := by
      have hforgot : ({ cell with observer, yieldTimer, stage := .select } :
          Cell Item Value).pendingFrontierReady = true := ready_of_frontierReady hadmission
      exact hforgot
    unfold deliverFrontier
    dsimp only
    split
    · exact hready hfrontier
    · exact hready hfrontier
  next =>
    rw [accept_state]
    exact .inl rfl

lemma runtimeEnded_frontiers (storedValueWrites : StoredValueWrites Value)
    (errorText : Option Text) :
    frontiers (cell.runtimeEnded storedValueWrites errorText).state.replies =
      frontiers cell.state.replies := by
  unfold runtimeEnded
  split_ifs
  · rfl
  · rfl

lemma handleEvent_frontiers (event : Option (RuntimeEvent Item Value)) :
    frontiers (cell.handleEvent event).state.replies = frontiers cell.state.replies ∨
      (cell.handleEvent event).runtimePaused = true := by
  cases event with
  | none => exact .inl (runtimeEnded_frontiers _ _)
  | some event =>
    cases event with
    | pending =>
      simp only [handleEvent]
      unfold pendingEvent
      split_ifs
      · refine .inr ?_
        dsimp only
        rcases sendObserverEvent_cases
          { cell with
            contentItems := [], pendingToolCallIds := [], runtimePaused := true,
            yieldTimer := none }
          (.pending cell.contentItems cell.pendingToolCallIds) with heq | ⟨observer, -, heq⟩
        · rw [heq]
        · rw [heq]
      · exact .inl rfl
    | yieldRequested =>
      simp only [handleEvent]
      unfold yieldRequestedEvent
      split
      · split_ifs
        · exact .inl yieldToObserver_frontiers
        · exact .inl rfl
      · exact .inl rfl
    | result writes errorText => exact .inl (runtimeEnded_frontiers _ _)
    | started => exact .inl rfl
    | contentItem item => exact .inl rfl
    | toolCall id => exact .inl rfl
    | notify => exact .inl rfl
    | threadPanicked => exact .inl rfl

lemma advance_frontiers (h : cell.Progress)
    (hready : cell.pendingFrontierReady = true → cell.runtimePaused = true) :
    frontiers cell.advance.state.replies = frontiers cell.state.replies ∨
      cell.advance.runtimePaused = true := by
  have hphase := h.noFrontier
  unfold advance
  unfold Progress at h
  cases hstage : cell.stage with
  | select => exact .inl rfl
  | routing command => exact .inl (route_frontiers hphase command)
  | admitting command => exact admitObservation_frontiers hready command
  | committing writes event =>
    refine .inl ?_
    simp only [commit, CellState.commitCompletion]
    split
    all_goals
      rename_i heq
      split at heq
      all_goals
        obtain ⟨-, rfl⟩ := Prod.mk.inj heq
        rfl
  | delivering rejected => exact .inl (deliver_frontiers hphase rejected)
  | finishing observerTx event =>
    simp only [hstage] at h
    refine .inl (finishTermination_frontiers ?_)
    intro tx htx
    rcases h with ⟨items, rfl, -⟩ | ⟨settled, hholds, -⟩
    · rfl
    · rw [htx] at hholds
      exact absurd hholds id
  | replying observerTx event =>
    simp only [hstage] at h
    obtain ⟨-, -, settled, rfl, hsettled⟩ := h
    refine .inl (replyToObserver_frontiers ?_)
    intro sent hsent
    cases hsent
    exact CellEvent.not_isFrontier hsettled.isTerminal
  | leaving => exact .inl rfl
  | tombstoned => exact .inl rfl
  | closed => exact .inl rfl

/-- **A step sends a `Pending` event in a pause only.** -/
theorem step_frontiers (h : cell.Progress)
    (hready : cell.pendingFrontierReady = true → cell.runtimePaused = true)
    (action : CellAction Item Value) :
    frontiers (cell.step action).state.replies = frontiers cell.state.replies ∨
      (cell.step action).runtimePaused = true := by
  have hselect : ∀ {branch : Cell Item Value},
      (frontiers branch.state.replies = frontiers cell.state.replies ∨
        branch.runtimePaused = true) →
      frontiers (cell.atSelect branch).state.replies = frontiers cell.state.replies ∨
        (cell.atSelect branch).runtimePaused = true := by
    intro branch hbranch
    rcases atSelect_cases cell branch with ⟨-, heq⟩ | heq
    · rw [heq]
      exact hbranch
    · rw [heq]
      exact .inl rfl
  cases action with
  | observe mode =>
    simp only [step, observe]
    split_ifs
    · exact .inl rfl
    · exact .inl (frontiers_error _ _)
  | sendObserve command =>
    simp only [step, sendObserve]
    split_ifs
    · split
      · exact .inl rfl
      · exact .inl (frontiers_error _ _)
    · exact .inl rfl
  | terminate => exact .inl (requestTermination_frontiers h.noFrontier _)
  | cancelSession => exact .inl rfl
  | dropReceiver caller => exact .inl rfl
  | cancelledBranch =>
    simp only [step]
    split_ifs
    · refine hselect (.inl ?_)
      unfold cancelledBranch
      split_ifs
      · rfl
      · rfl
    · exact .inl rfl
  | commandBranch =>
    refine hselect (.inl ?_)
    unfold commandBranch
    split
    · split_ifs
      · rfl
      · rfl
    · rfl
  | timerBranch =>
    refine hselect (.inl ?_)
    unfold timerBranch
    split_ifs
    · exact yieldToObserver_frontiers
    · rfl
  | eventBranch event =>
    refine hselect ?_
    unfold eventBranch
    split_ifs
    · exact .inl rfl
    · exact handleEvent_frontiers event
  | advance => exact advance_frontiers h hready

end Cell

namespace System

variable {sys : System Item Value}

/-- The cell with other channels to the runtime. -/
def rewire (cell : Cell Item Value) (runtimeTx : List (RuntimeCommand Value))
    (runtimeControlTx : List RuntimeControlCommand) : Cell Item Value :=
  { cell with runtimeTx, runtimeControlTx }

/-- **The system runs the cell**: its steps are steps of the actor and its callers, or the thread
and the callbacks use the channels. -/
theorem step_cell_cases (sys : System Item Value) (action : SystemAction Item Value) :
    (∃ cellAction, (sys.step action).cell = sys.cell.step cellAction) ∨
      ∃ runtimeTx runtimeControlTx,
        (sys.step action).cell = rewire sys.cell runtimeTx runtimeControlTx := by
  have hsame : ∃ runtimeTx runtimeControlTx,
      sys.cell = rewire sys.cell runtimeTx runtimeControlTx :=
    ⟨_, _, rfl⟩
  have hcommand : ∀ {next : System Item Value}, sys.receiveCommand = some next →
      ∃ runtimeTx runtimeControlTx, next.cell = rewire sys.cell runtimeTx runtimeControlTx := by
    intro next hnext
    unfold System.receiveCommand at hnext
    split at hnext
    · cases hnext
    · cases hnext
      exact ⟨_, _, rfl⟩
  cases action with
  | cell action =>
    rcases step_cell_eq sys action with ⟨-, heq⟩ | ⟨-, heq⟩
    · rw [heq]
      exact .inr hsame
    · rw [heq]
      exact .inl ⟨action, rfl⟩
  | receive =>
    simp only [step]
    unfold System.receive
    split
    next event events hstage hclosed hevents =>
      refine .inl ⟨.eventBranch (some event), ?_⟩
      simp only [Cell.step, Cell.atSelect, hstage]
    next hstage hclosed hevents =>
      split_ifs
      · refine .inl ⟨.eventBranch none, ?_⟩
        simp only [Cell.step, Cell.atSelect, hstage]
      · exact .inr hsame
    next => exact .inr hsame
  | respond command => exact .inr ⟨_, _, rfl⟩
  | emit event =>
    simp only [step]
    split_ifs
    · exact .inr hsame
    · exact .inr hsame
  | complete writes errorText =>
    simp only [step]
    split_ifs
    · exact .inr hsame
    · exact .inr hsame
  | unwind =>
    simp only [step]
    split_ifs
    · exact .inr hsame
    · exact .inr hsame
  | poll =>
    simp only [step]
    split_ifs
    · exact .inr hsame
    · exact .inr hsame
  | nextCommand =>
    refine .inr ?_
    simp only [step]
    unfold System.nextRuntimeCommand
    split
    · split
      · exact hcommand ‹_›
      · exact hsame
    · unfold System.receiveControl
      split
      · split
        · exact hsame
        · exact hsame
      · split
        all_goals exact ⟨_, _, rfl⟩
    · cases hnext : sys.receiveCommand with
      | none => exact hsame
      | some next => exact hcommand hnext
    · exact hsame
  | exit panicked =>
    simp only [step]
    split_ifs
    · exact .inr hsame
    · exact .inr hsame
    · exact .inr hsame

lemma step_progress (h : sys.cell.Progress) (action : SystemAction Item Value) :
    (sys.step action).cell.Progress := by
  rcases step_cell_cases sys action with ⟨cellAction, heq⟩ | ⟨runtimeTx, runtimeControlTx, heq⟩
  · rw [heq]
    exact Cell.step_progress h cellAction
  · rw [heq]
    exact h

lemma run_progress (h : sys.cell.Progress) (actions : List (SystemAction Item Value)) :
    (sys.run actions).cell.Progress := by
  induction actions generalizing sys with
  | nil => exact h
  | cons action actions ih => exact ih (step_progress h action)

/-- The step sends a `Pending` event to an observer. -/
def Delivers (sys : System Item Value) (action : SystemAction Item Value) : Prop :=
  ∃ call contentItems pendingToolCallIds, (sys.step action).cell.state.replies =
    sys.cell.state.replies ++ [(.observer call, .ok (.pending contentItems pendingToolCallIds))]

/-- A `Pending` event that is delivered leaves the script frozen. -/
theorem Delivers.frozen {action : SystemAction Item Value} (h : sys.Delivers action)
    (hprogress : sys.cell.Progress) (hsound : sys.Sound)
    (hunbegun : (sys.step action).cell.terminationBegun = false) : (sys.step action).Frozen := by
  refine ⟨step_sound hsound action, ?_, hunbegun⟩
  obtain ⟨call, contentItems, ids, hreplies⟩ := h
  have hnew : frontiers (sys.step action).cell.state.replies ≠
      frontiers sys.cell.state.replies := by
    rw [hreplies]
    exact frontiers_pending _ _ _
  rcases step_cell_cases sys action with ⟨cellAction, heq⟩ | ⟨runtimeTx, runtimeControlTx, heq⟩
  · rw [heq] at hnew ⊢
    rcases Cell.step_frontiers hprogress hsound.ready cellAction with hsame | hpaused
    · exact absurd hsame hnew
    · exact hpaused
  · rw [heq] at hnew
    exact absurd rfl hnew

/-- No observation is taken and no termination begun. -/
def Undisturbed (sys : System Item Value) (action : SystemAction Item Value) : Prop :=
  sys.accepts action = false ∧ (sys.step action).cell.terminationBegun = false

/-- The thread has done nothing since. -/
structure Idle (sys later : System Item Value) : Prop where
  frozen : later.Frozen
  emitted : later.emitted = sys.emitted
  processed : later.processed = sys.processed

lemma Frozen.run (h : sys.Frozen) {actions : List (SystemAction Item Value)}
    (hundisturbed : Throughout System.step Undisturbed sys actions) :
      Idle sys (sys.run actions) := by
  refine Throughout.preserves (I := Idle sys) ?_ hundisturbed ⟨h, rfl, rfl⟩
  intro next action hnext hidle
  obtain ⟨hfrozen, hemitted, hprocessed⟩ := hidle.frozen.step action hnext.1 hnext.2
  exact ⟨hfrozen, hemitted.trans hidle.emitted, hprocessed.trans hidle.processed⟩

end System

/-- **The pending-frontier pause is respected.** In every run of the runtime thread with the actor
and its callers: the control channel holds at most one `Continue` or `Resume`; each is sent for a
`Pending` event of its own that was received before it; and once a `Pending` event was sent to an
observer, the thread processes no command and emits no event until an observation is taken or
termination has begun. -/
theorem pause_respected (cancelled : Bool) (mode : ObserveMode)
    (actions : List (SystemAction Item Value)) :
    let sys := (System.start cancelled mode).run actions
    answerCount sys.cell.runtimeControlTx ≤ 1 ∧
    (sys.cell.answered.Pairwise (· < ·) ∧ ∀ answer ∈ sys.cell.answered,
      0 < answer ∧ answer ≤ pendingCount sys.cell.received) ∧
    ∀ action, sys.Delivers action → (sys.step action).cell.terminationBegun = false →
      ∀ later, Throughout System.step System.Undisturbed (sys.step action) later →
        ((sys.step action).run later).emitted = (sys.step action).emitted ∧
        ((sys.step action).run later).processed = (sys.step action).processed := by
  intro sys
  have hsound : sys.Sound := System.run_sound (System.start_sound cancelled mode) actions
  have hprogress : sys.cell.Progress :=
    System.run_progress (Cell.start_progress cancelled mode) actions
  refine ⟨?_, ⟨hsound.answers.increasing, hsound.answers.received⟩, ?_⟩
  · have hle := hsound.tokens_le
    simp only [System.tokens, PauseView.tokens] at hle
    exact (Nat.le_add_left _ _).trans ((Nat.le_add_left _ _).trans hle)
  · intro action hdelivers hunbegun later hundisturbed
    have hidle := (hdelivers.frozen hprogress hsound hunbegun).run hundisturbed
    exact ⟨hidle.emitted, hidle.processed⟩

end Codex.CodeMode
