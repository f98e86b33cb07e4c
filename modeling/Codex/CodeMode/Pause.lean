import Codex.CodeMode.System

/-!
# The pause of the runtime thread

Every `Pending` is one token: it is in the event queue, then in the actor's `runtime_paused`, then a
`Continue` or `Resume` in the control channel. There is at most one, and none while the thread is
active (`Sound`).
-/

namespace Codex.CodeMode

open Codex.Lib

variable {Item Value : Type}

/-! ### The invariant -/

/-- `Continue` and `Resume`. -/
def RuntimeControlCommand.isAnswer : RuntimeControlCommand → Bool
  | .terminate => false
  | _ => true

/-- The `Continue` and `Resume` in the channel. -/
def answerCount (control : List RuntimeControlCommand) : ℕ :=
  control.countP RuntimeControlCommand.isAnswer

namespace PauseView

/-- The `Pending` the actor knows of that the thread has not left. -/
def tokens (view : PauseView Item Value) : ℕ :=
  (if view.paused then 1 else 0) + answerCount view.control

/-- Every answer is for a `Pending` of its own, the last one at its time. -/
structure Answers (view : PauseView Item Value) : Prop where
  increasing : view.answered.Pairwise (· < ·)
  received : ∀ answer ∈ view.answered, 0 < answer ∧ answer ≤ pendingCount view.received
  unanswered : view.paused = true → 0 < pendingCount view.received ∧
    ∀ answer ∈ view.answered, answer < pendingCount view.received

end PauseView

/-- The thread takes commands and emits events. -/
def RuntimeThread.isActive : RuntimeThread → Bool
  | .running => true
  | .polling => true
  | .waiting => true
  | _ => false

namespace System

/-- The `Pending` that the thread has not left. -/
def tokens (sys : System Item Value) : ℕ := pendingCount sys.events + sys.cell.view.tokens

structure Sound (sys : System Item Value) : Prop where
  tokens_le : sys.tokens ≤ 1
  active : sys.thread.isActive = true → sys.tokens = 0
  parked : sys.thread ≠ .paused → sys.tokens = 0 ∨ sys.cell.view.begun = true
  begun : .terminate ∈ sys.cell.view.control → sys.cell.view.begun = true
  ready : sys.cell.view.ready = true → sys.cell.view.paused = true
  answers : sys.cell.view.Answers

end System

/-! ### Steps of the actor -/

lemma answerCount_append (control : List RuntimeControlCommand) (command : RuntimeControlCommand) :
    answerCount (control ++ [command]) =
      answerCount control + if command.isAnswer then 1 else 0 := by
  simp [answerCount, List.countP_append, List.countP_singleton]

lemma pendingCount_append (events : List (RuntimeEvent Item Value))
    (event : RuntimeEvent Item Value) :
    pendingCount (events ++ [event]) = pendingCount events + if event.isPending then 1 else 0 := by
  simp [pendingCount, List.countP_append, List.countP_singleton]

lemma pendingCount_cons (event : RuntimeEvent Item Value)
    (events : List (RuntimeEvent Item Value)) :
    pendingCount (event :: events) = pendingCount events + if event.isPending then 1 else 0 := by
  simp [pendingCount, List.countP_cons]

namespace PauseView

variable {view : PauseView Item Value}

lemma Answers.append {answered : List ℕ} {count : ℕ} (hpos : 0 < count)
    (hincreasing : answered.Pairwise (· < ·))
    (hlt : ∀ answer ∈ answered, 0 < answer ∧ answer < count) :
    (answered ++ [count]).Pairwise (· < ·) ∧
      ∀ answer ∈ answered ++ [count], 0 < answer ∧ answer ≤ count := by
  refine ⟨?_, ?_⟩
  · rw [List.pairwise_append]
    refine ⟨hincreasing, List.pairwise_singleton _ _, ?_⟩
    intro answer hmem last hlast
    obtain rfl := List.mem_singleton.mp hlast
    exact (hlt answer hmem).2
  · intro answer hmem
    rcases List.mem_append.mp hmem with hmem | hmem
    · exact ⟨(hlt answer hmem).1, (hlt answer hmem).2.le⟩
    · obtain rfl := List.mem_singleton.mp hmem
      exact ⟨hpos, le_rfl⟩

lemma Answers.lt_pending (h : view.Answers) {event : RuntimeEvent Item Value}
    (hpending : event.isPending = true) :
    0 < pendingCount (view.received ++ [event]) ∧ ∀ answer ∈ view.answered,
      0 < answer ∧ answer < pendingCount (view.received ++ [event]) := by
  rw [pendingCount_append, if_pos hpending]
  refine ⟨Nat.succ_pos _, ?_⟩
  intro answer hmem
  obtain ⟨hpos, hle⟩ := h.received answer hmem
  exact ⟨hpos, Nat.lt_succ_of_le hle⟩

end PauseView

namespace ViewStep

variable {accepts : Bool} {view view' : PauseView Item Value} (h : ViewStep accepts view view')
include h

lemma tokens_eq : view'.tokens = view.tokens := by
  cases h with
  | same => rfl
  | begun => simp [PauseView.tokens, answerCount_append, RuntimeControlCommand.isAnswer]
  | ready ready hready => rfl
  | resumed control hcontrol haccepts hpaused =>
    have hanswer : control.isAnswer = true := by
      cases control with
      | «continue» => rfl
      | resume => rfl
      | terminate => exact absurd rfl hcontrol
    simp only [PauseView.tokens, answerCount_append, hanswer, hpaused, if_true,
      Bool.false_eq_true, if_false]
    omega

lemma begun_mono (hbegun : view.begun = true) : view'.begun = true := by
  cases h with
  | same => exact hbegun
  | begun => rfl
  | ready ready hready => exact hbegun
  | resumed control hcontrol haccepts hpaused => exact hbegun

lemma begun_of_terminate (hview : .terminate ∈ view.control → view.begun = true)
    (hmem : .terminate ∈ view'.control) : view'.begun = true := by
  cases h with
  | same => exact hview hmem
  | begun => rfl
  | ready ready hready => exact hview hmem
  | resumed control hcontrol haccepts hpaused =>
    rcases List.mem_append.mp hmem with hmem | hmem
    · exact hview hmem
    · exact absurd (List.mem_singleton.mp hmem).symm hcontrol

lemma paused_of_ready
    (hview : view.ready = true → view.paused = true) (hready : view'.ready = true) :
    view'.paused = true := by
  cases h with
  | same => exact hview hready
  | begun => exact hview hready
  | ready ready hold => exact hview hold
  | resumed control hcontrol haccepts hpaused => cases hready

lemma answers (hview : view.Answers) : view'.Answers := by
  cases h with
  | same => exact hview
  | begun => exact ⟨hview.increasing, hview.received, hview.unanswered⟩
  | ready ready hold => exact ⟨hview.increasing, hview.received, hview.unanswered⟩
  | resumed control hcontrol haccepts hpaused =>
    obtain ⟨hpos, hlt⟩ := hview.unanswered hpaused
    have hnew := PauseView.Answers.append hpos hview.increasing
      fun answer hmem => ⟨(hview.received answer hmem).1, hlt answer hmem⟩
    exact ⟨hnew.1, hnew.2, fun h => absurd h Bool.false_ne_true⟩

lemma paused_of_not_accepts (haccepts : accepts = false)
    (hpaused : view.paused = true) : view'.paused = true := by
  cases h with
  | same => exact hpaused
  | begun => exact hpaused
  | ready ready hold => exact hpaused
  | resumed control hcontrol hold =>
    cases haccepts.symm.trans hold

end ViewStep

namespace ViewEvent

variable {view view' : PauseView Item Value} {event : RuntimeEvent Item Value}
  (h : ViewEvent view event view')
include h

lemma tokens_eq (hpaused : event.isPending = true → view.paused = false) :
    view'.tokens = view.tokens + if event.isPending then 1 else 0 := by
  cases h with
  | other hother =>
    rw [hother]
    rfl
  | frontier ready hpending =>
    simp only [PauseView.tokens, hpaused hpending, hpending, if_true, Bool.false_eq_true, if_false]
    omega
  | continued hpending =>
    simp only [PauseView.tokens, hpaused hpending, hpending, answerCount_append,
      RuntimeControlCommand.isAnswer, if_true, Bool.false_eq_true, if_false]
    omega

lemma paused_eq (hother : event.isPending = false) : view'.paused = view.paused := by
  cases h with
  | other => rfl
  | frontier ready hpending => cases hother.symm.trans hpending
  | continued hpending => cases hother.symm.trans hpending

lemma begun_eq : view'.begun = view.begun := by
  cases h with
  | other hother => rfl
  | frontier ready hpending => rfl
  | continued hpending => rfl

lemma terminate_mem (hmem : .terminate ∈ view'.control) : .terminate ∈ view.control := by
  cases h with
  | other hother => exact hmem
  | frontier ready hpending => exact hmem
  | continued hpending =>
    rcases List.mem_append.mp hmem with hmem | hmem
    · exact hmem
    · exact absurd (List.mem_singleton.mp hmem) RuntimeControlCommand.noConfusion

lemma paused_of_ready (hview : view.ready = true → view.paused = true)
    (hpaused : event.isPending = true → view.paused = false) (hready : view'.ready = true) :
    view'.paused = true := by
  cases h with
  | other hother => exact hview hready
  | frontier ready hpending => rfl
  | continued hpending =>
    exact absurd ((hview hready).symm.trans (hpaused hpending)) Bool.false_ne_true.symm

lemma answers (hview : view.Answers) : view'.Answers := by
  cases h with
  | other hother =>
    have hcount := pendingCount_append view.received event
    rw [hother, if_neg Bool.false_ne_true, Nat.add_zero] at hcount
    refine ⟨hview.increasing, ?_, ?_⟩
    · simp only [hcount]
      exact hview.received
    · simp only [hcount]
      exact hview.unanswered
  | frontier ready hpending =>
    obtain ⟨hpos, hlt⟩ := hview.lt_pending hpending
    exact ⟨hview.increasing, fun answer hmem => ⟨(hlt answer hmem).1, (hlt answer hmem).2.le⟩,
      fun _ => ⟨hpos, fun answer hmem => (hlt answer hmem).2⟩⟩
  | continued hpending =>
    obtain ⟨hpos, hlt⟩ := hview.lt_pending hpending
    have hnew := PauseView.Answers.append hpos hview.increasing hlt
    exact ⟨hnew.1, hnew.2, fun h => absurd h Bool.false_ne_true⟩

end ViewEvent

/-! ### Steps of the system -/

namespace System

variable {sys : System Item Value}

lemma Sound.viewStep (h : sys.Sound) {accepts : Bool} {cell : Cell Item Value}
    (hview : ViewStep accepts sys.cell.view cell.view) :
      ({ sys with cell } : System _ _).Sound := by
  have htokens : ({ sys with cell } : System Item Value).tokens = sys.tokens := by
    simp only [tokens, hview.tokens_eq]
  refine ⟨?_, ?_, ?_, ?_, ?_, ?_⟩
  · rw [htokens]
    exact h.tokens_le
  · rw [htokens]
    exact h.active
  · rw [htokens]
    intro hthread
    exact (h.parked hthread).imp id hview.begun_mono
  · exact hview.begun_of_terminate h.begun
  · exact hview.paused_of_ready h.ready
  · exact hview.answers h.answers

variable {event : RuntimeEvent Item Value}

/-- The actor receives the first event of the queue. -/
theorem Sound.viewEvent (h : sys.Sound) {events : List (RuntimeEvent Item Value)}
    (hevents : sys.events = event :: events) {cell : Cell Item Value}
    (hview : ViewEvent sys.cell.view event cell.view) :
    ({ sys with cell, events } : System _ _).Sound := by
  have hcount : sys.tokens = pendingCount events + (if event.isPending then 1 else 0) +
      sys.cell.view.tokens := by
    rw [tokens, hevents, pendingCount_cons]
  have hpaused : event.isPending = true → sys.cell.view.paused = false := by
    intro hpending
    have hle := h.tokens_le
    rw [hcount, if_pos hpending] at hle
    by_contra hpaused
    have htokens : 1 ≤ sys.cell.view.tokens := by
      rw [PauseView.tokens, if_pos (by simpa using hpaused)]
      exact Nat.le_add_right 1 _
    omega
  have htokens : ({ sys with cell, events } : System Item Value).tokens = sys.tokens := by
    simp only [tokens, hview.tokens_eq hpaused] at hcount ⊢
    omega
  refine ⟨?_, ?_, ?_, ?_, ?_, ?_⟩
  · rw [htokens]
    exact h.tokens_le
  · rw [htokens]
    exact h.active
  · rw [htokens, hview.begun_eq]
    exact h.parked
  · intro hmem
    rw [hview.begun_eq]
    exact h.begun (hview.terminate_mem hmem)
  · exact hview.paused_of_ready h.ready hpaused
  · exact hview.answers h.answers

lemma Sound.receive (h : sys.Sound) : sys.receive.Sound := by
  unfold System.receive
  split
  next event events hstage hclosed hevents =>
    exact h.viewEvent hevents (Cell.eventBranch_some_view hstage hclosed event)
  next hstage hclosed hevents =>
    split_ifs
    · have hview : ViewStep false sys.cell.view (sys.cell.eventBranch none).view :=
        .of_eq (Cell.eventBranch_none_view hstage)
      exact h.viewStep hview
    · exact h
  next => exact h

lemma tokens_send (hother : event.isPending = false) : (sys.send event).tokens = sys.tokens := by
  simp only [System.send, tokens, pendingCount_append, hother, Bool.false_eq_true, if_false,
    Nat.add_zero]

lemma Sound.send (h : sys.Sound) (hother : event.isPending = false) : (sys.send event).Sound := by
  have htokens : (sys.send event).tokens = sys.tokens := tokens_send hother
  refine ⟨?_, ?_, ?_, h.begun, h.ready, h.answers⟩
  · rw [htokens]
    exact h.tokens_le
  · rw [htokens]
    exact h.active
  · rw [htokens]
    exact h.parked

/-- The thread goes on where it has left every `Pending`. -/
theorem Sound.thread (h : sys.Sound) {thread : RuntimeThread} (htokens : sys.tokens = 0) :
    ({ sys with thread } : System _ _).Sound :=
  ⟨h.tokens_le, fun _ => htokens, fun _ => .inl htokens, h.begun, h.ready, h.answers⟩

variable (h : sys.Sound)
include h

lemma Sound.ended {thread : RuntimeThread} (hactive : thread.isActive = false)
    (hparked : sys.tokens = 0 ∨ sys.cell.view.begun = true) :
    ({ sys with thread } : System _ _).Sound :=
  ⟨h.tokens_le, fun hthread => absurd (hactive.symm.trans hthread) Bool.false_ne_true,
    fun _ => hparked, h.begun, h.ready, h.answers⟩

lemma Sound.receiveCommand (htokens : sys.tokens = 0) {next : System Item Value}
    (hnext : sys.receiveCommand = some next) : next.Sound := by
  unfold System.receiveCommand at hnext
  split at hnext
  · cases hnext
  · cases hnext
    exact ⟨h.tokens_le, fun _ => htokens, fun _ => .inl htokens, h.begun, h.ready, h.answers⟩

lemma Sound.popControl {control : RuntimeControlCommand} {controls : List RuntimeControlCommand}
    (hcontrol : sys.cell.runtimeControlTx = control :: controls) {thread : RuntimeThread}
    {processed : List (RuntimeCommand Value)}
    (hactive : thread.isActive = true → control.isAnswer = true)
    (hparked : control.isAnswer = true ∨ control = .terminate) :
    ({ sys with
      cell := { sys.cell with runtimeControlTx := controls }, thread, processed } :
      System Item Value).Sound := by
  have hcount : sys.tokens = ({ sys with
      cell := { sys.cell with runtimeControlTx := controls }, thread, processed } :
      System Item Value).tokens + if control.isAnswer then 1 else 0 := by
    simp only [tokens, PauseView.tokens, Cell.view, hcontrol, answerCount, List.countP_cons,
      Nat.add_assoc]
    rfl
  have hle := h.tokens_le
  rw [hcount] at hle
  refine ⟨by omega, ?_, ?_, ?_, h.ready, ⟨h.answers.increasing, h.answers.received,
    h.answers.unanswered⟩⟩
  · intro hthread
    rw [if_pos (hactive hthread)] at hle
    omega
  · intro _
    rcases hparked with hanswer | rfl
    · rw [if_pos hanswer] at hle
      exact .inl (by omega)
    · refine .inr (h.begun ?_)
      simp only [Cell.view, hcontrol, List.mem_cons, true_or]
  · intro hmem
    refine h.begun ?_
    simp only [Cell.view, hcontrol]
    exact List.mem_cons_of_mem _ hmem

/-- The thread leaves a `Pending`, or ends with the cell. -/
theorem Sound.receiveControl : sys.receiveControl.Sound := by
  unfold System.receiveControl
  split
  next hcontrol =>
    split
    next hstage =>
      refine h.ended rfl (.inr ?_)
      simp [Cell.view, Cell.terminationBegun, hstage, Stage.isClosed]
    next => exact h
  next control controls hcontrol =>
    cases control with
    | «continue» => exact h.popControl hcontrol (fun _ => rfl) (.inl rfl)
    | resume => exact h.popControl hcontrol (fun _ => rfl) (.inl rfl)
    | terminate =>
      exact h.popControl hcontrol (fun hthread => absurd hthread Bool.false_ne_true) (.inr rfl)

lemma Sound.nextRuntimeCommand : sys.nextRuntimeCommand.Sound := by
  unfold System.nextRuntimeCommand
  split
  next hthread =>
    have htokens : sys.tokens = 0 := h.active (by rw [hthread]; rfl)
    split
    next next hnext => exact h.receiveCommand htokens hnext
    next =>
      have hpending : ({ sys.send .pending with thread := .paused } : System Item Value).tokens =
          sys.tokens + 1 := by
        simp only [System.send, tokens, pendingCount_append, RuntimeEvent.isPending, if_true]
        omega
      refine ⟨?_, ?_, ?_, h.begun, h.ready, h.answers⟩
      · rw [hpending, htokens]
      · intro hactive
        cases hactive
      · intro hpaused
        exact absurd rfl hpaused
  next => exact h.receiveControl
  next hthread =>
    have htokens : sys.tokens = 0 := h.active (by rw [hthread]; rfl)
    cases hnext : sys.receiveCommand with
    | none => exact h
    | some next => exact h.receiveCommand htokens hnext
  next => exact h

omit h

variable (sys)

variable (action : CellAction Item Value)

/-- A step of the actor or its callers in the system; events come from the queue only. -/
theorem step_cell_eq :
    ((∃ event, action = .eventBranch event) ∧ sys.step (.cell action) = sys) ∨
      ((∀ event, action ≠ .eventBranch event) ∧
        sys.step (.cell action) = { sys with cell := sys.cell.step action }) := by
  cases action with
  | eventBranch event => exact .inl ⟨⟨event, rfl⟩, rfl⟩
  | observe mode => exact .inr ⟨nofun, rfl⟩
  | sendObserve command => exact .inr ⟨nofun, rfl⟩
  | terminate => exact .inr ⟨nofun, rfl⟩
  | cancelSession => exact .inr ⟨nofun, rfl⟩
  | dropReceiver caller => exact .inr ⟨nofun, rfl⟩
  | cancelledBranch => exact .inr ⟨nofun, rfl⟩
  | commandBranch => exact .inr ⟨nofun, rfl⟩
  | timerBranch => exact .inr ⟨nofun, rfl⟩
  | advance => exact .inr ⟨nofun, rfl⟩

lemma step_cell :
    ∃ cell, sys.step (.cell action) = { sys with cell } ∧
      ViewStep (sys.cell.accepts action) sys.cell.view cell.view := by
  rcases step_cell_eq sys action with ⟨-, heq⟩ | ⟨hother, heq⟩
  · exact ⟨sys.cell, heq, .same⟩
  · exact ⟨_, heq, Cell.step_view action hother⟩

variable {sys}

/-- **Every step keeps the invariant.** -/
theorem step_sound (h : sys.Sound)
    (action : SystemAction Item Value) : (sys.step action).Sound := by
  have htokens : sys.thread = .running → sys.tokens = 0 := by
    intro hthread
    exact h.active (by rw [hthread]; rfl)
  cases action with
  | cell action =>
    obtain ⟨cell, heq, hview⟩ := step_cell sys action
    rw [heq]
    exact h.viewStep hview
  | receive => exact h.receive
  | respond command =>
    exact ⟨h.tokens_le, h.active, h.parked, h.begun, h.ready, h.answers⟩
  | emit event =>
    simp only [step]
    split_ifs with hemit
    · refine h.send ?_
      cases event with
      | pending => simp [RuntimeEvent.isScript] at hemit
      | _ => rfl
    · exact h
  | complete writes errorText =>
    simp only [step]
    split_ifs with hthread
    · exact Sound.ended (h.send rfl) rfl (.inl ((tokens_send rfl).trans (htokens hthread)))
    · exact h
  | unwind =>
    simp only [step]
    split_ifs with hthread
    · exact h.ended rfl (.inl (htokens hthread))
    · exact h
  | poll =>
    simp only [step]
    split_ifs with hthread
    · exact h.thread (htokens hthread)
    · exact h
  | nextCommand => exact h.nextRuntimeCommand
  | exit panicked =>
    simp only [step]
    split_ifs with hthread hpanicked
    · have hparked := h.parked (by rw [hthread]; exact RuntimeThread.noConfusion)
      exact Sound.ended (h.send rfl) rfl (hparked.imp (tokens_send rfl).trans id)
    · have hparked := h.parked (by rw [hthread]; exact RuntimeThread.noConfusion)
      exact h.ended rfl hparked
    · exact h

lemma start_sound (cancelled : Bool) (mode : ObserveMode) :
    (start cancelled mode : System Item Value).Sound := by
  refine ⟨Nat.zero_le 1, fun _ => rfl, fun _ => .inl rfl, ?_, ?_, List.Pairwise.nil, ?_, ?_⟩
  · intro hmem
    cases hmem
  · intro hready
    cases hready
  · intro answer hmem
    cases hmem
  · intro hpaused
    cases hpaused

lemma run_sound (h : sys.Sound) (actions : List (SystemAction Item Value)) :
    (sys.run actions).Sound := by
  induction actions generalizing sys with
  | nil => exact h
  | cons action actions ih => exact ih (step_sound h action)

/-! ### A pause goes on -/

/-- The step takes an observation. -/
def accepts (sys : System Item Value) : SystemAction Item Value → Bool
  | .cell action => sys.cell.accepts action
  | _ => false

/-- The script is paused, and nothing has been sent to end that. -/
structure Frozen (sys : System Item Value) : Prop where
  sound : sys.Sound
  paused : sys.cell.view.paused = true
  unbegun : sys.cell.terminationBegun = false

/-- The thread waits for a control command, and there is none. -/
theorem Frozen.stuck (h : sys.Frozen) : sys.thread = .paused ∧ sys.receiveControl = sys := by
  have hpos : 1 ≤ sys.tokens := by
    rw [tokens, PauseView.tokens, if_pos h.paused]
    omega
  have hthread : sys.thread = .paused := by
    by_contra hthread
    rcases h.sound.parked hthread with hzero | hbegun
    · omega
    · cases h.unbegun.symm.trans hbegun
  refine ⟨hthread, ?_⟩
  have hnone : answerCount sys.cell.runtimeControlTx = 0 := by
    have hle := h.sound.tokens_le
    rw [tokens, PauseView.tokens, if_pos h.paused] at hle
    have hcontrol : sys.cell.view.control = sys.cell.runtimeControlTx := rfl
    rw [hcontrol] at hle
    omega
  unfold System.receiveControl
  split
  next =>
    split
    next hstage =>
      have hunbegun := h.unbegun
      simp [Cell.terminationBegun, hstage, Stage.isClosed] at hunbegun
    next => rfl
  next control controls hcontrol =>
    exfalso
    rw [hcontrol, answerCount, List.countP_eq_zero] at hnone
    have hterminate : control = .terminate := by
      have hanswer := hnone control List.mem_cons_self
      cases control with
      | «continue» => exact absurd rfl hanswer
      | resume => exact absurd rfl hanswer
      | terminate => rfl
    have hbegun : sys.cell.view.begun = true := by
      refine h.sound.begun ?_
      rw [show sys.cell.view.control = _ from hcontrol, hterminate]
      exact List.mem_cons_self
    cases h.unbegun.symm.trans hbegun

lemma Frozen.receive (h : sys.Frozen) :
    sys.receive.cell.view.paused = true ∧ sys.receive.emitted = sys.emitted ∧
      sys.receive.processed = sys.processed := by
  unfold System.receive
  split
  next event events hstage hclosed hevents =>
    refine ⟨?_, rfl, rfl⟩
    have hother : event.isPending = false := by
      have hle := h.sound.tokens_le
      rw [tokens, hevents, pendingCount_cons, PauseView.tokens, if_pos h.paused] at hle
      by_contra hpending
      rw [if_pos (by simpa using hpending)] at hle
      omega
    have hview := Cell.eventBranch_some_view hstage hclosed event
    exact hview.paused_eq hother ▸ h.paused
  next hstage hclosed hevents =>
    split_ifs
    · refine ⟨?_, rfl, rfl⟩
      have hview : (sys.cell.eventBranch none).view = sys.cell.view :=
        Cell.eventBranch_none_view hstage
      exact (congrArg PauseView.paused hview).trans h.paused
    · exact ⟨h.paused, rfl, rfl⟩
  next => exact ⟨h.paused, rfl, rfl⟩

/-- **A pause that no observation and no termination ends goes on**, and the thread does nothing. -/
theorem Frozen.step (h : sys.Frozen) (action : SystemAction Item Value)
    (haccepts : sys.accepts action = false)
    (hunbegun : (sys.step action).cell.terminationBegun = false) :
    (sys.step action).Frozen ∧ (sys.step action).emitted = sys.emitted ∧
      (sys.step action).processed = sys.processed := by
  obtain ⟨hthread, hstuck⟩ := h.stuck
  have hsound := step_sound h.sound action
  cases action with
  | cell action =>
    obtain ⟨cell, heq, hview⟩ := step_cell sys action
    rw [heq] at hsound hunbegun ⊢
    exact ⟨⟨hsound, hview.paused_of_not_accepts haccepts h.paused, hunbegun⟩, rfl, rfl⟩
  | receive =>
    obtain ⟨hpaused, hhistory⟩ := h.receive
    exact ⟨⟨hsound, hpaused, hunbegun⟩, hhistory⟩
  | respond command => exact ⟨⟨hsound, h.paused, hunbegun⟩, rfl, rfl⟩
  | emit event =>
    have hstep : sys.step (.emit event) = sys := by simp [System.step, hthread]
    rw [hstep]
    exact ⟨h, rfl, rfl⟩
  | complete writes errorText =>
    have hstep : sys.step (.complete writes errorText) = sys := by simp [System.step, hthread]
    rw [hstep]
    exact ⟨h, rfl, rfl⟩
  | unwind =>
    have hstep : sys.step .unwind = sys := by simp [System.step, hthread]
    rw [hstep]
    exact ⟨h, rfl, rfl⟩
  | poll =>
    have hstep : sys.step .poll = sys := by simp [System.step, hthread]
    rw [hstep]
    exact ⟨h, rfl, rfl⟩
  | nextCommand =>
    have hstep : sys.step .nextCommand = sys := by
      simp only [System.step, nextRuntimeCommand, hthread, hstuck]
    rw [hstep]
    exact ⟨h, rfl, rfl⟩
  | exit panicked =>
    have hstep : sys.step (.exit panicked) = sys := by simp [System.step, hthread]
    rw [hstep]
    exact ⟨h, rfl, rfl⟩

end System

end Codex.CodeMode
