import Codex.CodeMode.Cell

/-!
# The outcome of a cell

As long as no terminal event is fixed, the output that reached observers followed by the buffer is
the output the actor received (`Open`). From the commit or from `finish_termination` on there is one
terminal event; what reached observers followed by its items is the output received, and its writes
are committed exactly when it completed (`Settled`). Which of the two holds is decided by the phase
and the stage (`Progress`).

* `one_outcome`: **all terminal events of a cell are equal, and its writes are committed once or
  never**;
* `output_delivered_once`: **the output reaches the callers once and in order**.
-/

namespace Codex.CodeMode

open Codex.Lib

variable {Item Value : Type}

/-! ### Histories -/

def CellEvent.isTerminal : CellEvent Item → Bool
  | .completed _ _ => true
  | .terminated _ => true
  | _ => false

def CellEvent.contentItems : CellEvent Item → List Item
  | .yielded contentItems => contentItems
  | .pending contentItems _ => contentItems
  | .completed contentItems _ => contentItems
  | .terminated contentItems => contentItems

/-- The event of a reply. -/
def sentEvent (reply : Caller × CellReply Item) : Option (CellEvent Item) := reply.2.toOption

variable (replies : List (Caller × CellReply Item))

/-- The terminal events sent, in sending order. -/
def terminalEvents : List (CellEvent Item) :=
  (replies.filterMap sentEvent).filter CellEvent.isTerminal

/-- The items of the `Yielded` and `Pending` events sent, in sending order. -/
def yieldedItems : List Item :=
  ((replies.filterMap sentEvent).filter fun event => !event.isTerminal).flatMap
    CellEvent.contentItems

variable (received : List (RuntimeEvent Item Value))

/-- The items of the `ContentItem` events. -/
def receivedItems : List Item :=
  received.filterMap fun
    | .contentItem item => some item
    | _ => none

/-- The writes of the `Result` events. -/
def resultWrites : List (StoredValueWrites Value) :=
  received.filterMap fun
    | .result storedValueWrites _ => some storedValueWrites
    | _ => none

/-! ### The invariant -/

/-- No terminal event is fixed; `items` are still to be delivered. -/
structure Open (replies : List (Caller × CellReply Item))
    (commits : List (StoredValueWrites Value)) (received : List (RuntimeEvent Item Value))
    (items : List Item) : Prop where
  terminals : terminalEvents replies = []
  commits : commits = []
  output : yieldedItems replies ++ items = receivedItems received

/-- The writes of the runtime: those of its one result, or none if it ended without. -/
def IsResult (storedValueWrites : StoredValueWrites Value) : Prop :=
  resultWrites received = [storedValueWrites] ∨
    (resultWrites received = [] ∧ storedValueWrites = [])

/-- The terminal event is `event`. -/
structure Settled (replies : List (Caller × CellReply Item))
    (commits : List (StoredValueWrites Value)) (received : List (RuntimeEvent Item Value))
    (event : CellEvent Item) : Prop where
  terminals : ∀ terminal ∈ terminalEvents replies, terminal = event
  output : yieldedItems replies ++ event.contentItems = receivedItems received
  outcome : (∃ contentItems errorText storedValueWrites,
      event = .completed contentItems errorText ∧ commits = [storedValueWrites] ∧
      IsResult received storedValueWrites) ∨
    (∃ contentItems, event = .terminated contentItems ∧ commits = [])

/-- No observer was sent a terminal event. -/
def Unobserved : Prop :=
  ∀ call event, CellEvent.isTerminal event = true → (.observer call, .ok event) ∉ replies

/-- No terminal event is fixed in the phase. -/
def CellPhase.IsOpen : CellPhase Item → Prop
  | .running => True
  | .terminating _ => True
  | _ => False

/-- The phase holds the terminal event. -/
def CellPhase.Holds (event : CellEvent Item) : CellPhase Item → Prop
  | .completed pendingInitialYieldItems held => pendingInitialYieldItems = none ∧ held = event
  | .completionClaimed held => held = event
  | _ => False

namespace Cell

/-- `Open` of the histories of a cell. -/
abbrev Open (cell : Cell Item Value) (items : List Item) : Prop :=
  CodeMode.Open cell.state.replies cell.commits cell.received items

/-- `Settled` of the histories of a cell. -/
abbrev Settled (cell : Cell Item Value) (event : CellEvent Item) : Prop :=
  CodeMode.Settled cell.state.replies cell.commits cell.received event

variable (cell : Cell Item Value)

/-- The phase holds the terminal event, and the runtime is done. -/
def Buffered : Prop :=
  ∃ event, cell.state.phase.Holds event ∧ cell.Settled event ∧
    Unobserved cell.state.replies ∧ cell.runtimeClosed = true ∧ cell.contentItems = []

/-- The runtime runs, or it ended with a result that is not committed. -/
def Unsettled (items : List Item) : Prop :=
  cell.state.phase.IsOpen ∧ cell.Open items

/-- What holds at each stage of a cell. -/
def Progress : Prop :=
  match cell.stage with
  | .select =>
    (cell.Unsettled cell.contentItems ∧ resultWrites cell.received = []) ∨
      (cell.Buffered ∧ cell.observer = none)
  | .routing _ =>
    (cell.Unsettled cell.contentItems ∧ resultWrites cell.received = []) ∨
      (cell.Buffered ∧ cell.observer = none)
  | .admitting _ => cell.Unsettled cell.contentItems ∧ resultWrites cell.received = []
  | .committing storedValueWrites event =>
    ∃ contentItems errorText, event = .completed contentItems errorText ∧
      cell.Unsettled contentItems ∧ IsResult cell.received storedValueWrites ∧
      cell.runtimeClosed = true ∧ cell.contentItems = []
  | .delivering (some event) =>
    ∃ contentItems errorText, event = .completed contentItems errorText ∧
      cell.Unsettled contentItems
  | .delivering none => cell.Buffered
  | .finishing _ event =>
    (∃ contentItems, event = .terminated contentItems ∧ cell.Unsettled contentItems) ∨
      ∃ settled, cell.state.phase.Holds settled ∧ cell.Settled settled ∧
        Unobserved cell.state.replies
  | .replying _ event =>
    cell.state.phase = .tombstone ∧ Unobserved cell.state.replies ∧
      ∃ settled, event = some settled ∧ cell.Settled settled
  | .leaving => cell.state.phase = .tombstone ∧ ∃ settled, cell.Settled settled
  | .tombstoned => cell.state.phase = .tombstone ∧ ∃ settled, cell.Settled settled
  | .closed => cell.state.phase = .tombstone ∧ ∃ settled, cell.Settled settled

end Cell

/-! ### Replies -/

section Replies

variable {replies : List (Caller × CellReply Item)} {commits : List (StoredValueWrites Value)}
  {received : List (RuntimeEvent Item Value)} {items : List Item} {event : CellEvent Item}
  {caller : Caller}

@[simp] lemma terminalEvents_error (error : CellError) :
    terminalEvents (replies ++ [(caller, .error error)]) = terminalEvents replies := by
  simp [terminalEvents, sentEvent, Except.toOption]

@[simp] lemma yieldedItems_error (error : CellError) :
    yieldedItems (replies ++ [(caller, .error error)]) = yieldedItems replies := by
  simp [yieldedItems, sentEvent, Except.toOption]

lemma terminalEvents_ok :
    terminalEvents (replies ++ [(caller, .ok event)]) =
      terminalEvents replies ++ if event.isTerminal then [event] else [] := by
  simp [terminalEvents, sentEvent, Except.toOption, List.filter_cons]

lemma yieldedItems_ok :
    yieldedItems (replies ++ [(caller, .ok event)]) =
      yieldedItems replies ++ if event.isTerminal then [] else event.contentItems := by
  by_cases hterminal : event.isTerminal <;>
    simp [yieldedItems, sentEvent, Except.toOption, hterminal]

lemma Settled.isTerminal (h : Settled replies commits received event) :
    event.isTerminal = true := by
  rcases h.outcome with ⟨items, errorText, writes, rfl, -⟩ | ⟨items, rfl, -⟩
  · rfl
  · rfl

/-- An event that is not terminal takes the buffer with it. -/
theorem Open.sent (event : CellEvent Item)
    (h : Open replies commits received event.contentItems) (hevent : event.isTerminal = false)
    (caller : Caller) :
    Open (replies ++ [(caller, .ok event)]) commits received [] := by
  refine ⟨?_, h.commits, ?_⟩
  · rw [terminalEvents_ok, hevent, h.terminals]
    rfl
  · rw [yieldedItems_ok, hevent, List.append_nil, ← h.output]
    rfl

lemma Settled.sent (h : Settled replies commits received event) (caller : Caller) :
    Settled (replies ++ [(caller, .ok event)]) commits received event := by
  refine ⟨?_, ?_, h.outcome⟩
  · rw [terminalEvents_ok, h.isTerminal]
    intro terminal hmem
    rcases List.mem_append.mp hmem with hmem | hmem
    · exact h.terminals terminal hmem
    · exact List.mem_singleton.mp hmem
  · rw [yieldedItems_ok, h.isTerminal, ← h.output]
    simp

lemma Open.terminated (h : Open replies commits received items) :
    Settled replies commits received (.terminated items) := by
  refine ⟨?_, h.output, .inr ⟨items, rfl, h.commits⟩⟩
  rw [h.terminals]
  intro terminal hmem
  cases hmem

lemma Open.completed (h : Open replies commits received items) (errorText : Option Text)
    {storedValueWrites : StoredValueWrites Value} (hresult : IsResult received storedValueWrites) :
    Settled replies (commits ++ [storedValueWrites]) received (.completed items errorText) := by
  refine ⟨?_, h.output, .inl ⟨items, errorText, storedValueWrites, rfl, ?_, hresult⟩⟩
  · rw [h.terminals]
    intro terminal hmem
    cases hmem
  · rw [h.commits]
    rfl

lemma mem_terminalEvents :
    event ∈ terminalEvents replies ↔
      event.isTerminal = true ∧ ∃ caller, (caller, .ok event) ∈ replies := by
  simp only [terminalEvents, List.mem_filter, List.mem_filterMap, sentEvent]
  constructor
  · rintro ⟨⟨⟨caller, reply⟩, hmem, hreply⟩, hterminal⟩
    cases reply with
    | error error => cases hreply
    | ok sent =>
      cases hreply
      exact ⟨hterminal, caller, hmem⟩
  · rintro ⟨hterminal, caller, hmem⟩
    exact ⟨⟨(caller, .ok event), hmem, rfl⟩, hterminal⟩

lemma Open.unobserved (h : Open replies commits received items) : Unobserved replies := by
  intro call event hterminal hmem
  have hevent := mem_terminalEvents.mpr ⟨hterminal, _, hmem⟩
  simp [h.terminals] at hevent

lemma Unobserved.error (h : Unobserved replies) (error : CellError) :
    Unobserved (replies ++ [(caller, .error error)]) := by
  intro call event hterminal hmem
  rcases List.mem_append.mp hmem with hmem | hmem
  · exact h call event hterminal hmem
  · simp at hmem

lemma Unobserved.terminator (h : Unobserved replies) (call : ℕ) (reply : CellReply Item) :
    Unobserved (replies ++ [(.terminator call, reply)]) := by
  intro call event hterminal hmem
  rcases List.mem_append.mp hmem with hmem | hmem
  · exact h call event hterminal hmem
  · simp at hmem

end Replies

lemma CellPhase.IsOpen.cases {phase : CellPhase Item} (h : phase.IsOpen) :
    phase = .running ∨ ∃ tx, phase = .terminating tx := by
  cases phase with
  | running => exact .inl rfl
  | terminating tx => exact .inr ⟨tx, rfl⟩
  | completed items event => exact absurd h id
  | completionClaimed event => exact absurd h id
  | tombstone => exact absurd h id

lemma CellPhase.Holds.cases {phase : CellPhase Item} {event : CellEvent Item}
    (h : phase.Holds event) : phase = .completed none event ∨ phase = .completionClaimed event := by
  cases phase with
  | running => exact absurd h id
  | terminating tx => exact absurd h id
  | completed items held =>
    obtain ⟨rfl, rfl⟩ := h
    exact .inl rfl
  | completionClaimed held =>
    obtain rfl := h
    exact .inr rfl
  | tombstone => exact absurd h id

/-! ### What callers can do to the phase -/

/-- No output is delivered, and the terminal event stays what it is. -/
structure Evolves (state state' : CellState Item) : Prop where
  unsettled : state.phase.IsOpen → state'.phase.IsOpen ∧
    terminalEvents state'.replies = terminalEvents state.replies ∧
    yieldedItems state'.replies = yieldedItems state.replies
  held : ∀ event, event.isTerminal = true → state.phase.Holds event → state'.phase.Holds event ∧
    (∀ terminal ∈ terminalEvents state'.replies,
      terminal ∈ terminalEvents state.replies ∨ terminal = event) ∧
    yieldedItems state'.replies = yieldedItems state.replies
  unobserved : Unobserved state.replies → Unobserved state'.replies
  settled : state.phase = .tombstone → state'.phase = .tombstone ∧
    terminalEvents state'.replies = terminalEvents state.replies ∧
    yieldedItems state'.replies = yieldedItems state.replies

namespace Evolves

variable {state : CellState Item}

lemma of_eq {state' : CellState Item} (hphase : state'.phase = state.phase)
    (hterminals : terminalEvents state'.replies = terminalEvents state.replies)
    (hyielded : yieldedItems state'.replies = yieldedItems state.replies)
    (hunobserved : Unobserved state.replies → Unobserved state'.replies) :
    Evolves state state' := by
  refine ⟨?_, ?_, hunobserved, ?_⟩
  · intro hopen
    exact ⟨hphase ▸ hopen, hterminals, hyielded⟩
  · intro event _ hholds
    exact ⟨hphase ▸ hholds, fun terminal hmem => .inl (hterminals ▸ hmem), hyielded⟩
  · intro hover
    exact ⟨hphase.trans hover, hterminals, hyielded⟩

lemma answer_error (caller : Caller) (error : CellError) :
    Evolves state (state.answer caller (.error error)) :=
  of_eq rfl (terminalEvents_error error) (yieldedItems_error error) fun h => h.error error

lemma send_error (caller : Caller) (error : CellError) :
    Evolves state (state.send caller (.error error)).2 := by
  unfold CellState.send
  split_ifs with hdropped
  · exact of_eq rfl rfl rfl id
  · exact answer_error caller error

lemma requestTermination (call : ℕ) : Evolves state (state.requestTermination call) := by
  unfold CellState.requestTermination
  split
  next hphase =>
    refine ⟨fun _ => ⟨trivial, rfl, rfl⟩, ?_, id, ?_⟩
    · intro event _ hholds
      rw [hphase] at hholds
      exact absurd hholds id
    · intro hover
      simp [hphase] at hover
  next => exact answer_error _ _
  next items event hphase =>
    refine ⟨?_, ?_, fun h => h.terminator call _, ?_⟩
    · intro hopen
      rw [hphase] at hopen
      exact absurd hopen id
    · intro settled hterminal hholds
      rw [hphase] at hholds
      obtain ⟨rfl, rfl⟩ := hholds
      refine ⟨rfl, ?_, ?_⟩
      · intro terminal hmem
        simp only [CellState.answer, prependInitialYield, terminalEvents_ok, hterminal,
          if_true] at hmem
        rcases List.mem_append.mp hmem with hmem | hmem
        · exact .inl hmem
        · exact .inr (List.mem_singleton.mp hmem)
      · simp only [CellState.answer, prependInitialYield, yieldedItems_ok, hterminal, if_true,
          List.append_nil]
    · intro hover
      simp [hphase] at hover
  next => exact answer_error _ _
  next => exact answer_error _ _

end Evolves

namespace Cell

variable {cell : Cell Item Value} {state' : CellState Item} {items : List Item}
  {event : CellEvent Item}

lemma Unsettled.evolve (h : cell.Unsettled items) (hstate : Evolves cell.state state') :
    ({ cell with state := state' } : Cell Item Value).Unsettled items := by
  obtain ⟨hopen, hterminals, hyielded⟩ := hstate.unsettled h.1
  refine ⟨hopen, hterminals.trans h.2.terminals, h.2.commits, ?_⟩
  simp only [hyielded, h.2.output]

lemma Settled.evolve (h : cell.Settled event)
    (hterminals : ∀ terminal ∈ terminalEvents state'.replies,
      terminal ∈ terminalEvents cell.state.replies ∨ terminal = event)
    (hyielded : yieldedItems state'.replies = yieldedItems cell.state.replies) :
    ({ cell with state := state' } : Cell Item Value).Settled event := by
  refine ⟨?_, ?_, h.outcome⟩
  · intro terminal hmem
    rcases hterminals terminal hmem with hmem | rfl
    · exact h.terminals terminal hmem
    · rfl
  · simp only [hyielded, h.output]

lemma Buffered.evolve (h : cell.Buffered) (hstate : Evolves cell.state state') :
    ({ cell with state := state' } : Cell Item Value).Buffered := by
  obtain ⟨event, hholds, hsettled, hunobserved, hrest⟩ := h
  obtain ⟨hholds', hterminals, hyielded⟩ := hstate.held event hsettled.isTerminal hholds
  exact ⟨event, hholds', hsettled.evolve hterminals hyielded, hstate.unobserved hunobserved, hrest⟩

lemma Progress.evolve (h : cell.Progress) (hstate : Evolves cell.state state') :
    ({ cell with state := state' } : Cell Item Value).Progress := by
  have hover : (cell.state.phase = .tombstone ∧ ∃ settled, cell.Settled settled) →
      state'.phase = .tombstone ∧
        ∃ settled, ({ cell with state := state' } : Cell Item Value).Settled settled := by
    rintro ⟨hphase, settled, hsettled⟩
    obtain ⟨hphase', hterminals, hyielded⟩ := hstate.settled hphase
    exact ⟨hphase', settled, hsettled.evolve (fun _ hmem => .inl (hterminals ▸ hmem)) hyielded⟩
  unfold Progress at h ⊢
  cases hstage : cell.stage with
  | select =>
    simp only [hstage] at h ⊢
    exact h.imp (fun h => ⟨h.1.evolve hstate, h.2⟩) (fun h => ⟨h.1.evolve hstate, h.2⟩)
  | routing command =>
    simp only [hstage] at h ⊢
    exact h.imp (fun h => ⟨h.1.evolve hstate, h.2⟩) (fun h => ⟨h.1.evolve hstate, h.2⟩)
  | admitting command =>
    simp only [hstage] at h ⊢
    exact ⟨h.1.evolve hstate, h.2⟩
  | committing writes event =>
    simp only [hstage] at h ⊢
    obtain ⟨items, errorText, hevent, hunsettled, hrest⟩ := h
    exact ⟨items, errorText, hevent, hunsettled.evolve hstate, hrest⟩
  | delivering rejected =>
    cases rejected with
    | none =>
      simp only [hstage] at h ⊢
      exact h.evolve hstate
    | some event =>
      simp only [hstage] at h ⊢
      obtain ⟨items, errorText, hevent, hunsettled⟩ := h
      exact ⟨items, errorText, hevent, hunsettled.evolve hstate⟩
  | finishing tx event =>
    simp only [hstage] at h ⊢
    rcases h with ⟨items, hevent, hunsettled⟩ | ⟨settled, hholds, hsettled, hunobserved⟩
    · exact .inl ⟨items, hevent, hunsettled.evolve hstate⟩
    · obtain ⟨hholds', hterminals, hyielded⟩ :=
        hstate.held settled hsettled.isTerminal hholds
      exact .inr ⟨settled, hholds', hsettled.evolve hterminals hyielded,
        hstate.unobserved hunobserved⟩
  | replying tx event =>
    simp only [hstage] at h ⊢
    obtain ⟨hphase, hunobserved, settled, hevent, hsettled⟩ := h
    obtain ⟨hphase', hterminals, hyielded⟩ := hstate.settled hphase
    exact ⟨hphase', hstate.unobserved hunobserved, settled, hevent,
      hsettled.evolve (fun _ hmem => .inl (hterminals ▸ hmem)) hyielded⟩
  | leaving =>
    simp only [hstage] at h ⊢
    exact hover h
  | tombstoned =>
    simp only [hstage] at h ⊢
    exact hover h
  | closed =>
    simp only [hstage] at h ⊢
    exact hover h

/-! ### Branches of the loop -/

/-- `Progress` at `tokio::select!`. -/
def Ready (cell : Cell Item Value) : Prop :=
  (cell.Unsettled cell.contentItems ∧ resultWrites cell.received = []) ∨
    (cell.Buffered ∧ cell.observer = none)

lemma Ready.progress (h : cell.Ready) (hstage : cell.stage = .select) : cell.Progress := by
  unfold Progress
  rw [hstage]
  exact h

lemma Progress.ready (h : cell.Progress) (hstage : cell.stage = .select) : cell.Ready := by
  unfold Progress at h
  rw [hstage] at h
  exact h

lemma Ready.finish (h : cell.Ready) : cell.finish.Progress := by
  rcases h with ⟨hunsettled, -⟩ | ⟨⟨event, hholds, hsettled, hunobserved, -⟩, -⟩
  · exact .inl ⟨cell.contentItems, rfl, hunsettled⟩
  · exact .inr ⟨event, hholds, hsettled, hunobserved⟩

lemma Ready.cancelledBranch (h : cell.Ready) (hstage : cell.stage = .select) :
    cell.cancelledBranch.Progress := by
  have hnext : ({ cell with termination := true, yieldTimer := none, commandRx := none } :
      Cell Item Value).beginTermination.Ready := h
  unfold Cell.cancelledBranch
  split_ifs with hclosed
  · exact hnext.finish
  · exact hnext.progress hstage

lemma Ready.commandBranch (h : cell.Ready) (hstage : cell.stage = .select) :
    cell.commandBranch.Progress := by
  unfold Cell.commandBranch
  split
  · split_ifs
    · exact Ready.progress h hstage
    · exact h
  · exact h.progress hstage

variable (cell)

/-- An event goes to the observer and takes its place, or the observer is gone. -/
theorem sendObserverEvent_cases (event : CellEvent Item) :
    cell.sendObserverEvent event = (false, { cell with observer := none }) ∨
      ∃ observer, cell.observer = some observer ∧ cell.sendObserverEvent event =
        (true, { cell with
          observer := none,
          state := cell.state.answer (.observer observer.responseTx) (.ok event) }) := by
  unfold sendObserverEvent
  split
  next hobserver =>
    refine .inl ?_
    rw [← hobserver]
  next observer hobserver =>
    simp only [CellState.send]
    split_ifs with hdropped
    · exact .inl rfl
    · exact .inr ⟨observer, hobserver, rfl⟩

/-- The output goes to the observer in a `Yielded`, or is put back. -/
theorem yieldToObserver_cases :
    cell.yieldToObserver = { cell with observer := none, yieldTimer := none } ∨
      ∃ observer, cell.observer = some observer ∧ cell.yieldToObserver =
        { cell with
          observer := none, contentItems := [], yieldTimer := none,
          state := cell.state.answer (.observer observer.responseTx)
            (.ok (.yielded cell.contentItems)) } := by
  unfold Cell.yieldToObserver
  rcases sendObserverEvent_cases { cell with contentItems := [], yieldTimer := none }
    (.yielded cell.contentItems) with heq | ⟨observer, hobserver, heq⟩
  · refine .inl ?_
    simp only [heq, restoreUndeliveredYield, Bool.false_eq_true, if_false, List.append_nil]
  · refine .inr ⟨observer, hobserver, ?_⟩
    simp only [heq, restoreUndeliveredYield, if_true]

variable {cell}

lemma Ready.yieldToObserver (h : cell.Ready) (hstage : cell.stage = .select) :
    cell.yieldToObserver.Progress := by
  rcases yieldToObserver_cases cell with heq | ⟨observer, hobserver, heq⟩
  · rw [heq]
    refine Ready.progress ?_ hstage
    exact h.imp id fun ⟨hbuffered, _⟩ => ⟨hbuffered, rfl⟩
  · rw [heq]
    refine Ready.progress ?_ hstage
    rcases h with ⟨hunsettled, hresults⟩ | ⟨-, hnone⟩
    · have hsent := Open.sent (.yielded cell.contentItems) hunsettled.2 rfl
        (.observer observer.responseTx)
      exact .inl ⟨⟨hunsettled.1, hsent⟩, hresults⟩
    · cases hobserver.symm.trans hnone

lemma Ready.timerBranch (h : cell.Ready) (hstage : cell.stage = .select) :
    cell.timerBranch.Progress := by
  unfold Cell.timerBranch
  split_ifs
  · exact h.yieldToObserver hstage
  · exact h.progress hstage

variable (received : List (RuntimeEvent Item Value))

lemma receivedItems_append (event : RuntimeEvent Item Value) :
    receivedItems (received ++ [event]) = receivedItems received ++ receivedItems [event] := by
  simp [receivedItems]

lemma resultWrites_append (event : RuntimeEvent Item Value) :
    resultWrites (received ++ [event]) = resultWrites received ++ resultWrites [event] := by
  simp [resultWrites]

lemma Unsettled.receive (h : cell.Unsettled items) (event : RuntimeEvent Item Value) :
    ({ cell with received := cell.received ++ [event] } : Cell Item Value).Unsettled
      (items ++ receivedItems [event]) := by
  refine ⟨h.1, h.2.terminals, h.2.commits, ?_⟩
  simp only [receivedItems_append, ← h.2.output, List.append_assoc]

lemma Unsettled.receiveOther (h : cell.Unsettled items) {event : RuntimeEvent Item Value}
    (hother : receivedItems [event] = []) :
    ({ cell with received := cell.received ++ [event] } : Cell Item Value).Unsettled items := by
  have hnext := h.receive event
  rwa [hother, List.append_nil] at hnext

lemma Unsettled.pendingEvent (h : cell.Unsettled cell.contentItems)
    (hresults : resultWrites cell.received = []) (hstage : cell.stage = .select) :
    cell.pendingEvent.Progress := by
  unfold Cell.pendingEvent
  split_ifs
  · dsimp only
    rcases sendObserverEvent_cases
      { cell with
        contentItems := [], pendingToolCallIds := [], runtimePaused := true, yieldTimer := none }
      (.pending cell.contentItems cell.pendingToolCallIds) with heq | ⟨observer, -, heq⟩
    · rw [heq]
      exact Ready.progress (.inl ⟨h, hresults⟩) hstage
    · rw [heq]
      have hsent := Open.sent (.pending cell.contentItems cell.pendingToolCallIds) h.2 rfl
        (.observer observer.responseTx)
      exact Ready.progress (.inl ⟨⟨h.1, hsent⟩, hresults⟩) hstage
  · exact Ready.progress (.inl ⟨h, hresults⟩) hstage

variable {storedValueWrites : StoredValueWrites Value}

lemma Unsettled.runtimeEnded (h : cell.Unsettled cell.contentItems)

    (hresult : IsResult cell.received storedValueWrites) (errorText : Option Text) :
    (cell.runtimeEnded storedValueWrites errorText).Progress := by
  unfold Cell.runtimeEnded
  split_ifs
  · exact .inl ⟨cell.contentItems, rfl, h⟩
  · exact ⟨cell.contentItems, errorText, rfl, h, hresult, rfl, rfl⟩

lemma Ready.yieldRequestedEvent (h : cell.Ready) (hstage : cell.stage = .select) :
    cell.yieldRequestedEvent.Progress := by
  unfold Cell.yieldRequestedEvent
  split
  · split_ifs
    · exact h.yieldToObserver hstage
    · exact h.progress hstage
  · exact h.progress hstage

/-- The handling of an event that is in the history. -/
theorem Unsettled.handleEvent (h : cell.Unsettled cell.contentItems)
    (hresults : resultWrites cell.received = []) (hstage : cell.stage = .select)
    (event : RuntimeEvent Item Value) :
    (({ cell with received := cell.received ++ [event] } : Cell Item Value).handleEvent
      (some event)).Progress := by
  have hresults' := resultWrites_append cell.received event
  rw [hresults, List.nil_append] at hresults'
  cases event with
  | started => exact Ready.progress (.inl ⟨h.receiveOther rfl, hresults'⟩) hstage
  | pending => exact Unsettled.pendingEvent (h.receiveOther rfl) hresults' hstage
  | contentItem item =>
    exact Ready.progress (.inl ⟨h.receive (.contentItem item), hresults'⟩) hstage
  | yieldRequested =>
    exact Ready.yieldRequestedEvent (.inl ⟨h.receiveOther rfl, hresults'⟩) hstage
  | toolCall id => exact Ready.progress (.inl ⟨h.receiveOther rfl, hresults'⟩) hstage
  | notify => exact Ready.progress (.inl ⟨h.receiveOther rfl, hresults'⟩) hstage
  | result writes errorText =>
    have hnext : ({ cell with
        yieldTimer := none, received := cell.received ++ [.result writes errorText] } :
        Cell Item Value).Unsettled cell.contentItems := h.receiveOther rfl
    exact hnext.runtimeEnded (.inl hresults') errorText
  | threadPanicked => exact Ready.progress (.inl ⟨h.receiveOther rfl, hresults'⟩) hstage

lemma Ready.eventBranch (h : cell.Ready) (hstage : cell.stage = .select)
    (event : Option (RuntimeEvent Item Value)) : (cell.eventBranch event).Progress := by
  unfold Cell.eventBranch
  split_ifs with hclosed
  · exact h.progress hstage
  · rcases h with ⟨hunsettled, hresults⟩ | ⟨⟨-, -, -, -, hclosed', -⟩, -⟩
    · cases event with
      | none =>
        have hreceived : cell.received ++ [] = cell.received := List.append_nil _
        simp only [Option.toList_none, hreceived, Cell.handleEvent]
        exact hunsettled.runtimeEnded (.inr ⟨hresults, rfl⟩) _
      | some event => exact hunsettled.handleEvent hresults hstage event
    · exact absurd hclosed' hclosed

/-! ### Stages -/

lemma send_cases (state : CellState Item) (caller : Caller) (reply : CellReply Item) :
    state.send caller reply = (false, state) ∨
      state.send caller reply = (true, state.answer caller reply) := by
  unfold CellState.send
  split_ifs
  · exact .inl rfl
  · exact .inr rfl

lemma Settled.tombstone (h : cell.Settled event) (caller : Caller) :
    ({ cell with
      state := { cell.state.answer caller (.ok event) with phase := .tombstone, cancelled := true },
      stage := .leaving } : Cell Item Value).Progress :=
  ⟨rfl, event, CodeMode.Settled.sent h caller⟩

lemma Buffered.route (h : cell.Buffered) (hobserver : cell.observer = none)
    (command : Observer) : (cell.route command).Progress := by
  have hbuffered := h
  obtain ⟨event, hholds, hsettled, -⟩ := h
  unfold Cell.route CellState.routeObservation
  rcases hholds.cases with hphase | hphase
  · simp only [hphase, CellState.routeCompleted, prependInitialYield]
    rcases send_cases cell.state (.observer command.responseTx) (.ok event) with heq | heq
    · rw [heq]
      exact Ready.progress (.inr ⟨hbuffered, hobserver⟩) rfl
    · rw [heq]
      exact hsettled.tombstone _
  · simp only [hphase]
    exact Ready.progress (.inr ⟨hbuffered.evolve (.send_error _ _), hobserver⟩) rfl

lemma Ready.route (h : cell.Ready) (command : Observer) : (cell.route command).Progress := by
  rcases h with ⟨hunsettled, hresults⟩ | ⟨hbuffered, hobserver⟩
  · unfold Cell.route CellState.routeObservation
    rcases hunsettled.1.cases with hphase | ⟨tx, hphase⟩
    · simp only [hphase]
      exact ⟨hunsettled, hresults⟩
    · simp only [hphase]
      exact Ready.progress (.inl ⟨hunsettled.evolve (.send_error _ _), hresults⟩) rfl
  · exact hbuffered.route hobserver command

variable (h : cell.Unsettled cell.contentItems)
include h

variable (hresults : resultWrites cell.received = [])
include hresults

variable (hstage : cell.stage = .select)
include hstage

lemma Unsettled.deliverFrontier (tx : ℕ) : (cell.deliverFrontier tx).Progress := by
  unfold Cell.deliverFrontier
  dsimp only
  rcases send_cases cell.state (.observer tx)
    (.ok (.pending cell.contentItems cell.pendingToolCallIds)) with heq | heq
  · rw [heq]
    exact Ready.progress (.inl ⟨h, hresults⟩) hstage
  · rw [heq]
    have hsent := Open.sent (.pending cell.contentItems cell.pendingToolCallIds) h.2 rfl
      (.observer tx)
    exact Ready.progress (.inl ⟨⟨h.1, hsent⟩, hresults⟩) hstage

lemma Unsettled.resumeForObservation

    (mode : ObserveMode) : (cell.resumeForObservation mode).Progress := by
  unfold Cell.resumeForObservation
  split_ifs
  · exact Ready.progress (.inl ⟨h, hresults⟩) hstage
  · cases mode with
    | yieldAfter duration => exact Ready.progress (.inl ⟨h, hresults⟩) hstage
    | pendingFrontier => exact Ready.progress (.inl ⟨h, hresults⟩) hstage

lemma Unsettled.accept

    (command : Observer) : (cell.accept command).Progress := by
  unfold Cell.accept
  dsimp only
  split_ifs
  all_goals
    apply Unsettled.resumeForObservation
    · exact h
    · exact hresults
    · exact hstage

omit hstage

omit hresults

omit h

lemma forgetClosedObserver_eq (cell : Cell Item Value) :
    ∃ observer yieldTimer, cell.forgetClosedObserver = { cell with observer, yieldTimer } := by
  unfold forgetClosedObserver
  split
  · split_ifs
    · exact ⟨none, none, rfl⟩
    · exact ⟨cell.observer, cell.yieldTimer, rfl⟩
  · exact ⟨cell.observer, cell.yieldTimer, rfl⟩

lemma Unsettled.admitObservation (h : cell.Unsettled cell.contentItems)
    (hresults : resultWrites cell.received = []) (command : Observer) :
    (cell.admitObservation command).Progress := by
  obtain ⟨observer, yieldTimer, heq⟩ := forgetClosedObserver_eq cell
  unfold Cell.admitObservation
  rw [heq]
  simp only
  split
  · refine Ready.progress (.inl ⟨?_, hresults⟩) rfl
    have hunsettled : ({ cell with observer, yieldTimer, stage := .select } :
        Cell Item Value).Unsettled cell.contentItems := h
    exact hunsettled.evolve (.send_error _ _)
  · apply Unsettled.deliverFrontier
    · exact h
    · exact hresults
    · rfl
  · apply Unsettled.accept
    · exact h
    · exact hresults
    · rfl

variable (errorText : Option Text)

lemma Unsettled.commit
    (h : cell.Unsettled items) (hresult : IsResult cell.received storedValueWrites)
    (hclosed : cell.runtimeClosed = true) (hempty : cell.contentItems = []) :
    (cell.commit storedValueWrites (.completed items errorText)).Progress := by
  unfold Cell.commit CellState.commitCompletion
  rcases h.1.cases with hphase | ⟨tx, hphase⟩
  · cases hcancelled : cell.state.cancelled with
    | false =>
      simp only [hphase]
      have hsettled := CodeMode.Open.completed h.2 errorText hresult
      exact ⟨_, ⟨rfl, rfl⟩, hsettled, h.2.unobserved, hclosed, hempty⟩
    | true =>
      simp only [hphase]
      exact ⟨items, errorText, rfl, h⟩
  · simp only [hphase]
    exact ⟨items, errorText, rfl, h⟩

lemma Unsettled.deliver (h : cell.Unsettled items) :
    (cell.deliver (some (.completed items errorText))).Progress := by
  unfold Cell.deliver CellState.deliverCompletion
  rcases h.1.cases with hphase | ⟨tx, hphase⟩
  · simp only [hphase]
    exact .inl ⟨items, rfl, h⟩
  · simp only [hphase]
    exact .inl ⟨items, rfl, h⟩

lemma Buffered.deliver (h : cell.Buffered) : (cell.deliver none).Progress := by
  have hbuffered := h
  obtain ⟨event, hholds, hsettled, hunobserved, -⟩ := h
  unfold Cell.deliver CellState.deliverCompletion
  rcases hholds.cases with hphase | hphase
  · simp only [hphase]
    cases hobserver : cell.observer with
    | none =>
      simp only [Option.map_none]
      exact Ready.progress (.inr ⟨hbuffered, rfl⟩) rfl
    | some observer =>
      simp only [Option.map_some]
      rcases send_cases cell.state (.observer observer.responseTx) (.ok event) with heq | heq
      · rw [heq]
        exact Ready.progress (.inr ⟨hbuffered, rfl⟩) rfl
      · rw [heq]
        exact Settled.tombstone hsettled _
  · simp only [hphase]
    exact .inr ⟨event, hholds, hsettled, hunobserved⟩

/-- `finish_termination` of an open cell settles on the event it is given. -/
theorem Unsettled.finishTermination (h : cell.Unsettled items) (observerTx : Option ℕ) :
    ({ cell with
      state := (cell.state.finishTermination (.terminated items)).2,
      stage := .replying observerTx (cell.state.finishTermination (.terminated items)).1 } :
      Cell Item Value).Progress := by
  have hsettled := CodeMode.Open.terminated h.2
  unfold CellState.finishTermination
  rcases h.1.cases with hphase | ⟨tx, hphase⟩
  · simp only [hphase]
    exact ⟨rfl, h.2.unobserved, _, rfl, hsettled⟩
  · simp only [hphase]
    rcases send_cases cell.state (.terminator tx) (.ok (.terminated items)) with heq | heq
    · rw [heq]
      exact ⟨rfl, h.2.unobserved, _, rfl, hsettled⟩
    · rw [heq]
      exact ⟨rfl, h.2.unobserved.terminator tx _, _, rfl, hsettled.sent _⟩

lemma Settled.finishTermination {settled : CellEvent Item} (h : cell.Settled settled)
    (hholds : cell.state.phase.Holds settled) (hunobserved : Unobserved cell.state.replies)
    (observerTx : Option ℕ) (event : CellEvent Item) :
    ({ cell with
      state := (cell.state.finishTermination event).2,
      stage := .replying observerTx (cell.state.finishTermination event).1 } :
      Cell Item Value).Progress := by
  unfold CellState.finishTermination
  rcases hholds.cases with hphase | hphase
  · simp only [hphase]
    exact ⟨rfl, hunobserved, settled, rfl, h⟩
  · simp only [hphase]
    exact ⟨rfl, hunobserved, settled, rfl, h⟩

lemma Settled.replyToObserver {settled : CellEvent Item} (h : cell.Settled settled)
    (hphase : cell.state.phase = .tombstone) (observerTx : Option ℕ) :
    (cell.replyToObserver observerTx (some settled)).Progress := by
  cases observerTx with
  | none => exact ⟨hphase, settled, h⟩
  | some tx =>
    simp only [Cell.replyToObserver]
    rcases send_cases cell.state (.observer tx) (.ok settled) with heq | heq
    · rw [heq]
      exact ⟨hphase, settled, h⟩
    · rw [heq]
      exact ⟨hphase, settled, CodeMode.Settled.sent h _⟩

lemma Progress.advance (h : cell.Progress) : cell.advance.Progress := by
  have hprogress := h
  unfold Cell.advance
  unfold Progress at h
  cases hstage : cell.stage with
  | select => exact hprogress
  | routing command =>
    simp only [hstage] at h
    exact Ready.route h command
  | admitting command =>
    simp only [hstage] at h
    exact h.1.admitObservation h.2 command
  | committing writes event =>
    simp only [hstage] at h
    obtain ⟨items, errorText, rfl, hunsettled, hresult, hclosed, hempty⟩ := h
    exact hunsettled.commit errorText hresult hclosed hempty
  | delivering rejected =>
    cases rejected with
    | none =>
      simp only [hstage] at h
      exact h.deliver
    | some event =>
      simp only [hstage] at h
      obtain ⟨items, errorText, rfl, hunsettled⟩ := h
      exact hunsettled.deliver errorText
  | finishing observerTx event =>
    simp only [hstage] at h
    rcases h with ⟨items, rfl, hunsettled⟩ | ⟨settled, hholds, hsettled, hunobserved⟩
    · exact hunsettled.finishTermination observerTx
    · exact Settled.finishTermination hsettled hholds hunobserved observerTx event
  | replying observerTx event =>
    simp only [hstage] at h
    obtain ⟨hphase, -, settled, rfl, hsettled⟩ := h
    exact Settled.replyToObserver hsettled hphase observerTx
  | leaving =>
    simp only [hstage] at h
    exact ⟨rfl, h.2⟩
  | tombstoned =>
    simp only [hstage] at h
    exact h
  | closed => exact hprogress

/-! ### Runs -/

/-- At `tokio::select!` a branch runs, at any other stage it does not. -/
theorem atSelect_cases (cell branch : Cell Item Value) :
    (cell.stage = .select ∧ cell.atSelect branch = branch) ∨ cell.atSelect branch = cell := by
  unfold atSelect
  split
  next hstage => exact .inl ⟨hstage, rfl⟩
  next => exact .inr rfl

lemma Progress.atSelect {branch : Cell Item Value} (h : cell.Progress)
    (hbranch : cell.Ready → cell.stage = .select → branch.Progress) :
    (cell.atSelect branch).Progress := by
  rcases atSelect_cases cell branch with ⟨hstage, heq⟩ | heq
  · rw [heq]
    exact hbranch (h.ready hstage) hstage
  · rw [heq]
    exact h

lemma Progress.sendObserve (h : cell.Progress) (command : Observer) :
    (cell.sendObserve command).Progress := by
  unfold Cell.sendObserve
  split_ifs
  · split
    · exact h
    · exact h.evolve (.answer_error _ _)
  · exact h

/-- **Every step keeps what holds at the stages.** -/
theorem step_progress (h : cell.Progress) (action : CellAction Item Value) :
    (cell.step action).Progress := by
  cases action with
  | observe mode =>
    simp only [step, Cell.observe]
    split_ifs
    · exact h
    · exact h.evolve (.answer_error _ _)
  | sendObserve command => exact h.sendObserve command
  | terminate => exact h.evolve (.requestTermination cell.nextCall)
  | cancelSession => exact h
  | dropReceiver caller => exact h
  | cancelledBranch =>
    simp only [step]
    split_ifs
    · exact h.atSelect Ready.cancelledBranch
    · exact h
  | commandBranch => exact h.atSelect Ready.commandBranch
  | timerBranch => exact h.atSelect Ready.timerBranch
  | eventBranch event => exact h.atSelect fun hready hstage => hready.eventBranch hstage event
  | advance => exact h.advance

lemma start_progress (cancelled : Bool) (mode : ObserveMode) :
    (start cancelled mode : Cell Item Value).Progress :=
  .inl ⟨⟨trivial, rfl, rfl, rfl⟩, rfl⟩

lemma run_progress (h : cell.Progress) (actions : List (CellAction Item Value)) :
    (cell.run actions).Progress := by
  induction actions generalizing cell with
  | nil => exact h
  | cons action actions ih => exact ih (step_progress h action)

/-- A cell that sent a terminal event is settled on it. -/
theorem Progress.settled (h : cell.Progress) (hmem : event ∈ terminalEvents cell.state.replies) :
    cell.Settled event := by
  have hopen : ∀ {items : List Item}, cell.Open items → cell.Settled event := by
    intro items hopen
    simp [hopen.terminals] at hmem
  have hsettled : ∀ {settled : CellEvent Item}, cell.Settled settled → cell.Settled event := by
    intro settled hsettled
    obtain rfl := hsettled.terminals event hmem
    exact hsettled
  have hready : cell.Ready → cell.Settled event := by
    rintro (⟨hunsettled, -⟩ | ⟨⟨settled, -, h, -⟩, -⟩)
    · exact hopen hunsettled.2
    · exact hsettled h
  unfold Progress at h
  split at h
  · exact hready h
  · exact hready h
  · exact hopen h.1.2
  · obtain ⟨items, errorText, -, hunsettled, -⟩ := h
    exact hopen hunsettled.2
  · obtain ⟨items, errorText, -, hunsettled⟩ := h
    exact hopen hunsettled.2
  · obtain ⟨settled, -, h, -⟩ := h
    exact hsettled h
  · rcases h with ⟨items, -, hunsettled⟩ | ⟨settled, -, h, -⟩
    · exact hopen hunsettled.2
    · exact hsettled h
  · obtain ⟨-, -, settled, -, h⟩ := h
    exact hsettled h
  all_goals
    obtain ⟨-, settled, h⟩ := h
    exact hsettled h

/-- The loop of the actor has ended. -/
def IsOver (cell : Cell Item Value) : Prop :=
  cell.state.phase = .tombstone ∧
    (cell.stage = .leaving ∨ cell.stage = .tombstoned ∨ cell.stage = .closed)

/-- **An observer is sent a terminal event only as the loop ends.** -/
theorem Progress.isOver (h : cell.Progress) {call : ℕ} (hterminal : event.isTerminal = true)
    (hmem : (.observer call, .ok event) ∈ cell.state.replies) : cell.IsOver := by
  have hready : cell.Ready → Unobserved cell.state.replies := by
    rintro (⟨hunsettled, -⟩ | ⟨⟨settled, -, -, hunobserved, -⟩, -⟩)
    · exact hunsettled.2.unobserved
    · exact hunobserved
  have hover : ∀ {P : Prop}, Unobserved cell.state.replies → P :=
    fun hunobserved => absurd hmem (hunobserved call event hterminal)
  unfold Progress at h
  split at h
  next => exact hover (hready h)
  next => exact hover (hready h)
  next => exact hover h.1.2.unobserved
  next =>
    obtain ⟨items, errorText, -, hunsettled, -⟩ := h
    exact hover hunsettled.2.unobserved
  next =>
    obtain ⟨items, errorText, -, hunsettled⟩ := h
    exact hover hunsettled.2.unobserved
  next =>
    obtain ⟨settled, -, -, hunobserved, -⟩ := h
    exact hover hunobserved
  next =>
    rcases h with ⟨items, -, hunsettled⟩ | ⟨settled, -, -, hunobserved⟩
    · exact hover hunsettled.2.unobserved
    · exact hover hunobserved
  next => exact hover h.2.1
  next hstage => exact ⟨h.1, .inl hstage⟩
  next hstage => exact ⟨h.1, .inr (.inl hstage)⟩
  next hstage => exact ⟨h.1, .inr (.inr hstage)⟩

/-- From one cell to a later one every reply is an error, and every call got one. -/
structure OnlyFails (cell later : Cell Item Value) : Prop where
  stays : later.IsOver
  nextCall : cell.nextCall ≤ later.nextCall
  replies : ∃ new, later.state.replies = cell.state.replies ++ new ∧
    (∀ reply ∈ new, ∃ error, reply.2 = .error error) ∧
    ∀ call, cell.nextCall ≤ call → call < later.nextCall →
      (.observer call, .error .closed) ∈ new ∨ (.terminator call, .error .closed) ∈ new

lemma OnlyFails.of_eq {later : Cell Item Value} (hover : later.IsOver)
    (hnext : later.nextCall = cell.nextCall)
    (hreplies : later.state.replies = cell.state.replies) : OnlyFails cell later := by
  refine ⟨hover, hnext.ge, [], ?_, ?_, ?_⟩
  · rw [hreplies, List.append_nil]
  · intro reply hmem
    cases hmem
  · intro call hle hlt
    omega

lemma OnlyFails.of_call {later : Cell Item Value} (hover : later.IsOver)
    (hnext : later.nextCall = cell.nextCall + 1) {caller : Caller}
    (hcaller : caller = .observer cell.nextCall ∨ caller = .terminator cell.nextCall)
    (hreplies : later.state.replies = cell.state.replies ++ [(caller, .error .closed)]) :
    OnlyFails cell later := by
  refine ⟨hover, by omega, _, hreplies, ?_, ?_⟩
  · intro reply hmem
    obtain rfl := List.mem_singleton.mp hmem
    exact ⟨.closed, rfl⟩
  · intro call hle hlt
    obtain rfl : call = cell.nextCall := by omega
    rcases hcaller with rfl | rfl
    · exact .inl (List.mem_singleton.mpr rfl)
    · exact .inr (List.mem_singleton.mpr rfl)

lemma OnlyFails.trans {next later : Cell Item Value} (h : OnlyFails cell next)
    (h' : OnlyFails next later) : OnlyFails cell later := by
  obtain ⟨new, hreplies, herrors, hcalls⟩ := h.replies
  obtain ⟨new', hreplies', herrors', hcalls'⟩ := h'.replies
  refine ⟨h'.stays, h.nextCall.trans h'.nextCall, new ++ new', ?_, ?_, ?_⟩
  · rw [hreplies', hreplies, List.append_assoc]
  · intro reply hmem
    rcases List.mem_append.mp hmem with hmem | hmem
    · exact herrors reply hmem
    · exact herrors' reply hmem
  · intro call hle hlt
    by_cases hcall : call < next.nextCall
    · exact (hcalls call hle hcall).imp (List.mem_append_left _) (List.mem_append_left _)
    · exact (hcalls' call (by omega) hlt).imp (List.mem_append_right _) (List.mem_append_right _)

lemma IsOver.advance (h : cell.IsOver) : OnlyFails cell cell.advance := by
  unfold Cell.advance
  rcases h with ⟨hphase, hstage | hstage | hstage⟩
  · rw [hstage]
    exact .of_eq ⟨rfl, .inr (.inl rfl)⟩ rfl rfl
  · rw [hstage]
    exact .of_eq ⟨hphase, .inr (.inr rfl)⟩ rfl rfl
  · rw [hstage]
    exact .of_eq ⟨hphase, .inr (.inr hstage)⟩ rfl rfl

lemma IsOver.atSelect (h : cell.IsOver) (branch : Cell Item Value) :
    cell.atSelect branch = cell := by
  unfold Cell.atSelect
  rcases h with ⟨-, hstage | hstage | hstage⟩
  all_goals rw [hstage]

lemma IsOver.sendObserve (h : cell.IsOver) (command : Observer) :
    OnlyFails cell (cell.sendObserve command) := by
  unfold Cell.sendObserve
  split_ifs
  · split
    · exact .of_eq h rfl rfl
    · refine ⟨h, le_rfl, [(.observer command.responseTx, .error .closed)], rfl, ?_, ?_⟩
      · intro reply hmem
        obtain rfl := List.mem_singleton.mp hmem
        exact ⟨.closed, rfl⟩
      · intro call hle hlt
        exact absurd hlt (Nat.not_lt.mpr hle)
  · exact .of_eq h rfl rfl

lemma IsOver.step (h : cell.IsOver) (action : CellAction Item Value) :
    OnlyFails cell (cell.step action) := by
  have hclosed : cell.state.acceptingObservations = false := by
    simp [CellState.acceptingObservations, h.1]
  cases action with
  | observe mode =>
    simp only [Cell.step, Cell.observe, hclosed, Bool.false_eq_true, if_false]
    exact .of_call h rfl (.inl rfl) rfl
  | sendObserve command => exact h.sendObserve command
  | terminate =>
    simp only [Cell.step, Cell.terminate, CellState.requestTermination, h.1]
    exact .of_call h rfl (.inr rfl) rfl
  | cancelSession => exact .of_eq h rfl rfl
  | dropReceiver caller => exact .of_eq h rfl rfl
  | cancelledBranch =>
    simp only [Cell.step, h.atSelect, ite_self]
    exact .of_eq h rfl rfl
  | commandBranch =>
    simp only [Cell.step, h.atSelect]
    exact .of_eq h rfl rfl
  | timerBranch =>
    simp only [Cell.step, h.atSelect]
    exact .of_eq h rfl rfl
  | eventBranch event =>
    simp only [Cell.step, h.atSelect]
    exact .of_eq h rfl rfl
  | advance => exact h.advance

lemma IsOver.run (h : cell.IsOver) (actions : List (CellAction Item Value)) :
    OnlyFails cell (cell.run actions) := by
  induction actions generalizing cell with
  | nil => exact .of_eq h rfl rfl
  | cons action actions ih => exact (h.step action).trans (ih (h.step action).stays)

end Cell

/-- **A cell has one terminal outcome.** In every run of the actor with its callers: all terminal
events sent are equal; a completed outcome has its writes committed exactly once, a terminated one
never; and once an observer was sent the terminal event, every later call gets the error `Closed`
and nobody gets anything but errors. -/
theorem one_outcome (cancelled : Bool) (mode : ObserveMode)
    (actions : List (CellAction Item Value)) :
    let cell := (Cell.start cancelled mode).run actions
    (∀ event ∈ terminalEvents cell.state.replies, ∀ other ∈ terminalEvents cell.state.replies,
      event = other) ∧
    (∀ contentItems errorText,
      .completed contentItems errorText ∈ terminalEvents cell.state.replies →
      ∃ storedValueWrites, cell.commits = [storedValueWrites] ∧
        IsResult cell.received storedValueWrites) ∧
    (∀ contentItems, .terminated contentItems ∈ terminalEvents cell.state.replies →
      cell.commits = []) ∧
    ∀ call event, event.isTerminal = true → (.observer call, .ok event) ∈ cell.state.replies →
      ∀ later, cell.OnlyFails (cell.run later) := by
  intro cell
  have hprogress : cell.Progress := Cell.run_progress (Cell.start_progress cancelled mode) actions
  refine ⟨?_, ?_, ?_, ?_⟩
  · intro event hevent other hother
    exact (hprogress.settled hother).terminals event hevent
  · intro contentItems errorText hmem
    rcases (hprogress.settled hmem).outcome with ⟨_, _, writes, -, hcommits, hresult⟩ | ⟨_, h, -⟩
    · exact ⟨writes, hcommits, hresult⟩
    · cases h
  · intro contentItems hmem
    rcases (hprogress.settled hmem).outcome with ⟨_, _, _, h, -⟩ | ⟨_, -, hcommits⟩
    · cases h
    · exact hcommits
  · intro call event hterminal hmem later
    exact (hprogress.isOver hterminal hmem).run later

/-- **Cell output is delivered once and in order.** In every run, what the observers were sent in
`Yielded` and `Pending` events, followed by the items of the terminal event, is the output that the
actor received. -/
theorem output_delivered_once (cancelled : Bool) (mode : ObserveMode)
    (actions : List (CellAction Item Value)) :
    let cell := (Cell.start cancelled mode).run actions
    ∀ event ∈ terminalEvents cell.state.replies,
      yieldedItems cell.state.replies ++ event.contentItems = receivedItems cell.received := by
  intro cell event hmem
  exact ((Cell.run_progress (Cell.start_progress cancelled mode) actions).settled hmem).output

/-- An observer takes a yield, its successor the result. -/
theorem output_delivered_once_successors :
    yieldedItems ((Cell.start false (.yieldAfter 5) : Cell ℕ ℕ).run
        [.eventBranch (some .started), .eventBranch (some (.contentItem 7)), .timerBranch,
          .eventBranch (some (.contentItem 8)), .eventBranch (some (.result [] none)), .advance,
          .advance, .observe .pendingFrontier, .sendObserve ⟨.pendingFrontier, 1⟩, .commandBranch,
          .advance]).state.replies ++ [8] = [7, 8] :=
  output_delivered_once false (.yieldAfter 5) _ (.completed [8] none) (by decide)

end Codex.CodeMode
