import Codex.ExecServer.SessionEvents

/-!
# A session follows the log of its process

Notifications may be lost, repeated and reordered, and reads may be answered late: in every run the
session has published a prefix of the log of the process. A recovery that succeeds reaches the end
of what was read. When exactly one number is missing and the exit is known to be among the missing
events, the missing number is that of the exit; that is what `insertExited` rests on.

* `Follows.publishReady`, `publishReady_reaches`: what the loop publishes, and how far;
* `Follows.recoverEvents`, `recoverEvents_reaches`: a recovery;
* `followed_run`: every run.
-/

namespace Codex.ExecServer

open Codex.Lib

variable {log : List ExecProcessEvent}

/-! ### Events that wait -/

/-- The events that wait are of the log and to come, and the exit is noted when it is past. -/
structure Waits (log : List ExecProcessEvent) (ordered : OrderedSessionEvents) : Prop where
  reached : ordered.lastPublishedSeq ≤ log.length
  pending : ∀ seq event, ordered.pending.lookup seq = some event →
    ordered.lastPublishedSeq < seq ∧ At log seq event
  exit : ∀ seq event, At log seq event → event.isExited = true →
    seq ≤ ordered.lastPublishedSeq → ordered.exitPublished = true

section waits

variable {ordered ordered' : OrderedSessionEvents} {seq targetSeq : ℕ} {event : ExecProcessEvent}

lemma Waits.new (log : List ExecProcessEvent) : Waits log .new := by
  refine ⟨Nat.zero_le _, ?_, ?_⟩
  · intro seq event hlookup
    exact absurd hlookup (by simp [OrderedSessionEvents.new])
  · intro seq event hat _ hle
    exact absurd (Nat.le_zero.mp hle) hat.1.ne'

lemma Waits.insert (h : Waits log ordered) (hlt : ordered.lastPublishedSeq < seq)
    (hat : At log seq event) :
    Waits log { ordered with pending := ordered.pending.insert seq event } := by
  refine ⟨h.reached, ?_, h.exit⟩
  intro other event' hlookup
  by_cases hother : other = seq
  · subst hother
    simp only [AList.lookup_insert, Option.some.injEq] at hlookup
    subst hlookup
    exact ⟨hlt, hat⟩
  · simp only [AList.lookup_insert_ne hother] at hlookup
    exact h.pending other event' hlookup

lemma lastPublishedSeq_orInsert (ordered : OrderedSessionEvents) (seq : ℕ)
    (event : ExecProcessEvent) :
    (ordered.orInsert seq event).lastPublishedSeq = ordered.lastPublishedSeq := by
  unfold OrderedSessionEvents.orInsert
  split <;> rfl

variable (h : Waits log ordered)
include h

lemma Waits.orInsert (hlt : ordered.lastPublishedSeq < seq)
    (hat : At log seq event) : Waits log (ordered.orInsert seq event) := by
  unfold OrderedSessionEvents.orInsert
  split
  · exact h
  · exact h.insert hlt hat

lemma Waits.insertChunks {chunks : List ProcessOutputChunk}
    (hchunks : ∀ chunk ∈ chunks, At log chunk.seq (.output chunk)) :
    Waits log (chunks.foldl .insertChunk ordered) ∧
      (chunks.foldl OrderedSessionEvents.insertChunk ordered).lastPublishedSeq =
        ordered.lastPublishedSeq := by
  induction chunks generalizing ordered with
  | nil => exact ⟨h, rfl⟩
  | cons chunk chunks ih =>
    have hhead : Waits log (ordered.insertChunk chunk) ∧
        (ordered.insertChunk chunk).lastPublishedSeq = ordered.lastPublishedSeq := by
      unfold OrderedSessionEvents.insertChunk
      split_ifs with hlt
      · exact ⟨h.orInsert hlt (hchunks chunk List.mem_cons_self), lastPublishedSeq_orInsert _ _ _⟩
      · exact ⟨h, rfl⟩
    obtain ⟨hwaits, hlast⟩ :=
      ih hhead.1 fun other hother => hchunks other (List.mem_cons_of_mem _ hother)
    exact ⟨hwaits, hlast.trans hhead.2⟩

lemma Waits.insertClosed (hlt : ordered.lastPublishedSeq < targetSeq)
    (hat : At log targetSeq (.closed targetSeq))
    (hinsert : ordered.insertClosed targetSeq = .ok ordered') :
    Waits log ordered' ∧ ordered'.lastPublishedSeq = ordered.lastPublishedSeq := by
  unfold OrderedSessionEvents.insertClosed at hinsert
  split at hinsert
  · cases hinsert
    exact ⟨h, rfl⟩
  · cases hinsert
  · cases hinsert
    exact ⟨h.insert hlt hat, rfl⟩

omit h

/-! ### The missing number -/

lemma firstMissing_eq {p : ℕ → Bool} {lo n e : ℕ} (hlo : lo ≤ e) (he : e < lo + n)
    (hmax : e ≤ u64Max) (hbefore : ∀ i, lo ≤ i → i < e → p i = true) (hnot : p e = false) :
    OrderedSessionEvents.firstMissing lo ((List.range' lo n).filter p) = e := by
  induction n generalizing lo with
  | zero => omega
  | succ n ih =>
    rw [List.range'_succ]
    by_cases hfirst : lo = e
    · subst hfirst
      rw [List.filter_cons_of_neg (by simp [hnot])]
      cases hrest : (List.range' (lo + 1) n).filter p with
      | nil => rfl
      | cons second rest =>
        have hmem : second ∈ (List.range' (lo + 1) n).filter p := by
          rw [hrest]
          exact List.mem_cons_self
        have hlarger := (List.mem_range'_1.mp (List.mem_filter.mp hmem).1).1
        unfold OrderedSessionEvents.firstMissing
        rw [if_pos (by omega)]
    · rw [List.filter_cons_of_pos (hbefore lo le_rfl (by omega))]
      unfold OrderedSessionEvents.firstMissing
      have hnext : saturatingSucc lo = lo + 1 := min_eq_left (by omega)
      rw [if_neg (by simp), hnext]
      exact ih (by omega) (by omega) fun i hi hlt => hbefore i (by omega) hlt

/-- An exit that is not known is not among the events that wait. -/
theorem Waits.exit_missing (h : Waits log ordered) (hknown : ordered.exitKnown targetSeq = false)
    (hat : At log seq event) (hexited : event.isExited = true) (hle : seq ≤ targetSeq) :
    ordered.lastPublishedSeq < seq ∧ (ordered.pending.lookup seq).isSome = false := by
  rw [OrderedSessionEvents.exitKnown, Bool.or_eq_false_iff] at hknown
  obtain ⟨hpublished, hwaiting⟩ := hknown
  refine ⟨?_, ?_⟩
  · by_contra hpast
    have hnoted := h.exit seq event hat hexited (not_lt.mp hpast)
    simp [hpublished] at hnoted
  · by_contra hsome
    rw [Bool.not_eq_false] at hsome
    obtain ⟨other, hlookup⟩ := Option.isSome_iff_exists.mp hsome
    have hother : other = event := (h.pending seq other hlookup).2.unique hat
    have hmem : seq ∈ ordered.pendingRange 0 targetSeq := by
      rw [OrderedSessionEvents.pendingRange, List.mem_filter, List.mem_range'_1]
      exact ⟨⟨Nat.zero_le _, by omega⟩, hsome⟩
    have hany := List.any_eq_false.mp hwaiting seq hmem
    rw [hlookup, hother] at hany
    simp [hexited] at hany

/-- What is filled in is right, and then nothing is missing. -/
theorem Waits.insertExited (h : Waits log ordered) (hlt : ordered.lastPublishedSeq < targetSeq)
    (hmax : targetSeq ≤ u64Max) {exited : Bool} {exitCode : Option ℤ}
    (hexited : exited = true → ∃ seq code, exitCode = some code ∧ seq ≤ targetSeq ∧
      At log seq (.exited seq code))
    (hinsert : ordered.insertExited targetSeq exited exitCode = .ok ordered') :
    Waits log ordered' ∧ ordered'.lastPublishedSeq = ordered.lastPublishedSeq ∧
      ∀ i, ordered.lastPublishedSeq < i → i ≤ targetSeq →
        (ordered'.pending.lookup i).isSome = true := by
  have hfirst : saturatingSucc ordered.lastPublishedSeq = ordered.lastPublishedSeq + 1 :=
    min_eq_left (by omega)
  have hcount : ordered.missingCount targetSeq = targetSeq - ordered.lastPublishedSeq -
      ((List.range' (ordered.lastPublishedSeq + 1) (targetSeq - ordered.lastPublishedSeq)).filter
        fun seq => (ordered.pending.lookup seq).isSome).length := by
    unfold OrderedSessionEvents.missingCount OrderedSessionEvents.pendingRange
    rw [hfirst, Nat.add_sub_add_right]
  have hfilter := List.length_filter_le (fun seq => (ordered.pending.lookup seq).isSome)
    (List.range' (ordered.lastPublishedSeq + 1) (targetSeq - ordered.lastPublishedSeq))
  rw [List.length_range'] at hfilter
  unfold OrderedSessionEvents.insertExited at hinsert
  simp only at hinsert
  split_ifs at hinsert with hunknown hone hnone
  · obtain ⟨hexit, hunknown⟩ : exited = true ∧ ordered.exitKnown targetSeq = false := by
      simpa using hunknown
    obtain ⟨seq, code, rfl, hle, hat⟩ := hexited hexit
    obtain ⟨hlater, hmissing⟩ := h.exit_missing hunknown hat rfl hle
    have hallButOne : ((List.range' (ordered.lastPublishedSeq + 1)
        (targetSeq - ordered.lastPublishedSeq)).filter
          fun seq => (ordered.pending.lookup seq).isSome).length + 1 =
        targetSeq - ordered.lastPublishedSeq := by omega
    have hothers := all_but_of_length_filter hallButOne
      (show ordered.lastPublishedSeq + 1 ≤ seq by omega) (by omega) hmissing
    have hseq : ordered.firstMissingSeq targetSeq = seq := by
      unfold OrderedSessionEvents.firstMissingSeq OrderedSessionEvents.pendingRange
      rw [hfirst]
      refine firstMissing_eq (by omega) (by omega) (by omega) ?_ hmissing
      intro i hi hlt'
      exact hothers i hi (by omega) (by omega)
    simp only [hseq] at hinsert
    cases hinsert
    refine ⟨h.insert hlater hat, rfl, ?_⟩
    intro i hi hle'
    by_cases hother : i = seq
    · subst hother
      simp
    · simp only [AList.lookup_insert_ne hother]
      exact hothers i (by omega) (by omega) hother
  · cases hinsert
    have hall : ((List.range' (ordered.lastPublishedSeq + 1)
        (targetSeq - ordered.lastPublishedSeq)).filter
          fun seq => (ordered.pending.lookup seq).isSome).length =
        targetSeq - ordered.lastPublishedSeq := by omega
    refine ⟨h, rfl, ?_⟩
    intro i hi hle
    exact all_of_length_filter hall i hi (by omega)

end waits

/-! ### Publishing -/

/-- The sequenced events that were published. -/
def SessionState.sequenced (session : SessionState) : List ExecProcessEvent :=
  session.events.filter (·.seq.isSome)

/-- The session has published the log up to its last number. -/
structure Follows (log : List ExecProcessEvent) (session : SessionState) : Prop where
  waits : Waits log session.orderedEvents
  published : session.sequenced = log.take session.orderedEvents.lastPublishedSeq

/-- Every event of the log has its number. -/
def IsNumbered (log : List ExecProcessEvent) : Prop :=
  ∀ seq event, At log seq event → event.seq = some seq

section publishing

variable {session : SessionState} {seq : ℕ} {event : ExecProcessEvent}

lemma Follows.new (log : List ExecProcessEvent) : Follows log .new := ⟨Waits.new log, rfl⟩

variable (h : Follows log session)
include h

/-- Only the number after the last one is published. -/
theorem Follows.next_eq
    (hlookup : session.orderedEvents.pending.lookup
      (saturatingSucc session.orderedEvents.lastPublishedSeq) = some event) :
    saturatingSucc session.orderedEvents.lastPublishedSeq =
      session.orderedEvents.lastPublishedSeq + 1 := by
  have hlt := (h.waits.pending _ _ hlookup).1
  unfold saturatingSucc at hlt ⊢
  omega

variable (hnumbered : IsNumbered log)
include hnumbered

lemma Follows.publishEvent
    (hlookup : session.orderedEvents.pending.lookup
      (session.orderedEvents.lastPublishedSeq + 1) = some event) :
    Follows log (session.publishEvent (session.orderedEvents.lastPublishedSeq + 1) event) := by
  obtain ⟨-, hat⟩ := h.waits.pending _ _ hlookup
  refine ⟨⟨hat.le_length, ?_, ?_⟩, ?_⟩
  · intro other event' hother
    simp only [SessionState.publishEvent] at hother
    have hne : other ≠ session.orderedEvents.lastPublishedSeq + 1 := by
      rintro rfl
      simp [AList.lookup_erase] at hother
    rw [AList.lookup_erase_ne hne] at hother
    obtain ⟨hlt, hat'⟩ := h.waits.pending other event' hother
    exact ⟨by simp only [SessionState.publishEvent]; omega, hat'⟩
  · intro other event' hat' hexited hle
    simp only [SessionState.publishEvent] at hle ⊢
    rcases Nat.lt_or_ge session.orderedEvents.lastPublishedSeq other with hlt | hge
    · have hother : other = session.orderedEvents.lastPublishedSeq + 1 := by omega
      subst hother
      rw [hat.unique hat', hexited, Bool.or_true]
    · rw [h.waits.exit other event' hat' hexited hge, Bool.true_or]
  · have hseq := hnumbered _ _ hat
    simp only [SessionState.publishEvent]
    rw [take_succ_of_at hat, ← h.published]
    simp [SessionState.sequenced, hseq]

/-- What the loop does: it publishes the log on, leaves what is later, and stops at a gap. -/
theorem Follows.publishRounds
    {rounds : ℕ} (hrounds : session.orderedEvents.pending.entries.length ≤ rounds)
    (publishedClosed : Bool) :
    let next := (SessionState.publishRounds rounds session publishedClosed).2
    Follows log next ∧
      session.orderedEvents.lastPublishedSeq ≤ next.orderedEvents.lastPublishedSeq ∧
      (∀ seq, next.orderedEvents.lastPublishedSeq < seq →
        next.orderedEvents.pending.lookup seq = session.orderedEvents.pending.lookup seq) ∧
      next.orderedEvents.pending.lookup
        (saturatingSucc next.orderedEvents.lastPublishedSeq) = none := by
  induction rounds generalizing session publishedClosed with
  | zero =>
    have hempty : session.orderedEvents.pending.entries = [] :=
      List.length_eq_zero_iff.mp (Nat.le_zero.mp hrounds)
    refine ⟨h, le_rfl, fun seq _ => rfl, ?_⟩
    simp [SessionState.publishRounds, AList.lookup, hempty]
  | succ rounds ih =>
    cases hlookup : session.orderedEvents.pending.lookup
        (saturatingSucc session.orderedEvents.lastPublishedSeq) with
    | none =>
      have hstop : SessionState.publishRounds (rounds + 1) session publishedClosed =
          (publishedClosed, session) := by
        simp only [SessionState.publishRounds, hlookup]
      rw [hstop]
      exact ⟨h, le_rfl, fun seq _ => rfl, hlookup⟩
    | some event =>
      have hnext := h.next_eq hlookup
      have hgo : SessionState.publishRounds (rounds + 1) session publishedClosed =
          SessionState.publishRounds rounds
            (session.publishEvent (session.orderedEvents.lastPublishedSeq + 1) event)
            (publishedClosed || event.isClosed) := by
        simp only [SessionState.publishRounds, hlookup]
        rw [hnext]
      rw [hnext] at hlookup
      have hmem : session.orderedEvents.lastPublishedSeq + 1 ∈ session.orderedEvents.pending :=
        AList.lookup_isSome.mp (Option.isSome_of_eq_some hlookup)
      have hless := entries_length_erase_lt hmem
      have hfew : (session.publishEvent (session.orderedEvents.lastPublishedSeq + 1)
          event).orderedEvents.pending.entries.length ≤ rounds :=
        Nat.le_of_lt_succ (lt_of_lt_of_le hless hrounds)
      rw [hgo]
      obtain ⟨hfollows, hle, hlater, hgap⟩ :=
        ih (h.publishEvent hnumbered hlookup) hfew (publishedClosed || event.isClosed)
      refine ⟨hfollows, Nat.le_of_succ_le hle, ?_, hgap⟩
      intro seq hseq
      rw [hlater seq hseq]
      exact AList.lookup_erase_ne (lt_of_le_of_lt hle hseq).ne'

lemma Follows.publishReady : Follows log session.publishReady.2 :=
  (h.publishRounds hnumbered le_rfl false).1

/-- The loop gets past everything that waits without a gap. -/
theorem publishReady_reaches {targetSeq : ℕ} (hmax : targetSeq ≤ u64Max)
    (hall : ∀ i, session.orderedEvents.lastPublishedSeq < i → i ≤ targetSeq →
      (session.orderedEvents.pending.lookup i).isSome = true) :
    targetSeq ≤ session.publishReady.2.orderedEvents.lastPublishedSeq := by
  have hrounds := h.publishRounds hnumbered le_rfl false
  unfold SessionState.publishReady
  generalize (SessionState.publishRounds _ session false).2 = next at hrounds ⊢
  obtain ⟨-, hle, hlater, hgap⟩ := hrounds
  by_contra hshort
  rw [not_le] at hshort
  have hnext : saturatingSucc next.orderedEvents.lastPublishedSeq =
      next.orderedEvents.lastPublishedSeq + 1 := min_eq_left (by omega)
  have hthere := hall (next.orderedEvents.lastPublishedSeq + 1) (by omega) (by omega)
  rw [← hlater _ (by omega), ← hnext, hgap] at hthere
  cases hthere

lemma Follows.publishOrderedEvent
    (hat : At log seq event) : Follows log (session.publishOrderedEvent event).2 := by
  unfold SessionState.publishOrderedEvent
  rw [hnumbered seq event hat]
  simp only
  split_ifs with hover
  · exact h
  · apply Follows.publishReady _ hnumbered
    have hlt : session.orderedEvents.lastPublishedSeq < seq := by
      simp only [SessionState.isOver, Bool.or_eq_true, decide_eq_true_eq, not_or] at hover
      omega
    refine ⟨h.waits.orInsert hlt hat, ?_⟩
    rw [lastPublishedSeq_orInsert]
    exact h.published

omit hnumbered

lemma Follows.setFailure (message : Text) : Follows log (session.setFailure message) := by
  unfold SessionState.setFailure
  split_ifs
  · exact h
  · refine ⟨⟨h.waits.reached, ?_, h.waits.exit⟩, ?_⟩
    · intro seq event hlookup
      cases hlookup
    · have hsame : (⟨{ session.orderedEvents with failure := some message, pending := ∅ },
          session.events ++ [.failed message]⟩ : SessionState).sequenced = session.sequenced := by
        simp [SessionState.sequenced, ExecProcessEvent.seq]
      rw [hsame]
      exact h.published

end publishing

/-! ### Recovery -/

section recovery

variable {session : SessionState} {response : ReadResponse}

/-- What a recovery puts in the map, as far as it gets. -/
theorem recoverEvents_cases (h : Waits log session.orderedEvents)
    (hresponse : Truthful log response) :
    (∃ result, session.recoverEvents response = (result, session) ∧
      ((∃ error, result = .error error) ∨ session.orderedEvents.failure.isSome = true ∨
        session.orderedEvents.closedPublished = true ∨
        response.nextSeq - 1 ≤ session.orderedEvents.lastPublishedSeq)) ∨
    (∃ ordered, Waits log ordered ∧
      ordered.lastPublishedSeq = session.orderedEvents.lastPublishedSeq ∧
      ((∃ error, session.recoverEvents response =
          (.error error, { session with orderedEvents := ordered })) ∨
        (∀ i, ordered.lastPublishedSeq < i → i ≤ response.nextSeq - 1 →
            (ordered.pending.lookup i).isSome = true) ∧
          ∃ publishedClosed, session.recoverEvents response = (.ok publishedClosed,
              ({ session with orderedEvents := ordered } : SessionState).publishReady.2))) := by
  obtain ⟨hpos, -, hmax⟩ := hresponse.numbers
  cases hfailure : response.failure with
  | some message =>
    let error : ExecServerError := .protocol ("process failed while recovering: ".toList ++ message)
    refine .inl ⟨.error error, ?_, .inl ⟨error, rfl⟩⟩
    simp only [SessionState.recoverEvents, hfailure, error]
  | none =>
    by_cases hover : session.isOver (response.nextSeq - 1) = true
    · refine .inl ⟨.ok false, ?_, .inr ?_⟩
      · simp only [SessionState.recoverEvents, hfailure, if_pos hover]
      · simpa [SessionState.isOver, or_assoc] using hover
    have hlt : session.orderedEvents.lastPublishedSeq < response.nextSeq - 1 := by
      simp only [SessionState.isOver, Bool.or_eq_true, decide_eq_true_eq, not_or] at hover
      omega
    refine .inr ?_
    obtain ⟨hchunks, hlast⟩ := h.insertChunks hresponse.chunks
    generalize hordered :
      response.chunks.foldl OrderedSessionEvents.insertChunk session.orderedEvents = ordered at *
    rw [← hlast] at hlt
    cases hclosed : (if response.closed then ordered.insertClosed (response.nextSeq - 1)
        else .ok ordered) with
    | error error =>
      refine ⟨ordered, hchunks, hlast, .inl ⟨error, ?_⟩⟩
      simp only [SessionState.recoverEvents, hfailure, if_neg hover, hordered, hclosed]
    | ok closed =>
      have hwaits : Waits log closed ∧ closed.lastPublishedSeq = ordered.lastPublishedSeq := by
        split_ifs at hclosed with hisClosed
        · exact hchunks.insertClosed hlt (hresponse.closed hisClosed) hclosed
        · cases hclosed
          exact ⟨hchunks, rfl⟩
      obtain ⟨hwaits, hlast'⟩ := hwaits
      cases hexit : closed.insertExited (response.nextSeq - 1) response.exited
          response.exitCode with
      | error error =>
        refine ⟨closed, hwaits, hlast'.trans hlast, .inl ⟨error, ?_⟩⟩
        simp only [SessionState.recoverEvents, hfailure, if_neg hover, hordered, hclosed, hexit]
      | ok filled =>
        have htrue : response.exited = true → ∃ seq code, response.exitCode = some code ∧
            seq ≤ response.nextSeq - 1 ∧ At log seq (.exited seq code) := by
          intro hexited
          obtain ⟨seq, code, hcode, hseq, hat⟩ := hresponse.exited hexited
          exact ⟨seq, code, hcode, by omega, hat⟩
        rw [← hlast'] at hlt
        obtain ⟨hfilled, hlast'', hall⟩ := hwaits.insertExited hlt (by omega) htrue hexit
        refine ⟨filled, hfilled, hlast''.trans (hlast'.trans hlast), .inr ⟨?_, ?_⟩⟩
        · rw [hlast'']
          exact hall
        · refine ⟨({ session with orderedEvents := filled } : SessionState).publishReady.1, ?_⟩
          simp only [SessionState.recoverEvents, hfailure, if_neg hover, hordered, hclosed, hexit]

lemma Follows.recoverEvents (h : Follows log session) (hnumbered : IsNumbered log)
    (hresponse : Truthful log response) : Follows log (session.recoverEvents response).2 := by
  rcases recoverEvents_cases h.waits hresponse with
    ⟨result, heq, -⟩ | ⟨ordered, hwaits, hlast, ⟨error, heq⟩ | ⟨-, publishedClosed, heq⟩⟩
  · rw [heq]
    exact h
  · rw [heq]
    refine ⟨hwaits, ?_⟩
    rw [hlast]
    exact h.published
  · rw [heq]
    apply Follows.publishReady _ hnumbered
    refine ⟨hwaits, ?_⟩
    rw [hlast]
    exact h.published

/-- A recovery that succeeds reaches what was read, unless the session was over. -/
theorem recoverEvents_reaches (h : Follows log session) (hnumbered : IsNumbered log)
    (hresponse : Truthful log response) {publishedClosed : Bool}
    (hok : (session.recoverEvents response).1 = .ok publishedClosed)
    (hfailure : session.orderedEvents.failure = none)
    (hclosed : session.orderedEvents.closedPublished = false) :
    response.nextSeq - 1 ≤ (session.recoverEvents response).2.orderedEvents.lastPublishedSeq := by
  obtain ⟨-, -, hmax⟩ := hresponse.numbers
  rcases recoverEvents_cases h.waits hresponse with
    ⟨result, heq, hover⟩ | ⟨ordered, hwaits, hlast, ⟨error, heq⟩ | ⟨hall, published, heq⟩⟩
  · rw [heq] at hok ⊢
    rcases hover with ⟨error, herror⟩ | hfailed | hended | hreached
    · cases herror.symm.trans hok
    · simp [hfailure] at hfailed
    · simp [hclosed] at hended
    · exact hreached
  · simp [heq] at hok
  · rw [heq]
    have hfollows : Follows log { session with orderedEvents := ordered } := by
      refine ⟨hwaits, ?_⟩
      rw [hlast]
      exact h.published
    exact publishReady_reaches hfollows hnumbered (by omega) hall

end recovery

/-! ### Runs -/

variable {later : List ExecProcessEvent}

lemma Waits.mono {ordered : OrderedSessionEvents}
    (h : Waits log ordered) (hlater : log <+: later) : Waits later ordered := by
  obtain ⟨rest, rfl⟩ := hlater
  refine ⟨?_, ?_, ?_⟩
  · rw [List.length_append]
    exact Nat.le_add_right_of_le h.reached
  · intro seq event hlookup
    obtain ⟨hlt, hat⟩ := h.pending seq event hlookup
    exact ⟨hlt, hat.append rest⟩
  · intro seq event hat hexited hle
    obtain ⟨other, hother⟩ := exists_at hat.1 (hle.trans h.reached)
    have heq : other = event := (hother.append rest).unique hat
    exact h.exit seq event (heq ▸ hother) hexited hle

lemma Follows.mono {session : SessionState}
    (h : Follows log session) (hlater : log <+: later) : Follows later session := by
  refine ⟨h.waits.mono hlater, ?_⟩
  obtain ⟨rest, rfl⟩ := hlater
  rw [h.published, List.take_append_of_le_length h.waits.reached]

/-- A process, the session that follows it, and the reads that were answered. -/
structure Connection where
  process : RunningProcess
  session : SessionState
  responses : List ReadResponse

namespace Connection

/-- What happens on either side or between them. A notification is of any event that was emitted,
and a response arrives whenever and as often as it does. -/
inductive Action where
  | process (action : RunningProcess.Action)
  | notify (seq : ℕ)
  | read (afterSeq : Option ℕ)
  | recover (index : ℕ)
  | fail (message : Text)

/-- A new process and a new session. -/
def new : Connection := ⟨.new, .new, []⟩

/-- What an action does. -/
def step (connection : Connection) : Action → Connection
  | .process action => { connection with process := connection.process.step action }
  | .notify seq =>
    match if seq = 0 then none else connection.process.log[seq - 1]? with
    | some event =>
      { connection with session := (connection.session.publishOrderedEvent event).2 }
    | none => connection
  | .read afterSeq =>
    { connection with
      responses := connection.responses ++ [connection.process.execRead afterSeq none] }
  | .recover index =>
    match connection.responses[index]? with
    | some response =>
      { connection with session := (connection.session.recoverEvents response).2 }
    | none => connection
  | .fail message => { connection with session := connection.session.setFailure message }

/-- What a run of actions leads to. -/
def run (actions : List Action) : Connection := actions.foldl step new

/-- The session follows the log, and all reads were true. -/
structure Inv (connection : Connection) : Prop where
  emitted : Emitted connection.process
  follows : Follows connection.process.log connection.session
  truthful : ∀ response ∈ connection.responses, Truthful connection.process.log response

lemma Inv.new : Inv .new := ⟨Emitted.new, Follows.new _, fun _ h => absurd h List.not_mem_nil⟩

lemma Inv.step {connection : Connection} (h : Inv connection) (action : Action) :
    Inv (connection.step action) := by
  cases action with
  | process action =>
    have hlater := prefix_log_step connection.process action
    exact ⟨h.emitted.step action, h.follows.mono hlater,
      fun response hresponse => (h.truthful response hresponse).mono hlater⟩
  | notify seq =>
    simp only [Connection.step]
    split
    · rename_i event hevent
      split_ifs at hevent with hzero
      have hat : At connection.process.log seq event := ⟨Nat.pos_of_ne_zero hzero, hevent⟩
      exact ⟨h.emitted, h.follows.publishOrderedEvent h.emitted.numbered hat, h.truthful⟩
    · exact h
  | read afterSeq =>
    refine ⟨h.emitted, h.follows, ?_⟩
    exact List.forall_mem_append.mpr ⟨h.truthful,
      List.forall_mem_singleton.mpr (truthful_execRead h.emitted afterSeq)⟩
  | recover index =>
    simp only [Connection.step]
    split
    · rename_i response hresponse
      have htruthful := h.truthful response (List.mem_of_getElem? hresponse)
      exact ⟨h.emitted, h.follows.recoverEvents h.emitted.numbered htruthful, h.truthful⟩
    · exact h
  | fail message => exact ⟨h.emitted, h.follows.setFailure message, h.truthful⟩

lemma inv_run (actions : List Action) : Inv (run actions) :=
  List.foldlRecOn actions step Inv.new fun _ h action _ => h.step action

/-- What a session has published of the log of its process. -/
structure Followed (connection : Connection) : Prop where
  /-- the sequenced events that were published are a prefix of the log -/
  published : connection.session.sequenced <+: connection.process.log
  /-- an event of the log has the number of its place -/
  numbered : ∀ index event, connection.process.log[index]? = some event →
    event.seq = some (index + 1)
  /-- a recovery that succeeds reaches what was read, unless the session had failed or closed -/
  recovered : ∀ response ∈ connection.responses, ∀ publishedClosed,
    (connection.session.recoverEvents response).1 = .ok publishedClosed →
    connection.session.orderedEvents.failure = none →
    connection.session.orderedEvents.closedPublished = false →
    response.nextSeq - 1 ≤ (connection.session.recoverEvents response).2.sequenced.length ∧
      (connection.session.recoverEvents response).2.sequenced <+: connection.process.log

lemma Inv.followed {connection : Connection} (h : Inv connection) : Followed connection := by
  refine ⟨?_, ?_, ?_⟩
  · rw [h.follows.published]
    exact List.take_prefix _ _
  · intro index event hevent
    exact h.emitted.numbered (index + 1) event ⟨Nat.succ_pos _, hevent⟩
  · intro response hresponse publishedClosed hok hfailure hclosed
    have htruthful := h.truthful response hresponse
    have hfollows := h.follows.recoverEvents h.emitted.numbered htruthful
    have hreaches := recoverEvents_reaches h.follows h.emitted.numbered htruthful hok hfailure
      hclosed
    rw [hfollows.published, List.length_take, min_eq_left hfollows.waits.reached]
    exact ⟨hreaches, List.take_prefix _ _⟩

/-- In every run of the process, its notifications, reads, recoveries and failures. -/
theorem followed_run (actions : List Action) : Followed (run actions) := (inv_run actions).followed

/-- The notifications of the exit and of a chunk were lost, and a read brings both back. -/
theorem followed_run_lost :
    let connection := run [.process (.output .stdout [104]), .notify 1, .process (.exit 0 false),
      .process (.output .stdout [105]), .read (some 1)]
    let response := connection.process.execRead (some 1) none
    (connection.session.recoverEvents response).1 = .ok false ∧
      3 ≤ (connection.session.recoverEvents response).2.sequenced.length := by
  intro connection response
  have hok : (connection.session.recoverEvents response).1 = .ok false := by decide +kernel
  have hmem : response ∈ connection.responses := by decide +kernel
  exact ⟨hok, ((followed_run _).recovered response hmem false hok (by decide +kernel)
    (by decide +kernel)).1⟩

end Connection

end Codex.ExecServer
