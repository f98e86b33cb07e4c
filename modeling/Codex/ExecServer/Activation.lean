import Codex.ExecServer.Relay

/-!
# A stream is opened by its own handshake

The invariant of the relay loop over every order of frames, results of checks and notices of closed
streams. All that the loop can do in a round is one of three things (`step_cases`): it drops streams
and handshakes, it opens a stream for a handshake whose check has succeeded, or it starts the check
of a new handshake.

* `Opened`: the check of that handshake has succeeded;
* `opened_run`: every stream of every run was opened so, and what else the loop keeps.
-/

namespace Codex.ExecServer

open Codex.Lib

variable {Message Send Receive Handshake Key : Type}

/-! ### A stream keeps its number -/

namespace NoiseVirtualStream

variable (env : NoiseEnv Message Send Receive) (accepts : ℕ → Bool)

lemma sendMessages_instanceId (messages : List Message)
    (stream : NoiseVirtualStream Message Receive) :
    (stream.sendMessages accepts messages).2.instanceId = stream.instanceId := by
  induction messages generalizing stream with
  | nil => rfl
  | cons message messages ih =>
    rw [sendMessages]
    split_ifs with haccepts
    · exact ih _
    · rfl

variable (stream : NoiseVirtualStream Message Receive)

lemma receiveCiphertext_instanceId (ciphertext : List UInt8) :
    (stream.receiveCiphertext env accepts ciphertext).2.instanceId = stream.instanceId := by
  simp only [receiveCiphertext]
  rcases env.decrypt stream.receive ciphertext with error | ⟨plaintext, receive⟩
  · rfl
  · simp only
    rcases stream.inboundDecoder.push env plaintext with error | ⟨messages, decoder⟩
    · rfl
    · exact sendMessages_instanceId accepts messages _

lemma receiveCiphertexts_instanceId (ciphertexts : List (List UInt8))
    (stream : NoiseVirtualStream Message Receive) :
    (stream.receiveCiphertexts env accepts ciphertexts).2.instanceId = stream.instanceId := by
  induction ciphertexts generalizing stream with
  | nil => rfl
  | cons ciphertext ciphertexts ih =>
    have hfirst := receiveCiphertext_instanceId env accepts stream ciphertext
    rw [receiveCiphertexts]
    rcases hresult : stream.receiveCiphertext env accepts ciphertext with ⟨_ | error, stream'⟩
    · rw [hresult] at hfirst
      exact (ih stream').trans hfirst
    · rw [hresult] at hfirst
      exact hfirst

lemma receiveData_instanceId (data : RelayData) :
    (stream.receiveData env accepts data).2.instanceId = stream.instanceId := by
  rw [receiveData]
  rcases stream.inboundCiphertexts.push data.seq data.payload with error | ⟨ciphertexts, ordered⟩
  · rfl
  · exact receiveCiphertexts_instanceId env accepts ciphertexts _

end NoiseVirtualStream

namespace MultiplexedEnvironment

variable {env : RelayEnv Message Send Receive Handshake Key}
  {state state' : MultiplexedEnvironment Message Receive Handshake Key} {event : RelayEvent}
  {streamId : Text}

/-! ### What a round can do -/

/-- A frame for the stream that ends a handshake which is under way. -/
def Touches : RelayEvent → Text → Prop
  | .frame frame _, streamId => frame.streamId = streamId ∧
      (frame.validate = .ok .handshake ∨ frame.validate = .ok .data ∨ frame.validate = .ok .reset)
  | _, _ => False

/-- The failed handshakes are counted, and the loop ends with the last one of the budget. -/
def Charges (state state' : MultiplexedEnvironment Message Receive Handshake Key) : Prop :=
  state'.failedHandshakes = state.failedHandshakes ∨
    state'.failedHandshakes = state.failedHandshakes + 1 ∧
      state'.ended = decide (state'.failedHandshakes ≥ maxFailedNoiseHandshakes)

/-- Streams and handshakes are only dropped; a stream may take data. -/
structure Drops (state state' : MultiplexedEnvironment Message Receive Handshake Key) : Prop where
  streams : ∀ streamId stream', state'.streams.lookup streamId = some stream' →
    ∃ stream, state.streams.lookup streamId = some stream ∧ stream'.instanceId = stream.instanceId
  pending : ∀ streamId pending, state'.pendingHandshakes.lookup streamId = some pending →
    state.pendingHandshakes.lookup streamId = some pending
  active_le : state'.streams.entries.length ≤ state.streams.entries.length
  tasks_le : state'.validationTasks.length ≤ state.validationTasks.length
  next : state'.nextValidationId = state.nextValidationId
  charges : Charges state state'

variable {β : Text → Type} {s : AList β}

lemma lookup_of_lookup_erase {a b : Text} {v : β b}
    (h : (s.erase a).lookup b = some v) : s.lookup b = some v ∧ b ≠ a := by
  by_cases hab : b = a
  · subst hab
    simp [AList.lookup_erase] at h
  · rw [AList.lookup_erase_ne hab] at h
    exact ⟨h, hab⟩

namespace Drops

lemma refl (state : MultiplexedEnvironment Message Receive Handshake Key) : Drops state state :=
  ⟨fun _ stream h => ⟨stream, h, rfl⟩, fun _ _ h => h, le_rfl, le_rfl, rfl, .inl rfl⟩

lemma trans_of_eq {middle : MultiplexedEnvironment Message Receive Handshake Key}
    (h : Drops state middle) (h' : Drops middle state')
    (heq : middle.failedHandshakes = state.failedHandshakes) : Drops state state' where
  streams := by
    intro streamId stream' hstream'
    obtain ⟨stream, hstream, hsame⟩ := h'.streams _ _ hstream'
    obtain ⟨first, hfirst, hsame'⟩ := h.streams _ _ hstream
    exact ⟨first, hfirst, hsame.trans hsame'⟩
  pending := fun _ _ hpending => h.pending _ _ (h'.pending _ _ hpending)
  active_le := h'.active_le.trans h.active_le
  tasks_le := h'.tasks_le.trans h.tasks_le
  next := h'.next.trans h.next
  charges := by
    have hcharges := h'.charges
    unfold Charges at hcharges ⊢
    rwa [heq] at hcharges

variable (state)

lemma sendReset (streamId : Text) : Drops state (state.sendReset streamId) :=
  ⟨fun _ stream h => ⟨stream, h, rfl⟩, fun _ _ h => h, le_rfl, le_rfl, rfl, .inl rfl⟩

lemma failHandshake : Drops state state.failHandshake :=
  ⟨fun _ stream h => ⟨stream, h, rfl⟩, fun _ _ h => h, le_rfl, le_rfl, rfl, .inr ⟨rfl, rfl⟩⟩

lemma ended (state : MultiplexedEnvironment Message Receive Handshake Key) :
    Drops state { state with ended := true } :=
  ⟨fun _ stream h => ⟨stream, h, rfl⟩, fun _ _ h => h, le_rfl, le_rfl, rfl, .inl rfl⟩

lemma joinNext (validationId : ℕ) : Drops state (state.joinNext validationId) :=
  ⟨fun _ stream h => ⟨stream, h, rfl⟩, fun _ _ h => h, le_rfl, List.length_filter_le _ _, rfl,
    .inl rfl⟩

lemma erasePending (streamId : Text) :
    Drops state { state with pendingHandshakes := state.pendingHandshakes.erase streamId } :=
  ⟨fun _ stream h => ⟨stream, h, rfl⟩, fun _ _ h => (lookup_of_lookup_erase h).1, le_rfl, le_rfl,
    rfl, .inl rfl⟩

lemma eraseStream
    (streamId : Text) : Drops state { state with streams := state.streams.erase streamId } :=
  ⟨fun _ stream h => ⟨stream, (lookup_of_lookup_erase h).1, rfl⟩, fun _ _ h => h,
    entries_length_erase_le, le_rfl, rfl, .inl rfl⟩

variable {state}

lemma insertStream {stream stream' : NoiseVirtualStream Message Receive}
    (h : state.streams.lookup streamId = some stream)
    (hsame : stream'.instanceId = stream.instanceId) :
    Drops state { state with streams := state.streams.insert streamId stream' } where
  streams := by
    intro other found hfound
    by_cases heq : other = streamId
    · subst heq
      rw [AList.lookup_insert] at hfound
      cases hfound
      exact ⟨stream, h, hsame⟩
    · rw [AList.lookup_insert_ne heq] at hfound
      exact ⟨found, hfound, rfl⟩
  pending := fun _ _ h => h
  active_le :=
    (entries_length_insert_of_mem (AList.lookup_isSome.mp (Option.isSome_of_eq_some h))).le
  tasks_le := le_rfl
  next := rfl
  charges := .inl rfl

lemma resets (streamIds : List Text)
    (state : MultiplexedEnvironment Message Receive Handshake Key) :
    Drops state (streamIds.foldl MultiplexedEnvironment.sendReset state) := by
  induction streamIds generalizing state with
  | nil => exact refl state
  | cons streamId streamIds ih => exact (sendReset state streamId).trans_of_eq (ih _) rfl

end Drops

variable (state)

/-- The part of `finishValidation` that opens a stream. -/
def activate (streamId : Text) (validationId : ℕ) (receive : Receive) (response : List UInt8) :
    MultiplexedEnvironment Message Receive Handshake Key :=
  { state with
    pendingHandshakes := state.pendingHandshakes.erase streamId
    outgoing := state.outgoing ++ [.handshake streamId response]
    streams := state.streams.insert streamId (.new receive validationId) }

/-- The part of `receiveHandshake` that starts a check. -/
def request (streamId : Text)
    (pending : PendingResponderHandshake Handshake Key) (authorization : String) :
    MultiplexedEnvironment Message Receive Handshake Key :=
  { state with
    nextValidationId := state.nextValidationId + 1
    pendingHandshakes := state.pendingHandshakes.insert streamId
      ⟨state.nextValidationId, { pending with payload := [] }⟩
    validationTasks := state.validationTasks ++
      [⟨streamId, state.nextValidationId, pending.initiatorPublicKey, authorization⟩] }

variable {state}

lemma closeStream_drops (closedStream : ClosedNoiseVirtualStream) :
    Drops state (state.closeStream closedStream) := by
  rw [closeStream]
  split_ifs with hcurrent
  · exact .eraseStream state _
  · exact .refl state

lemma dropPending_drops : Drops state state.dropPending := by
  have hclear : Drops state { state with pendingHandshakes := ∅ } :=
    ⟨fun _ stream h => ⟨stream, h, rfl⟩, fun _ _ h => absurd h nofun, le_rfl, le_rfl, rfl, .inl rfl⟩
  exact hclear.trans_of_eq (.resets _ _) rfl

variable (env)

/-- The result of a check drops a handshake, or opens its stream. -/
theorem finishValidation_cases (state : MultiplexedEnvironment Message Receive Handshake Key)
    (result : HarnessKeyValidationResult) (queued : Bool) :
    Drops state (state.finishValidation env result queued) ∨
      ∃ pending receive response,
        state.pendingHandshakes.lookup result.streamId = some pending ∧
        pending.validationId = result.validationId ∧ result.result = .ok () ∧
        state.streams.entries.length < maxActiveNoiseRelayStreams ∧
        state.finishValidation env result queued =
          state.activate result.streamId result.validationId receive response := by
  rw [finishValidation]
  rcases hpending : state.pendingHandshakes.lookup result.streamId with _ | pending
  · exact .inl (.refl state)
  · simp only
    by_cases hcurrent : pending.validationId = result.validationId
    · rw [if_neg (not_not.mpr hcurrent)]
      have herase := Drops.erasePending state result.streamId
      have hfail := (herase.trans_of_eq (.sendReset _ result.streamId) rfl).trans_of_eq
        (.failHandshake _) rfl
      rcases hresult : result.result with error | ⟨⟩
      · exact .inl hfail
      · simp only
        by_cases hfull : state.streams.entries.length ≥ maxActiveNoiseRelayStreams
        · rw [if_pos hfull]
          exact .inl (herase.trans_of_eq (.sendReset _ _) rfl)
        · rw [if_neg hfull]
          rcases env.complete pending.handshake.handshake with error | ⟨receive, response⟩
          · exact .inl hfail
          · simp only
            rcases queued with _ | _
            · exact .inl (herase.trans_of_eq (.ended _) rfl)
            · exact .inr ⟨pending, receive, response, rfl, hcurrent, trivial,
                Nat.not_le.mp hfull, rfl⟩
    · rw [if_pos hcurrent]
      exact .inl (.refl state)

variable (frame : RelayMessageFrame)

/-- A handshake ends one that is under way, or starts a check. -/
theorem receiveHandshake_cases

    (hdisjoint : frame.streamId ∈ state.streams → frame.streamId ∉ state.pendingHandshakes) :
    Drops state (state.receiveHandshake env frame) ∧
        frame.streamId ∉ (state.receiveHandshake env frame).pendingHandshakes ∨
      ∃ pending authorization, frame.streamId ∉ state.streams ∧
        state.validationTasks.length < maxPendingHandshakeValidations ∧
        state.receiveHandshake env frame = state.request frame.streamId pending authorization := by
  rw [receiveHandshake]
  simp only
  by_cases hactive : frame.streamId ∈ state.streams
  · rw [if_pos hactive]
    exact .inl ⟨.sendReset state _, hdisjoint hactive⟩
  rw [if_neg hactive]
  by_cases hpending : frame.streamId ∈ state.pendingHandshakes
  · rw [if_pos hpending]
    refine .inl ⟨?_, fun hmem => (AList.mem_erase.mp hmem).1 rfl⟩
    exact ((Drops.erasePending state frame.streamId).trans_of_eq (.sendReset _ _) rfl).trans_of_eq
      (.failHandshake _) rfl
  rw [if_neg hpending]
  have hreset : Drops state (state.sendReset frame.streamId) := .sendReset state _
  have hfail : Drops state (state.sendReset frame.streamId).failHandshake :=
    hreset.trans_of_eq (.failHandshake _) rfl
  by_cases hfull : state.streams.entries.length ≥ maxActiveNoiseRelayStreams
  · rw [if_pos hfull]
    exact .inl ⟨hreset, hpending⟩
  rw [if_neg hfull]
  by_cases htasks : state.validationTasks.length ≥ maxPendingHandshakeValidations
  · rw [if_pos htasks]
    exact .inl ⟨hreset, hpending⟩
  rw [if_neg htasks]
  rcases frame.intoHandshakePayload with error | bytes
  · exact .inl ⟨hreset, hpending⟩
  simp only
  rcases env.readRequest frame.streamId bytes with error | pending
  · exact .inl ⟨hfail, hpending⟩
  simp only
  rcases authorizationOf pending.payload with _ | authorization
  · exact .inl ⟨hfail, hpending⟩
  · exact .inr ⟨pending, authorization, hactive, Nat.not_le.mp htasks, rfl⟩

/-- Data for a stream that is not active ends its handshake. -/
theorem receiveDataFrame_drops (accepts : ℕ → Bool)
    (hdisjoint : frame.streamId ∈ state.streams → frame.streamId ∉ state.pendingHandshakes) :
    Drops state (state.receiveDataFrame env frame accepts) ∧
      frame.streamId ∉ (state.receiveDataFrame env frame accepts).pendingHandshakes := by
  rw [receiveDataFrame]
  simp only
  rcases hstream : state.streams.lookup frame.streamId with _ | stream
  · have hcanceled := (Drops.erasePending state frame.streamId).trans_of_eq
      (.sendReset _ frame.streamId) rfl
    have hgone : frame.streamId ∉ state.pendingHandshakes.erase frame.streamId :=
      fun hmem => (AList.mem_erase.mp hmem).1 rfl
    simp only
    split_ifs with hpending
    · exact ⟨hcanceled.trans_of_eq (.failHandshake _) rfl, hgone⟩
    · exact ⟨hcanceled, hgone⟩
  · have hnone := hdisjoint (AList.lookup_isSome.mp (Option.isSome_of_eq_some hstream))
    have hdropped := (Drops.eraseStream state frame.streamId).trans_of_eq
      (.sendReset _ frame.streamId) rfl
    simp only
    rcases frame.intoData with error | data
    · exact ⟨hdropped, hnone⟩
    · have hsame := stream.receiveData_instanceId env.toNoiseEnv accepts data
      simp only
      rcases hreceive : stream.receiveData env.toNoiseEnv accepts data with ⟨_ | error, stream'⟩
      · rw [hreceive] at hsame
        exact ⟨.insertStream hstream hsame, hnone⟩
      · exact ⟨hdropped, hnone⟩

lemma receiveReset_drops (state : MultiplexedEnvironment Message Receive Handshake Key)
    (frame : RelayMessageFrame) :
    Drops state (state.receiveReset frame) ∧
      frame.streamId ∉ (state.receiveReset frame).pendingHandshakes :=
  ⟨(Drops.erasePending state frame.streamId).trans_of_eq (.eraseStream _ frame.streamId) rfl,
    fun hmem => (AList.mem_erase.mp hmem).1 rfl⟩

/-- **All that a round can do.** -/
theorem step_cases
    (hdisjoint : ∀ streamId, streamId ∈ state.streams → streamId ∉ state.pendingHandshakes)
    (hended : state.ended = false) (event : RelayEvent) :
    (Drops state (state.step env event) ∧
        ∀ streamId, Touches event streamId → streamId ∉ (state.step env event).pendingHandshakes) ∨
      (∃ streamId validationId queued pending receive response,
        event = .validated ⟨streamId, validationId, .ok ()⟩ queued ∧
        state.pendingHandshakes.lookup streamId = some pending ∧
        pending.validationId = validationId ∧
        state.streams.entries.length < maxActiveNoiseRelayStreams ∧
        state.step env event =
          (state.joinNext validationId).activate streamId validationId receive response) ∨
      ∃ frame accepts pending authorization, event = .frame frame accepts ∧
        frame.validate = .ok .handshake ∧ frame.streamId ∉ state.streams ∧
        state.validationTasks.length < maxPendingHandshakeValidations ∧
        state.step env event = state.request frame.streamId pending authorization := by
  simp only [step, hended, Bool.false_eq_true, if_false]
  rcases event with _ | closedStream | ⟨result, queued⟩ | validationId | ⟨frame, accepts⟩ | _ | _
  · exact .inl ⟨.ended state, fun _ => False.elim⟩
  · exact .inl ⟨closeStream_drops _, fun _ => False.elim⟩
  · simp only
    split_ifs with htask
    · have hjoin := Drops.joinNext state result.validationId
      rcases finishValidation_cases env (state.joinNext result.validationId) result queued with
        hdrops | ⟨pending, receive, response, hpending, hid, hok, hfull, heq⟩
      · exact .inl ⟨hjoin.trans_of_eq hdrops rfl, fun _ => False.elim⟩
      · right; left
        refine ⟨_, _, queued, pending, receive, response, ?_, hpending, hid, hfull, heq⟩
        rw [← hok]
    · exact .inl ⟨.refl state, fun _ => False.elim⟩
  · simp only
    split_ifs with htask
    · exact .inl ⟨(Drops.joinNext state validationId).trans_of_eq dropPending_drops rfl,
        fun _ => False.elim⟩
    · exact .inl ⟨.refl state, fun _ => False.elim⟩
  · have hdisjoint' := hdisjoint frame.streamId
    have hsame : ∀ kind, frame.validate = kind → kind ≠ .ok .handshake → kind ≠ .ok .data →
        kind ≠ .ok .reset → ∀ streamId, ¬ Touches (.frame frame accepts) streamId := by
      rintro kind rfl h₁ h₂ h₃ streamId ⟨-, h | h | h⟩
      · exact h₁ h
      · exact h₂ h
      · exact h₃ h
    simp only [receiveFrame]
    rcases hkind : frame.validate with error | _ | _ | _ | _ | _ | _
    · exact .inl ⟨.refl state, fun _ h => absurd h (hsame _ hkind nofun nofun nofun _)⟩
    · obtain ⟨hdrops, hgone⟩ := receiveDataFrame_drops env frame accepts hdisjoint'
      exact .inl ⟨hdrops, fun _ h => h.1 ▸ hgone⟩
    · exact .inl ⟨.refl state, fun _ h => absurd h (hsame _ hkind nofun nofun nofun _)⟩
    · exact .inl ⟨.refl state, fun _ h => absurd h (hsame _ hkind nofun nofun nofun _)⟩
    · obtain ⟨hdrops, hgone⟩ := receiveReset_drops state frame
      exact .inl ⟨hdrops, fun _ h => h.1 ▸ hgone⟩
    · exact .inl ⟨.refl state, fun _ h => absurd h (hsame _ hkind nofun nofun nofun _)⟩
    · rcases receiveHandshake_cases env frame hdisjoint' with
        ⟨hdrops, hgone⟩ | ⟨pending, authorization, hactive, htasks, heq⟩
      · exact .inl ⟨hdrops, fun _ h => h.1 ▸ hgone⟩
      · exact .inr (.inr ⟨frame, accepts, pending, authorization, rfl, hkind, hactive, htasks, heq⟩)
  · exact .inl ⟨.refl state, fun _ => False.elim⟩
  · exact .inl ⟨.ended state, fun _ => False.elim⟩

/-! ### The invariant -/

variable (events : List RelayEvent)

/-- The handshake with this number: a frame for the stream, after which none has ended it. -/
def Requested (streamId : Text) (validationId : ℕ) : Prop :=
  ∃ before frame accepts after, events = before ++ .frame frame accepts :: after ∧
    frame.streamId = streamId ∧ frame.validate = .ok .handshake ∧
    (run env before).nextValidationId = validationId ∧
    (run env (before ++ [.frame frame accepts])).nextValidationId = validationId + 1 ∧
    ∀ event ∈ after, ¬ Touches event streamId

/-- The stream with this number: the check of the handshake with the number has succeeded while it
was under way. -/
def Opened (streamId : Text) (instanceId : ℕ) : Prop :=
  ∃ before queued after,
    events = before ++ .validated ⟨streamId, instanceId, .ok ()⟩ queued :: after ∧
    Requested env before streamId instanceId

variable {env}

variable {events : List RelayEvent}

lemma Requested.append {validationId : ℕ} (h : Requested env events streamId validationId)
    (hevent : ¬ Touches event streamId) :
    Requested env (events ++ [event]) streamId validationId := by
  obtain ⟨before, frame, accepts, after, rfl, hid, hkind, hnext, hnext', hafter⟩ := h
  refine ⟨before, frame, accepts, after ++ [event], by simp, hid, hkind, hnext, hnext', ?_⟩
  intro other hother
  rcases List.mem_append.mp hother with hother | hother
  · exact hafter other hother
  · rwa [List.mem_singleton.mp hother]

lemma Opened.append {instanceId : ℕ} (h : Opened env events streamId instanceId)
    (event : RelayEvent) :
    Opened env (events ++ [event]) streamId instanceId := by
  obtain ⟨before, queued, after, rfl, hrequested⟩ := h
  exact ⟨before, queued, after ++ [event], by simp, hrequested⟩

lemma run_append (events : List RelayEvent) (event : RelayEvent) :
    run env (events ++ [event]) = (run env events).step env event := by
  rw [run, List.foldl_append]
  rfl

/-- What holds of the loop after some events. -/
structure Guarded (env : RelayEnv Message Send Receive Handshake Key) (events : List RelayEvent)
    (state : MultiplexedEnvironment Message Receive Handshake Key) : Prop where
  disjoint : ∀ streamId, streamId ∈ state.streams → streamId ∉ state.pendingHandshakes
  active_le : state.streams.entries.length ≤ maxActiveNoiseRelayStreams
  tasks_le : state.validationTasks.length ≤ maxPendingHandshakeValidations
  failed_le : state.failedHandshakes ≤ maxFailedNoiseHandshakes
  failed_lt : state.ended = false → state.failedHandshakes < maxFailedNoiseHandshakes
  requested : state.ended = false →
    ∀ streamId pending, state.pendingHandshakes.lookup streamId = some pending →
      Requested env events streamId pending.validationId
  opened : ∀ streamId stream, state.streams.lookup streamId = some stream →
    Opened env events streamId stream.instanceId

lemma mem_of_lookup {a : Text} {v : β a} (h : s.lookup a = some v) : a ∈ s :=
  AList.lookup_isSome.mp (Option.isSome_of_eq_some h)

lemma exists_lookup {a : Text} (h : a ∈ s) : ∃ v, s.lookup a = some v :=
  Option.isSome_iff_exists.mp (AList.lookup_isSome.mpr h)

lemma Guarded.drops (h : Guarded env events state) (hended : state.ended = false)
    (hdrops : Drops state state')
    (htouched : ∀ streamId, Touches event streamId → streamId ∉ state'.pendingHandshakes) :
    Guarded env (events ++ [event]) state' where
  disjoint := by
    intro streamId hactive hpending
    obtain ⟨stream, hstream⟩ := exists_lookup hactive
    obtain ⟨pending, hpending⟩ := exists_lookup hpending
    obtain ⟨before, hbefore, -⟩ := hdrops.streams _ _ hstream
    exact h.disjoint streamId (mem_of_lookup hbefore) (mem_of_lookup (hdrops.pending _ _ hpending))
  active_le := hdrops.active_le.trans h.active_le
  tasks_le := hdrops.tasks_le.trans h.tasks_le
  failed_le := by
    have hlt := h.failed_lt hended
    rcases hdrops.charges with heq | ⟨heq, -⟩
    · omega
    · omega
  failed_lt := by
    intro hended'
    have hlt := h.failed_lt hended
    rcases hdrops.charges with heq | ⟨heq, hdecide⟩
    · omega
    · rw [hended', eq_comm, decide_eq_false_iff_not] at hdecide
      omega
  requested := by
    intro _ streamId pending hpending
    refine (h.requested hended _ _ (hdrops.pending _ _ hpending)).append fun htouches => ?_
    exact htouched streamId htouches (mem_of_lookup hpending)
  opened := by
    intro streamId stream hstream
    obtain ⟨before, hbefore, hsame⟩ := hdrops.streams _ _ hstream
    rw [hsame]
    exact (h.opened _ _ hbefore).append event

lemma Guarded.activate {validationId : ℕ} {queued : Bool}
    {pending : PendingHandshake Handshake Key} {receive : Receive} {response : List UInt8}
    (h : Guarded env events state) (hended : state.ended = false)
    (hpending : state.pendingHandshakes.lookup streamId = some pending)
    (hid : pending.validationId = validationId)
    (hfull : state.streams.entries.length < maxActiveNoiseRelayStreams) :
    Guarded env (events ++ [.validated ⟨streamId, validationId, .ok ()⟩ queued])
      ((state.joinNext validationId).activate streamId validationId receive response) where
  disjoint := by
    intro other hactive hother
    obtain ⟨hne, hother⟩ := AList.mem_erase.mp hother
    rcases (AList.mem_insert _).mp hactive with heq | hactive
    · exact hne heq
    · exact h.disjoint other hactive hother
  active_le := entries_length_insert_le.trans hfull
  tasks_le := (List.length_filter_le _ _).trans h.tasks_le
  failed_le := h.failed_le
  failed_lt := fun _ => h.failed_lt hended
  requested := by
    intro _ other found hfound
    obtain ⟨hfound, -⟩ := lookup_of_lookup_erase hfound
    exact (h.requested hended _ _ hfound).append id
  opened := by
    intro other stream hstream
    by_cases heq : other = streamId
    · subst heq
      have hstream' := AList.lookup_insert state.streams ▸ hstream
      cases hstream'
      refine ⟨events, queued, [], rfl, ?_⟩
      rw [← hid]
      exact h.requested hended _ _ hpending
    · have hstream' := AList.lookup_insert_ne heq ▸ hstream
      exact (h.opened _ _ hstream').append _

lemma Guarded.request {frame : RelayMessageFrame} {accepts : ℕ → Bool}
    {pending : PendingResponderHandshake Handshake Key} {authorization : String}
    (h : Guarded env events (run env events)) (hended : (run env events).ended = false)
    (hkind : frame.validate = .ok .handshake) (hactive : frame.streamId ∉ (run env events).streams)
    (htasks : (run env events).validationTasks.length < maxPendingHandshakeValidations)
    (hstep : (run env events).step env (.frame frame accepts) =
      (run env events).request frame.streamId pending authorization) :
    Guarded env (events ++ [.frame frame accepts])
      ((run env events).request frame.streamId pending authorization) where
  disjoint := by
    intro other hother hpending
    rcases (AList.mem_insert _).mp hpending with rfl | hpending
    · exact hactive hother
    · exact h.disjoint other hother hpending
  active_le := h.active_le
  tasks_le := by
    simp only [MultiplexedEnvironment.request, List.length_append, List.length_singleton]
    exact htasks
  failed_le := h.failed_le
  failed_lt := fun _ => h.failed_lt hended
  requested := by
    intro _ other found hfound
    by_cases heq : other = frame.streamId
    · subst heq
      have hfound' := AList.lookup_insert (run env events).pendingHandshakes ▸ hfound
      cases hfound'
      refine ⟨events, frame, accepts, [], rfl, rfl, hkind, rfl, ?_, nofun⟩
      rw [run_append, hstep]
      rfl
    · have hfound' := AList.lookup_insert_ne heq ▸ hfound
      exact (h.requested hended _ _ hfound').append fun htouches => heq htouches.1.symm
  opened := fun _ _ hstream => (h.opened _ _ hstream).append _

lemma step_of_ended (hended : state.ended = true) (event : RelayEvent) :
    state.step env event = state := by
  unfold step
  rw [if_pos hended]

lemma run_of_ended (hended : (run env events).ended = true) (later : List RelayEvent) :
    run env (events ++ later) = run env events := by
  rw [run, List.foldl_append]
  induction later with
  | nil => rfl
  | cons event later ih =>
    rw [List.foldl_cons]
    have hstep : step env (events.foldl (step env) new) event = events.foldl (step env) new :=
      step_of_ended hended event
    rw [hstep]
    exact ih

/-- **The invariant of the loop.** -/
theorem guarded_of_run (env : RelayEnv Message Send Receive Handshake Key)
    (events : List RelayEvent) : Guarded env events (run env events) := by
  induction events using List.reverseRecOn with
  | nil =>
    have hbudget : 0 < maxFailedNoiseHandshakes := by decide
    exact ⟨nofun, Nat.zero_le _, Nat.zero_le _, Nat.zero_le _, fun _ => hbudget,
      fun _ => nofun, nofun⟩
  | append_singleton events event ih =>
    rcases hended : (run env events).ended with _ | _
    · rw [run_append]
      rcases step_cases env ih.disjoint hended event with
        ⟨hdrops, htouched⟩ |
        ⟨streamId, validationId, queued, pending, receive, response, rfl, hpending, hid, hfull,
          heq⟩ |
        ⟨frame, accepts, pending, authorization, rfl, hkind, hactive, htasks, heq⟩
      · exact ih.drops hended hdrops htouched
      · rw [heq]
        exact ih.activate hended hpending hid hfull
      · rw [heq]
        exact ih.request hended hkind hactive htasks heq
    · rw [run_of_ended hended]
      refine ⟨ih.disjoint, ih.active_le, ih.tasks_le, ih.failed_le, ih.failed_lt, ?_, ?_⟩
      · intro hopen
        simp [hended] at hopen
      · intro streamId stream hstream
        exact (ih.opened _ _ hstream).append event

/-! ### Notices and results that are too late -/

/-- The notice of a stream that is not the current one changes nothing. -/
theorem step_streamClosed_of_ne {instanceId : ℕ}
    (h : ∀ stream, state.streams.lookup streamId = some stream → stream.instanceId ≠ instanceId) :
    state.step env (.streamClosed ⟨streamId, instanceId⟩) = state := by
  unfold step
  split_ifs with hended
  · rfl
  · simp only [closeStream]
    rcases hlookup : state.streams.lookup streamId with _ | stream
    · rfl
    · rw [if_neg]
      simpa using h stream hlookup

/-- The result of a check that is not the current one only leaves the set of the tasks. -/
theorem step_validated_of_ne {result : HarnessKeyValidationResult} (queued : Bool)
    (h : ∀ pending, state.pendingHandshakes.lookup result.streamId = some pending →
      pending.validationId ≠ result.validationId) :
    state.step env (.validated result queued) = state ∨
      state.step env (.validated result queued) = state.joinNext result.validationId := by
  unfold step
  split_ifs with hended
  · exact .inl rfl
  · simp only
    split_ifs with htask
    · right
      have hlookup : (state.joinNext result.validationId).pendingHandshakes =
        state.pendingHandshakes := rfl
      rw [finishValidation, hlookup]
      rcases hpending : state.pendingHandshakes.lookup result.streamId with _ | pending
      · rfl
      · simp only
        rw [if_pos (h pending hpending)]
    · exact .inl rfl

/-! ### Every run -/

lemma nextValidationId_le (env : RelayEnv Message Send Receive Handshake Key)
    (events later : List RelayEvent) :
    (run env events).nextValidationId ≤ (run env (events ++ later)).nextValidationId := by
  induction later using List.reverseRecOn with
  | nil => rw [List.append_nil]
  | append_singleton later event ih =>
    apply ih.trans
    rw [← List.append_assoc, run_append]
    rcases hended : (run env (events ++ later)).ended with _ | _
    · rcases step_cases env (guarded_of_run env _).disjoint hended event with
        ⟨hdrops, -⟩ | ⟨_, _, _, _, _, _, -, -, -, -, heq⟩ | ⟨_, _, _, _, -, -, -, -, heq⟩
      · exact hdrops.next.ge
      · rw [heq]
        exact le_rfl
      · rw [heq]
        exact Nat.le_succ _
    · rw [step_of_ended hended]

/-- **A stream is only opened for its own handshake.** After any events: no id is both active and
pending, at most 128 streams are active and at most 32 checks are under way; every active stream was
opened by a handshake for its id whose own check has succeeded, and between the two there was no
frame for the id that ends a handshake; handshakes are numbered in their order, and neither the
notice of a closed stream nor the result of a check changes a stream or a handshake with another
number; and with the eighth failed handshake the loop is over. -/
theorem opened_run (env : RelayEnv Message Send Receive Handshake Key) (events : List RelayEvent) :
    (∀ streamId, ¬ (streamId ∈ (run env events).streams ∧
      streamId ∈ (run env events).pendingHandshakes)) ∧
    (run env events).streams.entries.length ≤ 128 ∧
    (run env events).validationTasks.length ≤ 32 ∧
    (∀ streamId stream, (run env events).streams.lookup streamId = some stream →
      Opened env events streamId stream.instanceId) ∧
    (∀ later, (run env events).nextValidationId ≤ (run env (events ++ later)).nextValidationId) ∧
    (∀ streamId instanceId, (∀ stream, (run env events).streams.lookup streamId = some stream →
        stream.instanceId ≠ instanceId) →
      run env (events ++ [.streamClosed ⟨streamId, instanceId⟩]) = run env events) ∧
    (∀ result queued, (∀ pending,
        (run env events).pendingHandshakes.lookup result.streamId = some pending →
          pending.validationId ≠ result.validationId) →
      (run env (events ++ [.validated result queued])).streams = (run env events).streams ∧
      (run env (events ++ [.validated result queued])).pendingHandshakes =
        (run env events).pendingHandshakes ∧
      (run env (events ++ [.validated result queued])).failedHandshakes =
        (run env events).failedHandshakes) ∧
    (run env events).failedHandshakes ≤ 8 ∧
    ((run env events).failedHandshakes = 8 → ∀ later,
      run env (events ++ later) = run env events) := by
  have h := guarded_of_run env events
  refine ⟨fun streamId ⟨hactive, hpending⟩ => h.disjoint streamId hactive hpending, h.active_le,
    h.tasks_le, h.opened, nextValidationId_le env events, ?_, ?_, h.failed_le, ?_⟩
  · intro streamId instanceId hother
    rw [run_append]
    exact step_streamClosed_of_ne hother
  · intro result queued hother
    rw [run_append]
    rcases step_validated_of_ne queued hother with heq | heq
    · rw [heq]
      exact ⟨rfl, rfl, rfl⟩
    · rw [heq]
      exact ⟨rfl, rfl, rfl⟩
  · intro hfailed
    apply run_of_ended
    by_contra hended
    rw [Bool.not_eq_true] at hended
    exact absurd hfailed (h.failed_lt hended).ne

/-- An environment in which every handshake can be read and completed. -/
def trustingEnv : RelayEnv Unit ℕ ℕ Unit Unit where
  toWriter _ := .ok []
  fromSlice _ := .error []
  sendVec nonce plaintext := .ok (plaintext, nonce + 1)
  receiveVec nonce ciphertext := .ok (ciphertext, nonce + 1)
  readRequest _ request := .ok ⟨(), (), request⟩
  complete _ := .ok (0, [])

-- A handshake and the result of its check open a stream; with data in between they do not.
example : ['s'] ∈ (run trustingEnv [.frame (.handshake ['s'] [97]) fun _ => true,
    .validated ⟨['s'], 0, .ok ()⟩ true]).streams := by decide +kernel

example : ['s'] ∉ (run trustingEnv [.frame (.handshake ['s'] [97]) fun _ => true,
    .frame ⟨1, ['s'], some (.data ⟨0, 0, 1, [1]⟩)⟩ fun _ => true,
    .validated ⟨['s'], 0, .ok ()⟩ true]).streams := by decide +kernel

end MultiplexedEnvironment

end Codex.ExecServer
