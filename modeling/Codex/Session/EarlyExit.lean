import Codex.Session.RollbackLaw

/-!
# The early exit of the reverse scan

The scan stops at the first record after which it knows the base of the history, the turn settings
and the reference context. Here it is compared with the scan of the whole rollout. It can only stop
where a segment has just been finalized, so that no segment is open and no rollback is pending
there. Older records then change none of the three fields; they may lengthen the replayed suffix and
the world-state records, but the checkpoint that the base comes from stands in both, and resets what
the older records leave.

* `Anchored.scanItem`, `Settled.scanItem`: the two invariants, before and after the stop;
* `earlyExit_sound`: both scans give the same reconstruction.
-/

namespace Codex.Session

open Codex.Lib Codex.Protocol Codex.Context Codex.ContextManager

section EarlyExit

variable {Value Snapshot : Type} (env : ReplayEnv Value Snapshot)

/-! ### The scan without the exit -/

/-- The reverse loop without its `break`. -/
def scanAll (newer : List (RolloutItem Value)) :
    List (RolloutItem Value) → ReverseScan Value → ReverseScan Value
  | [], scan => scan
  | item :: items, scan => scanItem env (items ++ newer) item (scanAll newer items scan)

/-- The reconstruction by a scan of the whole rollout to its start. -/
def reconstructByFullScan (rolloutItems : List (RolloutItem Value)) :
    RolloutReconstruction Value Snapshot :=
  reconstructFromScan env (scanAll env [] rolloutItems { rolloutSuffix := rolloutItems }).finish
    rolloutItems

lemma scanAll_append (newer older items : List (RolloutItem Value)) (scan : ReverseScan Value) :
    scanAll env newer (older ++ items) scan =
      scanAll env (items ++ newer) older (scanAll env newer items scan) := by
  induction older with
  | nil => rfl
  | cons item older ih => rw [List.cons_append, scanAll, scanAll, ih, List.append_assoc]

/-- The scan stops once it is resolved: until then it is the scan without the exit. -/
theorem scanBack_eq_scanAll (newer items : List (RolloutItem Value)) (scan : ReverseScan Value) :
    ∃ older tail, items = older ++ tail ∧
      scanBack env newer items scan = scanAll env newer tail scan ∧
      (older = [] ∨ (scanBack env newer items scan).isResolved = true) := by
  induction items with
  | nil => exact ⟨[], [], rfl, rfl, Or.inl rfl⟩
  | cons item items ih =>
    obtain ⟨older, tail, hitems, hscan, hstop⟩ := ih
    by_cases hresolved : (scanBack env newer items scan).isResolved = true
    · have hcons : scanBack env newer (item :: items) scan = scanBack env newer items scan := by
        rw [scanBack, if_pos hresolved]
      refine ⟨item :: older, tail, by rw [hitems, List.cons_append], ?_, Or.inr ?_⟩
      · rw [hcons, hscan]
      · rwa [hcons]
    · obtain rfl := hstop.resolve_right hresolved
      refine ⟨[], item :: items, rfl, ?_, Or.inl rfl⟩
      rw [List.nil_append] at hitems
      rw [scanBack, if_neg hresolved, scanAll, hscan, hitems]

/-! ### One turn of the scan -/

/-- The segment that is gathered, after a record that is no compaction. -/
structure SegmentExtends (segment segment' : ActiveReplaySegment Value) : Prop where
  base : segment'.baseReplacementHistory = segment.baseReplacementHistory
  worldState : segment.worldStateReplay <+: segment'.worldStateReplay

lemma SegmentExtends.of_some {segment next other : ActiveReplaySegment Value}
    (h : SegmentExtends segment next) (heq : some next = some other) :
    SegmentExtends segment other := by
  cases heq
  exact h

/-- What one record does to the scan: it compacts, finalizes the open segment, or adds to it. -/
theorem scanItem_cases (newer : List (RolloutItem Value)) (item : RolloutItem Value)
    (scan : ReverseScan Value) :
    (∃ compacted, item = .compacted compacted) ∨
    (∃ segment, scan.activeSegment = some segment ∧ scanItem env newer item scan =
        finalizeActiveSegment segment { scan with activeSegment := none }) ∨
    ∃ active pending, scanItem env newer item scan =
        { scan with activeSegment := active, pendingRollbackTurns := pending } ∧
      ∀ segment, active = some segment → SegmentExtends (scan.activeSegment.getD {}) segment := by
  have hsame : ∀ segment, scan.activeSegment = some segment →
      SegmentExtends (scan.activeSegment.getD {}) segment := by
    intro segment hsegment
    rw [hsegment]
    exact ⟨rfl, List.prefix_rfl⟩
  cases item with
  | compacted compacted => exact Or.inl ⟨compacted, rfl⟩
  | responseItem item =>
    exact Or.inr (Or.inr ⟨_, _, rfl, fun _ => .of_some ⟨rfl, List.prefix_rfl⟩⟩)
  | interAgentCommunication communication =>
    exact Or.inr (Or.inr ⟨_, _, rfl, fun _ => .of_some ⟨rfl, List.prefix_rfl⟩⟩)
  | worldState worldState =>
    exact Or.inr (Or.inr ⟨_, _, rfl, fun _ => .of_some ⟨rfl, List.prefix_append _ _⟩⟩)
  | turnContext ctx =>
    refine Or.inr (Or.inr ⟨_, _, rfl, fun segment hsegment => ?_⟩)
    cases hsegment
    unfold ActiveReplaySegment.recordTurnContext
    simp only
    split_ifs
    · exact ⟨rfl, List.prefix_rfl⟩
    · exact ⟨rfl, List.prefix_rfl⟩
  | sessionMeta contextWindowId => exact Or.inr (Or.inr ⟨_, _, rfl, hsame⟩)
  | interAgentCommunicationMetadata triggerTurn => exact Or.inr (Or.inr ⟨_, _, rfl, hsame⟩)
  | eventMsg event =>
    cases event with
    | threadRolledBack numTurns => exact Or.inr (Or.inr ⟨_, _, rfl, hsame⟩)
    | other event => exact Or.inr (Or.inr ⟨_, _, rfl, hsame⟩)
    | turnComplete turnId =>
      exact Or.inr (Or.inr ⟨_, _, rfl, fun _ => .of_some ⟨rfl, List.prefix_rfl⟩⟩)
    | userMessage event =>
      exact Or.inr (Or.inr ⟨_, _, rfl, fun _ => .of_some ⟨rfl, List.prefix_rfl⟩⟩)
    | turnAborted turnId =>
      refine Or.inr (Or.inr ⟨_, _, rfl, fun segment hsegment => ?_⟩)
      rcases hactive : scan.activeSegment with _ | active
      · rw [hactive] at hsegment
        cases turnId with
        | none => cases hsegment
        | some turnId =>
          cases hsegment
          exact ⟨rfl, List.prefix_rfl⟩
      · rw [hactive] at hsegment
        cases hsegment
        exact ⟨rfl, List.prefix_rfl⟩
    | turnStarted turnId =>
      rw [scanItem]
      split
      next segment hactive =>
        split_ifs
        · exact Or.inr (Or.inl ⟨segment, hactive, rfl⟩)
        · exact Or.inr (Or.inr ⟨_, _, rfl, hsame⟩)
      next => exact Or.inr (Or.inr ⟨_, _, rfl, hsame⟩)

lemma activeSegment_finalize (segment : ActiveReplaySegment Value) (scan : ReverseScan Value) :
    (finalizeActiveSegment segment scan).activeSegment = scan.activeSegment := by
  unfold finalizeActiveSegment
  split_ifs <;> rfl

variable {scan : ReverseScan Value}

lemma scanItem_resolves {newer : List (RolloutItem Value)} {item : RolloutItem Value}
    (hbefore : scan.isResolved ≠ true) (hafter : (scanItem env newer item scan).isResolved = true) :
    (scanItem env newer item scan).activeSegment = none := by
  obtain ⟨compacted, rfl⟩ | ⟨segment, -, hscan⟩ | ⟨active, pending, hscan, -⟩ :=
    scanItem_cases env newer item scan
  · exact absurd hafter hbefore
  · rw [hscan, activeSegment_finalize]
  · rw [hscan] at hafter
    exact absurd hafter hbefore

lemma scanBack_idle {newer items : List (RolloutItem Value)} (hnew : scan.isResolved ≠ true)
    (hresolved : (scanBack env newer items scan).isResolved = true) :
    (scanBack env newer items scan).activeSegment = none := by
  induction items with
  | nil => exact absurd hresolved hnew
  | cons item items ih =>
    by_cases hbefore : (scanBack env newer items scan).isResolved = true
    · rw [scanBack, if_pos hbefore]
      exact ih hbefore
    · rw [scanBack, if_neg hbefore] at hresolved ⊢
      exact scanItem_resolves env hbefore hresolved

/-! ### The checkpoint of a base -/

/-- The base stands in a checkpoint of the scanned records; the replayed suffix starts right after
that checkpoint or at a record before it. -/
def FromCheckpoint (scanned suffix : List (RolloutItem Value)) (base : List (ResponseItem Value)) :
    Prop :=
  ∃ before checkpoint after, scanned = before ++ .compacted checkpoint :: after ∧
    checkpoint.replacementHistory = some base ∧
    (suffix = after ∨ .compacted checkpoint :: after <:+ suffix)

/-- A base that is known comes from a checkpoint, which is among the world-state records too. -/
def BaseFrom (scanned suffix : List (RolloutItem Value))
    (base : Option (List (ResponseItem Value))) (records : List (WorldStateRecord Value)) : Prop :=
  ∀ history, base = some history → FromCheckpoint scanned suffix history ∧ .compacted ∈ records

namespace BaseFrom

variable {scanned suffix : List (RolloutItem Value)} {base : Option (List (ResponseItem Value))}
  {records records' : List (WorldStateRecord Value)} (h : BaseFrom scanned suffix base records)
include h

lemma cons (item : RolloutItem Value) : BaseFrom (item :: scanned) suffix base records := by
  intro history hbase
  obtain ⟨⟨before, checkpoint, after, hscanned, hrest⟩, hrecord⟩ := h history hbase
  exact ⟨⟨item :: before, checkpoint, after, by rw [hscanned, List.cons_append], hrest⟩, hrecord⟩

/-- The replayed suffix starts at an older checkpoint. -/
theorem restart : BaseFrom scanned scanned base records := by
  intro history hbase
  obtain ⟨⟨before, checkpoint, after, hscanned, hhistory, -⟩, hrecord⟩ := h history hbase
  refine ⟨⟨before, checkpoint, after, hscanned, hhistory, Or.inr ?_⟩, hrecord⟩
  rw [hscanned]
  exact List.suffix_append _ _

lemma mono (hrecords : records ⊆ records') : BaseFrom scanned suffix base records' := by
  intro history hbase
  obtain ⟨hfrom, hrecord⟩ := h history hbase
  exact ⟨hfrom, hrecords hrecord⟩

omit h

lemma none : BaseFrom scanned suffix none records := fun _ hbase => absurd hbase nofun

end BaseFrom

/-- The bases of the scan and of its open segment come from checkpoints. -/
structure Anchored (scanned : List (RolloutItem Value)) (scan : ReverseScan Value) : Prop where
  settled : BaseFrom scanned scan.rolloutSuffix scan.baseReplacementHistory scan.worldStateReplay
  active : ∀ segment, scan.activeSegment = some segment →
    BaseFrom scanned scan.rolloutSuffix segment.baseReplacementHistory segment.worldStateReplay

namespace Anchored

variable {scanned : List (RolloutItem Value)} {scan : ReverseScan Value} (h : Anchored scanned scan)
include h

lemma getD :
    BaseFrom scanned scan.rolloutSuffix (scan.activeSegment.getD {}).baseReplacementHistory
      (scan.activeSegment.getD {}).worldStateReplay := by
  cases hactive : scan.activeSegment with
  | none => exact BaseFrom.none
  | some segment => exact h.active segment hactive

lemma cons (item : RolloutItem Value) : Anchored (item :: scanned) scan :=
  ⟨h.settled.cons item, fun segment hsegment => (h.active segment hsegment).cons item⟩

lemma finalize {segment : ActiveReplaySegment Value}
    (hsegment : scan.activeSegment = some segment) :
    Anchored scanned (finalizeActiveSegment segment { scan with activeSegment := none }) := by
  refine ⟨?_, fun active hactive => ?_⟩
  · unfold finalizeActiveSegment
    by_cases hpending : 0 < scan.pendingRollbackTurns
    · rw [if_pos hpending]
      split_ifs
      · exact h.settled
      · exact h.settled
    · rw [if_neg hpending]
      intro history hbase
      rcases Option.or_eq_some_iff.mp hbase with hscan | ⟨-, hscan⟩
      · exact h.settled.mono (List.subset_append_left _ _) history hscan
      · exact (h.active segment hsegment).mono (List.subset_append_right _ _) history hscan
  · simp [activeSegment_finalize] at hactive

omit h

/-- A compaction replaces the suffix exactly where its segment takes its base from it. -/
theorem compacted (h : Anchored scanned scan) (compacted : CompactedItem Value) :
    Anchored (.compacted compacted :: scanned)
      (scanItem env scanned (.compacted compacted) scan) := by
  have hsegment := h.getD
  rw [scanItem]
  generalize scan.activeSegment.getD {} = segment at hsegment ⊢
  have hrecords : WorldStateRecord.compacted ∈
      (segment.recordCompaction env compacted).worldStateReplay :=
    List.mem_append_right _ List.mem_cons_self
  split_ifs with hcheckpoint
  · rw [Bool.and_eq_true, Option.isNone_iff_eq_none] at hcheckpoint
    refine ⟨(h.settled.restart).cons _, fun active hactive history hbase => ?_⟩
    cases hactive
    have hhistory : compacted.replacementHistory = some history := by
      rw [← hbase, ActiveReplaySegment.recordCompaction, hcheckpoint.1, Option.none_or]
    exact ⟨⟨[], compacted, scanned, rfl, hhistory, Or.inl rfl⟩, hrecords⟩
  · refine ⟨h.settled.cons _, fun active hactive history hbase => ?_⟩
    cases hactive
    rcases Option.or_eq_some_iff.mp hbase with hold | ⟨hnone, hnew⟩
    · exact ⟨((hsegment.cons _) history hold).1, hrecords⟩
    · exact absurd (by rw [hnone, hnew]; rfl) hcheckpoint

lemma scanItem (h : Anchored scanned scan) (item : RolloutItem Value) :
    Anchored (item :: scanned) (scanItem env scanned item scan) := by
  obtain ⟨compacted, rfl⟩ | ⟨segment, hsegment, hscan⟩ | ⟨active, pending, hscan, hactive⟩ :=
    scanItem_cases env scanned item scan
  · exact h.compacted env compacted
  · rw [hscan]
    exact (h.finalize hsegment).cons item
  · rw [hscan]
    refine ⟨h.settled.cons item, fun segment hsegment => ?_⟩
    have hextends := hactive segment hsegment
    rw [hextends.base]
    exact (h.getD.mono hextends.worldState.subset).cons item

lemma scanAll {rollout : List (RolloutItem Value)} (items : List (RolloutItem Value)) :
    Anchored items (scanAll env [] items { rolloutSuffix := rollout }) := by
  induction items with
  | nil => exact ⟨BaseFrom.none, fun _ hactive => absurd hactive nofun⟩
  | cons item items ih =>
    rw [Session.scanAll, List.append_nil]
    exact ih.scanItem env item

end Anchored

/-! ### Past the exit -/

/-- What records older than the exit can do: more world-state records, and a longer suffix. -/
structure Settled (scanned : List (RolloutItem Value)) (scan scan' : ReverseScan Value) :
    Prop where
  base : scan'.baseReplacementHistory = scan.baseReplacementHistory
  settings : scan'.previousTurnSettings = scan.previousTurnSettings
  reference : scan'.referenceContextItem = scan.referenceContextItem
  worldState : scan.worldStateReplay <+: scan'.worldStateReplay
  suffix : scan'.rolloutSuffix = scan.rolloutSuffix ∨ scanned <:+ scan'.rolloutSuffix

namespace Settled

variable {scanned : List (RolloutItem Value)} {scan scan' : ReverseScan Value}

lemma refl : Settled scanned scan scan := ⟨rfl, rfl, rfl, List.prefix_rfl, Or.inl rfl⟩

lemma isResolved (h : Settled scanned scan scan') : scan'.isResolved = scan.isResolved := by
  rw [ReverseScan.isResolved, ReverseScan.isResolved, h.base, h.settings, h.reference]

lemma finalize (h : Settled scanned scan scan') (hresolved : scan.isResolved = true)
    (segment : ActiveReplaySegment Value) :
    Settled scanned scan (finalizeActiveSegment segment { scan' with activeSegment := none }) := by
  rw [← h.isResolved, ReverseScan.isResolved, Bool.and_eq_true, Bool.and_eq_true] at hresolved
  obtain ⟨⟨hbase, hsettings⟩, hreference⟩ := hresolved
  unfold finalizeActiveSegment
  by_cases hpending : 0 < scan'.pendingRollbackTurns
  · rw [if_pos hpending]
    split_ifs
    · exact ⟨h.base, h.settings, h.reference, h.worldState, h.suffix⟩
    · exact ⟨h.base, h.settings, h.reference, h.worldState, h.suffix⟩
  · rw [if_neg hpending]
    refine ⟨?_, ?_, ?_, h.worldState.trans (List.prefix_append _ _), h.suffix⟩
    · rw [← h.base]
      exact Option.or_of_isSome hbase
    · rw [← h.settings]
      simp [Option.isNone_eq_false_iff.mpr hsettings]
    · rw [← h.reference]
      dsimp only
      split at hreference
      next => exact absurd hreference Bool.false_ne_true
      next hset =>
        split
        next hnever _ => exact absurd hnever hset
        next hnever _ => exact absurd hnever hset
        next => rfl

lemma scanItem (h : Settled scanned scan scan') (hresolved : scan.isResolved = true)
    {newer : List (RolloutItem Value)} (hnewer : scanned <:+ newer) (item : RolloutItem Value) :
    Settled scanned scan (scanItem env newer item scan') := by
  obtain ⟨compacted, rfl⟩ | ⟨segment, -, hscan⟩ | ⟨active, pending, hscan, -⟩ :=
    scanItem_cases env newer item scan'
  · rw [Session.scanItem]
    refine ⟨h.base, h.settings, h.reference, h.worldState, ?_⟩
    dsimp only
    split_ifs
    · exact Or.inr hnewer
    · exact h.suffix
  · rw [hscan]
    exact h.finalize hresolved segment
  · rw [hscan]
    exact ⟨h.base, h.settings, h.reference, h.worldState, h.suffix⟩

lemma scanAll (hresolved : scan.isResolved = true) (older : List (RolloutItem Value)) :
    Settled scanned scan (scanAll env scanned older scan) := by
  induction older with
  | nil => exact Settled.refl
  | cons item older ih => exact ih.scanItem env hresolved (List.suffix_append _ _) item

lemma finish (h : Settled scanned scan scan') (hresolved : scan.isResolved = true) :
    Settled scanned scan scan'.finish := by
  rw [ReverseScan.finish]
  split
  next segment hactive => exact h.finalize hresolved segment
  next => exact h

end Settled

/-! ### The replays -/

lemma rolloutSuffix_scanAll {rollout : List (RolloutItem Value)} {newer items}
    (hitems : items ++ newer <:+ rollout) (hscan : scan.rolloutSuffix <:+ rollout) :
    (scanAll env newer items scan).rolloutSuffix <:+ rollout := by
  induction items with
  | nil => exact hscan
  | cons item items ih =>
    have hnewer : items ++ newer <:+ rollout := (List.suffix_cons _ _).trans hitems
    have hkept := ih hnewer
    rw [scanAll]
    rcases rolloutSuffix_scanItem env (items ++ newer) item (scanAll env newer items scan) with
      ⟨hcut, -⟩ | hsame
    · rwa [hcut]
    · rwa [hsame]

variable {replay replay' : ForwardReplay Value Snapshot}

/-- The items of the history after a record are a function of the items before it. -/
theorem items_replayItem_congr
    (h : replay.history.items = replay'.history.items) (item : RolloutItem Value) :
    (replayItem env replay item).history.items = (replayItem env replay' item).history.items := by
  cases hcompaction : isCompaction item with
  | false => rw [items_replayItem env _ hcompaction, items_replayItem env _ hcompaction, h]
  | true =>
    cases item with
    | compacted compacted =>
      rcases hhistory : compacted.replacementHistory with _ | history
      · simp only [replayItem, hhistory, h, ContextManager.replace]
      · simp only [replayItem, hhistory, ContextManager.replace]
    | _ => cases hcompaction

lemma items_foldl_congr
    (h : replay.history.items = replay'.history.items) (suffix : List (RolloutItem Value)) :
    (suffix.foldl (replayItem env) replay).history.items =
      (suffix.foldl (replayItem env) replay').history.items := by
  induction suffix generalizing replay replay' with
  | nil => exact h
  | cons item suffix ih => exact ih (items_replayItem_congr env h item)

/-- A checkpoint resets the history to its replacement. -/
theorem replayForward_checkpoint {checkpoint : CompactedItem Value}
    {after suffix : List (RolloutItem Value)} {history : List (ResponseItem Value)}
    (hhistory : checkpoint.replacementHistory = some history)
    (hsuffix : .compacted checkpoint :: after <:+ suffix)
    (base : Option (List (ResponseItem Value))) :
    (replayForward env base suffix : ForwardReplay Value Snapshot).history.items =
      (replayForward env (some history) after : ForwardReplay Value Snapshot).history.items := by
  obtain ⟨before, rfl⟩ := hsuffix
  rw [replayForward, replayForward, List.foldl_append, List.foldl_cons]
  apply items_foldl_congr
  simp only [replayItem, hhistory]
  rfl

lemma replayWorldState_checkpoint {records : List (WorldStateRecord Value)}
    (h : .compacted ∈ records) (baseline baseline' : Option Snapshot) :
    records.foldl (replayWorldState env) baseline =
      records.foldl (replayWorldState env) baseline' := by
  induction records generalizing baseline baseline' with
  | nil => cases h
  | cons record records ih =>
    rw [List.foldl_cons, List.foldl_cons]
    rcases List.mem_cons.mp h with rfl | hmem
    · rfl
    · exact ih hmem _ _

/-! ### The two scans -/

variable {scanned : List (RolloutItem Value)}

/-- Before the exit and past it, the same history is replayed. -/
theorem items_replayForward_settled
    {scan scan' : ReverseScan Value} (hanchored : Anchored scanned scan)
    (hresolved : scan.isResolved = true) (hsettled : Settled scanned scan scan') :
    (replayForward env scan.baseReplacementHistory scan.rolloutSuffix :
        ForwardReplay Value Snapshot).history.items =
      (replayForward env scan'.baseReplacementHistory scan'.rolloutSuffix :
        ForwardReplay Value Snapshot).history.items := by
  rw [ReverseScan.isResolved, Bool.and_eq_true, Bool.and_eq_true] at hresolved
  obtain ⟨history, hbase⟩ := Option.isSome_iff_exists.mp hresolved.1.1
  obtain ⟨⟨before, checkpoint, after, hscanned, hhistory, hsuffix⟩, -⟩ :=
    hanchored.settled history hbase
  rw [hsettled.base, hbase]
  rcases hsettled.suffix with hsame | hlonger
  · rw [hsame]
  · rw [hscanned] at hlonger
    rw [replayForward_checkpoint env hhistory ((List.suffix_append _ _).trans hlonger)]
    rcases hsuffix with hafter | hcheckpoint
    · rw [hafter]
    · exact replayForward_checkpoint env hhistory hcheckpoint _

lemma worldState_settled {scan scan' : ReverseScan Value}
    (hanchored : Anchored scanned scan) (hresolved : scan.isResolved = true)
    (hsettled : Settled scanned scan scan') :
    scan.worldStateReplay.reverse.foldl (replayWorldState env) none =
      scan'.worldStateReplay.reverse.foldl (replayWorldState env) none := by
  rw [ReverseScan.isResolved, Bool.and_eq_true, Bool.and_eq_true] at hresolved
  obtain ⟨history, hbase⟩ := Option.isSome_iff_exists.mp hresolved.1.1
  obtain ⟨-, hrecord⟩ := hanchored.settled history hbase
  obtain ⟨records, hrecords⟩ := hsettled.worldState
  rw [← hrecords, List.reverse_append, List.foldl_append]
  exact replayWorldState_checkpoint env (List.mem_reverse.mpr hrecord) _ _

/-- Where the scan exits early, the records before the exit do not change what it has found. -/
theorem reverseScan_settled (rollout : List (RolloutItem Value)) :
    reverseScan env rollout = (scanAll env [] rollout { rolloutSuffix := rollout }).finish ∨
    ∃ scanned, Anchored scanned (reverseScan env rollout) ∧
      (reverseScan env rollout).isResolved = true ∧
      Settled scanned (reverseScan env rollout)
        (scanAll env [] rollout { rolloutSuffix := rollout }).finish := by
  obtain ⟨older, scanned, hrollout, hscan, hstop⟩ :=
    scanBack_eq_scanAll env [] rollout { rolloutSuffix := rollout }
  rcases hstop with rfl | hresolved
  · refine Or.inl ?_
    rw [reverseScan, hscan, ← List.nil_append scanned, ← hrollout]
  · have hnew : ({ rolloutSuffix := rollout } : ReverseScan Value).isResolved ≠ true :=
      Bool.false_ne_true
    have hidle := scanBack_idle env hnew hresolved
    have hfinish : reverseScan env rollout =
        scanAll env [] scanned { rolloutSuffix := rollout } := by
      rw [reverseScan, ReverseScan.finish, hidle, hscan]
    have hfull : scanAll env [] rollout { rolloutSuffix := rollout } =
        scanAll env scanned older (reverseScan env rollout) := by
      conv_lhs => rw [hrollout]
      rw [scanAll_append, List.append_nil, ← hrollout, ← hfinish]
    rw [hscan, ← hfinish] at hresolved
    refine Or.inr ⟨scanned, ?_, hresolved, ?_⟩
    · rw [hfinish]
      exact Anchored.scanAll env scanned
    · rw [hfull]
      exact (Settled.scanAll env hresolved older).finish hresolved

/-- Without legacy compactions, the early exit changes none of the four results. -/
theorem earlyExit_sound (rollout : List (RolloutItem Value))
    (hcheckpoints : ∀ compacted, .compacted compacted ∈ rollout →
      compacted.replacementHistory.isSome) :
    let early : RolloutReconstruction Value Snapshot := reconstructHistoryFromRollout env rollout
    let full : RolloutReconstruction Value Snapshot := reconstructByFullScan env rollout
    early.history = full.history ∧ early.previousTurnSettings = full.previousTurnSettings ∧
      early.referenceContextItem = full.referenceContextItem ∧
      early.worldStateBaseline = full.worldStateBaseline := by
  intro early full
  have hearly : early = reconstructFromScan env (reverseScan env rollout) rollout := rfl
  have hfull : full = reconstructFromScan env
      (scanAll env [] rollout { rolloutSuffix := rollout }).finish rollout := rfl
  rcases reverseScan_settled env rollout with hsame | ⟨scanned, hanchored, hresolved, hsettled⟩
  · rw [hearly, hfull, hsame]
    exact ⟨rfl, rfl, rfl, rfl⟩
  · have hlegacy : rollout.any isLegacyCompaction = false := by
      refine List.any_eq_false.mpr fun item hitem => ?_
      cases item with
      | compacted compacted =>
        simpa [isLegacyCompaction, Option.isSome_iff_ne_none] using hcheckpoints compacted hitem
      | _ => exact Bool.false_ne_true
    have hsuffix' : (scanAll env [] rollout { rolloutSuffix := rollout }).finish.rolloutSuffix <:+
        rollout := by
      have hwhole : rollout ++ [] <:+ rollout := ⟨[], by rw [List.append_nil, List.nil_append]⟩
      rw [rolloutSuffix_finish]
      exact rolloutSuffix_scanAll env hwhole List.suffix_rfl
    refine ⟨?_, hsettled.settings.symm, ?_, ?_⟩
    · exact items_replayForward_settled env hanchored hresolved hsettled
    · rw [hearly, hfull, reconstructFromScan, reconstructFromScan]
      dsimp only
      rw [sawLegacyCompaction_suffix env hlegacy (rolloutSuffix_reverseScan env rollout),
        sawLegacyCompaction_suffix env hlegacy hsuffix', hsettled.reference]
    · exact worldState_settled env hanchored hresolved hsettled

end EarlyExit

/-! ### A checkpoint turn -/

def checkpointRollout : List (RolloutItem Unit) :=
  rolloutItems [.turn sketchTurn, .turn checkpointTurn]

def hasReplacement : RolloutItem Unit → Bool
  | .compacted compacted => compacted.replacementHistory.isSome
  | _ => true

theorem earlyExit_sound_checkpoint :
    (scanBack plainEnv [] checkpointRollout { rolloutSuffix := checkpointRollout }).isResolved ∧
      (reconstructHistoryFromRollout plainEnv checkpointRollout).history =
        (reconstructByFullScan plainEnv checkpointRollout).history := by
  refine ⟨by decide, (earlyExit_sound plainEnv checkpointRollout fun compacted hmem => ?_).1⟩
  have hall : checkpointRollout.all hasReplacement := by decide
  exact List.all_eq_true.mp hall _ hmem

end Codex.Session
