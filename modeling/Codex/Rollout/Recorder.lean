import Codex.Lib.LineLog
import Mathlib.Data.Option.Basic

/-!
# The rollout writer

`rollout/src/recorder.rs`: items queue up and are written to the rollout as JSON lines; an item
leaves the queue when its write has succeeded, and after a failure the file is reopened and the rest
of the queue is written again. What the disk does is an `IoPlan`: every operation may fail, and a
failed write may leave a part of its line, or all of it, in the file.
-/

namespace Codex.Rollout

open Codex.Lib

/-- The bytes of a file. -/
abbrev Bytes := List UInt8

variable {Item Meta Git Time ThreadId : Type}

/-! ### Lines -/

/-- What `load_rollout_items` makes of a line. -/
inductive LineContent (Item : Type) where
  | blank
  | invalidJson
  | legacyGhostSnapshot
  | invalidItem
  | item (item : Item)
  deriving DecidableEq

/-- What the writer and the reader call: `SessionMetaLine`, the id in a session's metadata, the JSON
text of `RolloutLineRef`, and the reading of a line, where `none` is one that is not UTF-8. -/
structure LineEnv (Item Meta Git Time ThreadId : Type) where
  sessionMetaLine : Meta → Git → Item
  sessionMetaId : Item → Option ThreadId
  toJson : Time → Item → Bytes
  readLine : Bytes → Option (LineContent Item)

/-- `\n` -/
def newline : UInt8 := 10

/-- `\r` -/
def carriageReturn : UInt8 := 13

/-- JSON lines round-trip. -/
structure LineEnv.RoundTrips (env : LineEnv Item Meta Git Time ThreadId) : Prop where
  readLine_toJson : ∀ time item, env.readLine (env.toJson time item) = some (.item item)
  newline_notMem : ∀ time item, newline ∉ env.toJson time item
  no_carriageReturn : ∀ time item, (env.toJson time item).getLast? ≠ some carriageReturn

/-! ### The writer -/

/-- What becomes of the write and the flush of a line: both succeed, `write_all` stops after some
bytes, or `flush` fails. -/
inductive LineWrite where
  | done
  | stopped (count : ℕ)
  | unflushed

/-- What the disk and the clock do at every operation. -/
structure IoPlan (Git Time : Type) where
  opens : ℕ → Bool
  lines : ℕ → LineWrite
  flushes : ℕ → Bool
  git : ℕ → Git
  now : ℕ → Time

/-- `RolloutWriterState`, with the file and the number of operations so far; `writer` and
`deferredLogFileInfo` say whether they are set, the path of the latter is `rollout_path`, and the
last error is only logged. -/
structure RolloutWriter (Item Meta : Type) where
  writer : Bool
  deferredLogFileInfo : Bool
  pendingItems : List Item
  sessionMeta : Option Meta
  file : Option Bytes
  clock : ℕ

namespace RolloutWriter

/-- `RolloutRecorder::new` with `Create`, whose path is new -/
def create (sessionMeta : Meta) : RolloutWriter Item Meta where
  writer := false
  deferredLogFileInfo := true
  pendingItems := []
  sessionMeta := some sessionMeta
  file := none
  clock := 0

/-- `RolloutRecorder::new` with `Resume` -/
def resume (bytes : Bytes) : RolloutWriter Item Meta where
  writer := true
  deferredLogFileInfo := false
  pendingItems := []
  sessionMeta := none
  file := some bytes
  clock := 0

variable (w : RolloutWriter Item Meta)

def isDeferred : Bool := !w.writer && w.deferredLogFileInfo

def enterRecoveryMode : RolloutWriter Item Meta :=
  { w with writer := false }

/-- `?` after an operation -/
def andThen (result : Bool × RolloutWriter Item Meta)
    (next : RolloutWriter Item Meta → Bool × RolloutWriter Item Meta) :
    Bool × RolloutWriter Item Meta :=
  if result.1 then next result.2 else result

section write

variable (env : LineEnv Item Meta Git Time ThreadId) (plan : IoPlan Git Time)

/-- `ensure_writer_open`, `open_log_file` -/
def ensureWriterOpen (w : RolloutWriter Item Meta) : Bool × RolloutWriter Item Meta :=
  if w.writer then (true, w)
  else if plan.opens w.clock then
    (true, { w with
      writer := true
      deferredLogFileInfo := false
      file := some (w.file.getD [])
      clock := w.clock + 1 })
  else (false, { w with clock := w.clock + 1 })

/-- `JsonlWriter::write_line`, with the line's end -/
def writeLine (line : Bytes) (w : RolloutWriter Item Meta) : Bool × RolloutWriter Item Meta :=
  let written (bytes : Bytes) : RolloutWriter Item Meta :=
    { w with file := some (w.file.getD [] ++ bytes), clock := w.clock + 1 }
  match plan.lines w.clock with
  | .done => (true, written line)
  | .stopped count => (false, written (line.take count))
  | .unflushed => (false, written line)

def writeRolloutItem (item : Item) (w : RolloutWriter Item Meta) : Bool × RolloutWriter Item Meta :=
  w.writeLine plan (env.toJson (plan.now w.clock) item ++ [newline])

def writeSessionMeta (sessionMeta : Meta) (w : RolloutWriter Item Meta) :
    Bool × RolloutWriter Item Meta :=
  if w.writer then
    w.writeRolloutItem env plan (env.sessionMetaLine sessionMeta (plan.git w.clock))
  else (true, w)

def writeSessionMetaIfNeeded (w : RolloutWriter Item Meta) : Bool × RolloutWriter Item Meta :=
  match w.sessionMeta with
  | none => (true, w)
  | some sessionMeta =>
    andThen (w.writeSessionMeta env plan sessionMeta) fun w =>
      (true, { w with sessionMeta := none })

/-- The loop of `write_pending_items_once`: how many items are written, whether all are, and
what they leave -/
def writeItems : List Item → RolloutWriter Item Meta → ℕ × Bool × RolloutWriter Item Meta
  | [], w => (0, true, w)
  | item :: items, w =>
    match w.writeRolloutItem env plan item with
    | (false, w) => (0, false, w)
    | (true, w) =>
      let (count, ok, w) := writeItems items w
      (count + 1, ok, w)

def writePendingItemsOnce (w : RolloutWriter Item Meta) : Bool × RolloutWriter Item Meta :=
  if w.writer then
    let (count, ok, w) := writeItems env plan w.pendingItems w
    (ok, { w with pendingItems := w.pendingItems.drop count })
  else (false, w)

/-- The last flush of `write_pending_once` -/
def flushFile (w : RolloutWriter Item Meta) : Bool × RolloutWriter Item Meta :=
  if w.writer then (plan.flushes w.clock, { w with clock := w.clock + 1 }) else (true, w)

def writePendingOnce (w : RolloutWriter Item Meta) : Bool × RolloutWriter Item Meta :=
  andThen (w.ensureWriterOpen plan) fun w =>
    andThen (w.writeSessionMetaIfNeeded env plan) fun w =>
      andThen (w.writePendingItemsOnce env plan) fun w => w.flushFile plan

def writePendingWithRecovery (w : RolloutWriter Item Meta) : Bool × RolloutWriter Item Meta :=
  match w.writePendingOnce env plan with
  | (true, w) => (true, w)
  | (false, w) =>
    match w.enterRecoveryMode.writePendingOnce env plan with
    | (true, w) => (true, w)
    | (false, w) => (false, w.enterRecoveryMode)

def persist (w : RolloutWriter Item Meta) : Bool × RolloutWriter Item Meta :=
  w.writePendingWithRecovery env plan

/-- `flush`, `shutdown` -/
def flush (w : RolloutWriter Item Meta) : Bool × RolloutWriter Item Meta :=
  if w.isDeferred && w.pendingItems.isEmpty then (true, w)
  else w.writePendingWithRecovery env plan

def addItems (items : List Item) (w : RolloutWriter Item Meta) : RolloutWriter Item Meta :=
  { w with pendingItems := w.pendingItems ++ items }

def flushIfMaterialized (w : RolloutWriter Item Meta) : RolloutWriter Item Meta :=
  if w.isDeferred then w
  else
    match w.flush env plan with
    | (true, w) => w
    | (false, w) => w.enterRecoveryMode

end write

end RolloutWriter

/-! ### Commands -/

inductive RolloutCmd (Item : Type) where
  | addItems (items : List Item)
  | persist
  | flush
  | shutdown

/-- The items that a command adds. -/
def RolloutCmd.items : RolloutCmd Item → List Item
  | .addItems items => items
  | _ => []

/-- The command that may end the loop. -/
def RolloutCmd.isShutdown : RolloutCmd Item → Bool
  | .shutdown => true
  | _ => false

namespace RolloutWriter

variable (env : LineEnv Item Meta Git Time ThreadId) (plan : IoPlan Git Time)

/-- One turn of the loop of `rollout_writer`: what is acknowledged, and the state after -/
def handle (w : RolloutWriter Item Meta) :
    RolloutCmd Item → Option Bool × RolloutWriter Item Meta
  | .addItems items => (none, (w.addItems items).flushIfMaterialized env plan)
  | .persist => (some (w.persist env plan).1, (w.persist env plan).2)
  | .flush | .shutdown => (some (w.flush env plan).1, (w.flush env plan).2)

/-- The loop of `rollout_writer`; it ends with a shutdown that succeeds -/
def handled (w : RolloutWriter Item Meta) : List (RolloutCmd Item) →
    Option (RolloutWriter Item Meta)
  | [] => some w
  | cmd :: cmds =>
    if cmd.isShutdown && (w.handle env plan cmd).1 = some true then none
    else (w.handle env plan cmd).2.handled cmds

end RolloutWriter

/-! ### Reading the file -/

/-- The errors of `load_rollout_items` -/
inductive LoadError where
  | notFound
  | invalidData
  | emptySessionFile

/-- The result of `load_rollout_items` -/
structure LoadedRollout (Item ThreadId : Type) where
  items : List Item
  threadId : Option ThreadId
  parseErrors : ℕ

/-- The end of a line without its `\r`. -/
def stripCarriageReturn (line : Bytes) : Bytes :=
  if line.getLast? = some carriageReturn then line.dropLast else line

/-- `RolloutLineReader::next_line`, over a whole file -/
def readLines (bytes : Bytes) : List Bytes :=
  (splitRecords newline bytes).1.map stripCarriageReturn ++
    if (splitRecords newline bytes).2 = [] then [] else [(splitRecords newline bytes).2]

/-- The item of a line. -/
def LineContent.item? : LineContent Item → Option Item
  | .item content => some content
  | _ => none

/-- The lines that `load_rollout_items` counts as errors -/
def LineContent.isError : LineContent Item → Bool
  | .invalidJson | .invalidItem => true
  | _ => false

/-- `line.trim().is_empty()` -/
def LineContent.isBlank : LineContent Item → Bool
  | .blank => true
  | _ => false

variable (env : LineEnv Item Meta Git Time ThreadId)

/-- What `load_rollout_items` gathers from the lines -/
def LoadedRollout.ofContents
    (contents : List (LineContent Item)) : LoadedRollout Item ThreadId where
  items := contents.filterMap LineContent.item?
  threadId := (contents.filterMap LineContent.item?).findSome? env.sessionMetaId
  parseErrors := contents.countP LineContent.isError

def loadRolloutItems :
    Option Bytes → Except LoadError (LoadedRollout Item ThreadId)
  | none => .error .notFound
  | some bytes =>
    match (readLines bytes).mapM env.readLine with
    | none => .error .invalidData
    | some contents =>
      if contents.all LineContent.isBlank then .error .emptySessionFile
      else .ok (.ofContents env contents)

/-! ### What is read back -/

section load

variable {env : LineEnv Item Meta Git Time ThreadId}

/-- The items of the lines of a file, one after the other. -/
def linesOf (env : LineEnv Item Meta Git Time ThreadId) (written : List (Time × Item)) : Bytes :=
  encodeRecords newline (written.map fun line => env.toJson line.1 line.2)

variable (written : List (Time × Item))

lemma linesOf_concat (time : Time) (item : Item) :
    linesOf env (written ++ [(time, item)]) =
      linesOf env written ++ (env.toJson time item ++ [newline]) := by
  rw [linesOf, List.map_append, encodeRecords_append]
  exact congrArg (linesOf env written ++ ·) (encodeRecords_singleton _ _)

variable {bytes : Bytes}

lemma readLines_append_linesOf (henv : env.RoundTrips)
    (hends : (splitRecords newline bytes).2 = []) (written : List (Time × Item)) :
    readLines (bytes ++ linesOf env written) =
      readLines bytes ++ written.map fun line => env.toJson line.1 line.2 := by
  have hsplit : splitRecords newline (linesOf env written) =
      (written.map fun line => env.toJson line.1 line.2, []) := by
    apply splitRecords_encode
    intro record hrecord
    obtain ⟨line, -, rfl⟩ := List.mem_map.mp hrecord
    exact henv.newline_notMem line.1 line.2
  have hstrip : (written.map fun line => env.toJson line.1 line.2).map stripCarriageReturn =
      written.map fun line => env.toJson line.1 line.2 := by
    rw [List.map_map]
    refine List.map_congr_left fun line _ => ?_
    exact if_neg (henv.no_carriageReturn line.1 line.2)
  rw [readLines, splitRecords_append hends, hsplit, readLines, hends, List.map_append, hstrip]
  simp

lemma mapM_readLine (henv : env.RoundTrips) (written : List (Time × Item)) :
    (written.map fun line => env.toJson line.1 line.2).mapM env.readLine =
      some (written.map fun line => .item line.2) := by
  induction written with
  | nil => rfl
  | cons line written ih =>
    rw [List.map_cons, List.mapM_cons, henv.readLine_toJson, ih]
    rfl

lemma filterMap_item :
    (written.map fun line => LineContent.item line.2).filterMap LineContent.item? =
      written.map Prod.snd := by
  induction written with
  | nil => rfl
  | cons line written ih =>
    have hhead : (LineContent.item line.2).item? = some line.2 := rfl
    rw [List.map_cons, List.filterMap_cons_some hhead, ih]
    rfl

lemma loadRolloutItems_ok (contents : List (LineContent Item))
    (hcontents : (readLines bytes).mapM env.readLine = some contents)
    (hblank : contents.all LineContent.isBlank = false) :
    loadRolloutItems env (some bytes) = .ok (.ofContents env contents) := by
  rw [loadRolloutItems, hcontents]
  simp only [hblank, Bool.false_eq_true, if_false]

/-- Lines that are written to a new file are read back. -/
theorem load_linesOf (henv : env.RoundTrips) {written : List (Time × Item)} (hne : written ≠ []) :
    ∃ loaded, loadRolloutItems env (some (linesOf env written)) = .ok loaded ∧
      loaded.items = written.map Prod.snd := by
  have hlines : readLines ([] ++ linesOf env written) = _ :=
    readLines_append_linesOf henv rfl written
  rw [List.nil_append] at hlines
  have hblank : (written.map fun line => LineContent.item line.2).all LineContent.isBlank =
      false := by
    cases written with
    | nil => exact absurd rfl hne
    | cons line written => rfl
  refine ⟨_, loadRolloutItems_ok _ ?_ hblank, filterMap_item written⟩
  rw [hlines]
  exact mapM_readLine henv written

/-- Lines that are appended to a file that ends a line are read after its own. -/
theorem load_append_linesOf (henv : env.RoundTrips)
    (hends : (splitRecords newline bytes).2 = []) {before : LoadedRollout Item ThreadId}
    (hbefore : loadRolloutItems env (some bytes) = .ok before) (written : List (Time × Item)) :
    ∃ loaded, loadRolloutItems env (some (bytes ++ linesOf env written)) = .ok loaded ∧
      loaded.items = before.items ++ written.map Prod.snd := by
  rw [loadRolloutItems] at hbefore
  cases hcontents : (readLines bytes).mapM env.readLine with
  | none =>
    simp [hcontents] at hbefore
  | some contents =>
    rw [hcontents] at hbefore
    simp only at hbefore
    split_ifs at hbefore with hblank
    cases hbefore
    rw [Bool.not_eq_true] at hblank
    refine ⟨_, loadRolloutItems_ok (contents ++ written.map fun line => .item line.2) ?_ ?_, ?_⟩
    · rw [readLines_append_linesOf henv hends, List.mapM_append, hcontents, mapM_readLine henv]
      rfl
    · rw [List.all_append, hblank, Bool.false_and]
    · refine (List.filterMap_append ..).trans ?_
      rw [filterMap_item]
      rfl

end load

/-! ### What the writer keeps -/

/-- How a writer starts: with a new rollout, or on the file of one that is resumed. -/
inductive RolloutStart (Meta : Type) where
  | create (sessionMeta : Meta)
  | resume (bytes : Bytes)

namespace RolloutStart

def writer : RolloutStart Meta → RolloutWriter Item Meta
  | .create sessionMeta => .create sessionMeta
  | .resume bytes => .resume bytes

/-- The bytes that are there before. -/
def bytes : RolloutStart Meta → Bytes
  | .create _ => []
  | .resume bytes => bytes

/-- The items that stand before those that are added, when the session's metadata is or is not
written yet. -/
def Header (env : LineEnv Item Meta Git Time ThreadId) (sessionMeta : Option Meta)
    (header : List Item) : RolloutStart Meta → Prop
  | .create first => (sessionMeta = some first ∧ header = []) ∨
      (sessionMeta = none ∧ ∃ git, header = [env.sessionMetaLine first git])
  | .resume _ => sessionMeta = none ∧ header = []

end RolloutStart

/-- What the file has: the header and the items that are done, a line for each. -/
structure Wrote (env : LineEnv Item Meta Git Time ThreadId) (start : RolloutStart Meta)
    (done : List Item) (w : RolloutWriter Item Meta) : Prop where
  file : ∃ header written, start.Header env w.sessionMeta header ∧
    w.file.getD [] = start.bytes ++ linesOf env written ∧ written.map Prod.snd = header ++ done
  unstarted : w.sessionMeta ≠ none → done = []
  opened : w.writer = true → w.deferredLogFileInfo = false ∧ w.file ≠ none
  deferred : w.deferredLogFileInfo = true → w.file = none ∧ ∃ first, start = .create first

variable (env : LineEnv Item Meta Git Time ThreadId) (start : RolloutStart Meta)

/-- The items that are added so far are done or pending. -/
def Sound (added : List Item) (w : RolloutWriter Item Meta) : Prop :=
  ∃ done, Wrote env start done w ∧ added = done ++ w.pendingItems

/-- A write of a line that fails leaves nothing in the file. -/
def LineWrite.LeavesNothing (write : LineWrite) : Prop := write = .done ∨ write = .stopped 0

lemma start_sound : Sound env start [] (start.writer : RolloutWriter Item Meta) := by
  cases start with
  | create first =>
    exact ⟨[], ⟨⟨[], [], .inl ⟨rfl, rfl⟩, rfl, rfl⟩, fun _ => rfl, nofun,
      fun _ => ⟨rfl, first, rfl⟩⟩, rfl⟩
  | resume bytes =>
    refine ⟨[], ⟨⟨[], [], ⟨rfl, rfl⟩, ?_, rfl⟩, fun _ => rfl,
      fun _ => ⟨rfl, Option.some_ne_none _⟩, nofun⟩, rfl⟩
    exact (List.append_nil bytes).symm

section keeps

variable {env : LineEnv Item Meta Git Time ThreadId} {plan : IoPlan Git Time}
  {start : RolloutStart Meta} {added done : List Item} {w : RolloutWriter Item Meta}
  (hplan : ∀ n, (plan.lines n).LeavesNothing)

open RolloutWriter

lemma Wrote.append (h : Wrote env start done w) (hopen : w.writer = true)
    (hmeta : w.sessionMeta = none) (time : Time) (item : Item) :
    Wrote env start (done ++ [item]) { w with
      file := some (w.file.getD [] ++ (env.toJson time item ++ [newline]))
      clock := w.clock + 1 } := by
  obtain ⟨header, written, hheader, hfile, hwritten⟩ := h.file
  refine ⟨⟨header, written ++ [(time, item)], hheader, ?_, ?_⟩, fun hne => absurd hmeta hne,
    fun _ => ⟨(h.opened hopen).1, Option.some_ne_none _⟩, fun hdeferred => ?_⟩
  · rw [linesOf_concat, ← List.append_assoc start.bytes, ← hfile]
    rfl
  · rw [List.map_append, hwritten, List.append_assoc]
    rfl
  · cases hdeferred.symm.trans (h.opened hopen).1

lemma Wrote.appendMeta (h : Wrote env start done w) (hopen : w.writer = true)
    {first : Meta} (hmeta : w.sessionMeta = some first) (time : Time) (git : Git) :
    Wrote env start done { w with
      file := some (w.file.getD [] ++
        (env.toJson time (env.sessionMetaLine first git) ++ [newline]))
      sessionMeta := none
      clock := w.clock + 1 } := by
  obtain ⟨header, written, hheader, hfile, hwritten⟩ := h.file
  have hdone : done = [] := h.unstarted (by rw [hmeta]; exact Option.some_ne_none _)
  subst hdone
  rw [List.append_nil] at hwritten
  refine ⟨⟨[env.sessionMetaLine first git],
    written ++ [(time, env.sessionMetaLine first git)], ?_, ?_, ?_⟩,
    fun _ => rfl, fun _ => ⟨(h.opened hopen).1, Option.some_ne_none _⟩, fun hdeferred => ?_⟩
  · cases start with
    | create created =>
      rcases hheader with ⟨hsome, -⟩ | ⟨hnone, -⟩
      · obtain rfl := Option.some.inj (hmeta.symm.trans hsome)
        exact .inr ⟨rfl, git, rfl⟩
      · cases hmeta.symm.trans hnone
    | resume bytes => cases hmeta.symm.trans hheader.1
  · rw [linesOf_concat, ← List.append_assoc start.bytes, ← hfile]
    rfl
  · have hheaderNil : header = [] := by
      cases start with
      | create created =>
        rcases hheader with ⟨-, hnil⟩ | ⟨hnone, -⟩
        · exact hnil
        · cases hmeta.symm.trans hnone
      | resume bytes => exact hheader.2
    rw [List.map_append, hwritten, hheaderNil]
    rfl
  · cases hdeferred.symm.trans (h.opened hopen).1

lemma Wrote.same (h : Wrote env start done w) (hopen : w.writer = true) (clock : ℕ) :
    Wrote env start done { w with file := some (w.file.getD []), clock := clock } :=
  ⟨h.file, h.unstarted, fun _ => ⟨(h.opened hopen).1, Option.some_ne_none _⟩,
    fun hdeferred => absurd (hdeferred.symm.trans (h.opened hopen).1) nofun⟩

include hplan

lemma writeRolloutItem_cases (item : Item) (w : RolloutWriter Item Meta) :
    w.writeRolloutItem env plan item =
        (true, { w with
          file := some (w.file.getD [] ++ (env.toJson (plan.now w.clock) item ++ [newline]))
          clock := w.clock + 1 }) ∨
      w.writeRolloutItem env plan item =
        (false, { w with file := some (w.file.getD []), clock := w.clock + 1 }) := by
  rw [writeRolloutItem, writeLine]
  rcases hplan w.clock with hdone | hstopped
  · rw [hdone]
    exact .inl rfl
  · rw [hstopped]
    refine .inr ?_
    simp only [List.take_zero, List.append_nil]

/-- The loop over the queue: as many items as it says are written, and all of them if it
succeeds. -/
theorem writeItems_spec (items : List Item) (h : Wrote env start done w)
    (hopen : w.writer = true) (hmeta : w.sessionMeta = none) :
    let result := writeItems env plan items w
    Wrote env start (done ++ items.take result.1) result.2.2 ∧
      result.2.2.pendingItems = w.pendingItems ∧ result.2.2.writer = true ∧
      result.2.2.sessionMeta = none ∧ (result.2.1 = true → result.1 = items.length) := by
  induction items generalizing done w with
  | nil =>
    rw [writeItems]
    refine ⟨?_, rfl, hopen, hmeta, fun _ => rfl⟩
    rwa [List.take_nil, List.append_nil]
  | cons item items ih =>
    rw [writeItems]
    rcases writeRolloutItem_cases hplan item w with hwritten | hfailed
    · rw [hwritten]
      obtain ⟨hwrote, hpending, hopen', hmeta', hall⟩ :=
        ih (h.append hopen hmeta (plan.now w.clock) item) hopen hmeta
      refine ⟨?_, hpending, hopen', hmeta', fun hok => ?_⟩
      · rw [List.append_assoc] at hwrote
        exact hwrote
      · exact congrArg Nat.succ (hall hok)
    · rw [hfailed]
      refine ⟨?_, rfl, hopen, hmeta, nofun⟩
      rw [List.take_zero, List.append_nil]
      exact h.same hopen _

/-- The writer stays sound, and reaches `Q` if the operation succeeds. -/
def Keeps (env : LineEnv Item Meta Git Time ThreadId) (start : RolloutStart Meta)
    (added : List Item) (Q : RolloutWriter Item Meta → Prop)
    (result : Bool × RolloutWriter Item Meta) : Prop :=
  Sound env start added result.2 ∧ (result.1 = true → Q result.2)

omit hplan in
lemma Keeps.andThen {Q R : RolloutWriter Item Meta → Prop}
    {result : Bool × RolloutWriter Item Meta} (h : Keeps env start added Q result)
    {next : RolloutWriter Item Meta → Bool × RolloutWriter Item Meta}
    (hnext : ∀ w, Sound env start added w → Q w → Keeps env start added R (next w)) :
    Keeps env start added R (andThen result next) := by
  rw [RolloutWriter.andThen]
  by_cases hok : result.1 = true
  · rw [if_pos hok]
    exact hnext _ h.1 (h.2 hok)
  · rw [if_neg hok]
    exact ⟨h.1, fun hok' => absurd hok' hok⟩

variable (w)

/-- The file is open. -/
def Ready : Prop := w.writer = true

/-- The file is open and has the session's metadata, if that is to be written. -/
def Begun : Prop := w.writer = true ∧ w.sessionMeta = none

/-- Everything is written. -/
def Written : Prop := Begun w ∧ w.pendingItems = []

variable {w}

omit hplan in
lemma keeps_ensureWriterOpen (h : Sound env start added w) :
    Keeps env start added Ready (w.ensureWriterOpen plan) := by
  obtain ⟨done, hwrote, hadded⟩ := h
  rw [ensureWriterOpen]
  by_cases hopen : w.writer = true
  · rw [if_pos hopen]
    exact ⟨⟨done, hwrote, hadded⟩, fun _ => hopen⟩
  · rw [if_neg hopen]
    split_ifs
    · refine ⟨⟨done, ⟨hwrote.file, hwrote.unstarted, fun _ => ?_, nofun⟩, hadded⟩, fun _ => rfl⟩
      exact ⟨rfl, Option.some_ne_none _⟩
    · refine ⟨⟨done, ⟨hwrote.file, hwrote.unstarted, ?_, hwrote.deferred⟩, hadded⟩, nofun⟩
      exact hwrote.opened

lemma keeps_writeSessionMetaIfNeeded (h : Sound env start added w) (hopen : Ready w) :
    Keeps env start added Begun (w.writeSessionMetaIfNeeded env plan) := by
  obtain ⟨done, hwrote, hadded⟩ := h
  rw [writeSessionMetaIfNeeded]
  split
  next hmeta => exact ⟨⟨done, hwrote, hadded⟩, fun _ => ⟨hopen, hmeta⟩⟩
  next first hmeta =>
    have hwriter : w.writer = true := hopen
    rw [writeSessionMeta, if_pos hwriter]
    rcases writeRolloutItem_cases hplan (env.sessionMetaLine first (plan.git w.clock)) w with
      hwritten | hfailed
    · rw [hwritten]
      exact ⟨⟨done, hwrote.appendMeta hopen hmeta _ _, hadded⟩, fun _ => ⟨hopen, rfl⟩⟩
    · rw [hfailed]
      exact ⟨⟨done, hwrote.same hopen _, hadded⟩, nofun⟩

lemma keeps_writePendingItemsOnce (h : Sound env start added w) (hbegun : Begun w) :
    Keeps env start added Written (w.writePendingItemsOnce env plan) := by
  obtain ⟨done, hwrote, hadded⟩ := h
  obtain ⟨hopen, hmeta⟩ := hbegun
  obtain ⟨hwrote', hpending, hopen', hmeta', hall⟩ :=
    writeItems_spec hplan w.pendingItems hwrote hopen hmeta
  rw [writePendingItemsOnce, if_pos hopen]
  set result := writeItems env plan w.pendingItems w
  refine ⟨⟨_, ⟨hwrote'.file, hwrote'.unstarted, hwrote'.opened, hwrote'.deferred⟩, ?_⟩,
    fun hok => ?_⟩
  · change added = _ ++ result.2.2.pendingItems.drop result.1
    rw [hpending, List.append_assoc, List.take_append_drop, hadded]
  · refine ⟨⟨hopen', hmeta'⟩, ?_⟩
    change result.2.2.pendingItems.drop result.1 = []
    rw [hpending, hall hok, List.drop_length]

omit hplan in
lemma keeps_flushFile (h : Sound env start added w) (hwritten : Written w) :
    Keeps env start added Written (w.flushFile plan) := by
  obtain ⟨done, hwrote, hadded⟩ := h
  obtain ⟨⟨hopen, hmeta⟩, hpending⟩ := hwritten
  rw [flushFile, if_pos hopen]
  exact ⟨⟨done, ⟨hwrote.file, hwrote.unstarted, hwrote.opened, hwrote.deferred⟩, hadded⟩,
    fun _ => ⟨⟨hopen, hmeta⟩, hpending⟩⟩

lemma keeps_writePendingOnce (h : Sound env start added w) :
    Keeps env start added Written (w.writePendingOnce env plan) := by
  apply (keeps_ensureWriterOpen h).andThen
  intro w hsound hopen
  apply (keeps_writeSessionMetaIfNeeded hplan hsound hopen).andThen
  intro w hsound hbegun
  apply (keeps_writePendingItemsOnce hplan hsound hbegun).andThen
  intro w hsound hwritten
  exact keeps_flushFile hsound hwritten

omit hplan in
lemma Sound.enterRecoveryMode (h : Sound env start added w) :
    Sound env start added w.enterRecoveryMode := by
  obtain ⟨done, hwrote, hadded⟩ := h
  exact ⟨done, ⟨hwrote.file, hwrote.unstarted, nofun, hwrote.deferred⟩, hadded⟩

lemma keeps_writePendingWithRecovery (h : Sound env start added w) :
    Keeps env start added Written (w.writePendingWithRecovery env plan) := by
  have honce := keeps_writePendingOnce hplan h
  rw [writePendingWithRecovery]
  split
  next w' heq =>
    rw [heq] at honce
    exact honce
  next w' heq =>
    rw [heq] at honce
    have hretry := keeps_writePendingOnce hplan honce.1.enterRecoveryMode
    split
    next w'' heq' =>
      rw [heq'] at hretry
      exact hretry
    next w'' heq' =>
      rw [heq'] at hretry
      exact ⟨hretry.1.enterRecoveryMode, nofun⟩

/-- The queue is empty and everything is written, or nothing was ever to be written. -/
def Settled (w : RolloutWriter Item Meta) : Prop :=
  Written w ∨ w.deferredLogFileInfo = true ∧ w.pendingItems = []

variable (h : Sound env start added w)
include h

lemma keeps_persist : Keeps env start added Settled (w.persist env plan) := by
  obtain ⟨hsound, hwritten⟩ := keeps_writePendingWithRecovery hplan h
  exact ⟨hsound, fun hok => .inl (hwritten hok)⟩

lemma keeps_flush : Keeps env start added Settled (w.flush env plan) := by
  rw [RolloutWriter.flush]
  split_ifs with hdeferred
  · rw [Bool.and_eq_true, isDeferred, Bool.and_eq_true, List.isEmpty_iff] at hdeferred
    exact ⟨h, fun _ => .inr ⟨hdeferred.1.2, hdeferred.2⟩⟩
  · exact keeps_persist hplan h

/-- **A command** adds its items and keeps the writer sound, and leaves nothing pending where it is
acknowledged. -/
theorem Sound.handle (cmd : RolloutCmd Item) :
    Sound env start (added ++ cmd.items) (w.handle env plan cmd).2 ∧
      ((w.handle env plan cmd).1 = some true → Settled (w.handle env plan cmd).2) := by
  cases cmd with
  | addItems items =>
    have hadd : Sound env start (added ++ items) (w.addItems items) := by
      obtain ⟨done, hwrote, hadded⟩ := h
      refine ⟨done, ⟨hwrote.file, hwrote.unstarted, hwrote.opened, hwrote.deferred⟩, ?_⟩
      rw [hadded, List.append_assoc]
      rfl
    refine ⟨?_, nofun⟩
    change Sound env start (added ++ items) ((w.addItems items).flushIfMaterialized env plan)
    have hflush := (keeps_flush hplan hadd).1
    rw [flushIfMaterialized]
    split_ifs
    · exact hadd
    · split
      next w' heq =>
        rw [heq] at hflush
        exact hflush
      next w' heq =>
        rw [heq] at hflush
        exact hflush.enterRecoveryMode
  | persist =>
    obtain ⟨hsound, hsettled⟩ := keeps_persist hplan h
    have hitems : added ++ RolloutCmd.items (.persist : RolloutCmd Item) = added :=
      List.append_nil _
    rw [hitems]
    exact ⟨hsound, fun hack => hsettled (Option.some.inj hack)⟩
  | flush =>
    obtain ⟨hsound, hsettled⟩ := keeps_flush hplan h
    have hitems : added ++ RolloutCmd.items (.flush : RolloutCmd Item) = added := List.append_nil _
    rw [hitems]
    exact ⟨hsound, fun hack => hsettled (Option.some.inj hack)⟩
  | shutdown =>
    obtain ⟨hsound, hsettled⟩ := keeps_flush hplan h
    have hitems : added ++ RolloutCmd.items (.shutdown : RolloutCmd Item) = added :=
      List.append_nil _
    rw [hitems]
    exact ⟨hsound, fun hack => hsettled (Option.some.inj hack)⟩

/-- **A run** keeps the writer sound. -/
theorem Sound.handled {cmds : List (RolloutCmd Item)}
    {w' : RolloutWriter Item Meta} (hrun : w.handled env plan cmds = some w') :
    Sound env start (added ++ cmds.flatMap RolloutCmd.items) w' := by
  induction cmds generalizing w added with
  | nil =>
    cases hrun
    rwa [List.flatMap_nil, List.append_nil]
  | cons cmd cmds ih =>
    rw [RolloutWriter.handled] at hrun
    split_ifs at hrun
    have hrest := ih (h.handle hplan cmd).1 hrun
    rw [List.append_assoc] at hrest
    exact hrest

end keeps

/-! ### Acknowledged items -/

/-- What reading the file has to yield: the session's metadata of a new rollout, or the items of the
one that is resumed, and then the items that are added. A new rollout without items may have no file
yet. -/
def Recorded (env : LineEnv Item Meta Git Time ThreadId) (start : RolloutStart Meta)
    (added : List Item) (file : Option Bytes) : Prop :=
  match start with
  | .create first =>
    file = none ∧ added = [] ∨
      ∃ loaded git, loadRolloutItems env file = .ok loaded ∧
        loaded.items = env.sessionMetaLine first git :: added
  | .resume bytes =>
    ∀ before, loadRolloutItems env (some bytes) = .ok before →
      ∃ loaded, loadRolloutItems env file = .ok loaded ∧ loaded.items = before.items ++ added

lemma Sound.recorded {env : LineEnv Item Meta Git Time ThreadId} (henv : env.RoundTrips)
    {start : RolloutStart Meta} (hends : (splitRecords newline start.bytes).2 = [])
    {added : List Item} {w : RolloutWriter Item Meta} (h : Sound env start added w)
    (hsettled : Settled w) : Recorded env start added w.file := by
  obtain ⟨done, hwrote, hadded⟩ := h
  obtain ⟨header, written, hheader, hfile, hwritten⟩ := hwrote.file
  have hpending : w.pendingItems = [] := hsettled.elim And.right And.right
  rw [hpending, List.append_nil] at hadded
  subst hadded
  rcases hsettled with ⟨⟨hopen, hmeta⟩, -⟩ | ⟨hdeferred, -⟩
  · obtain ⟨bytes, hsome⟩ := Option.ne_none_iff_exists'.mp (hwrote.opened hopen).2
    rw [hsome, Option.getD_some] at hfile
    rw [hsome, hfile]
    cases start with
    | create first =>
      rcases hheader with ⟨hfirst, -⟩ | ⟨-, git, rfl⟩
      · exact absurd (hmeta.symm.trans hfirst).symm (Option.some_ne_none _)
      · have hne : written ≠ [] := by
          rintro rfl
          cases hwritten
        obtain ⟨loaded, hload, hitems⟩ := load_linesOf henv hne
        exact .inr ⟨loaded, git, hload, hitems.trans hwritten⟩
    | resume before =>
      intro loaded hloaded
      obtain ⟨-, rfl⟩ := hheader
      obtain ⟨after, hload, hitems⟩ := load_append_linesOf henv hends hloaded written
      exact ⟨after, hload, hitems.trans (congrArg _ hwritten)⟩
  · obtain ⟨hnone, first, rfl⟩ := hwrote.deferred hdeferred
    rw [hnone, Option.getD_none] at hfile
    refine .inl ⟨hnone, ?_⟩
    cases written with
    | nil => exact (List.append_eq_nil_iff.mp hwritten.symm).2
    | cons line written =>
      have hlength := congrArg List.length hfile
      simp [RolloutStart.bytes, linesOf, encodeRecords] at hlength

/-- **Acknowledged items are recorded**: where JSON lines round-trip, a resumed file ends a line and
no failed write of a line leaves anything, every barrier that is acknowledged has the items so far
in the file, each once and in order. -/
theorem acked_recorded {env : LineEnv Item Meta Git Time ThreadId} (henv : env.RoundTrips)
    {plan : IoPlan Git Time} (hplan : ∀ n, (plan.lines n).LeavesNothing)
    {start : RolloutStart Meta} (hends : (splitRecords newline start.bytes).2 = [])
    {cmds : List (RolloutCmd Item)} {w : RolloutWriter Item Meta}
    (hrun : start.writer.handled env plan cmds = some w) {cmd : RolloutCmd Item}
    (hack : (w.handle env plan cmd).1 = some true) :
    Recorded env start ((cmds ++ [cmd]).flatMap RolloutCmd.items)
      (w.handle env plan cmd).2.file := by
  have hsound := (start_sound env start).handled hplan hrun
  obtain ⟨hsound', hsettled⟩ := hsound.handle hplan cmd
  rw [List.flatMap_append, List.flatMap_singleton]
  exact hsound'.recorded henv hends (hsettled hack)

/-! ### Three items -/

/-- Items that are digits, `0` being the session's metadata, and JSON that is a digit in braces. -/
def digitEnv : LineEnv (Fin 3) Unit Unit Unit Unit where
  sessionMetaLine _ _ := 0
  sessionMetaId item := if item = 0 then some () else none
  toJson _ item := [123, 48 + UInt8.ofNat item, 125]
  readLine
    | [] => some .blank
    | [123, 48, 125] => some (.item 0)
    | [123, 49, 125] => some (.item 1)
    | [123, 50, 125] => some (.item 2)
    | _ => some .invalidJson

lemma digitEnv_roundTrips : digitEnv.RoundTrips where
  readLine_toJson := fun () => by decide
  newline_notMem := fun () => by decide
  no_carriageReturn := fun () => by decide

/-- A disk on which one operation, the write of the first item, goes another way. -/
def planOf (write : LineWrite) : IoPlan Unit Unit where
  opens _ := true
  lines n := if n = 2 then write else .done
  flushes _ := true
  git _ := ()
  now _ := ()

/-- A new writer with an item in its queue. -/
def queued : RolloutWriter (Fin 3) Unit := RolloutWriter.addItems [1] (.create ())

/-- A write that fails before its first byte is made good. -/
theorem acked_recorded_digit : Recorded digitEnv (.create ()) [1]
    (queued.handle digitEnv (planOf (.stopped 0)) .persist).2.file := by
  have hplan : ∀ n, ((planOf (.stopped 0)).lines n).LeavesNothing := by
    intro n
    rw [planOf]
    simp only
    split_ifs
    · exact .inr rfl
    · exact .inl rfl
  have hrun : (RolloutStart.create ()).writer.handled digitEnv (planOf (.stopped 0))
      [.addItems [1]] = some queued := rfl
  have hack : (queued.handle digitEnv (planOf (.stopped 0)) .persist).1 = some true := rfl
  exact acked_recorded digitEnv_roundTrips hplan rfl hrun hack

/-- A barrier that is acknowledged after such a write, and a file that does not hold what it
should. -/
def AckedUnrecorded (write : LineWrite) : Prop := ∃ w,
  (RolloutStart.create ()).writer.handled digitEnv (planOf write) [.addItems [1]] = some w ∧
  (w.handle digitEnv (planOf write) .persist).1 = some true ∧
  ¬ Recorded digitEnv (.create ()) [1] (w.handle digitEnv (planOf write) .persist).2.file

/-- **A line that is begun is lost with its item**, and **a line that is not flushed is written
twice**: in both cases the barrier is acknowledged. -/
theorem acked_recorded_fails : AckedUnrecorded (.stopped 1) ∧ AckedUnrecorded .unflushed := by
  have hfails : ∀ (file : Bytes) (loaded : LoadedRollout (Fin 3) Unit),
      loadRolloutItems digitEnv (some file) = .ok loaded → loaded.items ≠ [0, 1] →
      ¬ Recorded digitEnv (.create ()) [1] (some file) := by
    rintro file loaded hload hne (⟨hnone, -⟩ | ⟨loaded', git, hload', hitems⟩)
    · cases hnone
    · obtain rfl := Except.ok.inj (hload.symm.trans hload')
      exact hne hitems
  constructor
  · refine ⟨_, rfl, rfl, ?_⟩
    apply hfails [123, 48, 125, 10, 123, 123, 49, 125, 10] ⟨[0], some (), 1⟩
    · rfl
    · decide
  · refine ⟨_, rfl, rfl, ?_⟩
    apply hfails [123, 48, 125, 10, 123, 49, 125, 10, 123, 49, 125, 10] ⟨[0, 1, 1], some (), 0⟩
    · rfl
    · decide

end Codex.Rollout
