import Codex.Lib.JsonString
import Codex.Lib.ReverseScan
import Codex.Lib.Trimming
import Codex.Lib.Unicode

/-!
# The session index

`rollout/src/session_index.rs`: names of threads are appended to a file of JSON lines, and removed
by writing it anew. A name is looked up by scanning the file from its end in chunks of bytes, the
names of several threads by reading its lines from the start. `IndexFormat` is the JSON of an entry.

* `IsIndex.applyOp`: what is appended and removed;
* `lookups_run`: what the lookups find in any index that was written.
-/

namespace Codex.SessionIndex

open Codex.Lib

variable {ThreadId : Type}

structure SessionIndexEntry (ThreadId : Type) where
  id : ThreadId
  threadName : Text
  updatedAt : Text

/-- The JSON of an entry: an object on one line. -/
structure IndexFormat (ThreadId : Type) where
  /-- `serde_json::to_string` -/
  toString : SessionIndexEntry ThreadId → Text
  /-- `serde_json::from_str`, absent on an error -/
  fromStr : Text → Option (SessionIndexEntry ThreadId)
  fromStr_toString : ∀ entry, fromStr (toString entry) = some entry
  toString_braces : ∀ entry, ∃ fields, toString entry = '{' :: fields ++ ['}']
  newline_notMem : ∀ entry, '\n' ∉ toString entry

namespace IndexFormat

variable {format : IndexFormat ThreadId} (entry : SessionIndexEntry ThreadId)

lemma noSurroundingWhitespace_toString : NoSurroundingWhitespace (format.toString entry) := by
  obtain ⟨fields, hbraces⟩ := format.toString_braces entry
  have hlast : (format.toString entry).getLast? = some '}' := by
    rw [hbraces, List.getLast?_concat]
  refine ⟨fun c hc => ?_, fun c hc => ?_⟩
  · rw [hbraces] at hc
    cases hc
    decide
  · rw [hlast] at hc
    cases hc
    decide

@[simp] lemma trim_toString : trim (format.toString entry) = format.toString entry :=
  trim_eq_self (noSurroundingWhitespace_toString entry)

@[simp] lemma stripCr_toString : stripCr (format.toString entry) = format.toString entry := by
  refine stripCr_eq_self fun hcr => ?_
  cases (noSurroundingWhitespace_toString entry).2 '\r' hcr

lemma toString_ne_nil : format.toString entry ≠ [] := by
  obtain ⟨fields, hbraces⟩ := format.toString_braces entry
  rw [hbraces]
  exact List.concat_ne_nil _ _

variable (entries : List (SessionIndexEntry ThreadId))

lemma newline_notMem_map : ∀ line ∈ entries.map format.toString, '\n' ∉ line := by
  intro line hline
  obtain ⟨entry, -, rfl⟩ := List.mem_map.mp hline
  exact format.newline_notMem entry

lemma lines_encodeRecords :
    lines (encodeRecords '\n' (entries.map format.toString)) = entries.map format.toString := by
  unfold lines
  rw [splitOn_encodeRecords (newline_notMem_map entries)]
  simp

end IndexFormat

/-! ### The entries of a file -/

variable (format : IndexFormat ThreadId)

/-- The entries of a file, in its order. -/
def indexEntries (file : Option Bytes) : List (SessionIndexEntry ThreadId) :=
  (lines (fromUtf8Lossy (file.getD []))).filterMap fun line => format.fromStr (trim line)

/-- The file holds these entries, one on each line. -/
def IsIndex (file : Option Bytes) (entries : List (SessionIndexEntry ThreadId)) : Prop :=
  file.getD [] = toBytes (encodeRecords '\n' (entries.map format.toString))

variable {entries : List (SessionIndexEntry ThreadId)}

lemma IsIndex.indexEntries_eq {format : IndexFormat ThreadId} {file : Option Bytes}
    (h : IsIndex format file entries) :
    indexEntries format file = entries := by
  rw [indexEntries, h, fromUtf8Lossy_toBytes, IndexFormat.lines_encodeRecords, List.filterMap_map]
  simp [format.fromStr_toString]

/-- After the last entry of `b` comes one of `a`. -/
def NewerThan (entries : List (SessionIndexEntry ThreadId)) (a b : ThreadId) : Prop :=
  ∃ before after, entries = before ++ after ∧ a ∈ after.map SessionIndexEntry.id ∧
    b ∉ after.map SessionIndexEntry.id

lemma NewerThan.cons {a b : ThreadId} (h : NewerThan entries a b)
    (entry : SessionIndexEntry ThreadId) : NewerThan (entry :: entries) a b := by
  obtain ⟨before, after, rfl, ha, hb⟩ := h
  exact ⟨entry :: before, after, rfl, ha, hb⟩

lemma NewerThan.ne {a b : ThreadId} (h : NewerThan entries a b) : a ≠ b := by
  obtain ⟨before, after, -, ha, hb⟩ := h
  rintro rfl
  exact hb ha

/-! ### Scanning from the end -/

section scan

variable {σ : Type}

def readChunkSize : ℕ := 8192

variable (format : IndexFormat ThreadId)
  (visitEntry : σ → SessionIndexEntry ThreadId → Except (σ × SessionIndexEntry ThreadId) σ)

/-- `parse_line_from_rev`; a visit that ends the scan gives an entry -/
def parseLine

    (state : σ) (line : Bytes) : Except (σ × SessionIndexEntry ThreadId) σ :=
  match fromUtf8 line with
  | none => .ok state
  | some line =>
    let trimmed := trim (stripCr line)
    if trimmed = [] then .ok state
    else
      match format.fromStr trimmed with
      | none => .ok state
      | some entry => visitEntry state entry

/-- The loop of `scan_index_from_end_for_each` -/
def scanRemaining (format : IndexFormat ThreadId)
    (visitEntry : σ → SessionIndexEntry ThreadId → Except (σ × SessionIndexEntry ThreadId) σ)
    (file : Bytes) (remaining : ℕ) (state : Bytes × σ) :
    Except (σ × SessionIndexEntry ThreadId) (Bytes × σ) :=
  if h : remaining = 0 then .ok state
  else
    let readSize := min remaining readChunkSize
    have : remaining - readSize < remaining := by
      have hsize : 0 < readChunkSize := by decide
      omega
    let buf := (file.drop (remaining - readSize)).take readSize
    (buf.reverse.foldlM (scanStep lineFeed (parseLine format visitEntry)) state).bind
      (scanRemaining format visitEntry file (remaining - readSize))

def scanIndexFromEndForEach

    (file : Bytes) (state : σ) : Except (σ × SessionIndexEntry ThreadId) σ :=
  (scanRemaining format visitEntry file file.length ([], state)).bind fun (line, state) =>
    visitPiece (parseLine format visitEntry) state line

end scan

def scanIndexFromEnd (format : IndexFormat ThreadId)
    (predicate : SessionIndexEntry ThreadId → Bool) (file : Bytes) :
    Option (SessionIndexEntry ThreadId) :=
  match scanIndexFromEndForEach format
    (fun state entry => if predicate entry then .error (state, entry) else .ok state) file () with
  | .error (_, entry) => some entry
  | .ok _ => none

/-! ### What the scan visits -/

section scan

variable {σ : Type} {format : IndexFormat ThreadId}
  {visitEntry : σ → SessionIndexEntry ThreadId → Except (σ × SessionIndexEntry ThreadId) σ}
  {entries : List (SessionIndexEntry ThreadId)}

lemma scanRemaining_eq (file : Bytes) (remaining : ℕ) (state : Bytes × σ) :
    scanRemaining format visitEntry file remaining state =
      (file.take remaining).reverse.foldlM (scanStep lineFeed (parseLine format visitEntry))
        state := by
  induction remaining using Nat.strong_induction_on generalizing state with
  | _ remaining ih =>
    rw [scanRemaining]
    split_ifs with hzero
    · rw [hzero]
      rfl
    · have hsize : 0 < readChunkSize := by decide
      rw [← foldlM_chunks _ _ (Nat.sub_le remaining (min remaining readChunkSize)),
        Nat.sub_sub_self (Nat.min_le_left _ _)]
      have hrest : scanRemaining format visitEntry file
          (remaining - min remaining readChunkSize) = fun state =>
            (file.take (remaining - min remaining readChunkSize)).reverse.foldlM
              (scanStep lineFeed (parseLine format visitEntry)) state :=
        funext fun state => ih _ (by omega) state
      simp only [hrest]

lemma parseLine_toBytes (state : σ) (entry : SessionIndexEntry ThreadId) :
    parseLine format visitEntry state (toBytes (format.toString entry)) =
      visitEntry state entry := by
  rw [parseLine, fromUtf8_toBytes]
  simp only [IndexFormat.stripCr_toString, IndexFormat.trim_toString,
    if_neg (IndexFormat.toString_ne_nil entry), format.fromStr_toString]

/-- **The scan visits the entries from the last to the first.** -/
theorem scanIndexFromEndForEach_eq {file : Bytes} (h : IsIndex format (some file) entries)
    (state : σ) :
    scanIndexFromEndForEach format visitEntry file state =
      entries.reverse.foldlM visitEntry state := by
  replace h : file = _ := h
  have hplain : ∀ record ∈ (entries.map format.toString).map toBytes, lineFeed ∉ record := by
    intro record hrecord hmem
    obtain ⟨line, hline, rfl⟩ := List.mem_map.mp hrecord
    refine IndexFormat.newline_notMem_map entries line hline ?_
    exact (mem_toBytes_iff (c := '\n') (by decide)).mp hmem
  have hvisit : ∀ pieces : List (SessionIndexEntry ThreadId), ∀ state,
      (pieces.map fun entry => toBytes (format.toString entry)).foldlM
        (visitPiece (parseLine format visitEntry)) state = pieces.foldlM visitEntry state := by
    intro pieces
    induction pieces with
    | nil => exact fun _ => rfl
    | cons entry pieces ih =>
      intro state
      have hne : toBytes (format.toString entry) ≠ [] := by
        rw [Ne, toBytes_eq_nil_iff]
        exact IndexFormat.toString_ne_nil entry
      rw [List.map_cons, List.foldlM_cons, List.foldlM_cons, visitPiece, if_neg hne,
        parseLine_toBytes]
      congr 1
      funext state
      exact ih state
  rw [scanIndexFromEndForEach, scanRemaining_eq, List.take_length, scanReversed_eq, h,
    toBytes_encodeRecords, splitOn_encodeRecords hplain, visitPieces, List.reverse_append,
    List.map_map, ← List.map_reverse]
  exact hvisit entries.reverse state

end scan

/-! ### Writing -/

/-- `append_session_index_entry`, on the file if it exists -/
def appendSessionIndexEntry (format : IndexFormat ThreadId) (file : Option Bytes)
    (entry : SessionIndexEntry ThreadId) : Option Bytes :=
  some (file.getD [] ++ toBytes (format.toString entry ++ ['\n']))

variable [DecidableEq ThreadId] (format : IndexFormat ThreadId)

def shouldRemove (threadId : ThreadId) (line : Text) : Bool :=
  (format.fromStr (trim line)).any fun entry => entry.id = threadId

/-- `remove_thread_name_entries`; absent where the file cannot be read -/
def removeThreadNameEntries (file : Option Bytes) (threadId : ThreadId) : Option (Option Bytes) :=
  match file with
  | none => some none
  | some bytes =>
    (fromUtf8 bytes).map fun contents =>
      if (lines contents).any (shouldRemove format threadId) then
        some (toBytes (encodeRecords '\n'
          ((lines contents).filter fun line => !shouldRemove format threadId line)))
      else some bytes

/-- A write to the index. -/
inductive IndexOp (ThreadId : Type) where
  | append (entry : SessionIndexEntry ThreadId)
  | remove (threadId : ThreadId)

def applyOp (file : Option Bytes) :
    IndexOp ThreadId → Option (Option Bytes)
  | .append entry => some (appendSessionIndexEntry format file entry)
  | .remove threadId => removeThreadNameEntries format file threadId

/-- The index after some writes, from no file on. -/
def run (ops : List (IndexOp ThreadId)) : Option (Option Bytes) :=
  ops.foldlM (applyOp format) none

/-! ### What is written -/

section written

variable {format : IndexFormat ThreadId} {file : Option Bytes}
  {entries : List (SessionIndexEntry ThreadId)}

lemma shouldRemove_toString (threadId : ThreadId) (entry : SessionIndexEntry ThreadId) :
    shouldRemove format threadId (format.toString entry) = decide (entry.id = threadId) := by
  rw [shouldRemove, IndexFormat.trim_toString, format.fromStr_toString]
  rfl

/-- The entries after a write. -/
def logged (entries : List (SessionIndexEntry ThreadId)) :
    IndexOp ThreadId → List (SessionIndexEntry ThreadId)
  | .append entry => entries ++ [entry]
  | .remove threadId => entries.filter fun entry => entry.id ≠ threadId

lemma IsIndex.applyOp (h : IsIndex format file entries) (op : IndexOp ThreadId) :
    ∃ file', SessionIndex.applyOp format file op = some file' ∧
      IsIndex format file' (logged entries op) := by
  cases op with
  | append entry =>
    refine ⟨_, rfl, ?_⟩
    show file.getD [] ++ _ = _
    rw [h, logged, List.map_append, encodeRecords_append, List.map_singleton,
      encodeRecords_singleton, ← toBytes_append]
  | remove threadId =>
    cases file with
    | none =>
      obtain rfl : entries = [] := h.indexEntries_eq.symm
      exact ⟨none, rfl, h⟩
    | some bytes =>
      replace h : bytes = _ := h
      have hkept : (entries.map format.toString).filter
          (fun line => !shouldRemove format threadId line) =
            (logged entries (.remove threadId)).map format.toString := by
        rw [logged, List.filter_map]
        congr 1
        refine List.filter_congr fun entry _ => ?_
        simp [shouldRemove_toString]
      have hremove : SessionIndex.applyOp format (some bytes) (.remove threadId) =
          some (if (entries.map format.toString).any (shouldRemove format threadId) then
            some (toBytes (encodeRecords '\n'
              ((logged entries (.remove threadId)).map format.toString)))
          else some bytes) := by
        show removeThreadNameEntries format (some bytes) threadId = _
        rw [removeThreadNameEntries, h, fromUtf8_toBytes, ← hkept, Option.map_some,
          IndexFormat.lines_encodeRecords]
      refine ⟨_, hremove, ?_⟩
      split_ifs with hany
      · rfl
      · -- nothing was removed
        have hsame : logged entries (.remove threadId) = entries := by
          refine List.filter_eq_self.mpr fun entry hentry => decide_eq_true fun hid => hany ?_
          refine List.any_eq_true.mpr ⟨_, List.mem_map_of_mem hentry, ?_⟩
          rw [shouldRemove_toString, decide_eq_true_eq]
          exact hid
        rw [hsame]
        exact h

/-- Every index that was written holds what was appended and not removed. -/
theorem isIndex_run (format : IndexFormat ThreadId) (ops : List (IndexOp ThreadId)) :
    ∃ file, run format ops = some file ∧ IsIndex format file (ops.foldl logged []) := by
  have hfrom : ∀ ops : List (IndexOp ThreadId), ∀ file entries, IsIndex format file entries →
      ∃ file', ops.foldlM (SessionIndex.applyOp format) file = some file' ∧
        IsIndex format file' (ops.foldl logged entries) := by
    intro ops
    induction ops with
    | nil => exact fun file entries h => ⟨file, rfl, h⟩
    | cons op ops ih =>
      intro file entries h
      obtain ⟨file', hop, h'⟩ := h.applyOp op
      obtain ⟨file'', hops, h''⟩ := ih file' _ h'
      refine ⟨file'', ?_, h''⟩
      rw [List.foldlM_cons, hop]
      exact hops
  exact hfrom ops none [] rfl

end written

/-! ### Lookups -/

variable (format : IndexFormat ThreadId)

def findThreadNameById (file : Option Bytes) (threadId : ThreadId) : Option Text :=
  file.bind fun bytes =>
    (scanIndexFromEnd format (fun entry => entry.id = threadId) bytes).map
      SessionIndexEntry.threadName

/-- The body of the loop of `find_thread_names_by_ids` -/
def recordName (threadIds : List ThreadId)
    (names : ThreadId → Option Text) (line : Text) : ThreadId → Option Text :=
  let trimmed := trim line
  if trimmed = [] then names
  else
    match format.fromStr trimmed with
    | none => names
    | some entry =>
      let name := trim entry.threadName
      if name ≠ [] ∧ entry.id ∈ threadIds then Function.update names entry.id (some name)
      else names

/-- `find_thread_names_by_ids`; absent where the file cannot be read -/
def findThreadNamesByIds (file : Option Bytes)
    (threadIds : List ThreadId) : Option (ThreadId → Option Text) :=
  match file with
  | none => some fun _ => none
  | some bytes =>
    if threadIds = [] then some fun _ => none
    else
      (fromUtf8 bytes).map fun contents =>
        (lines contents).foldl (recordName format threadIds) fun _ => none

/-- The variables of `stream_thread_ids_from_end_by_name`: the ids that were seen, and what
went into the channel -/
structure Streamed (ThreadId : Type) where
  seen : List ThreadId := []
  sent : List ThreadId := []

/-- The visit of `stream_thread_ids_from_end_by_name`, where the receiver takes as many ids
as `receiving` says -/
def streamEntry (name : Text) (receiving : ℕ → Bool) (state : Streamed ThreadId)
    (entry : SessionIndexEntry ThreadId) :
    Except (Streamed ThreadId × SessionIndexEntry ThreadId) (Streamed ThreadId) :=
  if entry.id ∈ state.seen then .ok state
  else
    let state := { state with seen := entry.id :: state.seen }
    if entry.threadName = name then
      if receiving state.sent.length then .ok { state with sent := state.sent ++ [entry.id] }
      else .error (state, entry)
    else .ok state

/-- `stream_thread_ids_from_end_by_name`, by what it sends -/
def streamThreadIdsFromEndByName (file : Bytes) (name : Text)
    (receiving : ℕ → Bool) : List ThreadId :=
  match scanIndexFromEndForEach format (streamEntry name receiving) file {} with
  | .error (state, _) => state.sent
  | .ok state => state.sent

/-! ### What the lookups find -/

variable (entries)

/-- The last entry of a thread. -/
def latestEntry (threadId : ThreadId) : Option (SessionIndexEntry ThreadId) :=
  (entries.filter fun entry => entry.id = threadId).getLast?

/-- The last entry of a thread whose name is not blank. -/
def latestNamed (threadId : ThreadId) : Option (SessionIndexEntry ThreadId) :=
  latestEntry (entries.filter fun entry => trim entry.threadName ≠ []) threadId

variable {entries}

section lookups

variable {format : IndexFormat ThreadId} {file : Option Bytes}
  {entries : List (SessionIndexEntry ThreadId)} {threadId : ThreadId}

lemma latestEntry_cons (entry : SessionIndexEntry ThreadId)
    (entries : List (SessionIndexEntry ThreadId)) (threadId : ThreadId) :
    latestEntry (entry :: entries) threadId =
      (latestEntry entries threadId).or (if entry.id = threadId then some entry else none) := by
  rw [latestEntry, latestEntry, List.filter_cons]
  by_cases h : entry.id = threadId
  · rw [if_pos (decide_eq_true h), if_pos h, List.getLast?_cons]
    cases (entries.filter fun entry => entry.id = threadId).getLast? <;> rfl
  · rw [if_neg (by simpa using h), if_neg h, Option.or_none]

lemma latestEntry_concat (entries : List (SessionIndexEntry ThreadId))
    (entry : SessionIndexEntry ThreadId) (threadId : ThreadId) :
    latestEntry (entries ++ [entry]) threadId =
      if entry.id = threadId then some entry else latestEntry entries threadId := by
  rw [latestEntry, List.filter_append]
  split_ifs with h
  · simp [h]
  · simp [h, latestEntry]

lemma latestEntry_eq_none_iff :
    latestEntry entries threadId = none ↔ threadId ∉ entries.map SessionIndexEntry.id := by
  rw [latestEntry, List.getLast?_eq_none_iff, List.filter_eq_nil_iff]
  simp

/-- The entry at which the scan stops is the last one of the thread. -/
theorem foldlM_reverse_eq (entries : List (SessionIndexEntry ThreadId)) (threadId : ThreadId) :
    entries.reverse.foldlM (fun state entry =>
        if decide (entry.id = threadId) then
          (.error (state, entry) : Except (Unit × SessionIndexEntry ThreadId) Unit)
        else .ok state) () =
      match latestEntry entries threadId with
      | some entry => .error ((), entry)
      | none => .ok () := by
  induction entries with
  | nil => rfl
  | cons entry entries ih =>
    rw [List.reverse_cons, List.foldlM_append, ih, latestEntry_cons]
    cases latestEntry entries threadId with
    | some later => rfl
    | none =>
      by_cases h : entry.id = threadId
      · simp only [List.foldlM_cons, decide_eq_true_eq, if_pos h]
        rfl
      · simp only [List.foldlM_cons, decide_eq_true_eq, if_neg h]
        rfl

lemma findThreadNameById_eq (h : IsIndex format file entries) (threadId : ThreadId) :
    findThreadNameById format file threadId =
      (latestEntry entries threadId).map SessionIndexEntry.threadName := by
  cases file with
  | none =>
    obtain rfl : entries = [] := h.indexEntries_eq.symm
    rfl
  | some bytes =>
    rw [findThreadNameById, Option.bind_some, scanIndexFromEnd, scanIndexFromEndForEach_eq h,
      foldlM_reverse_eq]
    cases latestEntry entries threadId <;> rfl

/-- What the names of some threads are found to be. -/
theorem foldl_recordName (threadIds : List ThreadId)
    (entries : List (SessionIndexEntry ThreadId)) (threadId : ThreadId) :
    (entries.map format.toString).foldl (recordName format threadIds) (fun _ => none) threadId =
      if threadId ∈ threadIds then
        (latestNamed entries threadId).map fun entry => trim entry.threadName
      else none := by
  induction entries using List.reverseRecOn with
  | nil => simp [latestNamed, latestEntry]
  | append_singleton entries entry ih =>
    have hstep : ∀ names, recordName format threadIds names (format.toString entry) =
        if trim entry.threadName ≠ [] ∧ entry.id ∈ threadIds then
          Function.update names entry.id (some (trim entry.threadName))
        else names := by
      intro names
      simp only [recordName, IndexFormat.trim_toString,
        if_neg (IndexFormat.toString_ne_nil entry), format.fromStr_toString]
    have hnamed : latestNamed (entries ++ [entry]) threadId =
        if trim entry.threadName ≠ [] ∧ entry.id = threadId then some entry
        else latestNamed entries threadId := by
      rw [latestNamed, List.filter_append]
      by_cases hblank : trim entry.threadName = []
      · simp [hblank, latestNamed]
      · simp [hblank, latestNamed, latestEntry_concat]
    rw [List.map_append, List.map_singleton, List.foldl_concat, hstep, hnamed]
    by_cases hid : entry.id = threadId
    · subst hid
      by_cases hblank : trim entry.threadName = []
      · simpa [hblank] using ih
      · by_cases hmem : entry.id ∈ threadIds
        · simp [hblank, hmem]
        · simpa [hblank, hmem] using ih
    · have hupdate : (if trim entry.threadName ≠ [] ∧ entry.id ∈ threadIds then
          Function.update ((entries.map format.toString).foldl (recordName format threadIds)
            fun _ => none) entry.id (some (trim entry.threadName))
        else (entries.map format.toString).foldl (recordName format threadIds) fun _ => none)
          threadId =
            (entries.map format.toString).foldl (recordName format threadIds) (fun _ => none)
              threadId := by
        split_ifs
        · exact Function.update_of_ne (Ne.symm hid) _ _
        · rfl
      rw [hupdate, ih]
      simp [hid]

lemma findThreadNamesByIds_eq (h : IsIndex format file entries) (threadIds : List ThreadId) :
    ∃ names, findThreadNamesByIds format file threadIds = some names ∧ ∀ threadId, names threadId =
        if threadId ∈ threadIds then
          (latestNamed entries threadId).map fun entry => trim entry.threadName
        else none := by
  cases file with
  | none =>
    obtain rfl : entries = [] := h.indexEntries_eq.symm
    exact ⟨_, rfl, fun threadId => by simp [latestNamed, latestEntry]⟩
  | some bytes =>
    rw [findThreadNamesByIds]
    by_cases hnil : threadIds = []
    · exact ⟨_, if_pos hnil, fun threadId => by simp [hnil]⟩
    · replace h : bytes = _ := h
      refine ⟨_, ?_, @foldl_recordName _ _ format threadIds entries⟩
      rw [if_neg hnil, h, fromUtf8_toBytes, Option.map_some, IndexFormat.lines_encodeRecords]

/-- The threads whose last entry has a name, the newest first. -/
def newestNamed (name : Text) : List (SessionIndexEntry ThreadId) → List ThreadId
  | [] => []
  | entry :: entries =>
    if entry.id ∉ entries.map SessionIndexEntry.id ∧ entry.threadName = name then
      newestNamed name entries ++ [entry.id]
    else newestNamed name entries

lemma foldlM_streamEntry (name : Text) (entries : List (SessionIndexEntry ThreadId)) :
    ∃ state, entries.reverse.foldlM (streamEntry name fun _ => true) {} = .ok state ∧
      (∀ threadId, threadId ∈ state.seen ↔ threadId ∈ entries.map SessionIndexEntry.id) ∧
      state.sent = newestNamed name entries := by
  induction entries with
  | nil => exact ⟨{}, rfl, fun _ => Iff.rfl, rfl⟩
  | cons entry entries ih =>
    obtain ⟨state, hscan, hseen, hsent⟩ := ih
    rw [List.reverse_cons, List.foldlM_append, hscan]
    show ∃ state', (streamEntry name (fun _ => true) state entry >>= pure) = _ ∧ _
    rw [bind_pure, streamEntry, newestNamed]
    by_cases hold : entry.id ∈ state.seen
    · have hmem := (hseen _).mp hold
      refine ⟨state, if_pos hold, fun threadId => ?_, ?_⟩
      · rw [List.map_cons, List.mem_cons, hseen]
        exact ⟨.inr, fun h => h.elim (fun heq => heq ▸ hmem) id⟩
      · rw [if_neg (not_and_of_not_left _ (not_not.mpr hmem)), hsent]
    · have hmem : entry.id ∉ entries.map SessionIndexEntry.id := fun h => hold ((hseen _).mpr h)
      have hcons : ∀ threadId, threadId ∈ entry.id :: state.seen ↔
          threadId ∈ (entry :: entries).map SessionIndexEntry.id := by
        intro threadId
        rw [List.map_cons, List.mem_cons, List.mem_cons, hseen]
      by_cases hname : entry.threadName = name
      · refine ⟨⟨entry.id :: state.seen, state.sent ++ [entry.id]⟩, ?_, hcons, ?_⟩
        · simp only [if_neg hold, if_pos hname, if_true]
        · rw [if_pos ⟨hmem, hname⟩, hsent]
      · refine ⟨⟨entry.id :: state.seen, state.sent⟩, ?_, hcons, ?_⟩
        · simp only [if_neg hold, if_neg hname]
        · rw [if_neg (not_and_of_not_right _ hname), hsent]

lemma streamThreadIdsFromEndByName_eq {bytes : Bytes} (h : IsIndex format (some bytes) entries)
    (name : Text) :
    streamThreadIdsFromEndByName format bytes name (fun _ => true) = newestNamed name entries := by
  obtain ⟨state, hscan, -, hsent⟩ := foldlM_streamEntry name entries
  rw [streamThreadIdsFromEndByName, scanIndexFromEndForEach_eq h, hscan]
  exact hsent

lemma mem_newestNamed {name : Text} :
    threadId ∈ newestNamed name entries ↔
      (latestEntry entries threadId).map SessionIndexEntry.threadName = some name := by
  induction entries with
  | nil => exact iff_of_false List.not_mem_nil nofun
  | cons entry entries ih =>
    rw [latestEntry_cons, newestNamed]
    have hnone : entry.id ∉ entries.map SessionIndexEntry.id ↔
        latestEntry entries entry.id = none := latestEntry_eq_none_iff.symm
    by_cases hid : entry.id = threadId
    · subst hid
      cases hlatest : latestEntry entries entry.id with
      | none =>
        rw [hlatest] at ih
        by_cases hname : entry.threadName = name
        · rw [if_pos ⟨hnone.mpr hlatest, hname⟩]
          simp [hname]
        · rw [if_neg (not_and_of_not_right _ hname), ih]
          simp [hname]
      | some later =>
        have hmem : entry.id ∈ entries.map SessionIndexEntry.id := by
          by_contra hmem
          cases hlatest.symm.trans (hnone.mp hmem)
        rw [if_neg (not_and_of_not_left _ (not_not.mpr hmem)), ih, hlatest]
        rfl
    · rw [if_neg hid, Option.or_none, ← ih]
      split_ifs
      · simp [Ne.symm hid]
      · rfl

lemma newestNamed_subset {name : Text} (h : threadId ∈ newestNamed name entries) :
    threadId ∈ entries.map SessionIndexEntry.id := by
  by_contra hmem
  simp [mem_newestNamed, latestEntry_eq_none_iff.mpr hmem] at h

/-- Each thread comes before those whose last entries are older. -/
theorem pairwise_newestNamed (name : Text) (entries : List (SessionIndexEntry ThreadId)) :
    (newestNamed name entries).Pairwise (NewerThan entries) := by
  induction entries with
  | nil => exact .nil
  | cons entry entries ih =>
    have hrest := ih.imp fun {a b} h => NewerThan.cons h entry
    rw [newestNamed]
    split_ifs with h
    · refine List.pairwise_append.mpr ⟨hrest, List.pairwise_singleton _ _, ?_⟩
      intro a ha b hb
      rw [List.mem_singleton.mp hb]
      exact ⟨[entry], entries, rfl, newestNamed_subset ha, h.1⟩
    · exact hrest

lemma latestNamed_of_latestEntry {entry : SessionIndexEntry ThreadId}
    (h : latestEntry entries threadId = some entry) (hname : trim entry.threadName ≠ []) :
    latestNamed entries threadId = some entry := by
  obtain ⟨init, hinit⟩ := List.getLast?_eq_some_iff.mp h
  have hcomm : (entries.filter fun entry => trim entry.threadName ≠ []).filter
      (fun entry => entry.id = threadId) = (entries.filter fun entry => entry.id = threadId).filter
          fun entry => trim entry.threadName ≠ [] := by
    rw [List.filter_filter, List.filter_filter]
    exact List.filter_congr fun _ _ => Bool.and_comm _ _
  rw [latestNamed, latestEntry, hcomm, hinit, List.filter_append]
  simp [hname]

/-- The two lookups of a name agree exactly where the last name is trimmed and not blank: a blank
one is passed over, and an older name, or none, is found in its place. -/
theorem latestNamed_eq_latestEntry_iff (entries : List (SessionIndexEntry ThreadId))
    (threadId : ThreadId) :
    ((latestNamed entries threadId).map fun entry => trim entry.threadName) =
        (latestEntry entries threadId).map SessionIndexEntry.threadName ↔
      ∀ entry ∈ latestEntry entries threadId,
        trim entry.threadName = entry.threadName ∧ entry.threadName ≠ [] := by
  constructor
  · intro heq entry hlatest
    rw [Option.mem_def.mp hlatest, Option.map_some] at heq
    obtain ⟨named, hnamed, hname⟩ := Option.map_eq_some_iff.mp heq
    have hmem := List.mem_of_mem_filter (List.mem_of_getLast? hnamed)
    have hne : trim named.threadName ≠ [] := of_decide_eq_true (List.mem_filter.mp hmem).2
    rw [← hname]
    exact ⟨trim_eq_self (noSurroundingWhitespace_trim _), hne⟩
  · intro hlast
    cases hlatest : latestEntry entries threadId with
    | none =>
      have hnone : latestNamed entries threadId = none := by
        rw [latestNamed, latestEntry_eq_none_iff]
        intro hmem
        obtain ⟨entry, hentry, hid⟩ := List.mem_map.mp hmem
        exact latestEntry_eq_none_iff.mp hlatest
          (List.mem_map.mpr ⟨entry, List.mem_of_mem_filter hentry, hid⟩)
      rw [hnone]
      rfl
    | some entry =>
      obtain ⟨htrim, hne⟩ := hlast entry hlatest
      have hnamed := latestNamed_of_latestEntry hlatest (by rwa [htrim])
      rw [hnamed, Option.map_some, Option.map_some, htrim]

end lookups

/-- **What the lookups find in any index that was written.** The name of a thread is that of its
last entry, and the threads with a name are those whose last entry has it, the newest first. Among
the names of several threads a thread has that of its last entry whose name is not blank, trimmed:
the same name exactly where the last name is trimmed and not blank. -/
theorem lookups_run (format : IndexFormat ThreadId) (ops : List (IndexOp ThreadId)) :
    ∃ file entries, run format ops = some file ∧ entries = indexEntries format file ∧
      (∀ threadId, findThreadNameById format file threadId =
        (latestEntry entries threadId).map SessionIndexEntry.threadName) ∧
      (∀ threadIds, ∃ names, findThreadNamesByIds format file threadIds = some names ∧ ∀ threadId,
          (names threadId =
            if threadId ∈ threadIds then
              (latestNamed entries threadId).map fun entry => trim entry.threadName
            else none) ∧
          (threadId ∈ threadIds →
            (names threadId = findThreadNameById format file threadId ↔
              ∀ entry ∈ latestEntry entries threadId,
                trim entry.threadName = entry.threadName ∧ entry.threadName ≠ []))) ∧
      (∀ bytes ∈ file, ∀ name,
        let threadIds := streamThreadIdsFromEndByName format bytes name fun _ => true
        threadIds.Nodup ∧ threadIds.Pairwise (NewerThan entries) ∧
          ∀ threadId, threadId ∈ threadIds ↔
            (latestEntry entries threadId).map SessionIndexEntry.threadName = some name) := by
  obtain ⟨file, hrun, h⟩ := isIndex_run format ops
  refine ⟨file, _, hrun, h.indexEntries_eq.symm, findThreadNameById_eq h, ?_, ?_⟩
  · intro threadIds
    obtain ⟨names, hnames, hvalue⟩ := findThreadNamesByIds_eq h threadIds
    refine ⟨names, hnames, fun threadId => ⟨hvalue threadId, fun hmem => ?_⟩⟩
    rw [hvalue, if_pos hmem, findThreadNameById_eq h]
    exact latestNamed_eq_latestEntry_iff _ threadId
  · rintro bytes rfl name
    rw [streamThreadIdsFromEndByName_eq h]
    have hpairs := pairwise_newestNamed name (ops.foldl logged [])
    exact ⟨hpairs.imp fun h => h.ne, hpairs, fun threadId => mem_newestNamed⟩

/-! ### A format for plain ids -/

/-- The keys of an entry, each up to the quote of its value. -/
def idKey : Text := ['\x7b', '"', 'i', 'd', '"', ':', '"']

def threadNameKey : Text := ",\"thread_name\":\"".toList

def updatedAtKey : Text := ",\"updated_at\":\"".toList

/-- An entry in JSON, whose id is a text. -/
def entryJson (entry : SessionIndexEntry Text) : Text :=
  idKey ++ (escape entry.id ++ '"' :: (threadNameKey ++ (escape entry.threadName ++ '"' ::
    (updatedAtKey ++ (escape entry.updatedAt ++ ['"', '\x7d'])))))

def readEntry (text : Text) : Option (SessionIndexEntry Text) := do
  let (id, text) ← (stripPrefix idKey text).bind readString
  let (threadName, text) ← (stripPrefix threadNameKey text).bind readString
  let (updatedAt, text) ← (stripPrefix updatedAtKey text).bind readString
  if text = ['\x7d'] then some ⟨id, threadName, updatedAt⟩ else none

lemma mem_entryJson {c : Char} {entry : SessionIndexEntry Text} (h : c ∈ entryJson entry) :
    0x20 ≤ c.toNat := by
  have hkeys : ∀ c ∈ idKey ++ threadNameKey ++ updatedAtKey ++ ['"', '\x7d'], 0x20 ≤ c.toNat := by
    decide +kernel
  simp only [List.mem_append, List.mem_cons, entryJson] at h hkeys
  rcases h with h | h | h | h | h | h | h | h | h
  · exact hkeys c (.inl (.inl (.inl h)))
  · exact le_toNat_of_mem_escape h
  · exact hkeys c (.inr (.inl h))
  · exact hkeys c (.inl (.inl (.inr h)))
  · exact le_toNat_of_mem_escape h
  · exact hkeys c (.inr (.inl h))
  · exact hkeys c (.inl (.inr h))
  · exact le_toNat_of_mem_escape h
  · exact hkeys c (.inr h)

def plainFormat : IndexFormat Text where
  toString := entryJson
  fromStr := readEntry
  fromStr_toString := by
    intro entry
    simp only [entryJson, readEntry, stripPrefix_append, Option.bind_some, readString_escape,
      Option.bind_eq_bind]
    rfl
  toString_braces := by
    intro entry
    refine ⟨idKey.tail ++ (escape entry.id ++ '"' :: (threadNameKey ++ (escape entry.threadName ++
      '"' :: (updatedAtKey ++ (escape entry.updatedAt ++ ['"']))))), ?_⟩
    simp [entryJson, idKey]
  newline_notMem := by
    intro entry h
    exact absurd (mem_entryJson h) (by decide)

/-- A thread that was named `a` and then with a blank. -/
def blankOps : List (IndexOp Text) := [.append ⟨['t'], ['a'], []⟩, .append ⟨['t'], [' '], []⟩]

/-- The last name of a thread is passed over where it is blank, but not by the other lookup. -/
theorem lookups_blankOps :
    ∃ file names, run plainFormat blankOps = some file ∧
      findThreadNamesByIds plainFormat file [['t']] = some names ∧
      findThreadNameById plainFormat file ['t'] = some [' '] ∧ names ['t'] = some ['a'] := by
  obtain ⟨file, hrun, h⟩ := isIndex_run plainFormat blankOps
  obtain ⟨names, hnames, hvalue⟩ := findThreadNamesByIds_eq h [['t']]
  refine ⟨file, names, hrun, hnames, ?_, ?_⟩
  · rw [findThreadNameById_eq h]
    decide +kernel
  · rw [hvalue]
    decide +kernel

end Codex.SessionIndex
