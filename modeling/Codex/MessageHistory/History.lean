import Codex.Lib.JsonString
import Codex.Lib.Run
import Codex.Lib.SplitInclusive
import Codex.Lib.Unicode

/-!
# The message history

`message-history/src/lib.rs`: entries are appended to a file of JSON lines; a file that has become
longer than `max_bytes` is cut down to a soft cap by writing its last lines anew, in the same file.
Entries are looked up by the identity of the file and the number of their line. `HistoryFormat` is
the JSON of an entry and the soft cap, which the source computes with a float.

* `appendEntry_keeps_suffix`: what is left is the longest suffix of whole lines under the cap;
* `lookup_of_kept`: where no line is dropped, references stay valid.
-/

namespace Codex.MessageHistory

open Codex.Lib

structure HistoryEntry where
  sessionId : Text
  ts : ℕ
  text : Text
  deriving DecidableEq

/-- The JSON of an entry, on one line, and the soft cap for a `max_bytes`. -/
structure HistoryFormat where
  /-- `serde_json::to_string` -/
  toString : HistoryEntry → Text
  /-- `serde_json::from_str`, absent on an error -/
  fromStr : Text → Option HistoryEntry
  newline_notMem : ∀ entry, '\n' ∉ toString entry
  /-- `soft_cap_bytes` -/
  softCapBytes : ℕ → ℕ

inductive HistoryPersistence where
  | saveAll
  | none

structure HistoryConfig where
  persistence : HistoryPersistence := .saveAll
  maxBytes : Option ℕ

/-- The file of the history, by what `log_identity` gives for it and its bytes. -/
structure HistoryFile where
  logId : ℕ
  bytes : Bytes

/-! ### Trimming -/

/-- The loop over `read_line` in `enforce_history_limit`; absent where a line is not UTF-8 -/
def lineLengths (bytes : Bytes) : Option (List ℕ) :=
  (splitInclusive lineFeed bytes).mapM fun line => (fromUtf8 line).map fun _ => line.length

variable (format : HistoryFormat)

def trimTargetBytes (maxBytes newestEntryLen : ℕ) : ℕ :=
  max (format.softCapBytes maxBytes) newestEntryLen

/-- The loop over the lengths of the lines before the last, in `enforce_history_limit` -/
def dropLines (trimTarget : ℕ) : List ℕ → ℕ → ℕ → ℕ × ℕ
  | [], currentLen, dropBytes => (currentLen, dropBytes)
  | length :: lengths, currentLen, dropBytes =>
    if trimTarget < currentLen then
      dropLines trimTarget lengths (currentLen - length) (dropBytes + length)
    else (currentLen, dropBytes)

/-- `enforce_history_limit`; absent on an error -/
def enforceHistoryLimit (bytes : Bytes) (maxBytes : Option ℕ) : Option Bytes :=
  match maxBytes with
  | none => some bytes
  | some maxBytes =>
    if maxBytes = 0 ∨ bytes.length ≤ maxBytes then some bytes
    else
      (lineLengths bytes).map fun lengths =>
        match lengths.getLast? with
        | none => bytes
        | some newest =>
          let (_, dropBytes) :=
            dropLines (trimTargetBytes format maxBytes newest) lengths.dropLast bytes.length 0
          if dropBytes = 0 then bytes else bytes.drop dropBytes

/-- `append_entry`, the file after it; a new file has the identity `newId` -/
def appendEntry (config : HistoryConfig) (newId : ℕ) (entry : HistoryEntry)
    (file : Option HistoryFile) : Option HistoryFile :=
  match config.persistence with
  | .none => file
  | .saveAll =>
    let file := file.getD ⟨newId, []⟩
    let bytes := file.bytes ++ toBytes (format.toString entry ++ ['\n'])
    some { file with bytes := (enforceHistoryLimit format bytes config.maxBytes).getD bytes }

/-! ### References -/

def historyMetadata (file : Option HistoryFile) : ℕ × ℕ :=
  match file with
  | none => (0, 0)
  | some file => (file.logId, file.bytes.count lineFeed)

/-- The line that `BufRead::lines` gives for the bytes up to a line feed. -/
def chomp (line : Text) : Text := if line.getLast? = some '\n' then stripCr line.dropLast else line

/-- The entry of a line; absent where it is not UTF-8 or no entry. -/
def parseLine (line : Bytes) : Option HistoryEntry :=
  (fromUtf8 line).bind fun line => format.fromStr (chomp line)

/-- The loop over the lines in `lookup_history_entry` -/
def lookupLine (format : HistoryFormat) : List Bytes → ℕ → Option HistoryEntry
  | [], _ => none
  | line :: _, 0 => parseLine format line
  | line :: lines, offset + 1 =>
    (fromUtf8 line).bind fun _ => lookupLine format lines offset

def lookup (logId offset : ℕ) (file : Option HistoryFile) : Option HistoryEntry :=
  file.bind fun file =>
    if logId ≠ 0 ∧ file.logId ≠ logId then none
    else lookupLine format (splitInclusive lineFeed file.bytes) offset

/-- The entry that stands at a line of the file. -/
def entryAt (offset : ℕ) (file : Option HistoryFile) : Option HistoryEntry :=
  file.bind fun file =>
    (splitInclusive lineFeed file.bytes)[offset]?.bind (parseLine format)

/-! ### What trimming keeps -/

/-- **The loop drops no more lines than it has to.** -/
theorem dropLines_spec (trimTarget : ℕ) (lengths : List ℕ) (newest dropBytes : ℕ) :
    ∃ j ≤ lengths.length,
      dropLines trimTarget lengths (lengths.sum + newest) dropBytes =
        ((lengths.drop j).sum + newest, dropBytes + (lengths.take j).sum) ∧
      (j < lengths.length → (lengths.drop j).sum + newest ≤ trimTarget) ∧
      ∀ i < j, trimTarget < (lengths.drop i).sum + newest := by
  induction lengths generalizing dropBytes with
  | nil =>
    refine ⟨0, le_rfl, rfl, fun h => absurd h (Nat.lt_irrefl 0), ?_⟩
    exact fun i hi => absurd hi (Nat.not_lt_zero i)
  | cons length lengths ih =>
    by_cases hover : trimTarget < (length :: lengths).sum + newest
    · obtain ⟨j, hj, hloop, hfits, hneeded⟩ := ih (dropBytes + length)
      refine ⟨j + 1, Nat.succ_le_succ hj, ?_, fun h => hfits (Nat.lt_of_succ_lt_succ h), ?_⟩
      · have hrest : (length :: lengths).sum + newest - length = lengths.sum + newest := by
          rw [List.sum_cons]
          omega
        rw [dropLines, if_pos hover, hrest, hloop, List.drop_succ_cons, List.take_succ_cons,
          List.sum_cons, Nat.add_assoc]
      · intro i hi
        cases i with
        | zero => exact hover
        | succ i => exact hneeded i (Nat.lt_of_succ_lt_succ hi)
    · refine ⟨0, Nat.zero_le _, ?_, fun _ => Nat.le_of_not_lt hover, ?_⟩
      · rw [dropLines, if_neg hover]
        rfl
      · exact fun i hi => absurd hi (Nat.not_lt_zero i)

/-- The bytes of some lines, each with its line feed. -/
def historyBytes (lines : List Text) : Bytes := toBytes (encodeRecords '\n' lines)

section trim

variable {lines : List Text} {line : Text}

lemma historyBytes_append (older newer : List Text) :
    historyBytes (older ++ newer) = historyBytes older ++ historyBytes newer := by
  rw [historyBytes, encodeRecords_append, toBytes_append]
  rfl

lemma length_historyBytes_cons (line : Text) (lines : List Text) :
    (historyBytes (line :: lines)).length =
      (historyBytes [line]).length + (historyBytes lines).length := by
  rw [← List.singleton_append, historyBytes_append, List.length_append]

lemma sum_lengths (lines : List Text) :
    (lines.map fun line => (historyBytes [line]).length).sum = (historyBytes lines).length := by
  induction lines with
  | nil => rfl
  | cons line lines ih =>
    rw [List.map_cons, List.sum_cons, ih]
    exact (length_historyBytes_cons line lines).symm

lemma lineFeed_notMem (h : '\n' ∉ line) : lineFeed ∉ toBytes line :=
  fun hmem => h ((mem_toBytes_iff (c := '\n') (by decide)).mp hmem)

lemma splitInclusive_historyBytes (h : ∀ line ∈ lines, '\n' ∉ line) :
    splitInclusive lineFeed (historyBytes lines) = lines.map fun line => historyBytes [line] := by
  have hbytes : ∀ bytes ∈ lines.map toBytes, lineFeed ∉ bytes := by
    intro bytes hmem
    obtain ⟨line, hline, rfl⟩ := List.mem_map.mp hmem
    exact lineFeed_notMem (h line hline)
  have hline : ∀ line : Text, historyBytes [line] = toBytes line ++ [lineFeed] := by
    intro line
    rw [historyBytes, encodeRecords_singleton, toBytes_append]
    rfl
  rw [historyBytes, toBytes_encodeRecords]
  refine (splitInclusive_flatMap hbytes).trans ?_
  rw [List.map_map]
  exact List.map_congr_left fun line _ => (hline line).symm

lemma lineLengths_historyBytes (h : ∀ line ∈ lines, '\n' ∉ line) :
    lineLengths (historyBytes lines) =
      some (lines.map fun line => (historyBytes [line]).length) := by
  have hread : ∀ lines : List Text,
      (lines.map fun line => historyBytes [line]).mapM (fun line : Bytes =>
        (fromUtf8 line).map fun _ => line.length) =
          some (lines.map fun line => (historyBytes [line]).length) := by
    intro lines
    induction lines with
    | nil => rfl
    | cons line lines ih =>
      rw [List.map_cons, List.mapM_cons, ih, historyBytes, fromUtf8_toBytes]
      rfl
  rw [lineLengths, splitInclusive_historyBytes h, hread]

lemma drop_historyBytes (lines : List Text) (j : ℕ) :
    (historyBytes lines).drop ((lines.take j).map fun line => (historyBytes [line]).length).sum =
      historyBytes (lines.drop j) := by
  have hsplit :
      historyBytes lines = historyBytes (lines.take j) ++ historyBytes (lines.drop j) := by
    rw [← historyBytes_append, List.take_append_drop]
  rw [sum_lengths, hsplit, List.drop_left]

/-- What `enforce_history_limit` leaves of a file of lines that is too long. -/
theorem enforceHistoryLimit_historyBytes (format : HistoryFormat)
    (h : ∀ other ∈ lines ++ [line], '\n' ∉ other) {maxBytes : ℕ} (hmax : 0 < maxBytes)
    (hover : maxBytes < (historyBytes (lines ++ [line])).length) :
    ∃ j ≤ lines.length,
      enforceHistoryLimit format (historyBytes (lines ++ [line])) (some maxBytes) =
        some (historyBytes ((lines ++ [line]).drop j)) ∧
      (historyBytes ((lines ++ [line]).drop j)).length ≤
        trimTargetBytes format maxBytes (historyBytes [line]).length ∧
      ∀ i < j, trimTargetBytes format maxBytes (historyBytes [line]).length <
        (historyBytes ((lines ++ [line]).drop i)).length := by
  set newest := (historyBytes [line]).length with hnewest
  set lengths := lines.map fun line => (historyBytes [line]).length with hlengths
  have hlen : lengths.length = lines.length := List.length_map _
  -- what is left from some line on, as the loop counts it
  have hrest : ∀ i ≤ lines.length,
      (lengths.drop i).sum + newest = (historyBytes ((lines ++ [line]).drop i)).length := by
    intro i hi
    rw [hlengths, ← List.map_drop, sum_lengths, List.drop_append_of_le_length hi,
      historyBytes_append, List.length_append]
  obtain ⟨j, hj, hloop, hfits, hneeded⟩ :=
    dropLines_spec (trimTargetBytes format maxBytes newest) lengths newest 0
  rw [hlen] at hj hfits
  refine ⟨j, hj, ?_, ?_, ?_⟩
  · have hread : lineLengths (historyBytes (lines ++ [line])) = some (lengths ++ [newest]) := by
      rw [lineLengths_historyBytes h, List.map_append]
      rfl
    have hwhole : (historyBytes (lines ++ [line])).length = lengths.sum + newest :=
      (hrest 0 (Nat.zero_le _)).symm
    have hdrop : (historyBytes (lines ++ [line])).drop (lengths.take j).sum =
        historyBytes ((lines ++ [line]).drop j) := by
      rw [← drop_historyBytes, hlengths, ← List.map_take, List.take_append_of_le_length hj]
    rw [enforceHistoryLimit, if_neg (not_or.mpr ⟨hmax.ne', Nat.not_le.mpr hover⟩), hread,
      Option.map_some, List.getLast?_concat, List.dropLast_concat, hwhole]
    simp only [hloop, Nat.zero_add, hdrop]
    split_ifs with hzero
    · rw [← hdrop, hzero, List.drop_zero]
    · rfl
  · rw [← hrest j hj]
    rcases Nat.lt_or_ge j lines.length with hlt | hge
    · exact hfits hlt
    · rw [List.drop_eq_nil_of_le (hlen.trans_le hge), List.sum_nil, Nat.zero_add]
      exact Nat.le_max_right _ _
  · intro i hi
    rw [← hrest i (hi.le.trans hj)]
    exact hneeded i hi

/-- **Trimming keeps a suffix of whole entries**, the longest that fits. -/
theorem appendEntry_keeps_suffix (format : HistoryFormat) (newId logId : ℕ) (entry : HistoryEntry)
    {old : List Text} (hold : ∀ line ∈ old, '\n' ∉ line) {maxBytes : ℕ} (hmax : 0 < maxBytes) :
    let all := old ++ [format.toString entry]
    let cap := trimTargetBytes format maxBytes (historyBytes [format.toString entry]).length
    ∃ k, 1 ≤ k ∧ k ≤ all.length ∧
      appendEntry format { maxBytes := some maxBytes } newId entry
        (some ⟨logId, historyBytes old⟩) =
        some ⟨logId, historyBytes (all.rtake k)⟩ ∧
      ((historyBytes all).length ≤ maxBytes → k = all.length) ∧
      (maxBytes < (historyBytes all).length → (historyBytes (all.rtake k)).length ≤ cap ∧
          ∀ k', k < k' → k' ≤ all.length → cap < (historyBytes (all.rtake k')).length) := by
  intro all cap
  have hlines : ∀ line ∈ all, '\n' ∉ line := by
    exact List.forall_mem_append.mpr ⟨hold,
      List.forall_mem_singleton.mpr (format.newline_notMem entry)⟩
  have hlen : all.length = old.length + 1 := List.length_append
  have happend : appendEntry format { maxBytes := some maxBytes } newId entry
      (some ⟨logId, historyBytes old⟩) =
        some ⟨logId, (enforceHistoryLimit format (historyBytes all) (some maxBytes)).getD
          (historyBytes all)⟩ := by
    rw [historyBytes_append]
    simp only [appendEntry, Option.getD_some, historyBytes, encodeRecords_singleton]
  by_cases hover : maxBytes < (historyBytes all).length
  · obtain ⟨j, hj, htrim, hfits, hneeded⟩ :=
      enforceHistoryLimit_historyBytes format hlines hmax hover
    have hrtake : ∀ k ≤ all.length, all.rtake k = all.drop (all.length - k) := fun _ _ => rfl
    have hkept : all.rtake (all.length - j) = all.drop j := by
      rw [hrtake _ (Nat.sub_le _ _), Nat.sub_sub_self (by omega)]
    refine ⟨all.length - j, by omega, Nat.sub_le _ _, ?_, fun h => by omega, fun _ => ⟨?_, ?_⟩⟩
    · rw [happend, htrim, Option.getD_some, hkept]
    · rw [hkept]
      exact hfits
    · intro k' hlt hle
      rw [hrtake k' hle]
      exact hneeded _ (by omega)
  · have hwhole : all.rtake all.length = all := by rw [List.rtake, Nat.sub_self, List.drop_zero]
    refine ⟨all.length, by omega, le_rfl, ?_, fun _ => rfl, fun h => absurd h hover⟩
    rw [happend, enforceHistoryLimit, if_pos (.inr (Nat.le_of_not_lt hover)), Option.getD_some,
      hwhole]

end trim

/-! ### References stay valid -/

/-- A call of `append_entry`. -/
structure Append where
  config : HistoryConfig
  newId : ℕ
  entry : HistoryEntry

def Append.apply (format : HistoryFormat) (file : Option HistoryFile) (append : Append) :
    Option HistoryFile :=
  appendEntry format append.config append.newId append.entry file

/-- No line is dropped: nothing is written, there is no limit, the file stays below it, it has no
line but the new one, or it is not UTF-8. -/
def KeepsLines (format : HistoryFormat) (file : Option HistoryFile) (append : Append) : Prop :=
  match append.config.persistence, append.config.maxBytes with
  | .none, _ => True
  | .saveAll, none => True
  | .saveAll, some maxBytes =>
    let old := (file.getD ⟨append.newId, []⟩).bytes
    let bytes := old ++ toBytes (format.toString append.entry ++ ['\n'])
    maxBytes = 0 ∨ bytes.length ≤ maxBytes ∨ lineFeed ∉ old ∨ lineLengths bytes = none

section lookup

variable {format : HistoryFormat} {file : Option HistoryFile}

lemma enforceHistoryLimit_concat {bytes : Bytes} (h : lineFeed ∉ bytes) (maxBytes : Option ℕ) :
    (enforceHistoryLimit format (bytes ++ [lineFeed]) maxBytes).getD (bytes ++ [lineFeed]) =
      bytes ++ [lineFeed] := by
  cases maxBytes with
  | none => rfl
  | some maxBytes =>
    rw [enforceHistoryLimit]
    split_ifs
    · rfl
    · rw [lineLengths, splitInclusive_concat h, List.mapM_cons, List.mapM_nil]
      cases fromUtf8 (bytes ++ [lineFeed]) <;> rfl

/-- An append that keeps the lines adds to the file. -/
theorem KeepsLines.apply {append : Append} {logId : ℕ} {old : Bytes}
    (h : KeepsLines format (some ⟨logId, old⟩) append) :
    ∃ more, append.apply format (some ⟨logId, old⟩) = some ⟨logId, old ++ more⟩ := by
  obtain ⟨⟨persistence, maxBytes⟩, newId, entry⟩ := append
  cases persistence with
  | none => exact ⟨[], by rw [List.append_nil]; rfl⟩
  | saveAll =>
    set line := toBytes (format.toString entry ++ ['\n']) with hline
    refine ⟨line, congrArg some (congrArg (HistoryFile.mk logId) ?_)⟩
    show (enforceHistoryLimit format (old ++ line) maxBytes).getD (old ++ line) = old ++ line
    cases maxBytes with
    | none => rfl
    | some maxBytes =>
      rcases h with hzero | hfits | hnoline | herror
      · rw [enforceHistoryLimit, if_pos (.inl hzero), Option.getD_some]
      · rw [enforceHistoryLimit, if_pos (.inr hfits), Option.getD_some]
      · have hbytes : old ++ line = (old ++ toBytes (format.toString entry)) ++ [lineFeed] := by
          rw [hline, toBytes_append, List.append_assoc]
          rfl
        have hone : lineFeed ∉ old ++ toBytes (format.toString entry) := by
          rw [List.mem_append, not_or]
          exact ⟨hnoline, lineFeed_notMem (format.newline_notMem entry)⟩
        rw [hbytes, enforceHistoryLimit_concat hone]
      · have hunread : lineLengths (old ++ line) = none := herror
        rw [enforceHistoryLimit, hunread]
        split_ifs <;> rfl

lemma lookupLine_eq (format : HistoryFormat) (lines : List Bytes) (offset : ℕ) :
    lookupLine format lines offset = none ∨
      lookupLine format lines offset = lines[offset]?.bind (parseLine format) := by
  induction lines generalizing offset with
  | nil => exact .inl rfl
  | cons line lines ih =>
    cases offset with
    | zero => exact .inr rfl
    | succ offset =>
      rw [lookupLine, List.getElem?_cons_succ]
      cases fromUtf8 line with
      | none => exact .inl rfl
      | some text => exact ih offset

/-- **References stay valid** where no append drops a line. -/
theorem lookup_of_kept (format : HistoryFormat) {file : Option HistoryFile} {appends : List Append}
    {logId n offset : ℕ} (h : Throughout (Append.apply format) (KeepsLines format) file appends)
    (hmetadata : historyMetadata file = (logId, n)) (hoffset : offset < n) :
    lookup format logId offset (appends.foldl (Append.apply format) file) = none ∨
      lookup format logId offset (appends.foldl (Append.apply format) file) =
        entryAt format offset file := by
  cases file with
  | none =>
    obtain ⟨-, rfl⟩ := Prod.mk.inj hmetadata
    exact absurd hoffset (Nat.not_lt_zero offset)
  | some file =>
    cases hmetadata
    -- the bytes of the moment stay at the start of the file
    have hkept : ∃ more, appends.foldl (Append.apply format) (some file) =
        some ⟨file.logId, file.bytes ++ more⟩ := by
      refine h.preserves (I := fun now => ∃ more, now = some ⟨file.logId, file.bytes ++ more⟩)
        ?_ ⟨[], by rw [List.append_nil]⟩
      rintro now append hc ⟨more, rfl⟩
      obtain ⟨newer, happly⟩ := hc.apply
      exact ⟨more ++ newer, by rw [happly, List.append_assoc]⟩
    obtain ⟨more, hnow⟩ := hkept
    have hline : (splitInclusive lineFeed (file.bytes ++ more))[offset]? =
        (splitInclusive lineFeed file.bytes)[offset]? := by
      rw [← List.getElem?_take_of_lt hoffset, take_splitInclusive_append,
        List.getElem?_take_of_lt hoffset]
    rw [hnow, lookup, Option.bind_some, if_neg (fun h => h.2 rfl), entryAt, Option.bind_some,
      ← hline]
    exact lookupLine_eq format _ offset

end lookup

/-! ### A format -/

/-- The keys of an entry, each up to its value. -/
def sessionIdKey : Text := ['\x7b'] ++ "\"session_id\":\"".toList

def tsKey : Text := ",\"ts\":".toList

def textKey : Text := ",\"text\":\"".toList

/-- An entry in JSON. -/
def entryJson (entry : HistoryEntry) : Text :=
  sessionIdKey ++ (escape entry.sessionId ++ '"' :: (tsKey ++ (Nat.toDigits 10 entry.ts ++
    (textKey ++ (escape entry.text ++ ['"', '\x7d'])))))

def readEntry (text : Text) : Option HistoryEntry := do
  let (sessionId, text) ← (stripPrefix sessionIdKey text).bind readString
  let text ← stripPrefix tsKey text
  let ts := Nat.ofDigitChars 10 (text.takeWhile Char.isDigit) 0
  let (text, rest) ← (stripPrefix textKey (text.dropWhile Char.isDigit)).bind readString
  if rest = ['\x7d'] then some ⟨sessionId, ts, text⟩ else none

lemma newline_notMem_entryJson (entry : HistoryEntry) : '\n' ∉ entryJson entry := by
  have hkeys : '\n' ∉ sessionIdKey ++ tsKey ++ textKey ++ ['"', '\x7d'] := by decide +kernel
  have hescape : ∀ s : Text, '\n' ∉ escape s := fun s h =>
    absurd (le_toNat_of_mem_escape h) (by decide)
  have hdigits : '\n' ∉ Nat.toDigits 10 entry.ts := fun h =>
    absurd (Nat.isDigit_of_mem_toDigits (by decide) (by decide) h) (by decide)
  simp only [List.mem_append, List.mem_cons, not_or] at hkeys
  obtain ⟨⟨⟨hsession, hts⟩, htext⟩, hends⟩ := hkeys
  simp only [entryJson, List.mem_append, List.mem_cons, not_or]
  exact ⟨hsession, hescape _, hends.1, hts, hdigits, htext, hescape _, hends⟩

/-- The format of the source, but with the soft cap computed in whole numbers. -/
def jsonFormat : HistoryFormat where
  toString := entryJson
  fromStr := readEntry
  newline_notMem := newline_notMem_entryJson
  softCapBytes maxBytes := min (max 1 (maxBytes * 8 / 10)) maxBytes

def entryOf (text : Text) : HistoryEntry := ⟨['s'], 7, text⟩

theorem appendEntry_keeps_suffix_jsonFormat :
    let old := [entryJson (entryOf ['a']), entryJson (entryOf ['b'])]
    let all := old ++ [entryJson (entryOf ['c'])]
    ∃ k, 1 ≤ k ∧ k ≤ all.length ∧
      appendEntry jsonFormat { maxBytes := some 80 } 1 (entryOf ['c'])
        (some ⟨1, historyBytes old⟩) =
        some ⟨1, historyBytes (all.rtake k)⟩ := by
  have hold : ∀ line ∈ [entryJson (entryOf ['a']), entryJson (entryOf ['b'])], '\n' ∉ line := by
    intro line hline
    simp only [List.mem_cons, List.not_mem_nil, or_false] at hline
    rcases hline with rfl | rfl <;> exact newline_notMem_entryJson _
  obtain ⟨k, hpos, hle, happend, -⟩ :=
    appendEntry_keeps_suffix jsonFormat 1 1 (entryOf ['c']) hold (by decide : 0 < 80)
  exact ⟨k, hpos, hle, happend⟩

/-- A file of lines of bytes, each with its line feed. -/
def fileOf (lines : List Bytes) : Bytes := lines.flatMap (· ++ [lineFeed])

/-- With a line that is not UTF-8 the new line is written, but `read_line` fails and nothing is
trimmed: here the file is two bytes longer than its newest line, which is more than the cap. -/
theorem appendEntry_keeps_suffix_notUtf8 :
    ¬∀ (format : HistoryFormat) (newId logId : ℕ) (entry : HistoryEntry) (old : List Bytes),
      (∀ line ∈ old, lineFeed ∉ line) → ∀ maxBytes : ℕ, 0 < maxBytes →
        let all := old ++ [toBytes (format.toString entry)]
        let cap := trimTargetBytes format maxBytes (fileOf [toBytes (format.toString entry)]).length
        ∃ k, 1 ≤ k ∧ k ≤ all.length ∧
          appendEntry format { maxBytes := some maxBytes } newId entry (some ⟨logId, fileOf old⟩) =
            some ⟨logId, fileOf (all.rtake k)⟩ ∧
          ((fileOf all).length ≤ maxBytes → k = all.length) ∧
          (maxBytes < (fileOf all).length → (fileOf (all.rtake k)).length ≤ cap ∧
              ∀ k', k < k' → k' ≤ all.length → cap < (fileOf (all.rtake k')).length) := by
  intro h
  obtain ⟨k, -, -, happend, -, hcap⟩ :=
    h jsonFormat 1 1 (entryOf ['a']) [[0xFF]] (by decide) 1 (by decide)
  obtain ⟨hfits, -⟩ := hcap (by decide +kernel)
  have hkept : (appendEntry jsonFormat { maxBytes := some 1 } 1 (entryOf ['a'])
      (some ⟨1, fileOf [[0xFF]]⟩)).map (fun file => file.bytes.length) = some 39 := by
    decide +kernel
  rw [happend] at hkept
  have hlength : (fileOf (([[0xFF]] ++ [toBytes (jsonFormat.toString (entryOf ['a']))]).rtake
    k)).length = 39 := Option.some.inj hkept
  rw [hlength] at hfits
  exact absurd hfits (by decide +kernel)

/-- An append to a history without a limit. -/
def appendOf (maxBytes : Option ℕ) (text : Text) : Append := ⟨{ maxBytes }, 1, entryOf text⟩

/-- Two entries are there when the metadata is read, and one is added. -/
theorem lookup_of_kept_jsonFormat :
    let file := [appendOf none ['a'], appendOf none ['b']].foldl (Append.apply jsonFormat) none
    lookup jsonFormat 1 1 ([appendOf none ['c']].foldl (Append.apply jsonFormat) file) = none ∨
      lookup jsonFormat 1 1 ([appendOf none ['c']].foldl (Append.apply jsonFormat) file) =
        entryAt jsonFormat 1 file := by
  refine lookup_of_kept jsonFormat (n := 2) ⟨trivial, trivial⟩ ?_ (by decide)
  decide +kernel

/-- The third entry trims the file, which stays the same file, and the line of the first entry is
now that of another. -/
theorem lookup_trimmed :
    let file := [appendOf none ['a'], appendOf none ['b']].foldl (Append.apply jsonFormat) none
    historyMetadata file = (1, 2) ∧ entryAt jsonFormat 0 file = some (entryOf ['a']) ∧
      lookup jsonFormat 1 0 ([appendOf (some 100) ['c']].foldl (Append.apply jsonFormat) file) =
        some (entryOf ['b']) := by
  decide +kernel

end Codex.MessageHistory
