import Calipso.Wire.Pieces
import Mathlib.Tactic.Linarith

/-!
# Micro logs of Coffee

The log of a file (`cfs-coffee.c`): a table with the region of each record, increased by one, and
behind it the records, as large as a region each. `find_next_record` and `get_record_index` search
the table in batches. `microLog_of_run` says in which runs they find what has been written.
-/

namespace Calipso.Cfs.MicroLog

open Wire

/-! ### Logs -/

/-- The constants `COFFEE_PAGE_SIZE`, `COFFEE_LOG_SIZE` and `COFFEE_LOG_TABLE_LIMIT`. -/
structure Config where
  pageSize : UInt16
  logSize : Nat
  tableLimit : Nat
  pageSize_pos : 0 < pageSize.toNat
  tableLimit_pos : 0 < tableLimit

/-- The log configuration in the header of a file. -/
structure Header where
  logRecords : UInt16
  logRecordSize : UInt16

/-- The log of a file. -/
structure Log where
  table : Memory UInt16
  data : Memory UInt8

/-- A file: its header, its own extent behind the header, and its log, if the header says that
there is one. -/
structure File where
  header : Header
  extent : Memory UInt8
  log : Option Log
  recordCount : Int

/-- A value as `int16_t`. -/
def int16 (n : Int) : Int := n.bmod (2 ^ 16)

variable (cfg : Config)

/-- `cfs_coffee_configure_log`, for a file without a log. -/
def configureLog (logSize logRecordSize : UInt32) : Option Header :=
  if logRecordSize = 0 ∨ cfg.pageSize.toUInt32 < logRecordSize ∨ logSize < logRecordSize then none
  else some ⟨(logSize / logRecordSize).toUInt16, logRecordSize.toUInt16⟩

/-- The record size of `adjust_log_config`. -/
def logRecordSize (hdr : Header) : Nat :=
  if hdr.logRecordSize = 0 then cfg.pageSize.toNat else hdr.logRecordSize.toNat

/-- The number of records of `adjust_log_config`. -/
def logRecords (hdr : Header) : Nat :=
  if hdr.logRecords = 0 then cfg.logSize / logRecordSize cfg hdr % 2 ^ 16 else hdr.logRecords.toNat

/-- `modify_log_buffer`: the region, the offset in it and the size. -/
def modifyLogBuffer (logRecordSize offset size : Nat) : Nat × Nat × Nat :=
  (offset / logRecordSize % 2 ^ 16, offset % logRecordSize,
    min size (logRecordSize - offset % logRecordSize))

/-- The last of the first `n` numbers for which `p` holds. -/
def backwards (p : Nat → Bool) : Nat → Option Nat
  | 0 => none
  | n + 1 => if p n then some n else backwards p n

/-- The loop of `get_record_index`, for at most `fuel` batches. -/
def indexLoop (table : Memory UInt16) (searchRecords region : Nat) : Nat → Nat → Nat → Int → Int
  | 0, _, _, matchIndex => matchIndex
  | fuel + 1, processed, batchSize, matchIndex =>
    if processed < searchRecords ∧ matchIndex < 0 then
      let batchSize :=
        if searchRecords < batchSize + processed then searchRecords - processed else batchSize
      let base := searchRecords - processed - batchSize
      indexLoop table searchRecords region fuel (processed + batchSize) batchSize
        (match backwards (fun i => ((table (base + i : Nat)).toNat : Int) - 1 = region)
          (int16 (batchSize - 1) + 1).toNat with
        | some i => int16 (searchRecords - processed - (batchSize - i))
        | none => matchIndex)
    else matchIndex

/-- `get_record_index` -/
def getRecordIndex (table : Memory UInt16) (searchRecords region : Nat) : Int :=
  indexLoop table searchRecords region searchRecords 0 (min cfg.tableLimit searchRecords) (-1)

/-- `read_log_page`, with the bytes that are read. -/
def readLogPage (hdr : Header) (log : Log) (recordCount : Int) (offset size : Nat) :
    Option (List UInt8) :=
  let p := modifyLogBuffer (logRecordSize cfg hdr) offset size
  let searchRecords := if recordCount < 0 then logRecords cfg hdr else recordCount.toNat
  let matchIndex := getRecordIndex cfg log.table searchRecords p.1
  if matchIndex < 0 then none
  else some (window log.data (matchIndex * logRecordSize cfg hdr + p.2.1) p.2.2)

/-- The inner loop of `find_next_record`. -/
def searchBatch (table : Memory UInt16) (processed batchSize : Nat) : Nat :=
  match (List.range batchSize).find? fun i => table (processed + i : Nat) = 0 with
  | some i => i + processed
  | none => batchSize

/-- The outer loop of `find_next_record`, for at most `fuel` batches. -/
def findLoop (table : Memory UInt16) (logRecords preferredBatchSize : Nat) :
    Nat → Nat → Nat → Nat
  | 0, _, logRecord => logRecord
  | fuel + 1, processed, logRecord =>
    if processed < logRecords then
      let batchSize :=
        if preferredBatchSize ≤ logRecords - processed then preferredBatchSize
        else logRecords - processed
      findLoop table logRecords preferredBatchSize fuel (processed + batchSize)
        (searchBatch table processed batchSize)
    else logRecord

/-- `find_next_record` -/
def findNextRecord (recordCount : Int) (table : Memory UInt16) (logRecords : Nat) : Int :=
  if 0 ≤ recordCount then recordCount
  else findLoop table logRecords (min cfg.tableLimit logRecords) logRecords 0 logRecords

/-! ### Writes -/

/-- What `write_log_page` comes to. -/
inductive Outcome
  | failed
  | merged
  | written

/-- The end of `write_log_page`: a record for the region is written. -/
def writeRecord (file : File) (log : Log) (logRecord : Int) (region offset : Nat)
    (buf : List UInt8) : File :=
  let size := logRecordSize cfg file.header
  let copyBuf :=
    if 0 < offset ∨ buf.length ≠ size then
      match readLogPage cfg file.header log logRecord (region * size) size with
      | some l => l
      | none => window file.extent (region * size : Nat) size
    else []
  { file with
    log := some
      { table := Function.update log.table logRecord (UInt16.ofNat (region + 1))
        data := write log.data (logRecord * size)
          (window (write (placed 0 copyBuf) offset buf) 0 size) }
    recordCount := int16 (logRecord + 1) }

/-- `write_log_page`; `space` is whether `create_log` finds room, and `merge` is the extent of the
new file that `merge_log` leaves, if it succeeds. -/
def writeLogPage (file : File) (offset : Nat) (buf : List UInt8) (space : Bool)
    (merge : Option (Memory UInt8)) : Outcome × File :=
  let p := modifyLogBuffer (logRecordSize cfg file.header) offset buf.length
  match file.log with
  | some log =>
    let logRecord := int16 (findNextRecord cfg file.recordCount log.table
      (logRecords cfg file.header))
    if logRecords cfg file.header ≤ logRecord then
      match merge with
      | none => (.failed, file)
      | some extent => (.merged, ⟨file.header, extent, none, -1⟩)
    else (.written, writeRecord cfg file log logRecord p.1 p.2.1 (buf.take p.2.2))
  | none =>
    if space then
      (.written, writeRecord cfg file ⟨fun _ => 0, fun _ => 0⟩ 0 p.1 p.2.1 (buf.take p.2.2))
    else (.failed, file)

/-- A call of `write_log_page`, or the file object is given up and loaded again. -/
inductive Event
  | write (offset : Nat) (buf : List UInt8) (space : Bool) (merge : Option (Memory UInt8))
  | evict

/-! ### What is asked -/

/-- A file, with the regions of the records in its log and what it should hold. -/
structure State where
  file : File
  regions : List Nat
  content : Memory UInt8

/-- A file without a log. -/
def State.start (hdr : Header) (extent : Memory UInt8) : State :=
  ⟨⟨hdr, extent, none, -1⟩, [], extent⟩

def Event.step (s : State) : Event → State
  | .evict => { s with file := { s.file with recordCount := -1 } }
  | .write offset buf space merge =>
    let size := logRecordSize cfg s.file.header
    match writeLogPage cfg s.file offset buf space merge with
    | (.failed, file) => { s with file := file }
    | (.merged, file) => ⟨file, [], file.extent⟩
    | (.written, file) =>
      ⟨file, s.regions ++ [offset / size],
        Wire.write s.content offset (buf.take (size - offset % size))⟩

def run (s : State) (es : List Event) : State := es.foldl (Event.step cfg) s

/-- The record `i` is the most recent one of the region. -/
def IsLast (regions : List Nat) (region i : Nat) : Prop :=
  regions[i]? = some region ∧ ∀ j, i < j → regions[j]? ≠ some region

/-- The searches find the records that have been written, and the latest bytes of a region. -/
structure Conforms (s : State) (log : Log) : Prop where
  next : findNextRecord cfg s.file.recordCount log.table (logRecords cfg s.file.header) =
    s.regions.length
  index : ∀ region, (getRecordIndex cfg log.table s.regions.length region = -1 ∧
      region ∉ s.regions) ∨ ∃ i : Nat, IsLast s.regions region i ∧
        getRecordIndex cfg log.table s.regions.length region = i
  read : ∀ region < 2 ^ 16, ∀ o < logRecordSize cfg s.file.header, ∀ size,
    let offset := region * logRecordSize cfg s.file.header + o
    readLogPage cfg s.file.header log s.file.recordCount offset size =
      if region ∈ s.regions then
        some (window s.content offset (min size (logRecordSize cfg s.file.header - o)))
      else none

/-- The configuration gives a log of at least one record, whose number is an `int16_t`. -/
def Sized (hdr : Header) : Prop := 0 < logRecords cfg hdr ∧ logRecords cfg hdr < 2 ^ 15

/-- The beginning of the last batch of `find_next_record`. -/
def lastBatch (hdr : Header) : Nat := (logRecords cfg hdr - 1) / cfg.tableLimit * cfg.tableLimit

/-- The log has a single batch, or the records end in the last one without filling it. -/
def Recoverable (s : State) : Prop :=
  logRecords cfg s.file.header ≤ cfg.tableLimit ∨
    lastBatch cfg s.file.header ≤ s.regions.length ∧
      s.regions.length < logRecords cfg s.file.header

/-- The region that is written has a number that can be increased, and the count of a log is lost
only where it can be found again. -/
def Event.Holds (s : State) : Event → Prop
  | .write offset _ _ _ => offset / logRecordSize cfg s.file.header < 2 ^ 16 - 1
  | .evict => s.file.log.isSome → Recoverable cfg s

/-- Every event of the run meets the condition. -/
def EventsHold : State → List Event → Prop
  | _, [] => True
  | s, e :: es => e.Holds cfg s ∧ EventsHold (e.step cfg s) es

/-! ### Searches -/

variable {cfg} {table : Memory UInt16} {searchRecords region processed batchSize fuel n : Nat}

theorem int16_of_lt (h : n < 2 ^ 15) : int16 n = n := by
  unfold int16
  rw [Int.bmod_def]
  omega

theorem backwards_spec (p : Nat → Bool) (n : Nat) :
    (backwards p n = none ∧ ∀ i < n, p i = false) ∨
      ∃ i < n, backwards p n = some i ∧ p i = true ∧ ∀ j < n, i < j → p j = false := by
  induction n with
  | zero => exact .inl ⟨rfl, nofun⟩
  | succ n ih =>
      unfold backwards
      by_cases hn : p n
      · rw [if_pos hn]
        exact .inr ⟨n, Nat.lt_succ_self n, rfl, hn, fun j hj hlt => by omega⟩
      · rw [if_neg hn]
        have hlast {i : Nat} (hi : i < n + 1) (hne : i ≠ n) : i < n := by omega
        have hn : p n = false := Bool.eq_false_iff.mpr hn
        obtain ⟨hnone, hall⟩ | ⟨i, hi, hsome, hp, hall⟩ := ih
        · refine .inl ⟨hnone, fun i hi => ?_⟩
          by_cases hin : i = n
          · rw [hin, hn]
          · exact hall i (hlast hi hin)
        · refine .inr ⟨i, by omega, hsome, hp, fun j hj hlt => ?_⟩
          by_cases hjn : j = n
          · rw [hjn, hn]
          · exact hall j (hlast hj hjn) hlt

/-- The entry `i` of the table is one for the region. -/
def Hit (table : Memory UInt16) (region i : Nat) : Prop := ((table i).toNat : Int) - 1 = region

theorem indexLoop_of_nonneg {matchIndex : Int} (h : 0 ≤ matchIndex) :
    indexLoop table searchRecords region fuel processed batchSize matchIndex = matchIndex := by
  cases fuel with
  | zero => rfl
  | succ fuel => exact if_neg fun hlt => absurd hlt.2 (Int.not_lt.mpr h)

/-- The search goes from the last record to the first. -/
theorem indexLoop_spec (hs : searchRecords < 2 ^ 15)
    (hbatch : processed < searchRecords → 0 < batchSize) (hle : processed ≤ searchRecords)
    (hfuel : searchRecords - processed ≤ fuel)
    (hnone : ∀ i < searchRecords, searchRecords - processed ≤ i → ¬Hit table region i) :
    (indexLoop table searchRecords region fuel processed batchSize (-1) = -1 ∧
        ∀ i < searchRecords, ¬Hit table region i) ∨
      ∃ i < searchRecords, indexLoop table searchRecords region fuel processed batchSize (-1) = i ∧
        Hit table region i ∧ ∀ j < searchRecords, i < j → ¬Hit table region j := by
  induction fuel generalizing processed batchSize with
  | zero => exact .inl ⟨rfl, fun i hi => hnone i hi (by omega)⟩
  | succ fuel ih =>
      unfold indexLoop
      by_cases hlt : processed < searchRecords
      · rw [if_pos ⟨hlt, by decide⟩]
        have hpos := hbatch hlt
        generalize hb : (if searchRecords < batchSize + processed then searchRecords - processed
          else batchSize) = b
        have hb' : 0 < b ∧ b ≤ searchRecords - processed := by
          rw [← hb]
          split_ifs <;> omega
        have hlast : (int16 (b - 1) + 1).toNat = b := by
          have hint := int16_of_lt (n := b - 1) (by omega)
          rw [Int.natCast_pred_of_pos hb'.1] at hint
          rw [hint]
          omega
        obtain ⟨hback, hall⟩ | ⟨i, hi, hback, hhit, hall⟩ := backwards_spec (fun i =>
          ((table (searchRecords - processed - b + i : Nat)).toNat : Int) - 1 = region) b
        · simp only [hlast, hback]
          refine ih (fun _ => hb'.1) (by omega) (by omega) fun i hi hge => ?_
          by_cases hold : searchRecords - processed ≤ i
          · exact hnone i hi hold
          · have hmiss := of_decide_eq_false (hall (i - (searchRecords - processed - b)) (by omega))
            have hindex :
                searchRecords - processed - b + (i - (searchRecords - processed - b)) = i := by
              omega
            rwa [hindex] at hmiss
        · simp only [hlast, hback]
          have hcast : ((searchRecords : Int) - processed - (b - i)) =
              (searchRecords - processed - b + i : Nat) := by omega
          have hhit := of_decide_eq_true hhit
          rw [hcast, int16_of_lt (by omega), indexLoop_of_nonneg (Int.natCast_nonneg _)]
          refine .inr ⟨_, by omega, rfl, hhit, fun j hj hlt' => ?_⟩
          by_cases hold : searchRecords - processed ≤ j
          · exact hnone j hj hold
          · have hmiss := of_decide_eq_false
              (hall (j - (searchRecords - processed - b)) (by omega) (by omega))
            have hindex :
                searchRecords - processed - b + (j - (searchRecords - processed - b)) = j := by
              omega
            rwa [hindex] at hmiss
      · rw [if_neg fun h => hlt h.1]
        exact .inl ⟨rfl, fun i hi => hnone i hi (by omega)⟩

theorem getRecordIndex_spec (hs : searchRecords < 2 ^ 15) (table : Memory UInt16) (region : Nat) :
    (getRecordIndex cfg table searchRecords region = -1 ∧
        ∀ i < searchRecords, ¬Hit table region i) ∨
      ∃ i < searchRecords, getRecordIndex cfg table searchRecords region = i ∧
        Hit table region i ∧ ∀ j < searchRecords, i < j → ¬Hit table region j :=
  indexLoop_spec hs (fun hpos => Nat.lt_min.mpr ⟨cfg.tableLimit_pos, hpos⟩) (Nat.zero_le _)
    (Nat.sub_le _ _) fun _ hi hge => absurd hi (Nat.not_lt.mpr hge)

variable {records preferred : Nat}

theorem findLoop_of_le (fuel logRecord : Nat) (h : records ≤ processed) :
    findLoop table records preferred fuel processed logRecord = logRecord := by
  cases fuel with
  | zero => rfl
  | succ fuel => exact if_neg (Nat.not_lt.mpr h)

/-- What the last batch says decides, whatever the others have said. -/
theorem findLoop_eq (hpos : 0 < preferred) (hrecords : 0 < records) {k : Nat}
    (hk : k ≤ (records - 1) / preferred) (fuel : Nat) (hfuel : records - k * preferred ≤ fuel)
    (logRecord : Nat) :
    findLoop table records preferred fuel (k * preferred) logRecord =
      searchBatch table ((records - 1) / preferred * preferred)
        (records - (records - 1) / preferred * preferred) := by
  have hle := Nat.div_mul_le_self (records - 1) preferred
  have hnext := Nat.lt_mul_of_div_lt (Nat.lt_succ_self ((records - 1) / preferred)) hpos
  rw [Nat.succ_mul] at hnext
  have hkle := Nat.mul_le_mul_right preferred hk
  induction fuel generalizing k logRecord with
  | zero => omega
  | succ fuel ih =>
      unfold findLoop
      rw [if_pos (by omega)]
      by_cases hlast : k = (records - 1) / preferred
      · subst hlast
        generalize hb : (if preferred ≤ records - (records - 1) / preferred * preferred
          then preferred else records - (records - 1) / preferred * preferred) = b
        have hrest : b = records - (records - 1) / preferred * preferred := by
          rw [← hb]
          split_ifs <;> omega
        dsimp only
        rw [hrest]
        exact findLoop_of_le fuel _ (by omega)
      · have hlt : k + 1 ≤ (records - 1) / preferred := by omega
        have hstep := Nat.mul_le_mul_right preferred hlt
        rw [Nat.succ_mul] at hstep
        have hwhole : preferred ≤ records - k * preferred := by omega
        dsimp only
        rw [if_pos hwhole, ← Nat.succ_mul]
        refine ih hlt ?_ _ ?_
        · rw [Nat.succ_mul]
          omega
        · rw [Nat.succ_mul]
          exact hstep

/-- A batch is searched for the first entry that is not in use. -/
theorem searchBatch_spec (hused : ∀ i < n, table i ≠ 0)
    (hfree : ∀ i < records, n ≤ i → table i = 0) (hn : n ≤ records) (hle : processed ≤ records)
    (hprocessed : processed ≤ n) :
    searchBatch table processed (records - processed) =
      if n < records then n else records - processed := by
  unfold searchBatch
  split_ifs with hlt
  · have hfind : (List.range (records - processed)).find?
        (fun i => decide (table (processed + i : Nat) = 0)) = some (n - processed) := by
      rw [List.find?_range_eq_some]
      refine ⟨?_, by rw [List.mem_range]; omega, fun j hj => ?_⟩
      · have hindex : processed + (n - processed) = n := by omega
        rw [hindex, hfree n hlt (Nat.le_refl n), decide_eq_true rfl]
      · rw [decide_eq_false (hused (processed + j) (by omega))]
        rfl
    rw [hfind]
    exact Nat.sub_add_cancel hprocessed
  · have hfind : (List.range (records - processed)).find?
        (fun i => decide (table (processed + i : Nat) = 0)) = none := by
      rw [List.find?_range_eq_none]
      intro i hi
      rw [decide_eq_false (hused (processed + i) (by omega))]
      rfl
    rw [hfind]

theorem findNextRecord_spec (hpos : 0 < records) (hused : ∀ i < n, table i ≠ 0)
    (hfree : ∀ i < records, n ≤ i → table i = 0)
    (hn : n ≤ records) (hcount : records ≤ cfg.tableLimit ∨
      (records - 1) / cfg.tableLimit * cfg.tableLimit ≤ n ∧ n < records) :
    findNextRecord cfg (-1) table records = n := by
  unfold findNextRecord
  rw [if_neg (by decide)]
  have hmin : 0 < min cfg.tableLimit records := Nat.lt_min.mpr ⟨cfg.tableLimit_pos, hpos⟩
  have hloop : findLoop table records _ records (0 * _) records = _ :=
    findLoop_eq hmin hpos (Nat.zero_le _) records (Nat.sub_le _ _) records
  rw [Nat.zero_mul] at hloop
  rw [hloop]
  have hle := Nat.div_mul_le_self (records - 1) (min cfg.tableLimit records)
  by_cases hsmall : records ≤ cfg.tableLimit
  · have hzero : (records - 1) / min cfg.tableLimit records = 0 := by
      rw [Nat.min_eq_right hsmall]
      exact Nat.div_eq_of_lt (Nat.sub_lt hpos Nat.one_pos)
    rw [hzero, Nat.zero_mul, searchBatch_spec hused hfree hn (Nat.zero_le _) (Nat.zero_le _)]
    split_ifs with hlt
    · rfl
    · congr 1
      omega
  · obtain ⟨hlast, hlt⟩ := hcount.resolve_left hsmall
    rw [Nat.min_eq_left (Nat.le_of_lt (Nat.not_le.mp hsmall))] at hle ⊢
    rw [searchBatch_spec hused hfree hn (by omega) hlast, if_pos hlt]

/-! ### The invariant -/

variable {s : State} {log : Log}

/-- The table has the regions of the records, and zeros behind; the most recent record of a region
holds what the region should, and so does the extent where there is none. -/
structure Holds (cfg : Config) (s : State) (log : Log) : Prop where
  used : ∀ i region, s.regions[i]? = some region → (log.table (i : Nat)).toNat = region + 1
  free : ∀ i < logRecords cfg s.file.header, s.regions.length ≤ i → log.table (i : Nat) = 0
  length : s.regions.length ≤ logRecords cfg s.file.header
  data : ∀ region i, IsLast s.regions region i →
    window log.data (i * logRecordSize cfg s.file.header : Nat) (logRecordSize cfg s.file.header) =
      window s.content (region * logRecordSize cfg s.file.header : Nat)
        (logRecordSize cfg s.file.header)
  extent : ∀ region ∉ s.regions,
    window s.file.extent (region * logRecordSize cfg s.file.header : Nat)
        (logRecordSize cfg s.file.header) =
      window s.content (region * logRecordSize cfg s.file.header : Nat)
        (logRecordSize cfg s.file.header)

/-- What holds of a file whose configuration is sized. -/
structure Inv (cfg : Config) (s : State) : Prop where
  sized : Sized cfg s.file.header
  empty : s.file.log = none → s.regions = [] ∧ s.file.extent = s.content
  log : ∀ log, s.file.log = some log → Holds cfg s log
  count : s.file.log.isSome → s.file.recordCount = s.regions.length ∨
    s.file.recordCount = -1 ∧ Recoverable cfg s

theorem hit_iff (h : Holds cfg s log) {i : Nat} (hi : i < logRecords cfg s.file.header) :
    Hit log.table region i ↔ s.regions[i]? = some region := by
  unfold Hit
  cases hregion : s.regions[i]? with
  | none =>
      have hfree := h.free i hi (List.getElem?_eq_none_iff.mp hregion)
      rw [hfree]
      exact iff_of_false (by simp) nofun
  | some r =>
      rw [h.used i r hregion, Option.some_inj]
      omega

/-- The search over the records, or over more of the table. -/
theorem getRecordIndex_eq (h : Holds cfg s log) (hsized : Sized cfg s.file.header)
    (hle : s.regions.length ≤ searchRecords)
    (hs : searchRecords ≤ logRecords cfg s.file.header) (region : Nat) :
    (getRecordIndex cfg log.table searchRecords region = -1 ∧ region ∉ s.regions) ∨
      ∃ i : Nat, IsLast s.regions region i ∧
        getRecordIndex cfg log.table searchRecords region = i := by
  have hlt : searchRecords < 2 ^ 15 := Nat.lt_of_le_of_lt hs hsized.2
  obtain ⟨hindex, hnone⟩ | ⟨i, hi, hindex, hhit, hlast⟩ :=
    getRecordIndex_spec hlt log.table region
  · refine .inl ⟨hindex, fun hmem => ?_⟩
    obtain ⟨i, hi⟩ := List.mem_iff_getElem?.mp hmem
    have hilt := (List.getElem?_eq_some_iff.mp hi).1
    exact hnone i (by omega) ((hit_iff h (by omega)).mpr hi)
  · refine .inr ⟨i, ⟨(hit_iff h (by omega)).mp hhit, fun j hj hregion => ?_⟩, hindex⟩
    have hjlt := (List.getElem?_eq_some_iff.mp hregion).1
    exact hlast j (by omega) hj ((hit_iff h (by omega)).mpr hregion)

theorem IsLast.mem {regions : List Nat} {i : Nat} (h : IsLast regions region i) :
    region ∈ regions :=
  List.mem_of_getElem? h.1

/-- What is read of the log. -/
theorem readLogPage_eq (h : Holds cfg s log) (hsized : Sized cfg s.file.header)
    {recordCount : Int} (hcount : recordCount = s.regions.length ∨ recordCount = -1)
    (hregion : region < 2 ^ 16) {o : Nat} (ho : o < logRecordSize cfg s.file.header) (size : Nat) :
    readLogPage cfg s.file.header log recordCount
        (region * logRecordSize cfg s.file.header + o) size =
      if region ∈ s.regions then
        some (window s.content (region * logRecordSize cfg s.file.header + o : Nat)
          (min size (logRecordSize cfg s.file.header - o)))
      else none := by
  have hpos : 0 < logRecordSize cfg s.file.header := Nat.zero_lt_of_lt ho
  have hdiv : (region * logRecordSize cfg s.file.header + o) / logRecordSize cfg s.file.header =
      region := by
    rw [Nat.mul_comm, Nat.mul_add_div hpos, Nat.div_eq_of_lt ho, Nat.add_zero]
  have hmod : (region * logRecordSize cfg s.file.header + o) % logRecordSize cfg s.file.header =
      o := by
    rw [Nat.mul_comm, Nat.mul_add_mod, Nat.mod_eq_of_lt ho]
  generalize hsearch : (if recordCount < 0 then logRecords cfg s.file.header
    else recordCount.toNat) = searchRecords
  have hbounds : s.regions.length ≤ searchRecords ∧
      searchRecords ≤ logRecords cfg s.file.header := by
    have hlength := h.length
    rw [← hsearch]
    obtain rfl | rfl := hcount
    · rw [if_neg (by omega)]
      omega
    · rw [if_pos (by decide)]
      omega
  unfold readLogPage modifyLogBuffer
  simp only [hsearch, hdiv, hmod, Nat.mod_eq_of_lt hregion]
  obtain ⟨hindex, hnot⟩ | ⟨i, hlast, hindex⟩ :=
    getRecordIndex_eq h hsized hbounds.1 hbounds.2 region
  · rw [hindex, if_pos (by decide), if_neg hnot]
  · rw [hindex, if_neg (by omega), if_pos hlast.mem]
    have hdata := h.data region i hlast
    have hpart : o + min size (logRecordSize cfg s.file.header - o) ≤
        logRecordSize cfg s.file.header := by omega
    have hlog := window_part hdata hpart
    rw [← window_part rfl hpart] at hlog
    push_cast
    exact congrArg some hlog

/-- The next record is the one behind those that are there. -/
theorem findNextRecord_eq (h : Holds cfg s log) (hsized : Sized cfg s.file.header)
    (hcount : s.file.recordCount = s.regions.length ∨
      s.file.recordCount = -1 ∧ Recoverable cfg s) :
    findNextRecord cfg s.file.recordCount log.table (logRecords cfg s.file.header) =
      s.regions.length := by
  obtain hcount | ⟨hcount, hrecoverable⟩ := hcount
  · rw [hcount]
    exact if_pos (Int.natCast_nonneg _)
  · rw [hcount]
    refine findNextRecord_spec hsized.1 (fun i hi hzero => ?_) h.free h.length hrecoverable
    have hused := h.used i _ (List.getElem?_eq_getElem hi)
    rw [hzero] at hused
    exact absurd hused (by simp)

theorem conforms_of_inv (h : Inv cfg s) (hlog : s.file.log = some log) : Conforms cfg s log := by
  have hholds := h.log log hlog
  have hcount := h.count (by rw [hlog]; rfl)
  refine ⟨findNextRecord_eq hholds h.sized hcount, fun region => ?_,
    fun region hregion o ho size => ?_⟩
  · exact getRecordIndex_eq hholds h.sized le_rfl hholds.length region
  · exact readLogPage_eq hholds h.sized (hcount.imp_right And.left) hregion ho size

/-! ### Steps -/

theorem isLast_append {regions : List Nat} {i : Nat} :
    IsLast (regions ++ [n]) region i ↔
      n = region ∧ i = regions.length ∨ n ≠ region ∧ IsLast regions region i := by
  have hback : (regions ++ [n])[regions.length]? = some n := by simp
  have hfront {j : Nat} (hj : j ≠ regions.length) : (regions ++ [n])[j]? = regions[j]? := by
    rw [List.getElem?_append]
    split_ifs with hlt
    · rfl
    · have hout : [n].length ≤ j - regions.length := Nat.sub_pos_of_lt (by omega)
      rw [List.getElem?_eq_none hout, List.getElem?_eq_none (Nat.not_lt.mp hlt)]
  constructor
  · rintro ⟨hi, hlast⟩
    by_cases hend : i = regions.length
    · rw [hend, hback, Option.some_inj] at hi
      exact .inl ⟨hi, hend⟩
    · rw [hfront hend] at hi
      have hilt := (List.getElem?_eq_some_iff.mp hi).1
      refine .inr ⟨fun hn => hlast _ hilt (by rw [hback, hn]), hi, fun j hj hregion => ?_⟩
      have hjlt := (List.getElem?_eq_some_iff.mp hregion).1
      exact hlast j hj (by rw [hfront (by omega), hregion])
  · rintro (⟨rfl, rfl⟩ | ⟨hn, hi, hlast⟩)
    · refine ⟨hback, fun j hj => ?_⟩
      rw [List.getElem?_eq_none (by simp; omega)]
      nofun
    · have hilt := (List.getElem?_eq_some_iff.mp hi).1
      refine ⟨by rw [hfront (by omega), hi], fun j hj => ?_⟩
      by_cases hend : j = regions.length
      · rw [hend, hback]
        exact fun h => hn (Option.some_inj.mp h)
      · rw [hfront hend]
        exact hlast j hj

/-- A region of the size of a record ends where another begins, or before. -/
theorem mul_add_le_of_lt {i j : Nat} (size : Nat) (h : i < j) : i * size + size ≤ j * size := by
  rw [← Nat.succ_mul]
  exact Nat.mul_le_mul_right size h

/-- A write in a region leaves the others alone. -/
theorem window_write_region {content : Memory UInt8} {buf : List UInt8} {o size r : Nat}
    (hbuf : o + buf.length ≤ size) (hr : r ≠ region) :
    window (write content (region * size + o : Nat) buf) (r * size : Nat) size =
      window content (r * size : Nat) size := by
  apply window_write_of_disjoint
  rcases Nat.lt_or_gt_of_ne hr with hlt | hgt
  · have hle := mul_add_le_of_lt size hlt
    exact .inl (by omega)
  · have hle := mul_add_le_of_lt size hgt
    exact .inr (by omega)

/-- What is written into a copy of a window. -/
theorem window_write_copy {content : Memory UInt8} {buf copyBuf : List UInt8} {a o size : Nat}
    (hcopy : 0 < o ∨ buf.length ≠ size → copyBuf = window content a size) :
    window (write (placed 0 copyBuf) o buf) 0 size =
      window (write content (a + o : Nat) buf) a size := by
  apply window_congr
  intro i hi
  have hcopied (hpart : 0 < o ∨ buf.length ≠ size) :
      placed 0 copyBuf (0 + i) = content (a + i) := by
    have hwindow := window_placed 0 copyBuf
    rw [hcopy hpart, length_window] at hwindow
    rw [hcopy hpart]
    exact apply_of_window hwindow (getElem?_window hi)
  by_cases hbefore : i < o
  · rw [write_of_lt (by omega), write_of_lt (by omega)]
    exact hcopied (.inl (by omega))
  · by_cases hbuf : i < o + buf.length
    · have hadd : ∃ j < buf.length, i = o + j := ⟨i - o, by omega, by omega⟩
      obtain ⟨j, hj, rfl⟩ := hadd
      have hleft : (0 : Int) + (o + j : Nat) = o + j := by omega
      have hright : (a : Int) + (o + j : Nat) = (a + o : Nat) + j := by omega
      rw [hleft, hright, write_apply hj, write_apply hj]
    · rw [write_of_length_le (by omega), write_of_length_le (by omega)]
      exact hcopied (by omega)

@[simp] theorem header_writeRecord {file : File} {logRecord : Int} {o : Nat} {buf : List UInt8} :
    (writeRecord cfg file log logRecord region o buf).header = file.header := rfl

@[simp] theorem extent_writeRecord {file : File} {logRecord : Int} {o : Nat} {buf : List UInt8} :
    (writeRecord cfg file log logRecord region o buf).extent = file.extent := rfl

@[simp] theorem recordCount_writeRecord {file : File} {logRecord : Int} {o : Nat}
    {buf : List UInt8} :
    (writeRecord cfg file log logRecord region o buf).recordCount = int16 (logRecord + 1) := rfl

/-- The bytes that are logged are those of the region after the write. -/
theorem holds_writeRecord (h : Holds cfg s log) (hsized : Sized cfg s.file.header)
    (hlt : s.regions.length < logRecords cfg s.file.header) (hregion : region < 2 ^ 16 - 1)
    {o : Nat} (ho : o < logRecordSize cfg s.file.header) {buf : List UInt8}
    (hbuf : o + buf.length ≤ logRecordSize cfg s.file.header) :
    ∃ log', (writeRecord cfg s.file log s.regions.length region o buf).log = some log' ∧
      Holds cfg
        ⟨writeRecord cfg s.file log s.regions.length region o buf, s.regions ++ [region],
          write s.content (region * logRecordSize cfg s.file.header + o : Nat) buf⟩ log' := by
  generalize hcopy : (if 0 < o ∨ buf.length ≠ logRecordSize cfg s.file.header then
      match readLogPage cfg s.file.header log s.regions.length
        (region * logRecordSize cfg s.file.header) (logRecordSize cfg s.file.header) with
      | some l => l
      | none => window s.file.extent (region * logRecordSize cfg s.file.header : Nat)
        (logRecordSize cfg s.file.header)
    else []) = copyBuf
  have hcopyBuf (hpart : 0 < o ∨ buf.length ≠ logRecordSize cfg s.file.header) :
      copyBuf = window s.content (region * logRecordSize cfg s.file.header : Nat)
        (logRecordSize cfg s.file.header) := by
    have hcount : (s.regions.length : Int) = s.regions.length ∨ (s.regions.length : Int) = -1 :=
      .inl rfl
    have hlt : region < 2 ^ 16 := by omega
    have hread := readLogPage_eq h hsized hcount hlt (Nat.zero_lt_of_lt ho)
      (logRecordSize cfg s.file.header)
    rw [Nat.add_zero, Nat.sub_zero, Nat.min_self] at hread
    rw [← hcopy, if_pos hpart, hread]
    by_cases hmem : region ∈ s.regions
    · rw [if_pos hmem]
    · rw [if_neg hmem]
      exact h.extent region hmem
  have hlength : (s.regions ++ [region]).length = s.regions.length + 1 := List.length_append
  refine ⟨⟨Function.update log.table s.regions.length (UInt16.ofNat (region + 1)),
    write log.data (s.regions.length * logRecordSize cfg s.file.header)
      (window (write (placed 0 copyBuf) o buf) 0 (logRecordSize cfg s.file.header))⟩, ?_,
    fun i r hi => ?_, fun i hi hge => ?_, ?_, fun r i hi => ?_, fun r hr => ?_⟩
  · rw [← hcopy]
    rfl
  · dsimp only at hi ⊢
    by_cases hend : i = s.regions.length
    · subst hend
      rw [List.getElem?_concat_length, Option.some_inj] at hi
      rw [← hi, Function.update_self]
      rw [UInt16.toNat_ofNat', Nat.mod_eq_of_lt (by omega)]
    · have hilt := (List.getElem?_eq_some_iff.mp hi).1
      rw [List.getElem?_append_left (by omega)] at hi
      rw [Function.update_of_ne (by omega)]
      exact h.used i r hi
  · dsimp only at hge ⊢
    rw [hlength] at hge
    rw [Function.update_of_ne (by omega)]
    exact h.free i hi (by omega)
  · rw [hlength]
    exact hlt
  · simp only [header_writeRecord]
    obtain ⟨rfl, rfl⟩ | ⟨hne, hi⟩ := isLast_append.mp hi
    · push_cast
      rw [window_write_self (length_window _ _ _)]
      exact_mod_cast window_write_copy hcopyBuf
    · have hilt := (List.getElem?_eq_some_iff.mp hi.1).1
      have hle := mul_add_le_of_lt (logRecordSize cfg s.file.header) hilt
      rw [window_write_region hbuf hne.symm, ← h.data r i hi]
      apply window_write_of_disjoint
      left
      exact_mod_cast hle
  · simp only [header_writeRecord, extent_writeRecord]
    rw [List.mem_append, List.mem_singleton, not_or] at hr
    rw [window_write_region hbuf hr.2]
    exact h.extent r hr.1

theorem inv_start {hdr : Header} (hsized : Sized cfg hdr) (extent : Memory UInt8) :
    Inv cfg (State.start hdr extent) :=
  ⟨hsized, fun _ => ⟨rfl, rfl⟩, nofun, nofun⟩

theorem logRecordSize_pos (cfg : Config) (hdr : Header) : 0 < logRecordSize cfg hdr := by
  unfold logRecordSize
  split_ifs with hzero
  · exact cfg.pageSize_pos
  · exact Nat.pos_of_ne_zero fun h => hzero (UInt16.toNat_inj.mp h)

theorem inv_written (h : Inv cfg s) (hholds : Holds cfg s log)
    (hlt : s.regions.length < logRecords cfg s.file.header) {offset : Nat}
    (hregion : offset / logRecordSize cfg s.file.header < 2 ^ 16 - 1) (buf : List UInt8) :
    let p := modifyLogBuffer (logRecordSize cfg s.file.header) offset buf.length
    Inv cfg
      ⟨writeRecord cfg s.file log s.regions.length p.1 p.2.1 (buf.take p.2.2),
        s.regions ++ [offset / logRecordSize cfg s.file.header],
        write s.content offset (buf.take (logRecordSize cfg s.file.header -
          offset % logRecordSize cfg s.file.header))⟩ := by
  have ho := Nat.mod_lt offset (logRecordSize_pos cfg s.file.header)
  generalize hsize : logRecordSize cfg s.file.header = size at *
  have htake : buf.take (min buf.length (size - offset % size)) =
      buf.take (size - offset % size) := by
    rw [List.take_eq_take_iff]
    omega
  unfold modifyLogBuffer
  dsimp only
  rw [Nat.mod_eq_of_lt (by omega), htake]
  have hlen : offset % size + (buf.take (size - offset % size)).length ≤ size := by
    rw [List.length_take]
    omega
  have hsplit : offset / size * size + offset % size = offset := Nat.div_add_mod' offset size
  rw [← hsize] at hregion ho hlen hsplit
  obtain ⟨log', hlog', hholds'⟩ := holds_writeRecord hholds h.sized hlt hregion ho hlen
  rw [hsplit] at hholds'
  rw [hsize] at hlog' hholds'
  refine ⟨h.sized, fun hnone => ?_, fun l hl => ?_, fun _ => .inl ?_⟩
  · rw [hlog'] at hnone
    exact nomatch hnone
  · rw [hlog', Option.some_inj] at hl
    exact hl ▸ hholds'
  · have hint : int16 (s.regions.length + 1 : Nat) = (s.regions.length + 1 : Nat) :=
      int16_of_lt (Nat.lt_of_le_of_lt hlt h.sized.2)
    simp only [recordCount_writeRecord, List.length_append, List.length_singleton]
    push_cast at hint ⊢
    exact hint

theorem inv_step (h : Inv cfg s) {e : Event} (he : e.Holds cfg s) : Inv cfg (e.step cfg s) := by
  cases e with
  | evict =>
      refine ⟨h.sized, h.empty, fun log hlog => ?_, fun hsome => .inr ⟨rfl, he hsome⟩⟩
      have hholds := h.log log hlog
      exact ⟨hholds.used, hholds.free, hholds.length, hholds.data, hholds.extent⟩
  | write offset buf space merge =>
      unfold Event.step writeLogPage
      cases hlog : s.file.log with
      | none =>
          obtain ⟨hregions, hextent⟩ := h.empty hlog
          cases space with
          | false => exact h
          | true =>
              have hnew : Holds cfg s ⟨fun _ => 0, fun _ => 0⟩ := by
                refine ⟨?_, fun _ _ _ => rfl, ?_, ?_, fun _ _ => by rw [hextent]⟩
                · rw [hregions]
                  exact nofun
                · rw [hregions]
                  exact Nat.zero_le _
                · rw [hregions]
                  exact fun _ _ hlast => nomatch hlast.1
              have hzero : (0 : Int) = s.regions.length := by rw [hregions]; rfl
              have hlt : s.regions.length < logRecords cfg s.file.header := by
                rw [hregions]
                exact h.sized.1
              dsimp only
              rw [if_pos rfl, hzero]
              exact inv_written h hnew hlt he buf
      | some log =>
          have hholds := h.log log hlog
          have hcount := h.count (by rw [hlog]; rfl)
          have hlt := Nat.lt_of_le_of_lt hholds.length h.sized.2
          dsimp only
          rw [findNextRecord_eq hholds h.sized hcount, int16_of_lt hlt]
          split_ifs with hfull
          · cases merge with
            | none => exact h
            | some extent => exact inv_start h.sized extent
          · exact inv_written h hholds (by omega) he buf

theorem inv_run (h : Inv cfg s) {es : List Event} (hes : EventsHold cfg s es) :
    Inv cfg (run cfg s es) := by
  induction es generalizing s with
  | nil => exact h
  | cons e es ih => exact ih (inv_step h hes.1) hes.2

/-- In a run from a file without a log whose events meet the condition, the log conforms. -/
theorem microLog_of_run (cfg : Config) {hdr : Header} (hsized : Sized cfg hdr)
    (extent : Memory UInt8) {es : List Event} (hes : EventsHold cfg (State.start hdr extent) es) :
    ∀ log, (run cfg (State.start hdr extent) es).file.log = some log →
      Conforms cfg (run cfg (State.start hdr extent) es) log :=
  fun _ hlog => conforms_of_inv (inv_run (inv_start hsized extent) hes) hlog

theorem microLog_of_run_evicted : ∃ log,
    (run ⟨256, 128, 16, Nat.zero_lt_succ 255, Nat.zero_lt_succ 15⟩ (.start ⟨8, 8⟩ fun _ => 0)
      [.write 3 [1, 2] true none, .evict]).file.log = some log ∧
    Conforms ⟨256, 128, 16, Nat.zero_lt_succ 255, Nat.zero_lt_succ 15⟩
      (run ⟨256, 128, 16, Nat.zero_lt_succ 255, Nat.zero_lt_succ 15⟩ (.start ⟨8, 8⟩ fun _ => 0)
        [.write 3 [1, 2] true none, .evict]) log := by
  have hes : EventsHold ⟨256, 128, 16, Nat.zero_lt_succ 255, Nat.zero_lt_succ 15⟩
      (.start ⟨8, 8⟩ fun _ => 0) [.write 3 [1, 2] true none, .evict] :=
    ⟨show 3 / 8 < 2 ^ 16 - 1 by decide, fun _ => .inl (show 8 ≤ 16 by decide), trivial⟩
  exact ⟨_, rfl, microLog_of_run _ ⟨by decide, by decide⟩ _ hes _ rfl⟩

/-- A log for 32 records of 8 bytes is configured and one byte is written. When the file object has
been given up, the next record is the seventeenth. -/
theorem not_microLog_of_configured :
    ¬∀ (cfg : Config) (logSize logRecordSize : UInt32) (hdr : Header),
      configureLog cfg logSize logRecordSize = some hdr →
        ∀ (extent : Memory UInt8) (es : List Event) (log : Log),
          (run cfg (State.start hdr extent) es).file.log = some log →
            Conforms cfg (run cfg (State.start hdr extent) es) log := by
  intro h
  have hnext := (h ⟨256, 128, 16, Nat.zero_lt_succ 255, Nat.zero_lt_succ 15⟩ 256 8 ⟨32, 8⟩ rfl
    (fun _ => 0) [.write 0 [1] true none, .evict] _ rfl).next
  revert hnext
  decide

end Calipso.Cfs.MicroLog
