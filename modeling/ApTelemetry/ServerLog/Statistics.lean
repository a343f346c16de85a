import ApTelemetry.ServerLog.Lines

namespace ApTelemetry.ServerLog
open Lib Wire

/-- An entry of `item`. -/
inductive Cell where
  | int (n : Int)
  | float (x : ℚ)
  | str (s : Str)
  deriving DecidableEq

/-- `int(item[i])`, `none` where it raises. -/
def Cell.int? : Cell → Option Int
  | int n => some n
  | float x => some (x.num.tdiv x.den)
  | str s => Str.toInt? s

/-- `float(item[i])` -/
def Cell.float? : Cell → Option ℚ
  | int n => some n
  | float x => some x
  | str s => Str.toFloat? s

/-- `item[i] = int(item[i])` -/
def intAt (item : List Cell) (i : Nat) : Option (List Cell) :=
  (item[i]?).bind fun c => c.int?.map fun n => item.set i (.int n)

/-- `item[i] = float(item[i])` -/
def floatAt (item : List Cell) (i : Nat) : Option (List Cell) :=
  (item[i]?).bind fun c => c.float?.map fun x => item.set i (.float x)

/-- `for i in range(a, b): item[i] = int(item[i])` -/
def intRange (item : List Cell) (a b : Nat) : Option (List Cell) :=
  (List.range' a (b - a)).foldlM intAt item

structure Lists where
  drop : List (List Cell)
  iw : List (List Cell)
  queue : List (List Cell)
  beacon : List (List Cell)
  survey : List (List Cell)
  deriving DecidableEq

/-- The branches on the category. -/
def branch (s : Lists) (tmp : Int) (item : List Cell) : Option Lists :=
  let length := item.length
  if tmp = 2 then
    (intRange item 4 length).map fun item => { s with drop := s.drop ++ [item] }
  else if tmp = 3 then
    ((intRange item 3 (length - 1)).bind fun item => floatAt item (length - 1)).map
      fun item => { s with iw := s.iw ++ [item] }
  else if tmp = 4 then
    (intRange item 2 length).map fun item => { s with queue := s.queue ++ [item] }
  else if tmp = 5 then
    (intRange item 2 6).map fun item => { s with beacon := s.beacon ++ [item] }
  else if tmp = 6 then
    (intRange item 2 length).map fun item => { s with survey := s.survey ++ [item] }
  else some s

/-- One turn of the loop over the lines, `none` where it raises. -/
def parseLine (s : Lists) (item : Str) : Option Lists := do
  let length : Int := item.length - 1
  let first ← item[0]?
  let tmp ← Str.toInt? [first]
  let item := Str.slice item 3 length
  let item := (Str.splitPair ',' ' ' item).map Cell.str
  let item ← intAt item 0
  branch s tmp item

def parseLog (file : Str) : Option Lists :=
  (Str.readlines file).foldlM parseLine ⟨[], [], [], [], []⟩

/-- The value that an argument prints. -/
def cellOf : Arg → Cell
  | .d n => .int n
  | .u n => .int n
  | .s text => .str text
  | .f m => .float (m / 1000000)

def Decoded.category : Decoded → DataCategory
  | .winsize _ _ => .winsize
  | .drops _ _ => .drops
  | .iw _ _ => .iw
  | .queue _ _ => .queue
  | .beacon _ _ => .beacon
  | .survey _ _ => .survey

section Specification

variable (shown : U32 → Nat)

/-- The values printed for a record, behind its category. -/
def rowOf (r : Decoded) : Option (List Cell) :=
  (lineOf shown r).map fun line => line.tail.map cellOf

def rowsOf (c : DataCategory) (records : List Decoded) : List (List Cell) :=
  (records.filter fun r => Decoded.category r = c).filterMap (rowOf shown)

/-- The records of a log, each in the list of its category. -/
def listsOf (records : List Decoded) : Lists where
  drop := rowsOf shown .drops records
  iw := rowsOf shown .iw records
  queue := rowsOf shown .queue records
  beacon := rowsOf shown .beacon records
  survey := rowsOf shown .survey records

/-- The log is read without an exception and gives exactly its records. -/
def ParsesBack (records : List Decoded) : Prop :=
  parseLog (logFile shown records) = some (listsOf shown records)

end Specification

section Cells

variable {a : Arg}

/-- A number printed without decimals. -/
def Whole : Arg → Prop
  | .d _ => True
  | .u _ => True
  | _ => False

theorem int_of_whole (h : Whole a) : ∃ n, Str.toInt? a.text = some n ∧ cellOf a = .int n := by
  cases a with
  | d n => exact ⟨n, to_int_int n, rfl⟩
  | u n => exact ⟨n, Str.to_int_decimal n, rfl⟩
  | s text => exact absurd h id
  | f m => exact absurd h id

theorem int_at_whole (front back : List Cell) (h : Whole a) :
    intAt (front ++ .str a.text :: back) front.length = some (front ++ cellOf a :: back) := by
  obtain ⟨n, htext, hcell⟩ := int_of_whole h
  simp [intAt, Cell.int?, htext, hcell]

/-- A range of columns of whole numbers is converted, the rest stays. -/
theorem int_range_whole (front : List Cell) (mid : List Arg) (back : List Cell)
    (h : ∀ a ∈ mid, Whole a) :
    intRange (front ++ (mid.map fun a => .str a.text) ++ back) front.length
      (front.length + mid.length) = some (front ++ mid.map cellOf ++ back) := by
  rw [intRange, Nat.add_sub_cancel_left]
  induction mid generalizing front with
  | nil => simp
  | cons a mid ih =>
    have hstep := int_at_whole front ((mid.map fun a => Cell.str a.text) ++ back)
      (h a List.mem_cons_self)
    have hrest := ih (front ++ [cellOf a]) fun b hb => h b (List.mem_cons_of_mem a hb)
    simp only [List.length_append, List.length_cons, List.length_nil, List.append_assoc,
      List.cons_append, List.nil_append] at hrest
    rw [List.length_cons, List.range'_succ, List.foldlM_cons]
    simp only [List.map_cons, List.append_assoc, List.cons_append] at hstep ⊢
    rw [hstep]
    exact hrest

/-- The column behind such a range is read as the number with decimals it shows. -/
theorem int_range_float (front : List Cell) (mid : List Arg) (m : Nat)
    (h : ∀ a ∈ mid, Whole a) :
    ((intRange (front ++ (mid.map fun a => .str a.text) ++ [.str (Arg.f m).text]) front.length
      (front.length + mid.length)).bind fun item => floatAt item (front.length + mid.length)) =
        some (front ++ mid.map cellOf ++ [cellOf (.f m)]) := by
  have hlength : front.length + mid.length = (front ++ mid.map cellOf).length := by simp
  rw [int_range_whole front mid _ h, Option.bind_some, hlength]
  generalize front ++ mid.map cellOf = front
  simp [floatAt, Cell.float?, to_float_text, cellOf]

end Cells

section Parse

variable {shown : U32 → Nat} {s : Lists}

/-- A line is taken apart again into its category and its columns. -/
theorem parse_line_columns {code : Char} {n : Int} {head : Arg} {t : Int} {columns : List Arg}
    (hhead : head.text = [code]) (hcode : Str.toInt? [code] = some n)
    (hplain : ∀ a ∈ Arg.d t :: columns, Plain a.text) :
    parseLine s (printLine (head :: .d t :: columns)) =
      branch s n (.int t :: columns.map fun a => .str a.text) := by
  have hsplit : Str.splitPair ',' ' '
      ([',', ' '].intercalate ((Arg.d t :: columns).map Arg.text)) =
        (Arg.d t :: columns).map Arg.text := by
    refine split_pair_join _ (by simp) fun text htext => ?_
    obtain ⟨a, ha, rfl⟩ := List.mem_map.mp htext
    exact (hplain a ha).1
  have hline : printLine (head :: .d t :: columns) = [code, ',', ' '] ++
      ([',', ' '].intercalate ((Arg.d t :: columns).map Arg.text) ++ ['\n']) := by
    simp [printLine, hhead, List.intercalate_cons_cons]
  generalize [',', ' '].intercalate ((Arg.d t :: columns).map Arg.text) = body at hsplit hline
  have hslice : Str.slice (printLine (head :: .d t :: columns)) 3
      ((printLine (head :: .d t :: columns)).length - 1 : Int) = body := by
    have hlength : (([code, ',', ' '] ++ (body ++ ['\n'])).length : Int) - 1 =
        (([code, ',', ' '] ++ body).length : Nat) := by
      simp
    rw [hline, hlength]
    exact Str.slice_append [code, ',', ' '] body ['\n']
  have hfirst : (printLine (head :: .d t :: columns))[0]? = some code := by
    rw [hline]
    rfl
  have hint : intAt (((Arg.d t :: columns).map Arg.text).map Cell.str) 0 =
      some (.int t :: columns.map fun a => .str a.text) := by
    have hwhole := int_at_whole [] (columns.map fun a => Cell.str a.text) (a := .d t) trivial
    simpa [cellOf, Function.comp_def] using hwhole
  simp only [parseLine, hfirst, hcode, hslice, hsplit, hint, Option.bind_eq_bind,
    Option.bind_some]

/-- The lists with a row appended to the one of its category. -/
def Lists.append (s : Lists) (row : List Cell) : DataCategory → Lists
  | .drops => { s with drop := s.drop ++ [row] }
  | .iw => { s with iw := s.iw ++ [row] }
  | .queue => { s with queue := s.queue ++ [row] }
  | .beacon => { s with beacon := s.beacon ++ [row] }
  | .survey => { s with survey := s.survey ++ [row] }
  | _ => s

theorem parse_drops (mac : Mac) (rdata : DpPacket) :
    parseLine s (printLine (decodeDropsLine mac rdata)) =
      some (s.append ((decodeDropsLine mac rdata).tail.map cellOf) .drops) := by
  have hplain := line_plain (fun _ => 0) (.drops mac rdata) rfl
  rw [decodeDropsLine, parse_line_columns (rfl : (category .drops).text = ['2']) rfl
    fun a ha => hplain a (List.mem_cons_of_mem _ ha)]
  have hints := int_range_whole
    [.int (timex rdata.sec rdata.usec).toInt, .str ((macText mac).take 18),
      .str (ipText rdata.ipSrc), .str (ipText rdata.ipDst)]
    [.u rdata.portSrc.toNat, .u rdata.portDst.toNat, .u rdata.sequence.toNat,
      .u rdata.ackSequence.toNat, .u rdata.inTime.toNat, .u rdata.dpl.toNat,
      .u rdata.dropCount.toNat] [] (by simp [Whole])
  exact congrArg (Option.map _) hints

theorem parse_iw (mac : Mac) (rdata : DataIw) :
    parseLine s (printLine (decodeIwLine shown mac rdata)) =
      some (s.append ((decodeIwLine shown mac rdata).tail.map cellOf) .iw) := by
  have hplain := line_plain shown (.iw mac rdata) rfl
  rw [decodeIwLine, parse_line_columns (rfl : (category .iw).text = ['3']) rfl
    fun a ha => hplain a (List.mem_cons_of_mem _ ha)]
  have hints := int_range_float
    [.int (timex rdata.sec rdata.usec).toInt, .str ((macText mac).take 18),
      .str ((macText rdata.station).take 18)]
    [.u rdata.device.toNat, .u rdata.inactiveTime.toNat, .u rdata.rxBytes.toNat,
      .u rdata.rxPackets.toNat, .u rdata.txBytes.toNat, .u rdata.txPackets.toNat,
      .u rdata.txRetries.toNat, .u rdata.txFailed.toNat, .d rdata.signal.toInt,
      .d rdata.signalAvg.toInt] (shown rdata.expectedThroughput) (by simp [Whole])
  exact congrArg (Option.map _) hints

theorem parse_queue (mac : Mac) (rdata : DataQueue) :
    parseLine s (printLine (decodeQueueLine mac rdata)) =
      some (s.append ((decodeQueueLine mac rdata).tail.map cellOf) .queue) := by
  have hplain := line_plain (fun _ => 0) (.queue mac rdata) rfl
  rw [decodeQueueLine, parse_line_columns (rfl : (category .queue).text = ['4']) rfl
    fun a ha => hplain a (List.mem_cons_of_mem _ ha)]
  have hints := int_range_whole
    [.int (timex rdata.sec rdata.usec).toInt, .str ((macText mac).take 18)]
    [.u rdata.queueId.toNat, .u rdata.bytes.toNat, .u rdata.packets.toNat, .u rdata.qlen.toNat,
      .u rdata.backlog.toNat, .u rdata.drops.toNat, .u rdata.requeues.toNat,
      .u rdata.overlimits.toNat] [] (by simp [Whole])
  exact congrArg (Option.map _) hints

theorem parse_survey (mac : Mac) (rdata : DataSurvey) :
    parseLine s (printLine (decodeSurveyLine mac rdata)) =
      some (s.append ((decodeSurveyLine mac rdata).tail.map cellOf) .survey) := by
  have hplain := line_plain (fun _ => 0) (.survey mac rdata) rfl
  rw [decodeSurveyLine, parse_line_columns (rfl : (category .survey).text = ['6']) rfl
    fun a ha => hplain a (List.mem_cons_of_mem _ ha)]
  have hints := int_range_whole
    [.int (timex rdata.sec rdata.usec).toInt, .str ((macText mac).take 18)]
    [.u rdata.time.toNat, .u rdata.timeBusy.toNat, .u rdata.timeExtBusy.toNat,
      .u rdata.timeRx.toNat, .u rdata.timeTx.toNat, .u rdata.timeScan.toNat,
      .u rdata.centerFreq.toNat, .d rdata.noise.toInt] [] (by simp [Whole])
  exact congrArg (Option.map _) hints

/-- The range of the beacon columns goes one too far: it ends with the address. -/
theorem parse_beacon (mac : Mac) (beacon : DataBeacon) :
    parseLine s (printLine (decodeBeaconLine mac beacon)) = none := by
  have hplain := line_plain (fun _ => 0) (.beacon mac beacon) rfl
  rw [decodeBeaconLine, parse_line_columns (rfl : (category .beacon).text = ['5']) rfl
    fun a ha => hplain a (List.mem_cons_of_mem _ ha)]
  have hints := int_range_whole
    [.int (timex beacon.sec beacon.usec).toInt, .str ((macText mac).take 18)]
    [.u beacon.dataRate.toNat, .u beacon.freq.toNat, .u (beacon.signal.signExtend 32).toNat]
    [.str ((macText beacon.bssid).take 18)] (by simp [Whole])
  have hrange : ∀ item, intRange item 2 6 =
      (intRange item 2 5).bind fun item => intAt item 5 := by
    intro item
    simp [intRange, List.range'_succ, Option.bind_assoc]
  have hbssid : intRange (.int (timex beacon.sec beacon.usec).toInt ::
      [upTo18 (macText mac), .u beacon.dataRate.toNat, .u beacon.freq.toNat,
        .u (beacon.signal.signExtend 32).toNat, upTo18 (macText beacon.bssid)].map
          fun a => .str a.text) 2 6 = none := by
    refine (hrange _).trans ((congrArg (Option.bind · _) hints).trans ?_)
    simp [intAt, Cell.int?, mac_text_no_int]
  exact congrArg (Option.map _) hbssid

theorem parse_line {r : Decoded} {line : List Arg} (h : lineOf shown r = some line)
    (hbeacon : Decoded.category r ≠ .beacon) : parseLine s (printLine line) =
      some (s.append (line.tail.map cellOf) (Decoded.category r)) := by
  cases r with
  | winsize => simp [lineOf] at h
  | drops mac rdata => exact Option.some.inj h ▸ parse_drops mac rdata
  | iw mac rdata => exact Option.some.inj h ▸ parse_iw mac rdata
  | queue mac rdata => exact Option.some.inj h ▸ parse_queue mac rdata
  | beacon => exact absurd rfl hbeacon
  | survey mac rdata => exact Option.some.inj h ▸ parse_survey mac rdata

theorem rows_of_append (c : DataCategory) (records : List Decoded) (r : Decoded) :
    rowsOf shown c (records ++ [r]) = rowsOf shown c records ++
      if Decoded.category r = c then (rowOf shown r).toList else [] := by
  by_cases h : Decoded.category r = c
  · cases hr : rowOf shown r <;> simp [rowsOf, List.filter_append, h, hr]
  · simp [rowsOf, List.filter_append, h]

theorem lists_of_append {records : List Decoded} {r : Decoded} {row : List Cell}
    (h : rowOf shown r = some row) : listsOf shown (records ++ [r]) =
      (listsOf shown records).append row (Decoded.category r) := by
  cases r <;> simp [listsOf, rows_of_append, Decoded.category, Lists.append, h]

theorem lists_of_silent {records : List Decoded} {r : Decoded} (h : rowOf shown r = none) :
    listsOf shown (records ++ [r]) = listsOf shown records := by
  simp [listsOf, rows_of_append, h]

/-- The log is read line by line. -/
theorem parse_log_lines (records : List Decoded) : parseLog (logFile shown records) =
    (records.filterMap (lineOf shown)).foldlM (fun s line => parseLine s (printLine line))
      ⟨[], [], [], [], []⟩ := by
  have hlines : ∀ text ∈ (records.filterMap (lineOf shown)).map
      fun line => [',', ' '].intercalate (line.map Arg.text), '\n' ∉ text := by
    intro text htext
    obtain ⟨line, hline, rfl⟩ := List.mem_map.mp htext
    obtain ⟨r, -, hr⟩ := List.mem_filterMap.mp hline
    have hfree : ∀ c ∈ [',', ' '].intercalate (line.map Arg.text), c ≠ '\n' := by
      refine join_forall (P := (· ≠ '\n')) (by simp) fun text htext c hc => ?_
      obtain ⟨a, ha, rfl⟩ := List.mem_map.mp htext
      rintro rfl
      exact (line_plain shown r hr a ha).2 hc
    exact fun hm => hfree _ hm rfl
  have hread := readlines_lines hlines
  rw [List.flatMap_map, List.map_map] at hread
  have hfile : Str.readlines (logFile shown records) =
      (records.filterMap (lineOf shown)).map printLine := hread
  rw [parseLog, hfile, List.foldlM_map]

theorem parse_all {records : List Decoded} (h : ∀ r ∈ records, Decoded.category r ≠ .beacon) :
    parseLog (logFile shown records) = some (listsOf shown records) := by
  rw [parse_log_lines]
  induction records using List.reverseRecOn with
  | nil => rfl
  | append_singleton records r ih =>
    have hrest := ih fun q hq => h q (List.mem_append_left _ hq)
    rw [List.filterMap_append, List.foldlM_append, hrest]
    cases hr : lineOf shown r with
    | none =>
      rw [lists_of_silent (by rw [rowOf, hr]; rfl)]
      simp [hr]
    | some line =>
      rw [lists_of_append (by rw [rowOf, hr]; rfl)]
      simp [hr, parse_line hr (h r (by simp))]

/-- One beacon anywhere in the log ends the reading with an exception. -/
theorem parse_beacons {records : List Decoded} {r : Decoded} (hr : r ∈ records)
    (h : Decoded.category r = .beacon) : parseLog (logFile shown records) = none := by
  rw [parse_log_lines]
  obtain ⟨before, after, rfl⟩ := List.append_of_mem hr
  cases r with
  | beacon mac beacon =>
    rw [List.filterMap_append, List.foldlM_append]
    refine Option.bind_eq_none_iff.mpr fun s _ => ?_
    rw [List.filterMap_cons_some (rfl : lineOf shown (.beacon mac beacon) = _), List.foldlM_cons,
      parse_beacon]
    rfl
  | _ => exact absurd h (by simp [Decoded.category])

/-- A log is read back as its records unless a beacon is among them. -/
theorem parses_back_iff (shown : U32 → Nat) (records : List Decoded) :
    ParsesBack shown records ↔ ∀ r ∈ records, Decoded.category r ≠ .beacon := by
  constructor
  · intro h r hr hbeacon
    rw [ParsesBack, parse_beacons hr hbeacon] at h
    exact absurd h (by simp)
  · exact parse_all

/-- A beacon as any access point sends it. -/
def someBeacon : Decoded :=
  .beacon ⟨0x04, 0xa1, 0x51, 0x96, 0xca, 0x83⟩
    { sec := 1523600000, usec := 1, dataRate := 60, freq := 2437, timein := 0, signal := -50,
      pad := 0, bssid := ⟨0x44, 0x94, 0xfc, 0x82, 0xd9, 0x8e⟩, pad1 := 0 }

theorem beacon_not_read : ¬ ParsesBack (fun n => n.toNat * 1000) [someBeacon] := by
  intro h
  have hnone : parseLog (logFile (fun n => n.toNat * 1000) [someBeacon]) = none :=
    parse_beacons (List.mem_singleton_self _) rfl
  rw [ParsesBack, hnone] at h
  exact absurd h (by simp)

end Parse

end ApTelemetry.ServerLog
