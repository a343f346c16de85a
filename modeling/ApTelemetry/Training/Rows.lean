import ApTelemetry.Lib.Groups
import ApTelemetry.Lib.Text
import Mathlib.Data.Char
import Mathlib.Data.List.Dedup
import Mathlib.Data.List.Lex
import Mathlib.Data.Prod.Lex
import Mathlib.Logic.Function.Basic

namespace ApTelemetry.Training
open Lib

/-- What a row holds behind its key: rounded numbers and counts. -/
inductive Value (F : Type) where
  | number (x : F)
  | count (n : Nat)
  deriving DecidableEq

abbrev Row (F : Type) := List (Value F)

/-- `retrans_ratio`: the row of each second that has one. -/
abbrev Table (F : Type) := Int → Option (Row F)

/-- The floating-point work, each result rounded to four places: `share` divides a
difference of counters, `rate` the difference of two numbers given as text. -/
structure Arith (F : Type) where
  share : Int → Int → F
  rate : Str → Str → Int → F

def ratio : Int := 1000

def second (time : Int) : Int := time / ratio

/-- `sorted` of a list of lists: `key` is the list compared. -/
def sortedBy {α κ : Type} [LinearOrder κ] (key : α → κ) (xs : List α) : List α :=
  xs.insertionSort fun x y => key x ≤ key y

/-- `last_list[0]` and `last_list[len_tmp - 1]` where `len_tmp > 1`. -/
def ends {α : Type} : List α → Option (α × α)
  | b :: c :: rest => some (b, (c :: rest).getLast (List.cons_ne_nil c rest))
  | _ => none

/-- The size of the set of some texts. -/
def distinct (xs : List Str) : Nat := xs.dedup.length

/-- A line of the iw file, as far as it is used. Text that is no number in a column
other than the time ends the script. -/
structure IwRow where
  time : Str
  station : Str
  activeTime : Int
  busyTime : Int
  receiveTime : Int
  transmitTime : Int

structure Iw where
  time : Int
  station : Str
  activeTime : Int
  busyTime : Int
  receiveTime : Int
  transmitTime : Int
  deriving DecidableEq

def Iw.key (x : Iw) : Int ×ₗ Str ×ₗ Int ×ₗ Int ×ₗ Int ×ₗ Int :=
  toLex (x.time, toLex (x.station, toLex (x.activeTime, toLex (x.busyTime,
    toLex (x.receiveTime, x.transmitTime)))))

/-- A line whose time is no number is skipped. -/
def IwRow.parse (r : IwRow) : Option Iw :=
  (Str.toInt? r.time).map fun time =>
    ⟨time, r.station, r.activeTime, r.busyTime, r.receiveTime, r.transmitTime⟩

structure QueueRow where
  macAddr : Str
  time : Str
  queueId : Int
  bytes : Str
  packets : Str
  qlen : Str
  backlog : Str
  drops : Str
  requeues : Str

structure Queue where
  time : Int
  macAddr : Str
  bytes : Str
  packets : Str
  qlen : Str
  backlog : Str
  drops : Str
  requeues : Str
  deriving DecidableEq

def Queue.key (x : Queue) : Int ×ₗ Str ×ₗ Str ×ₗ Str ×ₗ Str ×ₗ Str ×ₗ Str ×ₗ Str :=
  toLex (x.time, toLex (x.macAddr, toLex (x.bytes, toLex (x.packets, toLex (x.qlen,
    toLex (x.backlog, toLex (x.drops, x.requeues)))))))

def QueueRow.parse (r : QueueRow) : Option Queue :=
  (Str.toInt? r.time).bind fun time =>
    if r.queueId ≠ 3 then none
    else some ⟨time, r.macAddr, r.bytes, r.packets, r.qlen, r.backlog, r.drops, r.requeues⟩

def Queue.columns (x : Queue) : List Str :=
  [x.bytes, x.packets, x.qlen, x.backlog, x.drops, x.requeues]

structure BeaconRow where
  time : Str
  bssid : Str

structure Beacon where
  time : Int
  bssid : Str
  deriving DecidableEq

def Beacon.key (x : Beacon) : Int ×ₗ Str := toLex (x.time, x.bssid)

def BeaconRow.parse (r : BeaconRow) : Option Beacon :=
  (Str.toInt? r.time).map fun time => ⟨time, r.bssid⟩

/-- Values appended to the row of a key, and the samples they come from. -/
structure Entry (α : Type) where
  key : Int
  samples : List α
  deriving DecidableEq

structure Filing (α F : Type) where
  table : Table F
  filed : List (Entry α)

/-- One of the three grouping loops: what it computes from `last_list`, and the
length a row must have to take it. -/
structure Loop (α F : Type) where
  time : α → Int
  values : List α → Option (Row F)
  accepts : Nat → Bool

structure Progress (α F : Type) where
  lastDuration : Int
  lastList : List α
  out : Filing α F

namespace Loop

variable {α F : Type}

def key (l : Loop α F) (x : α) : Int := second (l.time x)

/-- What is computed from `last_list` goes to the row of `time`, where there is one. -/
def file (l : Loop α F) (s : Filing α F) (time : Int) (lastList : List α) : Filing α F :=
  match l.values lastList, s.table time with
  | some z, some row =>
    if l.accepts row.length then
      ⟨Function.update s.table time (some (row ++ z)), s.filed ++ [⟨time, lastList⟩]⟩
    else s
  | _, _ => s

def step (l : Loop α F) (s : Progress α F) (x : α) : Progress α F :=
  let time := l.key x
  let s := if s.lastDuration ≠ time then ⟨time, [], l.file s.out time s.lastList⟩ else s
  { s with lastList := s.lastList ++ [x] }

def run (l : Loop α F) (table : Table F) (xs : List α) : Progress α F :=
  xs.foldl l.step ⟨-1, [], table, []⟩

end Loop

section Script

variable {F : Type}

def iwValues (a : Arith F) (lastList : List Iw) : Option (Row F) :=
  let lastList := sortedBy Iw.key lastList
  (ends lastList).bind fun (b, e) =>
    let duration := e.time - b.time
    let durationSurvey := e.activeTime - b.activeTime
    if duration > 0 ∧ durationSurvey > 0 then
      let stationAmount := distinct (lastList.map Iw.station)
      let busy := a.share (e.busyTime - b.busyTime) durationSurvey
      let recv := a.share (e.receiveTime - b.receiveTime) durationSurvey
      let tran := a.share (e.transmitTime - b.transmitTime) durationSurvey
      some [.count stationAmount, .number busy, .number recv, .number tran]
    else none

def iwLoop (a : Arith F) : Loop Iw F := ⟨Iw.time, iwValues a, fun _ => true⟩

def queueValues (a : Arith F) (lastList : List Queue) : Option (Row F) :=
  (ends lastList).bind fun (b, e) =>
    let duration := e.time - b.time
    if duration > 0 then
      some (List.zipWith (fun x y => .number (a.rate x y duration)) b.columns e.columns)
    else none

def queueLoop (a : Arith F) : Loop Queue F := ⟨Queue.time, queueValues a, (· == 5)⟩

def beaconValues (lastList : List Beacon) : Option (Row F) :=
  some [.count (distinct (lastList.map Beacon.bssid))]

def beaconLoop : Loop Beacon F := ⟨Beacon.time, beaconValues, (· == 11)⟩

/-- The rows of one length. -/
def keep (n : Nat) (table : Table F) : Table F := fun k =>
  (table k).filter fun row => row.length == n

/-- The files of one capture. -/
structure Input (F : Type) where
  ratios : List (Int × F)
  iw : List IwRow
  queue : List QueueRow
  beacon : List BeaconRow

/-- `retrans_ratio[index] = [tmp]` -/
def setRatio (table : Table F) (line : Int × F) : Table F :=
  Function.update table line.1 (some [.number line.2])

namespace Input

def table (i : Input F) : Table F := i.ratios.foldl setRatio fun _ => none

def iwR (i : Input F) : List Iw := sortedBy Iw.key (i.iw.filterMap IwRow.parse)

def quR (i : Input F) : List Queue := sortedBy Queue.key (i.queue.filterMap QueueRow.parse)

def beR (i : Input F) : List Beacon := sortedBy Beacon.key (i.beacon.filterMap BeaconRow.parse)

def iwPass (a : Arith F) (i : Input F) : Filing Iw F := ((iwLoop a).run i.table i.iwR).out

def quTable (a : Arith F) (i : Input F) : Table F := keep 5 (i.iwPass a).table

def quPass (a : Arith F) (i : Input F) : Filing Queue F :=
  ((queueLoop a).run (i.quTable a) i.quR).out

def beTable (a : Arith F) (i : Input F) : Table F := keep 11 (i.quPass a).table

def bePass (a : Arith F) (i : Input F) : Filing Beacon F :=
  (beaconLoop.run (i.beTable a) i.beR).out

/-- A row that no beacon reached gets the count 0. -/
def rows (a : Arith F) (i : Input F) : Table F :=
  keep 12 fun k => ((i.bePass a).table k).map fun row =>
    if row.length = 11 then row ++ [.count 0] else row

end Input

end Script

end ApTelemetry.Training
