import ApTelemetry.Lib.Slots
import ApTelemetry.Sendudp.LastSent
import ApTelemetry.Sendudp.RecvCb
import Mathlib.Data.Fin.Tuple.Basic

namespace ApTelemetry.Sendudp.IwList
open Lib

/-- `IWAMOUNT`, the length of the ring of samples in a slot of `linkinfo`. -/
def iwamount : Nat := 100

def ten : Nat := 10

/-- `struct links`, a slot of `linkinfo`. Three fields are not in the source and
nothing reads them: all samples written to the slot, the number of the sample
that the slot was last taken over with, and which sample is in each place of the
ring. -/
structure Links where
  station : Mac
  link : List Linkstates
  head : Nat
  tail : Nat
  sec : U32
  samples : List Linkstates
  since : Nat
  origin : List (Option Nat)

/-- `struct iw_processed`. -/
structure IwProcessed where
  count : Int
  link : Fin ten → DataIw

/-- A rate that was computed: the sample and its slot as it was then. -/
structure Rate where
  tmp : DataIw
  ltmp : Links

/-- The globals `compare_and_iwlist` works on and its local `found1`. `rates` is
the history of the entries computed; nothing reads it. -/
structure State where
  linkinfo : Fin ten → Links
  iwp : IwProcessed
  lastSurvey : LastSent
  lastIw : LastSent
  surveyRecords : List DataSurvey
  iwRecords : List DataIw
  found1 : Bool
  rates : List Rate

def zeroMac : Mac := ⟨0, 0, 0, 0, 0, 0⟩

def zeroLinkstates : Linkstates := ⟨zeroMac, 0, 0, 0, 0, 0, 0, 0, 0, 0, 0, 0, 0⟩

def zeroIw : DataIw := ⟨zeroMac, 0, 0, 0, 0, 0, 0, 0, 0, 0, 0, 0, 0, 0, 0⟩

/-- No link computed and no flow seen. -/
def zeroTables : Tables :=
  ⟨Vector.replicate 10 zeroIw,
    Vector.replicate 10 ⟨0, 0, 0, 0, 0, 0, 0, 0, 0, zeroMac, 0, zeroMac, 0⟩⟩

/-- `iw2linkstates` into the place at `head`, and `head` moved on. -/
def Links.put (ltmp : Links) (tmp : DataIw) : Except Fault Links := do
  let link ← save ltmp.link ltmp.head (iw2linkstates tmp)
  .ok { ltmp with
    link
    head := (ltmp.head + 1) % iwamount
    sec := tmp.sec
    samples := ltmp.samples ++ [iw2linkstates tmp]
    origin := ltmp.origin.set ltmp.head (some ltmp.samples.length) }

/-- A head that meets the tail clears the place there and moves the tail on. -/
def Links.giveUp (ltmp : Links) : Except Fault Links :=
  if ltmp.head = ltmp.tail then do
    let link ← save ltmp.link ltmp.tail zeroLinkstates
    .ok { ltmp with
      link
      tail := (ltmp.tail + 1) % iwamount
      origin := ltmp.origin.set ltmp.tail none }
  else .ok ltmp

/-- A sample of a station whose slot is known, and what the tail is at then. -/
def Links.sample (tmp : DataIw) (ltmp : Links) : Except Fault (Links × Linkstates) := do
  let ltmp ← ltmp.put tmp
  let ltmp ← ltmp.giveUp
  let lstmp ← load ltmp.link ltmp.tail
  .ok (ltmp, lstmp)

/-- `duration` between a sample and the tail of its slot, an `int`. -/
def duration (tmp : DataIw) (lstmp : Linkstates) : U32 :=
  (tmp.sec - lstmp.sec) * 1000 + (tmp.usec - lstmp.usec).sdiv 1000

/-- The time has come to compute rates. -/
def due (tmp : DataIw) (lstmp : Linkstates) : Bool := (100 : U32).sle (duration tmp lstmp)

def rate (new old duration : U32) : U32 := (scaled new old).sdiv duration

/-- The entry for `iwp`: rates over the time since `lstmp`. -/
def processed (tmp : DataIw) (lstmp : Linkstates) : DataIw :=
  let duration := duration tmp lstmp
  { zeroIw with
    station := tmp.station
    signal := tmp.signal
    signalAvg := tmp.signalAvg
    inactiveTime := tmp.inactiveTime
    expectedThroughput := tmp.expectedThroughput
    rxBytes := rate tmp.rxBytes lstmp.rxBytes duration
    rxPackets := rate tmp.rxPackets lstmp.rxPackets duration
    txBytes := rate tmp.txBytes lstmp.txBytes duration
    txPackets := rate tmp.txPackets lstmp.txPackets duration
    txRetries := rate tmp.txRetries lstmp.txRetries duration
    txFailed := rate tmp.txFailed lstmp.txFailed duration
    sec := tmp.sec }

/-- The loop that inserts goes on behind a free slot. -/
def IwProcessed.insert (tmp3 : DataIw) (iwp : IwProcessed) : IwProcessed where
  count := iwp.count + countWhere (fun tmp4 => tmp4.sec = 0) iwp.link
  link := fun i => if (iwp.link i).sec = 0 then tmp3 else iwp.link i

/-- The difference is unsigned, and empty slots are compared too. -/
def IwProcessed.expire (tmp3 : DataIw) (iwp : IwProcessed) : IwProcessed where
  count := iwp.count - countWhere (fun tmp4 => 2 < tmp3.sec - tmp4.sec) iwp.link
  link := fun i => if 2 < tmp3.sec - (iwp.link i).sec then zeroIw else iwp.link i

def IwProcessed.position (tmp3 : DataIw) (iwp : IwProcessed) : Option (Fin ten) :=
  Fin.find? fun i => (iwp.link i).station = tmp3.station

/-- The three loops over `iwp`. -/
def IwProcessed.record (tmp3 : DataIw) (iwp : IwProcessed) : IwProcessed :=
  match iwp.position tmp3 with
  | some i => { iwp with link := Function.update iwp.link i tmp3 }.expire tmp3
  | none => (iwp.insert tmp3).expire tmp3

/-- The loop over `linkinfo` that looks for the station. The loops over `iwp`
use its index, so a rate that is computed ends it. -/
def scanLinks (tmp : DataIw) : List (Fin ten) → State → Except Fault State
  | [], s => .ok s
  | i :: rest, s =>
    if tmp.station = (s.linkinfo i).station then do
      let (ltmp, lstmp) ← (s.linkinfo i).sample tmp
      let s := { s with linkinfo := Function.update s.linkinfo i ltmp, found1 := true }
      if due tmp lstmp then
        .ok { s with
          iwp := s.iwp.record (processed tmp lstmp)
          rates := s.rates ++ [⟨tmp, ltmp⟩] }
      else scanLinks tmp rest s
    else scanLinks tmp rest s

/-- Slots not refreshed for more than two seconds are free. -/
def expireLinks (tmp : DataIw) (s : State) : State :=
  { s with linkinfo := fun i =>
      if (2 : U32).slt (tmp.sec - (s.linkinfo i).sec) then { s.linkinfo i with sec := 0 }
      else s.linkinfo i }

/-- A new owner goes on in the ring it finds; here the tail is not wrapped. -/
def Links.takeOver (tmp : DataIw) (ltmp : Links) : Except Fault Links := do
  let put ← ltmp.put tmp
  .ok { put with
    tail := if put.tail = put.head then put.tail + 1 else put.tail
    station := tmp.station
    since := ltmp.samples.length }

def freeSlot (s : State) : Option (Fin ten) := Fin.find? fun i => (s.linkinfo i).sec = 0

def takeSlot (tmp : DataIw) (s : State) : Except Fault State :=
  match freeSlot s with
  | some i => do
    let ltmp ← (s.linkinfo i).takeOver tmp
    .ok { s with linkinfo := Function.update s.linkinfo i ltmp }
  | none => .ok s

def writeSurvey (sur : DataSurvey) (s : State) : State :=
  match s.lastSurvey.offer sur.sec sur.usec with
  | some lastSurvey => { s with lastSurvey, surveyRecords := s.surveyRecords ++ [sur] }
  | none => s

def writeIw (tmp : DataIw) (s : State) : State :=
  match s.lastIw.offer tmp.sec tmp.usec with
  | some lastIw => { s with lastIw, iwRecords := s.iwRecords ++ [tmp] }
  | none => s

/-- What `compare_and_iwlist` does up to its loop, and for one station of the
dump. `found1` is reset for each call, not for each station. -/
inductive Action where
  | call (sur : DataSurvey)
  | station (tmp : DataIw)

def exec (s : State) : Action → Except Fault State
  | .call sur => .ok { writeSurvey sur s with found1 := false }
  | .station tmp => do
    let s ← scanLinks tmp (List.finRange ten) (writeIw tmp s)
    let s := expireLinks tmp s
    if s.found1 then .ok s else takeSlot tmp s

def compareAndIwlist (ptr : List DataIw) (sur : DataSurvey) (s : State) : Except Fault State :=
  (Action.call sur :: ptr.map .station).foldlM exec s

/-- The known slot `ltmp` is given a rate by the sample. -/
def Links.computes (tmp : DataIw) (ltmp : Links) : Bool :=
  match ltmp.sample tmp with
  | .ok (_, lstmp) => due tmp lstmp
  | .error _ => false

/-- The slots among those listed that `scanLinks` takes a sample in. -/
def reached (tmp : DataIw) (linkinfo : Fin ten → Links) : List (Fin ten) → List (Fin ten)
  | [] => []
  | i :: rest =>
    if tmp.station = (linkinfo i).station then
      if (linkinfo i).computes tmp then [i] else i :: reached tmp linkinfo rest
    else reached tmp linkinfo rest

def touched (tmp : DataIw) (s : State) : List (Fin ten) :=
  reached tmp s.linkinfo (List.finRange ten)

def emptyLinks : Links where
  station := zeroMac
  link := List.replicate iwamount zeroLinkstates
  head := 0
  tail := 0
  sec := 0
  samples := []
  since := 0
  origin := List.replicate iwamount none

def loaded : State where
  linkinfo := fun _ => emptyLinks
  iwp := ⟨0, fun _ => zeroIw⟩
  lastSurvey := ⟨0, 0⟩
  lastIw := ⟨0, 0⟩
  surveyRecords := []
  iwRecords := []
  found1 := false
  rates := []

/-- Calls with any dumps and any times, taken station by station. -/
def machine : Machine State Action Fault := ⟨loaded, fun _ _ => True, exec⟩

instance (s : State) (a : Action) : Decidable (machine.enabled s a) :=
  inferInstanceAs (Decidable True)

end ApTelemetry.Sendudp.IwList
