import ApTelemetry.Lib.Buffer
import ApTelemetry.Lib.Machine
import ApTelemetry.Lib.Ring
import ApTelemetry.Structs

namespace ApTelemetry.Sendudp
open Lib

/-- `APSL`, the length of `apstates_global`. -/
def apsl : Nat := 250

/-- A slot of `apstates_global` and what it held when a tick was done with it. -/
structure Sample where
  slot : Nat
  state : Apstates
  deriving DecidableEq

/-- The state history shared by `get_information` and `recv_cb`. `samples` is the
history of the slots completed; nothing reads it. -/
structure ApsRing where
  apstatesGlobal : List Apstates
  apsHead : Nat
  apsTail : Nat
  queuePrevious : List DataQueue
  queueRecords : List DataQueue
  samples : List Sample

/-- What one tick finds: the survey if there are stations, the number of
neighbours if the beacon list was processed, and the six queues. -/
structure Tick where
  survey : Option DataSurvey
  neibours : Option U8
  queueGlobal : List DataQueue

def recordSurvey (survey : Option DataSurvey) (tmp : Apstates) : Apstates :=
  match survey with
  | none => tmp
  | some linger => { tmp with
      time := linger.time
      timeBusy := linger.timeBusy
      timeRx := linger.timeRx
      timeTx := linger.timeTx
      noise := linger.noise
      sec := linger.sec
      usec := linger.usec }

def recordNeibours (count : Option U8) (apstmp : Apstates) : Apstates :=
  match count with
  | none => apstmp
  | some neibours => { apstmp with neibours }

/-- Queue 3 and the root queue have fields of their own. -/
def recordQueue (tmp : DataQueue) (xx : Apstates) : Apstates :=
  if tmp.queueId = 4294967295 then
    { xx with
      qfpackets := tmp.packets
      qfbytes := tmp.bytes
      qfqlen := tmp.qlen
      qfbacklog := tmp.backlog
      qfdrops := tmp.drops
      qfrequeues := tmp.requeues }
  else if tmp.queueId = 3 then
    { xx with
      q3packets := tmp.packets
      q3bytes := tmp.bytes
      q3qlen := tmp.qlen
      q3backlog := tmp.backlog
      q3drops := tmp.drops
      q3requeues := tmp.requeues }
  else xx

/-- The queues as last seen, the sample, and the records to transmit. A queue
whose byte counter has not moved is passed over. -/
def compareAndQueue : List DataQueue → List DataQueue → Apstates →
    List DataQueue × Apstates × List DataQueue
  | tmp :: queues, pre :: previous, xx =>
    if tmp.bytes = pre.bytes then
      let (previous, xx, records) := compareAndQueue queues previous xx
      (pre :: previous, xx, records)
    else
      let (previous, xx, records) := compareAndQueue queues previous (recordQueue tmp xx)
      (tmp :: previous, xx, { tmp with pad := 0 } :: records)
  | _, previous, xx => (previous, xx, [])

/-- A head that meets the tail pushes it on. -/
def pushTail (apsHead apsTail : Nat) : Nat :=
  if apsHead = apsTail then (apsTail + 1) % apsl else apsTail

def advance (s : ApsRing) : ApsRing :=
  let apsHead := (s.apsHead + 1) % apsl
  { s with apsHead, apsTail := pushTail apsHead s.apsTail }

/-- What `get_information` does to the state history. -/
def getInformation (s : ApsRing) (tick : Tick) : Except Fault ApsRing := do
  let tmp ← load s.apstatesGlobal s.apsHead
  let (queuePrevious, xx, records) := compareAndQueue tick.queueGlobal s.queuePrevious
    (recordNeibours tick.neibours (recordSurvey tick.survey tmp))
  let apstatesGlobal ← save s.apstatesGlobal s.apsHead xx
  .ok (advance { s with
    apstatesGlobal
    queuePrevious
    queueRecords := s.queueRecords ++ records
    samples := s.samples ++ [⟨s.apsHead, xx⟩] })

def zeroApstates : Apstates :=
  ⟨0, 0, 0, 0, 0, 0, 0, 0, 0, 0, 0, 0, 0, 0, 0, 0, 0, 0, 0, 0, 0, 0, 0, 0⟩

def zeroQueue : DataQueue := ⟨0, 0, 0, 0, 0, 0, 0, 0, 0, 0, 0⟩

/-- The globals of the module as it is loaded. -/
def loaded : ApsRing where
  apstatesGlobal := List.replicate apsl zeroApstates
  apsHead := 0
  apsTail := 0
  queuePrevious := List.replicate 6 zeroQueue
  queueRecords := []
  samples := []

/-- How many samples are given up after `n` ticks. -/
def givenUp (n : Nat) : Nat := n - min n 249

def sampleAt (buf : List Apstates) (slot : Nat) : Option Sample := buf[slot]?.map (Sample.mk slot)

/-- The history after the ticks `done`. -/
structure RingInvariant (done : List Tick) (s : ApsRing) : Prop where
  size : s.apstatesGlobal.length = apsl
  count : s.samples.length = done.length
  cursors : Cursors apsl (givenUp done.length) done.length s.apsTail s.apsHead
  held : Stored apsl (sampleAt s.apstatesGlobal) (s.samples.map some) (givenUp done.length)

theorem loaded_invariant : RingInvariant [] loaded :=
  ⟨List.length_replicate, rfl, .start (by decide), .nil _ _⟩

theorem room (n : Nat) : n < givenUp n + apsl := dropped_room 249 n

theorem push_cursors {n head tail : Nat} (h : Cursors apsl (givenUp n) n tail head) :
    Cursors apsl (givenUp (n + 1)) (n + 1) (pushTail ((head + 1) % apsl) tail)
      ((head + 1) % apsl) :=
  Cursors.push h (by decide)

/-- A tick, given what the queues come to. -/
theorem get_information_out {s : ApsRing} {tick : Tick} {queuePrevious records : List DataQueue}
    {xx : Apstates} (hlt : s.apsHead < s.apstatesGlobal.length)
    (hout : compareAndQueue tick.queueGlobal s.queuePrevious
      (recordNeibours tick.neibours (recordSurvey tick.survey s.apstatesGlobal[s.apsHead])) =
        (queuePrevious, xx, records)) :
    getInformation s tick = .ok (advance { s with
      apstatesGlobal := s.apstatesGlobal.set s.apsHead xx
      queuePrevious
      queueRecords := s.queueRecords ++ records
      samples := s.samples ++ [⟨s.apsHead, xx⟩] }) := by
  simp only [getInformation, load_lt hlt, hout, save_lt hlt, bind, Except.bind]

theorem get_information_runs {s : ApsRing} (tick : Tick)
    (hlt : s.apsHead < s.apstatesGlobal.length) : ∃ queuePrevious xx records,
    getInformation s tick = .ok (advance { s with
      apstatesGlobal := s.apstatesGlobal.set s.apsHead xx
      queuePrevious
      queueRecords := s.queueRecords ++ records
      samples := s.samples ++ [⟨s.apsHead, xx⟩] }) :=
  ⟨_, _, _, get_information_out hlt rfl⟩

/-- One tick completes the slot at the head and keeps every other slot. -/
theorem get_information_step (done : List Tick) (s : ApsRing) (tick : Tick)
    (h : RingInvariant done s) :
    ∃ t, getInformation s tick = .ok t ∧ RingInvariant (done ++ [tick]) t := by
  have hlt : s.apsHead < s.apstatesGlobal.length := h.size.symm ▸ h.cursors.next_lt
  have hlen : (s.samples.map some).length = done.length := by rw [List.length_map, h.count]
  obtain ⟨queuePrevious, xx, records, hrun⟩ := get_information_runs tick hlt
  refine ⟨_, hrun, ?_⟩
  have hheld : Stored apsl (sampleAt (s.apstatesGlobal.set s.apsHead xx))
      (s.samples.map some ++ [some ⟨s.apsHead, xx⟩]) (givenUp done.length) := by
    refine h.held.put _ (hlen ▸ room done.length) ?_ ?_
    · rw [hlen, ← h.cursors.next]
      simp [sampleAt, hlt]
    · intro i _ hne
      rw [hlen, ← h.cursors.next] at hne
      simp [sampleAt, List.getElem?_set_ne (Ne.symm hne)]
  refine ⟨?_, ?_, ?_, ?_⟩
  · simpa [advance] using h.size
  · simpa [advance] using h.count
  · simpa [advance] using push_cursors h.cursors
  · rw [List.length_append]
    have hle : givenUp done.length ≤ givenUp (done.length + 1) := by
      simp only [givenUp]
      omega
    have hmono := hheld.mono hle
    simpa [advance] using hmono

/-- Any number of ticks runs through. -/
theorem get_information_run (ticks : List Tick) :
    ∃ s, ticks.foldlM getInformation loaded = .ok s ∧ RingInvariant ticks s :=
  foldlM_invariant RingInvariant get_information_step [] loaded_invariant ticks

/-- The globals after `ticks`. -/
def ringAfter (ticks : List Tick) : ApsRing :=
  match ticks.foldlM getInformation loaded with
  | .ok s => s
  | .error _ => loaded

theorem ring_after_invariant (ticks : List Tick) : RingInvariant ticks (ringAfter ticks) := by
  obtain ⟨s, hrun, hinv⟩ := get_information_run ticks
  rwa [ringAfter, hrun]

end ApTelemetry.Sendudp
