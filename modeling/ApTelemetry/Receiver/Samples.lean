import Mathlib.Algebra.GroupWithZero.Nat
import ApTelemetry.Lib.Fifo
import ApTelemetry.Lib.Machine
import ApTelemetry.Structs

namespace ApTelemetry.Receiver.Samples
open Lib

/-- A `float` made from an integer: 24 significant bits, ties to even. -/
def toFloat (z : Int) : Int :=
  let n := z.natAbs
  let ulp := 2 ^ (n.log2 - 23)
  let q := n / ulp
  let r := n % ulp
  z.sign * ((if ulp < 2 * r ∨ ulp = 2 * r ∧ q % 2 = 1 then q + 1 else q) * ulp : Nat)

/-- The local variables of one turn of `format_data`. -/
structure Locals where
  d1 : U32
  d2 : U32
  duration : Int

/-- The sections of `format_data` that look at a list. -/
inductive Section where
  | queue3
  | queueF
  | survey
  deriving DecidableEq

/-- What an item is computed from. -/
structure Measured (α : Type) where
  new : α
  last : α
  duration : Int

/-- The three lists and the thread that runs `format_data`. `appended` are the
histories of samples, which nothing reads. -/
structure Lists where
  queueList3 : Lib.Fifo DataQueue
  queueListF : Lib.Fifo DataQueue
  surveyList : Lib.Fifo DataSurvey
  next : Section
  locals : Locals
  newitemQueue3 : List (Measured DataQueue)
  newitemQueueF : List (Measured DataQueue)
  newitemSurvey : List (Measured DataSurvey)
  appended3 : List DataQueue
  appendedF : List DataQueue
  appendedSurvey : List DataSurvey

inductive Action where
  | decodeQueue (block : Addr) (rdata : DataQueue)
  | decodeSurvey (block : Addr) (rdata : DataSurvey)
  | formatData

/-- The append of `decode_queue`, after its fields were swapped. -/
def decodeQueue (block : Addr) (rdata : DataQueue) (s : Lists) : Except Fault Lists :=
  if rdata.queueId = 3 then do
    let queueList3 ← s.queueList3.append block rdata
    .ok { s with queueList3, appended3 := s.appended3 ++ [rdata] }
  else if rdata.queueId = 4294967295 then do
    let queueListF ← s.queueListF.append block rdata
    .ok { s with queueListF, appendedF := s.appendedF ++ [rdata] }
  else .ok s

def decodeSurvey (block : Addr) (rdata : DataSurvey) (s : Lists) : Except Fault Lists := do
  let surveyList ← s.surveyList.append block rdata
  .ok { s with surveyList, appendedSurvey := s.appendedSurvey ++ [rdata] }

/-- `(float)(d1 * 1000 + d2 / 1000)`, in `int` arithmetic. -/
def milliseconds (d1 d2 : U32) : Int := toFloat (d1 * 1000 + d2.sdiv 1000).toInt

/-- The duration between the two ends of a queue list. `queue` is the first
member of its node, so its address is NULL when the list is. -/
def measureQueue (q : Lib.Fifo DataQueue) (l : Locals) : Except Fault Locals :=
  if q.last ≠ none ∧ q.first ≠ none then do
    let last ← q.heap.read q.last
    let new ← q.heap.read q.first
    let d1 := last.item.sec - new.item.sec
    let d2 := last.item.usec - new.item.usec
    .ok ⟨d1, d2, milliseconds d1 d2⟩
  else .ok l

def measureSurvey (q : Lib.Fifo DataSurvey) (l : Locals) : Except Fault Locals :=
  if q.last ≠ none ∧ q.first ≠ none then do
    let last ← q.heap.read q.last
    let new ← q.heap.read q.first
    .ok { l with duration := toFloat (last.item.time - new.item.time).toNat }
  else .ok l

/-- An item is computed from both ends, and the first node is released, when
they are far enough apart. -/
def dropMeasured {α : Type} (q : Lib.Fifo α) (duration : Int) :
    Except Fault (Lib.Fifo α × Option (Measured α)) :=
  if 900 ≤ duration then do
    let last ← q.heap.read q.last
    let new ← q.heap.read q.first
    let q ← q.dropFirst
    .ok (q, some ⟨new.item, last.item, duration⟩)
  else .ok (q, none)

def queue3Section (s : Lists) : Except Fault Lists := do
  let locals ← measureQueue s.queueList3 ⟨0, 0, 0⟩
  let (queueList3, newitem) ← dropMeasured s.queueList3 locals.duration
  .ok { s with
    queueList3, locals, next := .queueF, newitemQueue3 := s.newitemQueue3 ++ newitem.toList }

/-- The duration is computed a second time, whether or not there are samples. -/
def queueFSection (s : Lists) : Except Fault Lists := do
  let l ← measureQueue s.queueListF s.locals
  let locals := { l with duration := milliseconds l.d1 l.d2 }
  let (queueListF, newitem) ← dropMeasured s.queueListF locals.duration
  .ok { s with
    queueListF, locals, next := .survey, newitemQueueF := s.newitemQueueF ++ newitem.toList }

def surveySection (s : Lists) : Except Fault Lists := do
  let locals ← measureSurvey s.surveyList s.locals
  let (surveyList, newitem) ← dropMeasured s.surveyList locals.duration
  .ok { s with
    surveyList, locals, next := .queue3, newitemSurvey := s.newitemSurvey ++ newitem.toList }

def formatData (s : Lists) : Except Fault Lists :=
  match s.next with
  | .queue3 => queue3Section s
  | .queueF => queueFSection s
  | .survey => surveySection s

def exec (s : Lists) : Action → Except Fault Lists
  | .decodeQueue block rdata => decodeQueue block rdata s
  | .decodeSurvey block rdata => decodeSurvey block rdata s
  | .formatData => formatData s

/-- `malloc` returns a block that is on no list. -/
def enabled (s : Lists) : Action → Prop
  | .decodeQueue block _ =>
    s.queueList3.heap.lookup block = none ∧ s.queueListF.heap.lookup block = none
  | .decodeSurvey block _ => s.surveyList.heap.lookup block = none
  | .formatData => True

def machine (s : Lists) : Machine Lists Action Fault := ⟨s, enabled, exec⟩

/-- A list of samples that can be read and appended to: it holds the newest
samples of its history, at least one, and `last` is the newest. -/
def Queued {α : Type} (q : Lib.Fifo α) (appended : List α) : Prop :=
  ∃ nodes, q.Holds nodes ∧ nodes ≠ [] ∧ nodes.map Prod.snd <:+ appended

structure Safe (s : Lists) : Prop where
  queue3 : Queued s.queueList3 s.appended3
  queueF : Queued s.queueListF s.appendedF
  survey : Queued s.surveyList s.appendedSurvey

section Queue

variable {α : Type} {q : Lib.Fifo α} {appended : List α}

theorem Queued.append (h : Queued q appended) {block : Addr} (x : α)
    (fresh : q.heap.lookup block = none) :
    ∃ q', q.append block x = .ok q' ∧ Queued q' (appended ++ [x]) := by
  obtain ⟨nodes, hholds, _, before, hsuffix⟩ := h
  obtain ⟨q', hrun, hholds'⟩ := hholds.append x fresh
  refine ⟨q', hrun, nodes ++ [(block, x)], hholds', by simp, before, ?_⟩
  rw [List.map_append, ← List.append_assoc, hsuffix]
  rfl

/-- Both ends can be read. -/
theorem Queued.ends (h : Queued q appended) : ∃ new last,
    q.first ≠ none ∧ q.last ≠ none ∧ q.heap.read q.first = .ok new ∧
      q.heap.read q.last = .ok last := by
  obtain ⟨nodes, hholds, hne, _⟩ := h
  obtain ⟨f, new, l, last, hf, hnew, hl, hlast⟩ := hholds.ends hne
  refine ⟨new, last, by simp [hf], by simp [hl], ?_, ?_⟩
  · rw [hf]
    exact Heap.read_of_lookup hnew
  · rw [hl]
    exact Heap.read_of_lookup hlast

/-- The head goes only when the duration is not zero, so it is not the last node. -/
theorem Queued.drop_measured (h : Queued q appended) {duration : Int}
    (hsame : q.first = q.last → duration = 0) :
    ∃ q' newitem, dropMeasured q duration = .ok (q', newitem) ∧ Queued q' appended := by
  by_cases hfar : 900 ≤ duration
  · have hdiffer : q.first ≠ q.last := by
      intro heq
      have := hsame heq
      omega
    obtain ⟨new, last, _, _, hnew, hlast⟩ := h.ends
    obtain ⟨nodes, hholds, _, hsuffix⟩ := h
    obtain ⟨n, m, rest, rfl⟩ := hholds.two hdiffer
    obtain ⟨q', hdrop, hholds'⟩ := hholds.drop_first
    refine ⟨q', some ⟨new.item, last.item, duration⟩, ?_, m :: rest, hholds', by simp, ?_⟩
    · simp only [dropMeasured, if_pos hfar, hnew, hlast, hdrop, bind, Except.bind]
    · exact (List.suffix_cons n.2 _).trans hsuffix
  · exact ⟨q, none, if_neg hfar, h⟩

end Queue

theorem milliseconds_zero : milliseconds 0 0 = 0 := by
  simp [milliseconds, toFloat]

/-- From a list of one node no time has passed, whatever its clock says. -/
theorem Queued.measure_queue {q : Lib.Fifo DataQueue} {appended : List DataQueue}
    (h : Queued q appended) (l : Locals) : ∃ l', measureQueue q l = .ok l' ∧
      l'.duration = milliseconds l'.d1 l'.d2 ∧ (q.first = q.last → l'.duration = 0) := by
  obtain ⟨new, last, hf, hl, hnew, hlast⟩ := h.ends
  refine ⟨⟨last.item.sec - new.item.sec, last.item.usec - new.item.usec,
    milliseconds (last.item.sec - new.item.sec) (last.item.usec - new.item.usec)⟩, ?_, rfl, ?_⟩
  · simp only [measureQueue, if_pos (And.intro hl hf), hnew, hlast, bind, Except.bind]
  · intro heq
    obtain rfl : new = last := by
      rw [heq, hlast] at hnew
      exact (Except.ok.inj hnew).symm
    simp only [BitVec.sub_self]
    exact milliseconds_zero

theorem Queued.measure_survey {q : Lib.Fifo DataSurvey} {appended : List DataSurvey}
    (h : Queued q appended) (l : Locals) : ∃ l', measureSurvey q l = .ok l' ∧
      (q.first = q.last → l'.duration = 0) := by
  obtain ⟨new, last, hf, hl, hnew, hlast⟩ := h.ends
  refine ⟨{ l with duration := toFloat (last.item.time - new.item.time).toNat }, ?_, ?_⟩
  · simp only [measureSurvey, if_pos (And.intro hl hf), hnew, hlast, bind, Except.bind]
  · intro heq
    obtain rfl : new = last := by
      rw [heq, hlast] at hnew
      exact (Except.ok.inj hnew).symm
    simp [toFloat]

namespace Safe

variable {s : Lists}

theorem decode_queue (h : Safe s) {block : Addr} (rdata : DataQueue)
    (hen : enabled s (.decodeQueue block rdata)) :
    ∃ t, decodeQueue block rdata s = .ok t ∧ Safe t := by
  unfold decodeQueue
  split
  · obtain ⟨q, hrun, hq⟩ := h.queue3.append rdata hen.1
    rw [hrun]
    exact ⟨_, rfl, hq, h.queueF, h.survey⟩
  · split
    · obtain ⟨q, hrun, hq⟩ := h.queueF.append rdata hen.2
      rw [hrun]
      exact ⟨_, rfl, h.queue3, hq, h.survey⟩
    · exact ⟨s, rfl, h⟩

theorem decode_survey (h : Safe s) {block : Addr} (rdata : DataSurvey)
    (hen : enabled s (.decodeSurvey block rdata)) :
    ∃ t, decodeSurvey block rdata s = .ok t ∧ Safe t := by
  obtain ⟨q, hrun, hq⟩ := h.survey.append rdata hen
  rw [decodeSurvey, hrun]
  exact ⟨_, rfl, h.queue3, h.queueF, hq⟩

theorem queue_3_section (h : Safe s) : ∃ t, queue3Section s = .ok t ∧ Safe t := by
  obtain ⟨l, hl, _, hsame⟩ := h.queue3.measure_queue ⟨0, 0, 0⟩
  obtain ⟨q, newitem, hrun, hq⟩ := h.queue3.drop_measured hsame
  simp only [queue3Section, hl, hrun, bind, Except.bind]
  exact ⟨_, rfl, hq, h.queueF, h.survey⟩

theorem queue_f_section (h : Safe s) : ∃ t, queueFSection s = .ok t ∧ Safe t := by
  obtain ⟨l, hl, hduration, hsame⟩ := h.queueF.measure_queue s.locals
  rw [hduration] at hsame
  obtain ⟨q, newitem, hrun, hq⟩ := h.queueF.drop_measured hsame
  simp only [queueFSection, hl, hrun, bind, Except.bind]
  exact ⟨_, rfl, h.queue3, hq, h.survey⟩

theorem survey_section (h : Safe s) : ∃ t, surveySection s = .ok t ∧ Safe t := by
  obtain ⟨l, hl, hsame⟩ := h.survey.measure_survey s.locals
  obtain ⟨q, newitem, hrun, hq⟩ := h.survey.drop_measured hsame
  simp only [surveySection, hl, hrun, bind, Except.bind]
  exact ⟨_, rfl, h.queue3, h.queueF, hq⟩

theorem format_data (h : Safe s) : ∃ t, formatData s = .ok t ∧ Safe t := by
  unfold formatData
  cases s.next with
  | queue3 => exact h.queue_3_section
  | queueF => exact h.queue_f_section
  | survey => exact h.survey_section

end Safe

theorem inductive_safe {s : Lists} (h : Safe s) : (machine s).Inductive Safe where
  start := h
  step := by
    intro s a hs ha
    cases a with
    | decodeQueue block rdata => exact hs.decode_queue rdata ha
    | decodeSurvey block rdata => exact hs.decode_survey rdata ha
    | formatData => exact hs.format_data

/-- From lists that are not empty the decoders and `format_data` never empty one,
and never follow a pointer to a node that is gone. -/
theorem samples_fifo {start : Lists} (h : Safe start) {s : Lists}
    (hr : (machine start).Reachable s) :
    Safe s ∧ ∀ a, enabled s a → ∃ t, exec s a = .ok t :=
  ⟨(inductive_safe h).reachable hr, (inductive_safe h).runs hr⟩

/-- One sample each, and nothing formatted yet. -/
def oneEach (queue3 queueF : DataQueue) (survey : DataSurvey) : Lists where
  queueList3 := ⟨AList.singleton 1 ⟨queue3, none⟩, some 1, some 1⟩
  queueListF := ⟨AList.singleton 2 ⟨queueF, none⟩, some 2, some 2⟩
  surveyList := ⟨AList.singleton 3 ⟨survey, none⟩, some 3, some 3⟩
  next := .queue3
  locals := ⟨0, 0, 0⟩
  newitemQueue3 := []
  newitemQueueF := []
  newitemSurvey := []
  appended3 := [queue3]
  appendedF := [queueF]
  appendedSurvey := [survey]

theorem safe_one_each (queue3 queueF : DataQueue) (survey : DataSurvey) :
    Safe (oneEach queue3 queueF survey) :=
  ⟨⟨[(1, queue3)], ⟨.cons rfl (.nil none), rfl⟩, by simp, List.suffix_rfl⟩,
    ⟨[(2, queueF)], ⟨.cons rfl (.nil none), rfl⟩, by simp, List.suffix_rfl⟩,
    ⟨[(3, survey)], ⟨.cons rfl (.nil none), rfl⟩, by simp, List.suffix_rfl⟩⟩

def queueSample (queueId sec : U32) : DataQueue := ⟨queueId, 0, 0, sec, 0, 0, 0, 0, 0, 0, 0⟩

def surveySample (time : U64) : DataSurvey := ⟨time, 0, 0, 0, 0, 0, 0, 0, 0, 0, 0, 0⟩

/-- A second sample arrives, and the first is dropped. -/
theorem samples_fifo_one_dropped : ∃ s, s.queueList3.first = some 4 ∧ Safe s ∧
    ∀ a, enabled s a → ∃ t, exec s a = .ok t := by
  have hstart := safe_one_each (queueSample 3 1) (queueSample 4294967295 1) (surveySample 1)
  refine ⟨_, ?_, samples_fifo hstart
    (.step .formatData (.step (.decodeQueue 4 (queueSample 3 2)) .start ⟨rfl, rfl⟩ rfl)
      trivial rfl)⟩
  rfl

end ApTelemetry.Receiver.Samples
