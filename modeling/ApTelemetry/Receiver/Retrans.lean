import ApTelemetry.Receiver.Flows

namespace ApTelemetry.Receiver.Flows
open Lib

variable {seqlist : Nat}

/-- The sequence numbers recorded for a flow, with the time each was last seen. -/
abbrev Recorded := U32 → Option Time

/-- A list of sequence numbers that holds what is recorded, as far as the two
markers of unused entries allow. -/
structure Tracks (seqList : Fin seqlist → SeqInfo) (recorded : Recorded) : Prop where
  exact : ∀ q, q ≠ 0 → q ≠ -1 → ∀ time,
    recorded q = some time ↔ ∃ i, seqList i = ⟨q, time.sec, time.usec⟩
  once : ∀ i j, (seqList i).seq = (seqList j).seq → ¬ (seqList i).Unused → i = j

section Search

variable {ptr : DataWinsize} {x : Search seqlist}

theorem Search.hit_seq_list (i : Fin seqlist) : (x.hit ptr i).seqList =
    Function.update x.seqList i ⟨(x.seqList i).seq, ptr.sec, ptr.usec⟩ := rfl

theorem foldl_step_same (l : List (Fin seqlist))
    (h : ∀ i ∈ l, (x.seqList i).seq = ptr.sequence → (x.seqList i).seq = -1) :
    l.foldl (Search.step ptr) x = x := by
  induction l with
  | nil => rfl
  | cons i l ih =>
    have hstep : Search.step ptr x i = x := by
      have := h i (by simp)
      unfold Search.step
      split
      · rfl
      · split
        · exact absurd (this (by assumption)) (by assumption)
        · rfl
    rw [List.foldl_cons, hstep]
    exact ih fun j hj => h j (by simp [hj])

theorem search_missing
    (h : ∀ i, (x.seqList i).seq = ptr.sequence → (x.seqList i).seq = -1) :
    searchSequence ptr x = x :=
  foldl_step_same _ fun i _ => h i

/-- A sequence number that is there once is found once. -/
theorem search_found {i : Fin seqlist} (hi : (x.seqList i).seq = ptr.sequence)
    (hne : ptr.sequence ≠ -1) (hother : ∀ j, (x.seqList j).seq = ptr.sequence → j = i) :
    searchSequence ptr x = x.hit ptr i := by
  obtain ⟨before, behind, hsplit⟩ := List.append_of_mem (List.mem_finRange i)
  have hnodup := List.nodup_finRange seqlist
  rw [hsplit, List.nodup_append, List.nodup_cons] at hnodup
  have hstep : Search.step ptr x i = x.hit ptr i := by
    rw [Search.step, if_neg (hi ▸ hne), if_pos hi]
  rw [searchSequence, hsplit, List.foldl_append, List.foldl_cons, foldl_step_same before, hstep,
    foldl_step_same behind]
  · intro j hj hseq
    have hji : j ≠ i := fun he => hnodup.2.1.1 (he ▸ hj)
    rw [Search.hit_seq_list, Function.update_of_ne hji] at hseq
    exact absurd (hother j hseq) hji
  · intro j hj hseq
    obtain rfl := hother j hseq
    exact absurd rfl (hnodup.2.2 j hj j (by simp))

theorem step_seq (x : Search seqlist) (i j : Fin seqlist) :
    ((Search.step ptr x i).seqList j).seq = (x.seqList j).seq := by
  unfold Search.step
  split
  · rfl
  · split
    · rw [Search.hit_seq_list]
      by_cases hj : j = i
      · rw [hj, Function.update_self]
      · rw [Function.update_of_ne hj]
    · rfl

/-- The loop counts every entry with the number that is not marked as unused by `-1`. -/
theorem foldl_step_count (l : List (Fin seqlist)) (x : Search seqlist) :
    (l.foldl (Search.step ptr) x).countRetrans = x.countRetrans + BitVec.ofNat 32
      (l.countP fun i => (x.seqList i).seq ≠ -1 ∧ (x.seqList i).seq = ptr.sequence) := by
  induction l generalizing x with
  | nil => simp
  | cons i l ih =>
    rw [List.foldl_cons, ih, List.countP_cons]
    simp only [step_seq]
    have hcount : (Search.step ptr x i).countRetrans = x.countRetrans + BitVec.ofNat 32
        (if (x.seqList i).seq ≠ -1 ∧ (x.seqList i).seq = ptr.sequence then 1 else 0) := by
      unfold Search.step
      split
      · rename_i hmarker
        simp [hmarker]
      · rename_i hused
        split
        · rename_i hseq
          rw [if_pos ⟨hused, hseq⟩]
          rfl
        · rename_i hseq
          rw [if_neg fun h => hseq h.2]
          simp
    rw [hcount, BitVec.add_assoc, ← BitVec.ofNat_add, Nat.add_comm]
    simp only [decide_eq_true_eq]

end Search

namespace Tracks

variable {seqList : Fin seqlist → SeqInfo} {recorded : Recorded}

theorem unused (h : ∀ i, (seqList i).Unused) : Tracks seqList fun _ => none where
  exact := by
    intro q h0 h1 time
    constructor
    · intro he
      cases he
    · rintro ⟨i, hi⟩
      have := h i
      rw [hi] at this
      exact absurd this (not_or.mpr ⟨h0, h1⟩)
  once := fun i _ _ hused => absurd (h i) hused

section Write

variable {i : Fin seqlist} {q : U32} (time : Time)

/-- A number that is used nowhere else is found only where it was written. -/
theorem written_only (hother : ∀ j, (seqList j).seq = q → (seqList j).Unused ∨ j = i)
    {j : Fin seqlist} (hseq : (Function.update seqList i ⟨q, time.sec, time.usec⟩ j).seq = q)
    (hused : ¬ (Function.update seqList i ⟨q, time.sec, time.usec⟩ j).Unused) : j = i := by
  by_contra hji
  rw [Function.update_of_ne hji] at hseq hused
  cases hother j hseq with
  | inl hunused => exact hused hunused
  | inr he => exact hji he

/-- The entry of another number is not written over. -/
theorem written_other (hi : (seqList i).seq = q ∨ (seqList i).Unused) {q' : U32} (hq : q' ≠ q)
    (h0 : q' ≠ 0) (h1 : q' ≠ -1) (j : Fin seqlist) (time' : Time) :
    seqList j = ⟨q', time'.sec, time'.usec⟩ ↔
      Function.update seqList i ⟨q, time.sec, time.usec⟩ j = ⟨q', time'.sec, time'.usec⟩ := by
  by_cases hji : j = i
  · subst hji
    rw [Function.update_self]
    refine iff_of_false ?_ fun he => hq (congrArg SeqInfo.seq he).symm
    intro hj
    have hseq : (seqList j).seq = q' := by rw [hj]
    cases hi with
    | inl he => exact hq (hseq.symm.trans he)
    | inr hunused =>
      rw [SeqInfo.Unused, hseq] at hunused
      exact not_or.mpr ⟨h0, h1⟩ hunused
  · rw [Function.update_of_ne hji]

end Write

/-- A number is written over itself or into an unused entry. -/
theorem write (h : Tracks seqList recorded) {i : Fin seqlist} {q : U32}
    (hi : (seqList i).seq = q ∨ (seqList i).Unused)
    (hother : ∀ j, (seqList j).seq = q → (seqList j).Unused ∨ j = i) (time : Time) :
    Tracks (Function.update seqList i ⟨q, time.sec, time.usec⟩)
      (Function.update recorded q (some time)) where
  exact := by
    intro q' h0 h1 time'
    by_cases hq : q' = q
    · subst hq
      rw [Function.update_self]
      constructor
      · intro he
        obtain rfl := Option.some.inj he
        exact ⟨i, Function.update_self ..⟩
      · rintro ⟨j, hj⟩
        obtain rfl : j = i := by
          refine written_only time hother (by rw [hj]) ?_
          rw [SeqInfo.Unused, hj]
          exact not_or.mpr ⟨h0, h1⟩
        rw [Function.update_self] at hj
        cases time
        cases time'
        simpa using hj
    · rw [Function.update_of_ne hq, h.exact q' h0 h1]
      exact exists_congr fun j => written_other time hi hq h0 h1 j time'
  once := by
    intro j k hjk hused
    have hused' : ¬ (Function.update seqList i ⟨q, time.sec, time.usec⟩ k).Unused := by
      rwa [SeqInfo.Unused, ← hjk]
    by_cases hj : j = i
    · have hq : (Function.update seqList i ⟨q, time.sec, time.usec⟩ j).seq = q := by
        rw [hj, Function.update_self]
      exact hj.trans (written_only time hother (hjk.symm.trans hq) hused').symm
    · by_cases hk : k = i
      · have hq : (Function.update seqList i ⟨q, time.sec, time.usec⟩ k).seq = q := by
          rw [hk, Function.update_self]
        exact absurd (written_only time hother (hjk.trans hq) hused) hj
      · rw [Function.update_of_ne hj] at hjk hused
        rw [Function.update_of_ne hk] at hjk
        exact h.once j k hjk hused

/-- The first number of a flow, in an entry that is unused behind its first place. -/
theorem first [NeZero seqlist] (h : ∀ i, i ≠ 0 → (seqList i).Unused) (q : U32) (time : Time) :
    Tracks (Function.update seqList 0 ⟨q, time.sec, time.usec⟩)
      (Function.update (fun _ => none) q (some time)) := by
  have hall : ∀ i, (Function.update seqList 0 ⟨0, 0, 0⟩ i).Unused := by
    intro i
    by_cases hi : i = 0
    · rw [hi, Function.update_self]
      exact .inl rfl
    · rw [Function.update_of_ne hi]
      exact h i hi
  have hwrite :=
    (unused hall).write (i := 0) (q := q) (.inr (hall 0)) (fun j _ => .inl (hall j)) time
  rwa [Function.update_idem] at hwrite

theorem acknowledge (h : Tracks seqList recorded) (ptr : DataWinsize) :
    Tracks (fun i => if (seqList i).Acknowledged ptr then ⟨0, 0, 0⟩ else seqList i)
      fun q => (recorded q).filter fun time =>
        ¬ (⟨q, time.sec, time.usec⟩ : SeqInfo).Acknowledged ptr where
  exact := by
    intro q h0 h1 time
    rw [Option.filter_eq_some_iff, h.exact q h0 h1]
    constructor
    · rintro ⟨⟨i, hi⟩, hkept⟩
      refine ⟨i, ?_⟩
      rw [hi, if_neg (by simpa using hkept)]
    · rintro ⟨i, hi⟩
      split at hi
      · exact absurd (congrArg SeqInfo.seq hi).symm h0
      · rename_i hkept
        exact ⟨⟨i, hi⟩, by simpa [← hi] using hkept⟩
  once := by
    intro i j hij hused
    by_cases hi : (seqList i).Acknowledged ptr
    · simp [hi, SeqInfo.Unused] at hused
    · simp only [if_neg hi] at hused hij
      split at hij
      · exact absurd (.inl hij) hused
      · exact h.once i j hij hused

end Tracks

def WinsizeRecord.HasRoom (tmp : WinsizeRecord seqlist) : Prop := ∃ i, (tmp.seqList i).Unused

instance (tmp : WinsizeRecord seqlist) : Decidable tmp.HasRoom :=
  inferInstanceAs (Decidable (∃ i, (tmp.seqList i).Unused))

/-- The receiver with what is recorded for each entry of `flow_seq_list` since
the entry was taken. Nothing of the code reads `recorded`. -/
structure Run (seqlist : Nat) where
  flows : State seqlist
  recorded : Fin seqlist → Recorded

section FindFlow

variable {s t : State seqlist} {ptr : DataWinsize}

theorem find_flow_congr (h : ∀ i, (t.flowSeqList i).sec = (s.flowSeqList i).sec ∧
    (t.flowSeqList i).tuple = (s.flowSeqList i).tuple) (tuple : FourTuple) :
    findFlow tuple t = findFlow tuple s := by
  simp only [findFlow, h]

/-- Numbers and counters have no part in the search for a flow. -/
theorem find_flow_update {found : Fin seqlist} (tuple : FourTuple)
    (hfind : findFlow tuple s = some found) (seqList : Fin seqlist → SeqInfo)
    (retransTimes winsizeTimes : Times) (countRetrans : U32) :
    findFlow tuple ⟨Function.update s.flowSeqList found { s.flowSeqList found with seqList },
      retransTimes, winsizeTimes, countRetrans⟩ = some found := by
  rw [← hfind]
  refine find_flow_congr (fun i => ?_) tuple
  by_cases hi : i = found
  · subst hi
    simp
  · simp [Function.update_of_ne hi]

theorem clear_acknowledged_fields (i : Fin seqlist) :
    ((clearAcknowledged ptr s).flowSeqList i).sec = (s.flowSeqList i).sec ∧
      ((clearAcknowledged ptr s).flowSeqList i).tuple = (s.flowSeqList i).tuple := by
  unfold clearAcknowledged
  split
  · rename_i found _
    by_cases hi : i = found
    · subst hi
      simp
    · simp [Function.update_of_ne hi]
  · exact ⟨rfl, rfl⟩

theorem clear_acknowledged_counters (s : State seqlist) (ptr : DataWinsize) :
    (clearAcknowledged ptr s).countRetrans = s.countRetrans ∧
      (clearAcknowledged ptr s).retransTimes = s.retransTimes := by
  unfold clearAcknowledged
  split <;> exact ⟨rfl, rfl⟩

/-- An entry with the time of the packet is not older than five seconds. -/
theorem clear_acknowledged_kept {found i : Fin seqlist} {tmps : SeqInfo}
    (h : (s.flowSeqList found).seqList i = tmps) (hsec : tmps.sec = ptr.sec) :
    ((clearAcknowledged ptr s).flowSeqList found).seqList i = tmps := by
  unfold clearAcknowledged
  split
  · rename_i place _
    by_cases hp : found = place
    · subst hp
      have hkept : ¬ tmps.Acknowledged ptr := by
        intro hack
        have := hack.2
        simp [hsec] at this
      simp only [Function.update_self, h, if_neg hkept]
    · simpa only [Function.update_of_ne hp] using h
  · exact h

end FindFlow

/-- There is a place to insert exactly when there is room. -/
theorem insert_sequence (tmp : WinsizeRecord seqlist) (ptr : DataWinsize) :
    (∃ i, (tmp.seqList i).Unused ∧ insertSequence ptr tmp.seqList =
      Function.update tmp.seqList i ⟨ptr.sequence, ptr.sec, ptr.usec⟩) ∨
    ¬ tmp.HasRoom ∧ insertSequence ptr tmp.seqList = tmp.seqList := by
  cases hfind : Fin.find? fun i => decide (tmp.seqList i).Unused with
  | some i =>
    left
    refine ⟨i, ?_, by simp only [insertSequence, hfind]⟩
    simpa using (Fin.find?_eq_some_iff.mp hfind).1
  | none =>
    right
    refine ⟨?_, by simp only [insertSequence, hfind]⟩
    rintro ⟨i, hi⟩
    simpa [hi] using Fin.find?_eq_none_iff.mp hfind i

section Tracking

variable [NeZero seqlist] (ptr : DataWinsize) (s : Run seqlist)

def trackNew : Fin seqlist → Recorded :=
  Function.update s.recorded (insertPlace s.flows)
    (Function.update (fun _ => none) ptr.sequence (some ⟨ptr.sec, ptr.usec⟩))

def trackCleared : Fin seqlist → Recorded :=
  match Fin.find? fun i => (s.flows.flowSeqList i).tuple = ptr.tuple with
  | some i => Function.update s.recorded i fun _ => none
  | none => s.recorded

/-- A sequence number is recorded as long as there is room for it. -/
def trackData : Fin seqlist → Recorded :=
  if ptr.datalength ≠ 0 then
    match findFlow ptr.tuple s.flows with
    | some found =>
      if s.recorded found ptr.sequence ≠ none ∨ (s.flows.flowSeqList found).HasRoom then
        Function.update s.recorded found
          (Function.update (s.recorded found) ptr.sequence (some ⟨ptr.sec, ptr.usec⟩))
      else s.recorded
    | none => trackNew ptr s
  else s.recorded

def trackAcknowledged : Fin seqlist → Recorded :=
  match findFlow ptr.tuple.reverse s.flows with
  | some found => Function.update s.recorded found fun q =>
    (s.recorded found q).filter fun time =>
      ¬ (⟨q, time.sec, time.usec⟩ : SeqInfo).Acknowledged ptr
  | none => s.recorded

def track : Fin seqlist → Recorded :=
  let flags := ptr.flags &&& 0x0017
  if flags = 2 ∨ flags = 18 then trackNew ptr s
  else if flags = 17 then trackCleared ptr s
  else if flags = 16 then trackAcknowledged ptr ⟨recordData ptr s.flows, trackData ptr s⟩
  else s.recorded

end Tracking

def Invariant (s : Run seqlist) : Prop := ∀ i, Tracks (s.flows.flowSeqList i).seqList (s.recorded i)

namespace Invariant

variable {s : Run seqlist} {ptr : DataWinsize}

/-- One entry changes, and what is recorded for it. -/
theorem update (h : Invariant s) {i : Fin seqlist} (tmp : WinsizeRecord seqlist)
    {recorded : Recorded} (hi : Tracks tmp.seqList recorded) (j : Fin seqlist) :
    Tracks (Function.update s.flows.flowSeqList i tmp j).seqList
      (Function.update s.recorded i recorded j) := by
  by_cases hj : j = i
  · rw [hj, Function.update_self, Function.update_self]
    exact hi
  · rw [Function.update_of_ne hj, Function.update_of_ne hj]
    exact h j

theorem clear (h : Invariant s) : Invariant ⟨clearFlowInfo ptr s.flows, trackCleared ptr s⟩ := by
  cases hfind : Fin.find? fun i => (s.flows.flowSeqList i).tuple = ptr.tuple with
  | none =>
    simp only [clearFlowInfo, trackCleared, hfind]
    exact h
  | some i =>
    simp only [clearFlowInfo, trackCleared, hfind]
    exact h.update zeroRecord (Tracks.unused fun _ => .inl rfl)

theorem acknowledge (h : Invariant s) :
    Invariant ⟨clearAcknowledged ptr s.flows, trackAcknowledged ptr s⟩ := by
  cases hfind : findFlow ptr.tuple.reverse s.flows with
  | none =>
    simp only [clearAcknowledged, trackAcknowledged, hfind]
    exact h
  | some found =>
    simp only [clearAcknowledged, trackAcknowledged, hfind]
    refine h.update { s.flows.flowSeqList found with seqList := _ } ?_
    exact (h found).acknowledge ptr

end Invariant

variable [NeZero seqlist]

def exec (s : Run seqlist) (rdata : DataWinsize) : Except Fault (Run seqlist) :=
  .ok ⟨decodeWinsize rdata s.flows, track rdata ⟨logTime rdata s.flows, s.recorded⟩⟩

/-- Any packets in any order. -/
def machine : Machine (Run seqlist) DataWinsize Fault :=
  ⟨⟨initial, fun _ _ => none⟩, fun _ _ => True, exec⟩

def PureAck (ptr : DataWinsize) : Prop := ptr.flags &&& 0x0017 = 16

def Creates (s : State seqlist) (ptr : DataWinsize) : Prop :=
  ptr.flags &&& 0x0017 = 2 ∨ ptr.flags &&& 0x0017 = 18 ∨
    PureAck ptr ∧ ptr.datalength ≠ 0 ∧ findFlow ptr.tuple s = none

/-- What is recorded for the flow of a packet under its sequence number. -/
def recordedFor (ptr : DataWinsize) (s : Run seqlist) : Option Time :=
  (findFlow ptr.tuple s.flows).bind fun found => s.recorded found ptr.sequence

/-- The number is recorded for the flow in an entry that no search finds, its time being zero. -/
def Lost (ptr : DataWinsize) (s : Run seqlist) : Prop :=
  findFlow ptr.tuple s.flows = none ∧
    ∃ i, (s.flows.flowSeqList i).tuple = ptr.tuple ∧ s.recorded i ptr.sequence ≠ none

def AlreadyRecorded (ptr : DataWinsize) (s : Run seqlist) : Prop :=
  recordedFor ptr s ≠ none ∨ Lost ptr s

/-- One retransmission for a number that is recorded, none for another, and the
number recorded afterwards unless there is no room for it. -/
structure Exact (ptr : DataWinsize) (s t : Run seqlist) : Prop where
  once : AlreadyRecorded ptr s → t.flows.countRetrans = s.flows.countRetrans + 1 ∧
    ∃ time, t.flows.retransTimes = s.flows.retransTimes.push time
  never : ¬ AlreadyRecorded ptr s → t.flows.countRetrans = s.flows.countRetrans ∧
    t.flows.retransTimes = s.flows.retransTimes
  kept : (∀ found, findFlow ptr.tuple s.flows = some found →
      s.recorded found ptr.sequence ≠ none ∨ (s.flows.flowSeqList found).HasRoom) →
    ∃ found i, findFlow ptr.tuple t.flows = some found ∧
      (t.flows.flowSeqList found).seqList i = ⟨ptr.sequence, ptr.sec, ptr.usec⟩

/-- The number of a packet is in the entry of its flow as often as it is recorded, not
counting the marker `-1`. A flow that has no entry gets one that can be found. -/
structure Shown (ptr : DataWinsize) (s : Run seqlist) : Prop where
  unknown : findFlow ptr.tuple s.flows = none → ptr.sec ≠ 0 ∧ ¬ Lost ptr s
  recorded : ∀ found, findFlow ptr.tuple s.flows = some found →
    s.recorded found ptr.sequence ≠ none → ptr.sequence ≠ -1 ∧
      ∃ i, ((s.flows.flowSeqList found).seqList i).seq = ptr.sequence ∧
        ∀ j, ((s.flows.flowSeqList found).seqList j).seq = ptr.sequence → j = i
  missing : ∀ found, findFlow ptr.tuple s.flows = some found →
    s.recorded found ptr.sequence = none → ptr.sequence = -1 ∨
      ∀ i, ((s.flows.flowSeqList found).seqList i).seq ≠ ptr.sequence

/-- A packet that keeps clear of the markers: it takes an entry no other flow
left numbers in, with a time that is not zero, and one of the two numbers that mean
unused is in the entry of its flow as it is recorded. -/
structure Clear (s : Run seqlist) (ptr : DataWinsize) : Prop where
  entry : Creates s.flows ptr → ptr.sec ≠ 0 ∧
    ∀ i, i ≠ 0 → ((s.flows.flowSeqList (insertPlace s.flows)).seqList i).Unused
  number : PureAck ptr → ptr.datalength ≠ 0 → findFlow ptr.tuple s.flows ≠ none →
    ptr.sequence = 0 ∨ ptr.sequence = -1 → Shown ptr s

omit [NeZero seqlist] in
/-- The second half counts nothing and keeps the entry just written. -/
theorem Exact.acknowledge {ptr : DataWinsize} {s t : Run seqlist} (h : Exact ptr s t)
    (recorded : Fin seqlist → Recorded) :
    Exact ptr s ⟨clearAcknowledged ptr t.flows, recorded⟩ := by
  obtain ⟨hcount, htimes⟩ := clear_acknowledged_counters t.flows ptr
  refine ⟨fun hrec => ?_, fun hnone => ?_, fun hroom => ?_⟩
  · obtain ⟨honce, time, htime⟩ := h.once hrec
    exact ⟨hcount.trans honce, time, htimes.trans htime⟩
  · obtain ⟨hnever, htime⟩ := h.never hnone
    exact ⟨hcount.trans hnever, htimes.trans htime⟩
  · obtain ⟨found, i, hfound, hi⟩ := h.kept hroom
    refine ⟨found, i, ?_, clear_acknowledged_kept hi rfl⟩
    rw [← hfound]
    exact find_flow_congr clear_acknowledged_fields ptr.tuple

/-- The test for RST compares one bit with another. -/
theorem rst_bit (flags : U16) : flags &&& 0x0017 &&& 0x0004 ≠ 1 := by
  intro he
  have := congrArg (BitVec.getLsbD · 0) he
  simp at this

theorem handle_flags_ack {ptr : DataWinsize} (hack : PureAck ptr) {s : State seqlist} :
    handleFlags ptr s = ackFlowInfo ptr s := by
  have hflags : ptr.flags &&& 0x0017 = 16 := hack
  simp only [handleFlags, hflags]
  rw [if_neg (by decide), if_neg (by decide), if_pos trivial]

section Insert

variable {s : State seqlist} {ptr : DataWinsize}

theorem insert_flow_info_other {i : Fin seqlist} (hi : i ≠ insertPlace s) :
    (insertFlowInfo ptr s).flowSeqList i = s.flowSeqList i := Function.update_of_ne hi ..

theorem insert_flow_info_place : (insertFlowInfo ptr s).flowSeqList (insertPlace s) =
    ⟨ptr.tuple, Function.update (s.flowSeqList (insertPlace s)).seqList 0
      ⟨ptr.sequence, ptr.sec, ptr.usec⟩, ptr.sec⟩ := Function.update_self ..

theorem find_flow_insert (hnone : findFlow ptr.tuple s = none) (hsec : ptr.sec ≠ 0) :
    findFlow ptr.tuple (insertFlowInfo ptr s) = some (insertPlace s) := by
  rw [findFlow, Fin.find?_eq_none_iff] at hnone
  rw [findFlow, Fin.find?_eq_some_iff]
  constructor
  · simpa [insert_flow_info_place] using hsec
  · intro j hj
    rw [insert_flow_info_other (ne_of_lt hj)]
    exact hnone j

/-- An entry with the time zero is not found. -/
theorem find_flow_insert_zero (hnone : findFlow ptr.tuple s = none) (hsec : ptr.sec = 0) :
    findFlow ptr.tuple (insertFlowInfo ptr s) = none := by
  rw [findFlow, Fin.find?_eq_none_iff] at hnone ⊢
  intro i
  by_cases hi : i = insertPlace s
  · simp [hi, insert_flow_info_place, hsec]
  · rw [insert_flow_info_other hi]
    exact hnone i

end Insert

section Search

variable {s : Run seqlist} {ptr : DataWinsize} {found : Fin seqlist}

omit [NeZero seqlist] in
theorem recorded_known (hfound : findFlow ptr.tuple s.flows = some found) :
    AlreadyRecorded ptr s ↔ s.recorded found ptr.sequence ≠ none := by
  simp [AlreadyRecorded, recordedFor, Lost, hfound]

omit [NeZero seqlist] in
theorem recorded_unknown (hnone : findFlow ptr.tuple s.flows = none) :
    AlreadyRecorded ptr s ↔ Lost ptr s := by
  simp [AlreadyRecorded, recordedFor, hnone]

/-- What the search in the entry of a flow comes to. -/
theorem record_known (hshown : Shown ptr s) (hfound : findFlow ptr.tuple s.flows = some found)
    (hdata : ptr.datalength ≠ 0) :
    (∃ i, s.recorded found ptr.sequence ≠ none ∧
      ((s.flows.flowSeqList found).seqList i).seq = ptr.sequence ∧
      recordData ptr s.flows = { s.flows with
        flowSeqList := Function.update s.flows.flowSeqList found
          { s.flows.flowSeqList found with
            seqList := Function.update (s.flows.flowSeqList found).seqList i
              ⟨ptr.sequence, ptr.sec, ptr.usec⟩ }
        retransTimes := s.flows.retransTimes.push
          ⟨((s.flows.flowSeqList found).seqList i).sec,
            ((s.flows.flowSeqList found).seqList i).usec⟩
        countRetrans := s.flows.countRetrans + 1 }) ∨
    (s.recorded found ptr.sequence = none ∧
      (∀ i, ((s.flows.flowSeqList found).seqList i).seq = ptr.sequence → ptr.sequence = -1) ∧
      recordData ptr s.flows = { s.flows with
        flowSeqList := Function.update s.flows.flowSeqList found
          { s.flows.flowSeqList found with
            seqList := insertSequence ptr (s.flows.flowSeqList found).seqList } }) := by
  simp only [recordData, if_pos hdata, hfound]
  by_cases hrec : s.recorded found ptr.sequence = none
  · right
    have hmissing : ∀ i, ((s.flows.flowSeqList found).seqList i).seq = ptr.sequence →
        ptr.sequence = -1 :=
      fun i hi => (hshown.missing found hfound hrec).elim id fun hnone => absurd hi (hnone i)
    refine ⟨hrec, hmissing, ?_⟩
    rw [search_missing fun i hi => hi.trans (hmissing i hi)]
    simp
  · left
    obtain ⟨h1, i, hseq, honly⟩ := hshown.recorded found hfound hrec
    refine ⟨i, hrec, hseq, ?_⟩
    rw [search_found hseq h1 honly]
    simp [Search.hit, hseq]

/-- How often the search counts, whatever is in the entry. -/
theorem record_count (hfound : findFlow ptr.tuple s.flows = some found)
    (hdata : ptr.datalength ≠ 0) : (recordData ptr s.flows).countRetrans =
      s.flows.countRetrans + BitVec.ofNat 32 ((List.finRange seqlist).countP fun i =>
        ((s.flows.flowSeqList found).seqList i).seq ≠ -1 ∧
          ((s.flows.flowSeqList found).seqList i).seq = ptr.sequence) := by
  simp only [recordData, if_pos hdata, hfound]
  exact foldl_step_count _ _

/-- The time of an entry is set as it is taken. -/
theorem record_known_sec (hfound : findFlow ptr.tuple s.flows = some found)
    (hdata : ptr.datalength ≠ 0) (j : Fin seqlist) :
    ((recordData ptr s.flows).flowSeqList j).sec = (s.flows.flowSeqList j).sec := by
  simp only [recordData, if_pos hdata, hfound]
  by_cases hj : j = found
  · subst hj
    split <;> simp
  · split <;> simp [hj]

theorem record_unknown (hnone : findFlow ptr.tuple s.flows = none) (hdata : ptr.datalength ≠ 0) :
    recordData ptr s.flows = insertFlowInfo ptr s.flows := by
  simp only [recordData, if_pos hdata, hnone]

/-- The first half is right about a number that is shown as it is recorded. -/
theorem record_exact (hshown : Shown ptr s) (hdata : ptr.datalength ≠ 0)
    (recorded : Fin seqlist → Recorded) : Exact ptr s ⟨recordData ptr s.flows, recorded⟩ := by
  cases hfind : findFlow ptr.tuple s.flows with
  | none =>
    obtain ⟨hsec, hlost⟩ := hshown.unknown hfind
    have hnot : ¬ AlreadyRecorded ptr s := mt (recorded_unknown hfind).mp hlost
    rw [record_unknown hfind hdata]
    refine ⟨fun hrec => absurd hrec hnot, fun _ => ⟨rfl, rfl⟩, fun _ => ?_⟩
    refine ⟨insertPlace s.flows, 0, find_flow_insert hfind hsec, ?_⟩
    simp only [insert_flow_info_place, Function.update_self]
  | some found =>
    have hfor := recorded_known hfind
    have hsame := find_flow_update ptr.tuple hfind
    rcases record_known hshown hfind hdata with ⟨i, hrec, hseq, hrun⟩ | ⟨hrec, hmissing, hrun⟩
    · rw [hrun]
      refine ⟨fun _ => ⟨rfl, _, rfl⟩, fun hnot => absurd (hfor.mpr hrec) hnot, fun _ => ?_⟩
      exact ⟨found, i, hsame _ _ _ _, by simp⟩
    · rw [hrun]
      refine ⟨fun h => absurd hrec (hfor.mp h), fun _ => ⟨rfl, rfl⟩, fun hroom => ?_⟩
      rcases insert_sequence (s.flows.flowSeqList found) ptr with ⟨i, _, hinsert⟩ | ⟨hfull, _⟩
      · refine ⟨found, i, hsame _ _ _ _, ?_⟩
        simp only [hinsert, Function.update_self]
      · cases hroom found hfind with
        | inl hne => exact absurd hrec hne
        | inr hroom => exact absurd hroom hfull

omit [NeZero seqlist] in
/-- A table that counts a number once has it in one entry. -/
theorem counted_once {p : Fin seqlist → Bool} (h : (List.finRange seqlist).countP p = 1) :
    ∃ i, p i = true ∧ ∀ j, p j = true → j = i := by
  rw [List.countP_eq_length_filter, List.length_eq_one_iff] at h
  obtain ⟨i, hi⟩ := h
  have hmem : ∀ j, j ∈ (List.finRange seqlist).filter p ↔ p j = true := by
    intro j
    rw [List.mem_filter, and_iff_right (List.mem_finRange j)]
  refine ⟨i, (hmem i).mp (hi ▸ List.mem_singleton_self i), fun j hj => ?_⟩
  exact List.mem_singleton.mp (hi ▸ (hmem j).mpr hj)

/-- The counter, which cannot come round in one call, tells how many entries have the number. -/
theorem entries_of_count (hsize : seqlist < 4294967296)
    (hfound : findFlow ptr.tuple s.flows = some found) (hdata : ptr.datalength ≠ 0) {k : Nat}
    (hk : k < 4294967296)
    (h : (ackFlowInfo ptr s.flows).countRetrans = s.flows.countRetrans + BitVec.ofNat 32 k) :
    (List.finRange seqlist).countP (fun i => ((s.flows.flowSeqList found).seqList i).seq ≠ -1 ∧
      ((s.flows.flowSeqList found).seqList i).seq = ptr.sequence) = k := by
  have hcount : (ackFlowInfo ptr s.flows).countRetrans = (recordData ptr s.flows).countRetrans :=
    (clear_acknowledged_counters _ _).1
  rw [hcount, record_count hfound hdata, BitVec.add_right_inj] at h
  have hle := List.countP_le_length (l := List.finRange seqlist) (p := fun i =>
    ((s.flows.flowSeqList found).seqList i).seq ≠ -1 ∧
      ((s.flows.flowSeqList found).seqList i).seq = ptr.sequence)
  rw [List.length_finRange] at hle
  have hsame := congrArg BitVec.toNat h
  rwa [BitVec.toNat_ofNat, BitVec.toNat_ofNat, Nat.mod_eq_of_lt (by omega),
    Nat.mod_eq_of_lt hk] at hsame

/-- What the call comes to shows what was in the entry before. -/
theorem shown_of_exact (hsize : seqlist < 4294967296) (hdata : ptr.datalength ≠ 0)
    {recorded : Fin seqlist → Recorded}
    (h : Exact ptr s ⟨ackFlowInfo ptr s.flows, recorded⟩) : Shown ptr s := by
  refine ⟨fun hnone => ?_, fun found hfound hrec => ?_, fun found hfound hrec => ?_⟩
  · have hrun : (ackFlowInfo ptr s.flows) = clearAcknowledged ptr (insertFlowInfo ptr s.flows) := by
      rw [ackFlowInfo, record_unknown hnone hdata]
    constructor
    · intro hsec
      obtain ⟨place, i, hplace, -⟩ := h.kept fun found hfound => by
        rw [hnone] at hfound
        cases hfound
      rw [hrun, find_flow_congr clear_acknowledged_fields, find_flow_insert_zero hnone hsec]
        at hplace
      cases hplace
    · intro hlost
      have honce := (h.once (.inr hlost)).1
      rw [hrun, (clear_acknowledged_counters _ _).1] at honce
      change s.flows.countRetrans = s.flows.countRetrans + 1 at honce
      simp at honce
  · have honce := (h.once ((recorded_known hfound).mpr hrec)).1
    obtain ⟨i, hi, honly⟩ := counted_once (entries_of_count hsize hfound hdata (by decide) honce)
    obtain ⟨hused, hseq⟩ := of_decide_eq_true hi
    have hne : ptr.sequence ≠ -1 := hseq ▸ hused
    exact ⟨hne, i, hseq, fun j hj => honly j (decide_eq_true ⟨hj ▸ hne, hj⟩)⟩
  · have hnever := (h.never fun halready => (recorded_known hfound).mp halready hrec).1
    have hzero := entries_of_count hsize hfound hdata (by decide)
      (hnever.trans (BitVec.add_zero _).symm)
    have hnone := List.countP_eq_zero.mp hzero
    by_cases hmarker : ptr.sequence = -1
    · exact .inl hmarker
    · exact .inr fun i hi => hnone i (List.mem_finRange i) (decide_eq_true ⟨hi ▸ hmarker, hi⟩)

/-- A packet with data is counted right exactly if its number is shown as it is recorded. -/
theorem exec_exact_iff (hsize : seqlist < 4294967296) (hack : PureAck ptr)
    (hdata : ptr.datalength ≠ 0) : (∃ t, exec s ptr = .ok t ∧ Exact ptr s t) ↔ Shown ptr s := by
  have hrun : decodeWinsize ptr s.flows = ackFlowInfo ptr (logTime ptr s.flows) :=
    handle_flags_ack hack
  constructor
  · rintro ⟨t, ht, hexact⟩
    obtain rfl := Except.ok.inj ht
    rw [hrun] at hexact
    have hlogged : Shown ptr ⟨logTime ptr s.flows, s.recorded⟩ :=
      shown_of_exact hsize hdata ⟨hexact.once, hexact.never, hexact.kept⟩
    exact ⟨hlogged.unknown, hlogged.recorded, hlogged.missing⟩
  · intro hshown
    have hlogged : Shown ptr ⟨logTime ptr s.flows, s.recorded⟩ :=
      ⟨hshown.unknown, hshown.recorded, hshown.missing⟩
    have hexact := (record_exact hlogged hdata s.recorded).acknowledge
      (track ptr ⟨logTime ptr s.flows, s.recorded⟩)
    refine ⟨_, rfl, ?_⟩
    rw [hrun]
    exact ⟨hexact.once, hexact.never, hexact.kept⟩

end Search

/-- An entry with the time zero has nothing recorded. -/
def Timed (s : Run seqlist) : Prop :=
  ∀ i, (s.flows.flowSeqList i).sec = 0 → s.recorded i = fun _ => none

namespace Invariant

variable {s : Run seqlist} {ptr : DataWinsize}

theorem create (h : Invariant s)
    (hentry : ∀ i, i ≠ 0 → ((s.flows.flowSeqList (insertPlace s.flows)).seqList i).Unused) :
    Invariant ⟨insertFlowInfo ptr s.flows, trackNew ptr s⟩ :=
  h.update _ (Tracks.first hentry ptr.sequence ⟨ptr.sec, ptr.usec⟩)

/-- As long as packets keep clear of the markers, every number is shown as it is recorded. -/
theorem shown (h : Invariant s) (htimed : Timed s) (hclear : Clear s ptr) (hack : PureAck ptr)
    (hdata : ptr.datalength ≠ 0) : Shown ptr s := by
  by_cases hmarker : findFlow ptr.tuple s.flows ≠ none ∧ (ptr.sequence = 0 ∨ ptr.sequence = -1)
  · exact hclear.number hack hdata hmarker.1 hmarker.2
  refine ⟨fun hnone => ⟨(hclear.entry (.inr (.inr ⟨hack, hdata, hnone⟩))).1, ?_⟩,
    fun found hfound hrec => ?_, fun found hfound hrec => .inr fun i hi => ?_⟩
  · rintro ⟨-, i, htuple, hrec⟩
    have hfree := Fin.find?_eq_none_iff.mp hnone i
    simp only [htuple, and_true, ne_eq, decide_not, Bool.not_eq_false', decide_eq_true_eq]
      at hfree
    exact hrec (congrFun (htimed i hfree) _)
  · have hused : ¬ (ptr.sequence = 0 ∨ ptr.sequence = -1) :=
      fun hor => hmarker ⟨by simp [hfound], hor⟩
    obtain ⟨h0, h1⟩ := not_or.mp hused
    obtain ⟨time, htime⟩ := Option.ne_none_iff_exists'.mp hrec
    obtain ⟨i, hi⟩ := ((h found).exact ptr.sequence h0 h1 time).mp htime
    have hseq : ((s.flows.flowSeqList found).seqList i).seq = ptr.sequence := by rw [hi]
    refine ⟨h1, i, hseq, fun j hj => ((h found).once i j (hseq.trans hj.symm) ?_).symm⟩
    rwa [SeqInfo.Unused, hseq]
  · have hused : ¬ (ptr.sequence = 0 ∨ ptr.sequence = -1) :=
      fun hor => hmarker ⟨by simp [hfound], hor⟩
    obtain ⟨h0, h1⟩ := not_or.mp hused
    have hsome := ((h found).exact ptr.sequence h0 h1 ⟨_, _⟩).mpr ⟨i, by rw [← hi]⟩
    rw [hrec] at hsome
    cases hsome

theorem record (h : Invariant s) (htimed : Timed s) (hack : PureAck ptr) (hclear : Clear s ptr) :
    Invariant ⟨recordData ptr s.flows, trackData ptr s⟩ := by
  by_cases hdata : ptr.datalength ≠ 0
  · cases hfind : findFlow ptr.tuple s.flows with
    | none =>
      have hentry := (hclear.entry (.inr (.inr ⟨hack, hdata, hfind⟩))).2
      simp only [recordData, trackData, if_pos hdata, hfind]
      exact h.create hentry
    | some found =>
      have hshown := h.shown htimed hclear hack hdata
      have htracks := h found
      rcases record_known hshown hfind hdata with ⟨i, hrec, hseq, hrun⟩ | ⟨hrec, hmissing, hrun⟩
      · simp only [hrun, trackData, if_pos hdata, hfind, if_pos (Or.inl hrec)]
        refine h.update { s.flows.flowSeqList found with seqList := _ }
          (htracks.write (.inl hseq) ?_ ⟨ptr.sec, ptr.usec⟩)
        intro j hj
        by_cases hunused : ((s.flows.flowSeqList found).seqList j).Unused
        · exact .inl hunused
        · exact .inr (htracks.once j i (hj.trans hseq.symm) hunused)
      · rcases insert_sequence (s.flows.flowSeqList found) ptr with
          ⟨i, hi, hinsert⟩ | ⟨hfull, hinsert⟩
        · have hroom : s.recorded found ptr.sequence ≠ none ∨
              (s.flows.flowSeqList found).HasRoom := .inr ⟨i, hi⟩
          simp only [hrun, hinsert, trackData, if_pos hdata, hfind, if_pos hroom]
          refine h.update { s.flows.flowSeqList found with seqList := _ }
            (htracks.write (.inr hi) (fun j hj => .inl (.inr ?_)) ⟨ptr.sec, ptr.usec⟩)
          exact hj.trans (hmissing j hj)
        · have hnot : ¬ (s.recorded found ptr.sequence ≠ none ∨
              (s.flows.flowSeqList found).HasRoom) := by
            simp [hrec, hfull]
          simp only [hrun, hinsert, trackData, if_pos hdata, hfind, if_neg hnot,
            Function.update_eq_self]
          exact h
  · simp only [recordData, trackData, if_neg hdata]
    exact h

theorem step (h : Invariant s) (htimed : Timed s) (hclear : Clear s ptr) :
    Invariant ⟨handleFlags ptr s.flows, track ptr s⟩ := by
  have hbit := rst_bit ptr.flags
  unfold handleFlags track
  by_cases hsyn : ptr.flags &&& 0x0017 = 2 ∨ ptr.flags &&& 0x0017 = 18
  · have hentry := (hclear.entry (hsyn.elim .inl (fun h => .inr (.inl h)))).2
    simp only [if_pos hsyn]
    exact h.create hentry
  · simp only [if_neg hsyn, hbit, or_false]
    by_cases hfin : ptr.flags &&& 0x0017 = 17
    · simp only [if_pos hfin]
      exact h.clear
    · simp only [if_neg hfin]
      by_cases hack : ptr.flags &&& 0x0017 = 16
      · simp only [if_pos hack]
        exact (h.record htimed hack hclear).acknowledge
      · simp only [if_neg hack]
        exact h

end Invariant

namespace Timed

variable {s : Run seqlist} {ptr : DataWinsize}

omit [NeZero seqlist] in
/-- One entry changes. -/
theorem update (h : Timed s) {i : Fin seqlist} {tmp : WinsizeRecord seqlist} {recorded : Recorded}
    {retransTimes winsizeTimes : Times} {countRetrans : U32}
    (hi : tmp.sec = 0 → recorded = fun _ => none) :
    Timed ⟨⟨Function.update s.flows.flowSeqList i tmp, retransTimes, winsizeTimes, countRetrans⟩,
      Function.update s.recorded i recorded⟩ := by
  intro j hj
  by_cases hji : j = i
  · subst hji
    simp only [Function.update_self] at hj ⊢
    exact hi hj
  · simp only [Function.update_of_ne hji] at hj ⊢
    exact h j hj

theorem create (h : Timed s) (hsec : ptr.sec ≠ 0) :
    Timed ⟨insertFlowInfo ptr s.flows, trackNew ptr s⟩ :=
  h.update fun hzero => absurd hzero hsec

omit [NeZero seqlist] in
theorem clear (h : Timed s) : Timed ⟨clearFlowInfo ptr s.flows, trackCleared ptr s⟩ := by
  cases hfind : Fin.find? fun i => (s.flows.flowSeqList i).tuple = ptr.tuple with
  | none =>
    simp only [clearFlowInfo, trackCleared, hfind]
    exact h
  | some i =>
    simp only [clearFlowInfo, trackCleared, hfind]
    exact h.update fun _ => rfl

omit [NeZero seqlist] in
/-- An entry that is found has a time. -/
theorem sec_of_found {tuple : FourTuple} {flows : State seqlist} {found : Fin seqlist}
    (hfind : findFlow tuple flows = some found) : (flows.flowSeqList found).sec ≠ 0 := by
  have hfound := (Fin.find?_eq_some_iff.mp hfind).1
  simp only [ne_eq, decide_eq_true_eq] at hfound
  exact hfound.1

omit [NeZero seqlist] in
theorem acknowledge (h : Timed s) :
    Timed ⟨clearAcknowledged ptr s.flows, trackAcknowledged ptr s⟩ := by
  cases hfind : findFlow ptr.tuple.reverse s.flows with
  | none =>
    simp only [clearAcknowledged, trackAcknowledged, hfind]
    exact h
  | some found =>
    simp only [clearAcknowledged, trackAcknowledged, hfind]
    exact h.update fun hzero => absurd hzero (sec_of_found hfind)

theorem record (h : Timed s) (hack : PureAck ptr) (hclear : Clear s ptr) :
    Timed ⟨recordData ptr s.flows, trackData ptr s⟩ := by
  by_cases hdata : ptr.datalength ≠ 0
  · cases hfind : findFlow ptr.tuple s.flows with
    | none =>
      have hsec := (hclear.entry (.inr (.inr ⟨hack, hdata, hfind⟩))).1
      simp only [recordData, trackData, if_pos hdata, hfind]
      exact h.create hsec
    | some found =>
      intro j hj
      have hzero : (s.flows.flowSeqList j).sec = 0 :=
        (record_known_sec hfind hdata j).symm.trans hj
      have hother : j ≠ found := fun he => sec_of_found hfind (he ▸ hzero)
      have hsame : trackData ptr s j = s.recorded j := by
        simp only [trackData, if_pos hdata, hfind]
        split
        · exact Function.update_of_ne hother ..
        · rfl
      exact hsame.trans (h j hzero)
  · simp only [recordData, trackData, if_neg hdata]
    exact h

theorem step (h : Timed s) (hclear : Clear s ptr) :
    Timed ⟨handleFlags ptr s.flows, track ptr s⟩ := by
  have hbit := rst_bit ptr.flags
  unfold handleFlags track
  by_cases hsyn : ptr.flags &&& 0x0017 = 2 ∨ ptr.flags &&& 0x0017 = 18
  · have hsec := (hclear.entry (hsyn.elim .inl (fun h => .inr (.inl h)))).1
    simp only [if_pos hsyn]
    exact h.create hsec
  · simp only [if_neg hsyn, hbit, or_false]
    by_cases hfin : ptr.flags &&& 0x0017 = 17
    · simp only [if_pos hfin]
      exact h.clear
    · simp only [if_neg hfin]
      by_cases hack : ptr.flags &&& 0x0017 = 16
      · simp only [if_pos hack]
        exact (h.record hack hclear).acknowledge
      · simp only [if_neg hack]
        exact h

end Timed

theorem inductive_invariant :
    ((machine : Machine (Run seqlist) DataWinsize Fault).restrict Clear).Inductive fun s =>
      Invariant s ∧ Timed s where
  start := ⟨fun _ => Tracks.unused fun _ => .inl rfl, fun _ _ => rfl⟩
  step := by
    rintro s ptr ⟨h, htimed⟩ ⟨-, hclear⟩
    have hlogged : Invariant ⟨logTime ptr s.flows, s.recorded⟩ := h
    have htimed' : Timed ⟨logTime ptr s.flows, s.recorded⟩ := htimed
    have hclear' : Clear ⟨logTime ptr s.flows, s.recorded⟩ ptr :=
      ⟨hclear.entry, fun hack hdata hfind hmarker =>
        have hshown := hclear.number hack hdata hfind hmarker
        ⟨hshown.unknown, hshown.recorded, hshown.missing⟩⟩
    exact ⟨_, rfl, hlogged.step htimed' hclear', htimed'.step hclear'⟩

/-- The retransmissions of a run are counted exactly as long as each number is in the entry of its
flow as it is recorded. So it is while packets keep clear of the markers. -/
theorem retrans_exact (hsize : seqlist < 4294967296) (packets : List DataWinsize) :
    ((machine : Machine (Run seqlist) DataWinsize Fault).Throughout
      (fun s ptr result => PureAck ptr → ptr.datalength ≠ 0 →
        ∃ t, result = .ok t ∧ Exact ptr s t) machine.start packets ↔
    (machine : Machine (Run seqlist) DataWinsize Fault).Throughout
      (fun s ptr _ => PureAck ptr → ptr.datalength ≠ 0 → Shown ptr s) machine.start packets) ∧
    ∀ s : Run seqlist, (machine.restrict Clear).Reachable s → ∀ ptr, PureAck ptr →
      ptr.datalength ≠ 0 → Clear s ptr → Shown ptr s := by
  constructor
  · refine Machine.throughout_iff (fun _ => True) ?_ (fun _ _ _ _ _ _ _ => trivial) trivial packets
    intro s ptr _ _
    exact forall_congr' fun hack => forall_congr' fun hdata => exec_exact_iff hsize hack hdata
  · intro s hr ptr hack hdata hclear
    obtain ⟨hinv, htimed⟩ := inductive_invariant.reachable hr
    exact hinv.shown htimed hclear hack hdata

/-- The number that marks an entry as unused is looked for in vain. -/
theorem marker_not_found {s t : Run seqlist} {ptr : DataWinsize} (hack : PureAck ptr)
    (hmarker : ptr.sequence = -1) (ht : exec s ptr = .ok t) :
    t.flows.countRetrans = s.flows.countRetrans := by
  rw [← Except.ok.inj ht, decodeWinsize, handle_flags_ack hack, ackFlowInfo,
    (clear_acknowledged_counters _ _).1, recordData]
  split
  · split
    · simp only [search_missing fun i hi => hi.trans hmarker]
      rfl
    · rfl
  · rfl

theorem marker_inexact {s t : Run seqlist} {ptr : DataWinsize} {time : Time} (hack : PureAck ptr)
    (hmarker : ptr.sequence = -1) (hrecorded : recordedFor ptr s = some time)
    (ht : exec s ptr = .ok t) : ¬ Exact ptr s t := by
  intro hexact
  have hcount := (hexact.once (.inl (by simp [hrecorded]))).1
  rw [marker_not_found hack hmarker ht] at hcount
  simp at hcount

omit [NeZero seqlist] in
theorem find_flow_initial (ptr : DataWinsize) (tuple : FourTuple) :
    findFlow tuple (logTime ptr (initial : State seqlist)) = none := by
  rw [findFlow, Fin.find?_eq_none_iff]
  simp [logTime, initial, zeroRecord]

theorem track_ack {s : Run seqlist} {ptr : DataWinsize} (hack : PureAck ptr) :
    track ptr s = trackAcknowledged ptr ⟨recordData ptr s.flows, trackData ptr s⟩ := by
  have hflags : ptr.flags &&& 0x0017 = 16 := hack
  simp only [track, hflags]
  rw [if_neg (by decide), if_neg (by decide), if_pos trivial]

omit [NeZero seqlist] in
theorem track_acknowledged_none {s : Run seqlist} {ptr : DataWinsize}
    (hzero : ptr.ackSequence = 0) : trackAcknowledged ptr s = s.recorded := by
  have hnot : ∀ tmps : SeqInfo, ¬ tmps.Acknowledged ptr :=
    fun tmps hack => BitVec.not_lt_zero (hzero ▸ hack.1)
  cases hreverse : findFlow ptr.tuple.reverse s.flows with
  | none => simp only [trackAcknowledged, hreverse]
  | some found =>
    funext i q
    by_cases hi : i = found
    · subst hi
      cases hrec : s.recorded i q <;> simp [trackAcknowledged, hreverse, hrec, hnot]
    · simp [trackAcknowledged, hreverse, Function.update_of_ne hi]

/-- One segment with a byte of data. -/
def segment (sequence : U32) : DataWinsize :=
  ⟨1, 2, 80, 8080, sequence, 0, 16, 0, 1, 0, 1, 0, 0, 0, 0⟩

theorem pure_ack_segment (sequence : U32) : PureAck (segment sequence) :=
  show (16 : U16) &&& 0x0017 = 16 by decide

theorem segment_data (sequence : U32) : (segment sequence).datalength ≠ 0 :=
  show (1 : U32) ≠ 0 by decide

theorem segment_sec (sequence : U32) : (segment sequence).sec ≠ 0 :=
  show (1 : U32) ≠ 0 by decide

/-- The receiver after its first segment. -/
def afterSegment (seqlist : Nat) [NeZero seqlist] (sequence : U32) : Run seqlist :=
  ⟨decodeWinsize (segment sequence) initial,
    track (segment sequence) ⟨logTime (segment sequence) initial, fun _ _ => none⟩⟩

/-- The segment has taken an entry, and its reverse direction has none. -/
theorem after_segment_flows (sequence : U32) : (afterSegment seqlist sequence).flows =
    insertFlowInfo (segment sequence) (logTime (segment sequence) initial) := by
  have hdata := segment_data sequence
  have hnone : findFlow (segment sequence).tuple
      (logTime (segment sequence) (initial : State seqlist)) = none := find_flow_initial _ _
  have hrun : recordData (segment sequence)
      (logTime (segment sequence) (initial : State seqlist)) =
      insertFlowInfo (segment sequence) (logTime (segment sequence) initial) := by
    simp only [recordData, if_pos hdata, hnone]
  have hreverse : findFlow (segment sequence).tuple.reverse (insertFlowInfo (segment sequence)
      (logTime (segment sequence) (initial : State seqlist))) = none := by
    rw [findFlow, Fin.find?_eq_none_iff]
    intro i
    by_cases hi : i = insertPlace (logTime (segment sequence) (initial : State seqlist))
    · rw [hi, insert_flow_info_place]
      simp [segment, FourTuple.reverse, DataWinsize.tuple]
    · rw [insert_flow_info_other hi]
      simp [logTime, initial, zeroRecord]
  have hflows : (afterSegment seqlist sequence).flows = clearAcknowledged (segment sequence)
      (recordData (segment sequence) (logTime (segment sequence) initial)) :=
    handle_flags_ack (pure_ack_segment sequence)
  rw [hflows, hrun]
  simp only [clearAcknowledged, hreverse]

theorem after_segment_other {sequence : U32} {i : Fin seqlist}
    (hi : i ≠ insertPlace (logTime (segment sequence) initial)) :
    (afterSegment seqlist sequence).flows.flowSeqList i = zeroRecord := by
  rw [after_segment_flows, insert_flow_info_other hi]
  rfl

theorem after_segment_tuple (sequence : U32) : ((afterSegment seqlist sequence).flows.flowSeqList
    (insertPlace (logTime (segment sequence) initial))).tuple = (segment sequence).tuple := by
  rw [after_segment_flows, insert_flow_info_place]

theorem recorded_after_segment (sequence : U32) :
    recordedFor (segment sequence) (afterSegment seqlist sequence) = some ⟨1, 0⟩ := by
  have hdata := segment_data sequence
  have hnone : findFlow (segment sequence).tuple
      (logTime (segment sequence) (initial : State seqlist)) = none := find_flow_initial _ _
  have hrun : recordData (segment sequence)
      (logTime (segment sequence) (initial : State seqlist)) =
      insertFlowInfo (segment sequence) (logTime (segment sequence) initial) := by
    simp only [recordData, if_pos hdata, hnone]
  have hfound := find_flow_insert hnone (segment_sec sequence)
  have hflows : (afterSegment seqlist sequence).flows = clearAcknowledged (segment sequence)
      (recordData (segment sequence) (logTime (segment sequence) initial)) :=
    handle_flags_ack (pure_ack_segment sequence)
  have hfind : findFlow (segment sequence).tuple (afterSegment seqlist sequence).flows =
      some (insertPlace (logTime (segment sequence) initial)) := by
    rw [hflows, find_flow_congr clear_acknowledged_fields, hrun, hfound]
  have hrecorded : (afterSegment seqlist sequence).recorded =
      trackData (segment sequence) ⟨logTime (segment sequence) initial, fun _ _ => none⟩ :=
    (track_ack (pure_ack_segment sequence)).trans (track_acknowledged_none rfl)
  rw [recordedFor, hfind, Option.bind_some, hrecorded]
  simp only [trackData, if_pos hdata, hnone, trackNew, Function.update_self]
  rfl

theorem clear_initial (sequence : U32) :
    Clear (⟨initial, fun _ _ => none⟩ : Run seqlist) (segment sequence) where
  entry := fun _ => ⟨segment_sec sequence, fun _ _ => .inl rfl⟩
  number := fun _ _ h => absurd (find_flow_initial (segment sequence) _) h

theorem clear_after_segment {sequence : U32} (h0 : sequence ≠ 0) (h1 : sequence ≠ -1) :
    Clear (afterSegment seqlist sequence) (segment sequence) where
  entry := by
    have hflags : (segment sequence).flags &&& 0x0017 = 16 := pure_ack_segment sequence
    rintro (h | h | ⟨_, _, hnone⟩)
    · exact absurd (hflags.symm.trans h) (by decide)
    · exact absurd (hflags.symm.trans h) (by decide)
    · have hrecorded : recordedFor (segment sequence) (afterSegment seqlist sequence) =
          some ⟨1, 0⟩ := recorded_after_segment sequence
      simp [recordedFor, hnone] at hrecorded
  number := fun _ _ _ hmarker => absurd hmarker (not_or.mpr ⟨h0, h1⟩)

/-- The second of two equal segments is a retransmission, and is counted. -/
theorem retrans_exact_second : (machine : Machine (Run 10000) DataWinsize Fault).Throughout
    (fun s ptr result => PureAck ptr → ptr.datalength ≠ 0 →
      ∃ t, result = .ok t ∧ Exact ptr s t) machine.start [segment 5, segment 5] ∧
    AlreadyRecorded (segment 5) (afterSegment 10000 5) := by
  have hrecorded : recordedFor (segment 5) (afterSegment 10000 5) = some ⟨1, 0⟩ :=
    recorded_after_segment 5
  have hfirst : (machine.restrict Clear).Reachable (afterSegment 10000 5) :=
    .step (segment 5) .start ⟨trivial, clear_initial 5⟩ rfl
  refine ⟨((retrans_exact (by decide) _).1).mpr ?_, .inl (hrecorded ▸ Option.some_ne_none _)⟩
  have hshown := (retrans_exact (by decide : 10000 < 4294967296) []).2
  refine fun _ => ⟨fun hack hdata => hshown _ .start _ hack hdata (clear_initial 5), ?_⟩
  rintro t ht -
  obtain rfl : afterSegment 10000 5 = t := Except.ok.inj ht
  refine ⟨fun hack hdata => ?_, fun _ _ => trivial⟩
  exact hshown _ hfirst _ hack hdata (clear_after_segment (by decide) (by decide))

/-- The second of two equal segments with the number of the marker is not seen. -/
theorem marker_missed : ¬ ∀ s, (machine : Machine (Run 10000) DataWinsize Fault).Reachable s →
    ∀ ptr, PureAck ptr → ptr.datalength ≠ 0 → ∃ t, exec s ptr = .ok t ∧ Exact ptr s t := by
  intro h
  obtain ⟨t, ht, hexact⟩ := h (afterSegment 10000 (-1)) (.step (segment (-1)) .start trivial rfl)
    (segment (-1)) (pure_ack_segment (-1)) (segment_data (-1))
  exact marker_inexact (pure_ack_segment (-1)) rfl (recorded_after_segment (-1)) ht hexact

end ApTelemetry.Receiver.Flows
