import ApTelemetry.Lib.Serial
import ApTelemetry.Receiver.Flows

namespace ApTelemetry.Receiver.Flows
open Lib

variable {seqlist : Nat}

/-- The number comes before the acknowledgement, across the wrap too. -/
def SeqInfo.Precedes (ptr : DataWinsize) (tmps : SeqInfo) : Prop :=
  SerialLt tmps.seq ptr.ackSequence

/-- More than 5 seconds before the packet. -/
def SeqInfo.Old (ptr : DataWinsize) (tmps : SeqInfo) : Prop := tmps.sec.toNat + 5 < ptr.sec.toNat

instance (ptr : DataWinsize) (tmps : SeqInfo) : Decidable (tmps.Precedes ptr) :=
  inferInstanceAs (Decidable (SerialLt ..))

instance (ptr : DataWinsize) (tmps : SeqInfo) : Decidable (tmps.Old ptr) :=
  inferInstanceAs (Decidable (_ < _))

/-- An entry of the flow that the packet acknowledges. -/
def WinsizeRecord.Reversed (ptr : DataWinsize) (tmp : WinsizeRecord seqlist) : Prop :=
  tmp.sec ≠ 0 ∧ tmp.tuple = ptr.tuple.reverse

instance (ptr : DataWinsize) (tmp : WinsizeRecord seqlist) : Decidable (tmp.Reversed ptr) :=
  inferInstanceAs (Decidable (_ ∧ _))

/-- The entry as an acknowledgement should leave it. -/
def WinsizeRecord.acknowledged (ptr : DataWinsize) (tmp : WinsizeRecord seqlist) :
    WinsizeRecord seqlist :=
  if tmp.Reversed ptr then
    { tmp with seqList := fun i =>
        if (tmp.seqList i).Precedes ptr ∧ (tmp.seqList i).Old ptr then ⟨0, 0, 0⟩
        else tmp.seqList i }
  else tmp

/-- The second half of `ack_flow_info` clears what it should in every entry. -/
def ClearsExactly [NeZero seqlist] (ptr : DataWinsize) (s : State seqlist) : Prop :=
  ∀ j, (ackFlowInfo ptr s).flowSeqList j = ((recordData ptr s).flowSeqList j).acknowledged ptr

/-- The plain comparisons tell what the serial ones do: an old number is within
half the space of the acknowledgement, and a number recorded later than the
packet is not below it, or wraps to at most 5 seconds. -/
def SeqInfo.Comparable (ptr : DataWinsize) (tmps : SeqInfo) : Prop :=
  (tmps.Old ptr → 2 * (ptr.ackSequence.toNat - tmps.seq.toNat) < 4294967296 ∧
    2 * (tmps.seq.toNat - ptr.ackSequence.toNat) ≤ 4294967296) ∧
  (ptr.sec < tmps.sec → tmps.seq < ptr.ackSequence →
    ptr.sec.toNat + 4294967296 ≤ tmps.sec.toNat + 5)

/-- In the first entry of the reverse flow all numbers are comparable. In any other
there is none to clear. -/
def NoWrap (ptr : DataWinsize) (s : State seqlist) : Prop :=
  ∀ j i, (s.flowSeqList j).Reversed ptr → ((s.flowSeqList j).seqList i) ≠ ⟨0, 0, 0⟩ →
    if findFlow ptr.tuple.reverse s = some j then ((s.flowSeqList j).seqList i).Comparable ptr
    else ¬ (((s.flowSeqList j).seqList i).Precedes ptr ∧ ((s.flowSeqList j).seqList i).Old ptr)

section Entry

variable {ptr : DataWinsize} {tmps : SeqInfo}

/-- The difference is unsigned: it is large for an entry later than the packet. -/
theorem five_lt_sub_iff : 5 < ptr.sec - tmps.sec ↔
    tmps.Old ptr ∨ ptr.sec < tmps.sec ∧ tmps.sec.toNat + 5 < ptr.sec.toNat + 4294967296 := by
  unfold SeqInfo.Old
  bv_omega

theorem seq_lt_iff : (tmps.seq < ptr.ackSequence ↔ tmps.Precedes ptr) ↔
    2 * (ptr.ackSequence.toNat - tmps.seq.toNat) < 4294967296 ∧
      2 * (tmps.seq.toNat - ptr.ackSequence.toNat) ≤ 4294967296 := lt_iff_serial_lt

theorem acknowledged_iff : (tmps.Acknowledged ptr ↔ tmps.Precedes ptr ∧ tmps.Old ptr) ↔
    tmps.Comparable ptr := by
  rw [SeqInfo.Acknowledged, SeqInfo.Comparable, five_lt_sub_iff]
  by_cases hold : tmps.Old ptr
  · have hpast : ¬ ptr.sec < tmps.sec := by
      unfold SeqInfo.Old at hold
      bv_omega
    rw [← seq_lt_iff]
    constructor
    · intro hiff
      refine ⟨fun _ => ⟨fun hlt => ?_, fun hprec => ?_⟩, fun hlater => absurd hlater hpast⟩
      · exact (hiff.mp ⟨hlt, .inl hold⟩).1
      · exact (hiff.mpr ⟨hprec, hold⟩).1
    · rintro ⟨hiff, -⟩
      rw [hiff hold]
      exact ⟨fun h => ⟨h.1, hold⟩, fun h => ⟨h.1, .inl hold⟩⟩
  · constructor
    · intro hiff
      refine ⟨fun h => absurd h hold, fun hlater hlt => ?_⟩
      by_contra hfar
      exact hold (hiff.mp ⟨hlt, .inr ⟨hlater, by omega⟩⟩).2
    · rintro ⟨-, hlater⟩
      refine ⟨fun ⟨hlt, hfar⟩ => ?_, fun h => absurd h.2 hold⟩
      rcases hfar with h | ⟨hsec, hfar⟩
      · exact absurd h hold
      · have := hlater hsec hlt
        omega

/-- Two tests clear an entry alike if they agree on it or it is clear. -/
theorem clear_eq_iff (p q : Prop) [Decidable p] [Decidable q] :
    (if p then (⟨0, 0, 0⟩ : SeqInfo) else tmps) = (if q then ⟨0, 0, 0⟩ else tmps) ↔
      (tmps ≠ ⟨0, 0, 0⟩ → (p ↔ q)) := by
  by_cases hp : p <;> by_cases hq : q <;> simp [hp, hq, eq_comm]

theorem keep_eq_iff (q : Prop) [Decidable q] :
    tmps = (if q then ⟨0, 0, 0⟩ else tmps) ↔ (tmps ≠ ⟨0, 0, 0⟩ → ¬ q) := by
  by_cases hq : q <;> simp [hq]

end Entry

section Table

variable {ptr : DataWinsize} {s : State seqlist}

theorem find_flow_iff {tuple : FourTuple} {j : Fin seqlist} (h : findFlow tuple s = some j) :
    (s.flowSeqList j).sec ≠ 0 ∧ (s.flowSeqList j).tuple = tuple := by
  have hfound := (Fin.find?_eq_some_iff.mp h).1
  simpa only [decide_eq_true_eq] using hfound

/-- What becomes of each entry. -/
theorem clear_acknowledged_entry (j : Fin seqlist) :
    (clearAcknowledged ptr s).flowSeqList j =
      if findFlow ptr.tuple.reverse s = some j then
        { s.flowSeqList j with seqList := fun i =>
            if ((s.flowSeqList j).seqList i).Acknowledged ptr then ⟨0, 0, 0⟩
            else (s.flowSeqList j).seqList i }
      else s.flowSeqList j := by
  unfold clearAcknowledged
  cases hfind : findFlow ptr.tuple.reverse s with
  | none => rfl
  | some found =>
    by_cases hj : j = found
    · subst hj
      rw [if_pos rfl]
      exact Function.update_self ..
    · have hne : some found ≠ some j := fun heq => hj (Option.some.inj heq).symm
      rw [if_neg hne]
      exact Function.update_of_ne hj ..

/-- One entry is right exactly if its numbers are comparable, or there is nothing
to clear in it. -/
theorem entry_right_iff (j : Fin seqlist) :
    (clearAcknowledged ptr s).flowSeqList j = (s.flowSeqList j).acknowledged ptr ↔
      ∀ i, (s.flowSeqList j).Reversed ptr → ((s.flowSeqList j).seqList i) ≠ ⟨0, 0, 0⟩ →
        if findFlow ptr.tuple.reverse s = some j then ((s.flowSeqList j).seqList i).Comparable ptr
        else ¬ (((s.flowSeqList j).seqList i).Precedes ptr ∧
          ((s.flowSeqList j).seqList i).Old ptr) := by
  rw [clear_acknowledged_entry, WinsizeRecord.acknowledged]
  by_cases hrev : (s.flowSeqList j).Reversed ptr
  · rw [if_pos hrev]
    by_cases hfound : findFlow ptr.tuple.reverse s = some j
    · simp only [if_pos hfound, hrev, forall_const, WinsizeRecord.mk.injEq, true_and, and_true,
        funext_iff, clear_eq_iff, acknowledged_iff]
    · simp only [if_neg hfound, hrev, forall_const]
      cases s.flowSeqList j
      simp only [WinsizeRecord.mk.injEq, true_and, and_true, funext_iff, keep_eq_iff]
  · have hnot : findFlow ptr.tuple.reverse s ≠ some j := fun hfound => hrev (find_flow_iff hfound)
    rw [if_neg hrev, if_neg hnot]
    exact iff_of_true rfl fun i h => absurd h hrev

end Table

/-- Exactly the acknowledged numbers are cleared exactly if none of them compares
wrongly. -/
theorem cleared_iff [NeZero seqlist] (ptr : DataWinsize) (s : State seqlist) :
    ClearsExactly ptr s ↔ NoWrap ptr (recordData ptr s) :=
  forall_congr' fun j => entry_right_iff j

section Samples

variable [NeZero seqlist]

/-- A table of one flow with one number recorded at second 1. -/
def oneNumber (seq : U32) : State seqlist where
  flowSeqList := Function.update (fun _ => zeroRecord) 0
    ⟨⟨1, 2, 3, 4⟩, Function.update (fun _ => ⟨0, 0, 0⟩) 0 ⟨seq, 1, 0⟩, 1⟩
  retransTimes := ⟨fun _ => ⟨0, 0⟩, 0⟩
  winsizeTimes := ⟨fun _ => ⟨0, 0⟩, 0⟩
  countRetrans := 0

/-- An acknowledgement without data from the other side, at second 100. -/
def reply (ackSequence : U32) : DataWinsize :=
  ⟨2, 1, 4, 3, 0, ackSequence, 16, 0, 100, 0, 0, 0, 0, 0, 0⟩

theorem one_number_first (seq : U32) : (oneNumber seq : State seqlist).flowSeqList 0 =
    ⟨⟨1, 2, 3, 4⟩, Function.update (fun _ => ⟨0, 0, 0⟩) 0 ⟨seq, 1, 0⟩, 1⟩ := by
  simp [oneNumber]

theorem one_number_reversed (seq ackSequence : U32) :
    ((oneNumber seq : State seqlist).flowSeqList 0).Reversed (reply ackSequence) := by
  rw [one_number_first]
  exact ⟨(by decide : (1 : U32) ≠ 0), rfl⟩

theorem find_one_number (seq ackSequence : U32) :
    findFlow (reply ackSequence).tuple.reverse (oneNumber seq : State seqlist) = some 0 := by
  refine Fin.find?_eq_some_iff.mpr ⟨?_, fun j hj => absurd hj (Fin.not_lt_zero j)⟩
  exact decide_eq_true (one_number_reversed seq ackSequence)

theorem no_wrap_in_order : NoWrap (reply 10) (oneNumber 5 : State seqlist) := by
  intro j i hrev hne
  by_cases hj : j = 0
  · subst hj
    rw [one_number_first] at hne ⊢
    rw [if_pos (find_one_number 5 10)]
    by_cases hi : i = 0
    · subst hi
      simp only [Function.update_self]
      exact ⟨by decide, by decide⟩
    · simp [hi] at hne
  · have hzero : (oneNumber 5 : State seqlist).flowSeqList j = zeroRecord := by
      simp [oneNumber, hj]
    rw [hzero] at hrev
    exact absurd rfl hrev.1

theorem wrapped_not_right :
    ¬ ClearsExactly (reply 16) (oneNumber 4294967280 : State seqlist) := by
  intro h
  have hentry := (entry_right_iff 0).mp (h 0) 0 (one_number_reversed 4294967280 16)
  have hsame : recordData (reply 16) (oneNumber 4294967280) =
    (oneNumber 4294967280 : State seqlist) := rfl
  rw [hsame, one_number_first, if_pos (find_one_number 4294967280 16)] at hentry
  simp only [Function.update_self] at hentry
  obtain ⟨hnear, -⟩ := hentry (by decide)
  exact absurd (hnear (by unfold SeqInfo.Old; decide)).2 (by decide)

end Samples

/-- Number 5 is acknowledged by 10. -/
theorem cleared_iff_in_order : ClearsExactly (reply 10) (oneNumber 5 : State 10000) :=
  (cleared_iff (reply 10) (oneNumber 5)).mpr no_wrap_in_order

/-- A number just below the wrap is not cleared by an acknowledgement behind it. -/
theorem wrapped_number_kept : ¬ ∀ (s : State 10000) ptr, ClearsExactly ptr s :=
  fun h => wrapped_not_right (h (oneNumber 4294967280) (reply 16))

end ApTelemetry.Receiver.Flows
