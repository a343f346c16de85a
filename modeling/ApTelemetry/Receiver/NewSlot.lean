import ApTelemetry.Receiver.OneSlot

namespace ApTelemetry.Receiver.Flows
open Lib

variable {seqlist : Nat}

/-- Free in the eyes of `insert_flow_info`. -/
def WinsizeRecord.Free (tmp : WinsizeRecord seqlist) : Prop := tmp.tuple.sourceaddr = 0

variable [NeZero seqlist]

/-- The slot is rightly chosen and holds the new flow, its first sequence number
and nothing else. No other slot changes. -/
structure StartsClean (ptr : DataWinsize) (s t : State seqlist) (place : Fin seqlist) : Prop where
  chosen : (s.flowSeqList place).Free ∨
    (∀ i, ¬ (s.flowSeqList i).Free) ∧ ∀ i, (s.flowSeqList place).sec ≤ (s.flowSeqList i).sec
  tuple : (t.flowSeqList place).tuple = ptr.tuple
  sec : (t.flowSeqList place).sec = ptr.sec
  first : (t.flowSeqList place).seqList 0 = ⟨ptr.sequence, ptr.sec, ptr.usec⟩
  rest : ∀ i, i ≠ 0 → ((t.flowSeqList place).seqList i).Unused
  others : ∀ j, j ≠ place → t.flowSeqList j = s.flowSeqList j

/-- The slot that is taken has no number behind its first place. -/
def NothingLeft (s : State seqlist) : Prop :=
  ∀ i, i ≠ 0 → ((s.flowSeqList (insertPlace s)).seqList i).Unused

variable {s : State seqlist} {ptr : DataWinsize}

theorem oldest_least (s : State seqlist) (i : Fin seqlist) :
    (s.flowSeqList (oldest s)).sec ≤ (s.flowSeqList i).sec :=
  foldl_fin_least (fun i => (s.flowSeqList i).sec) i

theorem insert_place_chosen (s : State seqlist) : (s.flowSeqList (insertPlace s)).Free ∨
    (∀ i, ¬ (s.flowSeqList i).Free) ∧
      ∀ i, (s.flowSeqList (insertPlace s)).sec ≤ (s.flowSeqList i).sec := by
  by_cases hfree : ∃ i, (s.flowSeqList i).tuple.sourceaddr = 0
  · exact .inl (insert_place_free hfree)
  · rw [not_exists] at hfree
    have hnone : (Fin.find? fun i => decide ((s.flowSeqList i).tuple.sourceaddr = 0)) = none :=
      Fin.find?_eq_none_iff.mpr fun i => decide_eq_false (hfree i)
    have hfull : insertPlace s = oldest s := by
      rw [insertPlace, hnone]
    rw [hfull]
    exact .inr ⟨hfree, oldest_least s⟩

theorem insert_flow_info_rest {i : Fin seqlist} (hi : i ≠ 0) :
    ((insertFlowInfo ptr s).flowSeqList (insertPlace s)).seqList i =
      (s.flowSeqList (insertPlace s)).seqList i := by
  rw [insert_flow_info_place]
  exact Function.update_of_ne hi _ _

/-- A new flow starts clean exactly if its slot has been left clean. -/
theorem starts_clean_iff (ptr : DataWinsize) (s : State seqlist) :
    StartsClean ptr s (insertFlowInfo ptr s) (insertPlace s) ↔ NothingLeft s := by
  constructor
  · intro hclean i hi
    have hunused := hclean.rest i hi
    rwa [insert_flow_info_rest hi] at hunused
  · intro hleft
    refine ⟨insert_place_chosen s, ?_, ?_, ?_, fun i hi => ?_, fun j => insert_flow_info_other⟩
    · exact congrArg WinsizeRecord.tuple insert_flow_info_place
    · exact congrArg WinsizeRecord.sec insert_flow_info_place
    · simp only [insert_flow_info_place, Function.update_self]
    · rw [insert_flow_info_rest hi]
      exact hleft i hi

/-- What the slot's last flow left is the new flow's history: a first segment with
such a number counts as a retransmission. -/
theorem left_number_counts (hnone : findFlow ptr.tuple s = none) (hsec : ptr.sec ≠ 0)
    {data : DataWinsize} (htuple : data.tuple = ptr.tuple) (hdata : data.datalength ≠ 0)
    {i : Fin seqlist} (hi : i ≠ 0)
    (hseq : ((s.flowSeqList (insertPlace s)).seqList i).seq = data.sequence)
    (hne : data.sequence ≠ -1)
    (honly : ∀ j, (((insertFlowInfo ptr s).flowSeqList (insertPlace s)).seqList j).seq =
      data.sequence → j = i) :
    (recordData data (insertFlowInfo ptr s)).countRetrans = s.countRetrans + 1 := by
  have hfound : findFlow data.tuple (insertFlowInfo ptr s) = some (insertPlace s) := by
    rw [htuple]
    exact find_flow_insert hnone hsec
  have hleft : (((insertFlowInfo ptr s).flowSeqList (insertPlace s)).seqList i).seq =
      data.sequence := by
    rw [insert_flow_info_rest hi]
    exact hseq
  rw [recordData, if_pos hdata]
  simp only [hfound]
  rw [search_found hleft hne honly]
  rfl

/-- A full table, with the number 7 at every place of every slot. -/
def worn : State seqlist where
  flowSeqList := fun _ => ⟨⟨1, 2, 3, 4⟩, fun _ => ⟨7, 1, 0⟩, 1⟩
  retransTimes := ⟨fun _ => ⟨0, 0⟩, 0⟩
  winsizeTimes := ⟨fun _ => ⟨0, 0⟩, 0⟩
  countRetrans := 0

theorem worn_not_clean (ptr : DataWinsize) {i : Fin seqlist} (hi : i ≠ 0) :
    ¬ StartsClean ptr (worn : State seqlist) (insertFlowInfo ptr worn) (insertPlace worn) := by
  intro hclean
  have hunused := hclean.rest i hi
  rw [insert_flow_info_rest hi] at hunused
  exact absurd hunused (by decide : ¬ SeqInfo.Unused ⟨7, 1, 0⟩)

/-- The flow that is evicted leaves its numbers behind. -/
theorem evicted_numbers_left : ¬ ∀ (s : State 10000) ptr,
    StartsClean ptr s (insertFlowInfo ptr s) (insertPlace s) :=
  fun h => worn_not_clean syn (Fin.last_pos.ne' : Fin.last 9999 ≠ 0) (h worn syn)

/-- In the empty table a flow starts clean. -/
theorem starts_clean_iff_empty : StartsClean syn (initial : State 10000)
    (insertFlowInfo syn initial) (insertPlace initial) :=
  (starts_clean_iff syn initial).mpr fun _ _ => .inl rfl

end ApTelemetry.Receiver.Flows
