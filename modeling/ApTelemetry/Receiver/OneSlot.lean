import ApTelemetry.Lib.Slots
import ApTelemetry.Receiver.Retrans

namespace ApTelemetry.Receiver.Flows
open Lib

variable {seqlist : Nat}

/-- An entry that one of the two tests takes for occupied: `insert_flow_info`
looks at the port and `ack_flow_info` at the seconds. -/
def WinsizeRecord.Occupied (tmp : WinsizeRecord seqlist) : Prop :=
  tmp.tuple.sourceaddr ≠ 0 ∨ tmp.sec ≠ 0

instance (tmp : WinsizeRecord seqlist) : Decidable tmp.Occupied :=
  inferInstanceAs (Decidable (tmp.tuple.sourceaddr ≠ 0 ∨ tmp.sec ≠ 0))

def WinsizeRecord.slot (tmp : WinsizeRecord seqlist) : Option FourTuple :=
  if tmp.Occupied then some tmp.tuple else none

/-- `flow_seq_list` as a table of 4-tuples. -/
def slots (s : State seqlist) : Slots (Fin seqlist) FourTuple :=
  fun i => (s.flowSeqList i).slot

theorem slot_eq_some {tmp : WinsizeRecord seqlist} {tuple : FourTuple} :
    tmp.slot = some tuple ↔ tmp.Occupied ∧ tmp.tuple = tuple := by
  rw [WinsizeRecord.slot]
  split <;> simp [*]

theorem slot_congr {tmp tmp' : WinsizeRecord seqlist} (hsec : tmp.sec = tmp'.sec)
    (htuple : tmp.tuple = tmp'.tuple) : tmp.slot = tmp'.slot := by
  have hoccupied : tmp.Occupied ↔ tmp'.Occupied := by
    simp only [WinsizeRecord.Occupied, hsec, htuple]
  simp only [WinsizeRecord.slot, hoccupied, htuple]

/-- What the table promises when a packet has been processed. -/
structure Consistent (ptr : DataWinsize) (t : State seqlist) : Prop where
  unique : (slots t).Unique
  cleared : ptr.flags &&& 0x0017 = 17 → ¬ (slots t).Holds ptr.tuple

section Operations

variable {s : State seqlist} {ptr : DataWinsize}

theorem slots_clear_acknowledged : slots (clearAcknowledged ptr s) = slots s := by
  funext i
  exact slot_congr (clear_acknowledged_fields i).1 (clear_acknowledged_fields i).2

theorem slots_clear_flow_info : slots (clearFlowInfo ptr s) =
    match Fin.find? fun i => (s.flowSeqList i).tuple = ptr.tuple with
    | some i => Function.update (slots s) i none
    | none => slots s := by
  unfold clearFlowInfo
  cases Fin.find? fun i => decide ((s.flowSeqList i).tuple = ptr.tuple) with
  | none => rfl
  | some place =>
    funext i
    by_cases hi : i = place
    · subst hi
      simp only [slots, Function.update_self]
      rfl
    · simp only [slots, Function.update_of_ne hi]

theorem clear_flow_info_unique (h : (slots s).Unique) : (slots (clearFlowInfo ptr s)).Unique := by
  rw [slots_clear_flow_info]
  split
  · exact h.free _
  · exact h

/-- Clearing frees the first slot that carries the 4-tuple, occupied or not. -/
theorem clear_flow_info_holds_iff : ¬ (slots (clearFlowInfo ptr s)).Holds ptr.tuple ↔
      ∀ i, slots s i = some ptr.tuple → ∀ j < i, (s.flowSeqList j).tuple ≠ ptr.tuple := by
  rw [slots_clear_flow_info]
  cases hfind : Fin.find? fun i => decide ((s.flowSeqList i).tuple = ptr.tuple) with
  | none =>
    have hnone : ∀ i, (s.flowSeqList i).tuple ≠ ptr.tuple := by
      simpa [Fin.find?_eq_none_iff] using hfind
    constructor
    · intro _ i _ j _
      exact hnone j
    · rintro - ⟨i, hi⟩
      exact hnone i (slot_eq_some.mp hi).2
  | some first =>
    rw [Fin.find?_eq_some_iff] at hfind
    obtain ⟨hfirst, hbefore⟩ := hfind
    simp only [decide_eq_true_eq] at hfirst hbefore
    simp only [Slots.free_holds_iff]
    constructor
    · intro hno i hi j hj hcarries
      refine hno ⟨i, hi, ?_⟩
      rintro rfl
      exact absurd hcarries (by simpa using hbefore j hj)
    · rintro honly ⟨i, hi, hne⟩
      have hle : ¬ i < first := fun hlt =>
        absurd (slot_eq_some.mp hi).2 (by simpa using hbefore i hlt)
      exact honly i hi first (by omega) hfirst

variable [NeZero seqlist]

/-- What a new entry holds in the eyes of the table. -/
def newSlot (ptr : DataWinsize) : Option FourTuple :=
  if ptr.sourceaddr ≠ 0 ∨ ptr.sec ≠ 0 then some ptr.tuple else none

theorem slots_insert_flow_info :
    slots (insertFlowInfo ptr s) = Function.update (slots s) (insertPlace s) (newSlot ptr) := by
  funext i
  by_cases hi : i = insertPlace s
  · subst hi
    rw [slots, insert_flow_info_place, Function.update_self]
    rfl
  · rw [slots, insert_flow_info_other hi, Function.update_of_ne hi, slots]

theorem slots_of_creates (h : Creates s ptr) : slots (decodeWinsize ptr s) =
    Function.update (slots s) (insertPlace s) (newSlot ptr) := by
  have hinsert : slots (insertFlowInfo ptr (logTime ptr s)) =
      Function.update (slots s) (insertPlace s) (newSlot ptr) := slots_insert_flow_info
  rcases h with hsyn | hsyn | ⟨hack, hdata, hnone⟩
  · rw [decodeWinsize, handleFlags, if_pos (.inl hsyn), hinsert]
  · rw [decodeWinsize, handleFlags, if_pos (.inr hsyn), hinsert]
  · have hfind : findFlow ptr.tuple (logTime ptr s) = none := hnone
    rw [decodeWinsize, handle_flags_ack hack, ackFlowInfo, slots_clear_acknowledged, recordData,
      if_pos hdata]
    simp only [hfind, hinsert]

theorem slots_of_fin (hfin : ptr.flags &&& 0x0017 = 17) :
    slots (decodeWinsize ptr s) = slots (clearFlowInfo ptr s) := by
  have hflags : handleFlags ptr (logTime ptr s) = clearFlowInfo ptr (logTime ptr s) := by
    simp only [handleFlags, hfin]
    rw [if_neg (by decide), if_pos (.inl trivial)]
  rw [decodeWinsize, hflags, slots_clear_flow_info, slots_clear_flow_info]
  rfl

omit [NeZero seqlist] in
theorem not_creates_of_fin (hfin : ptr.flags &&& 0x0017 = 17) : ¬ Creates s ptr := by
  rintro (h | h | ⟨h, -, -⟩)
  · exact absurd (hfin.symm.trans h) (by decide)
  · exact absurd (hfin.symm.trans h) (by decide)
  · exact absurd (hfin.symm.trans h) (by decide)

/-- Data of a flow that has its entry changes no slot. -/
theorem slots_record_known (hknown : ptr.datalength ≠ 0 → findFlow ptr.tuple s ≠ none) :
    slots (recordData ptr s) = slots s := by
  unfold recordData
  split
  · rename_i hdata
    obtain ⟨found, hfound⟩ := Option.ne_none_iff_exists'.mp (hknown hdata)
    simp only [hfound]
    funext i
    by_cases hi : i = found
    · subst hi
      simp only [slots, Function.update_self]
      exact slot_congr rfl rfl
    · simp only [slots, Function.update_of_ne hi]
  · rfl

theorem slots_of_other (hcreates : ¬ Creates s ptr) (hfin : ptr.flags &&& 0x0017 ≠ 17) :
    slots (decodeWinsize ptr s) = slots s := by
  have hsyn : ¬ (ptr.flags &&& 0x0017 = 2 ∨ ptr.flags &&& 0x0017 = 18) :=
    fun h => hcreates (h.elim .inl fun h => .inr (.inl h))
  by_cases hack : PureAck ptr
  · rw [decodeWinsize, handle_flags_ack hack, ackFlowInfo, slots_clear_acknowledged]
    refine slots_record_known fun hdata hnone => hcreates (.inr (.inr ⟨hack, hdata, hnone⟩))
  · have hbit := rst_bit ptr.flags
    have hflags : ptr.flags &&& 0x0017 ≠ 16 := hack
    simp only [decodeWinsize, handleFlags, if_neg hsyn, hfin, hbit, or_self, if_false,
      if_neg hflags]
    rfl

end Operations

theorem slots_initial (i : Fin seqlist) : slots (initial : State seqlist) i = none := by
  simp [slots, initial, zeroRecord, WinsizeRecord.slot, WinsizeRecord.Occupied]

variable [NeZero seqlist]

/-- A packet the table stays consistent under: a new entry takes the slot its
4-tuple is in, if it is in one, and the entry to clear is the first with its
4-tuple. -/
structure Single (s : State seqlist) (ptr : DataWinsize) : Prop where
  created : Creates s ptr → ptr.sourceaddr ≠ 0 ∨ ptr.sec ≠ 0 →
    ∀ i, slots s i = some ptr.tuple → i = insertPlace s
  cleared : ptr.flags &&& 0x0017 = 17 →
    ∀ i, slots s i = some ptr.tuple → ∀ j < i, (s.flowSeqList j).tuple ≠ ptr.tuple

theorem consistent_iff {s : State seqlist} (h : (slots s).Unique) (ptr : DataWinsize) :
    Consistent ptr (decodeWinsize ptr s) ↔ Single s ptr := by
  by_cases hcreates : Creates s ptr
  · have hfin : ptr.flags &&& 0x0017 ≠ 17 := fun hfin => not_creates_of_fin hfin hcreates
    have hslots : slots (decodeWinsize ptr s) =
        Function.update (slots s) (insertPlace s) (newSlot ptr) := slots_of_creates hcreates
    have hunique : (slots (decodeWinsize ptr s)).Unique ↔
        (ptr.sourceaddr ≠ 0 ∨ ptr.sec ≠ 0 →
          ∀ i, slots s i = some ptr.tuple → i = insertPlace s) := by
      rw [hslots, newSlot]
      split
      · rename_i hoccupied
        rw [h.take_iff]
        simp only [hoccupied, forall_const]
      · rename_i hoccupied
        simp only [h.free, hoccupied, false_implies]
    constructor
    · intro hc
      exact ⟨fun _ => hunique.mp hc.unique, fun h => absurd h hfin⟩
    · intro hs
      exact ⟨hunique.mpr (hs.created hcreates), fun h => absurd h hfin⟩
  · by_cases hfin : ptr.flags &&& 0x0017 = 17
    · have hslots : slots (decodeWinsize ptr s) = slots (clearFlowInfo ptr s) := slots_of_fin hfin
      have hcleared : ¬ (slots (decodeWinsize ptr s)).Holds ptr.tuple ↔
          ∀ i, slots s i = some ptr.tuple → ∀ j < i, (s.flowSeqList j).tuple ≠ ptr.tuple := by
        rw [hslots]
        exact clear_flow_info_holds_iff
      constructor
      · intro hc
        exact ⟨fun hne => absurd hne hcreates, fun _ => hcleared.mp (hc.cleared hfin)⟩
      · intro hs
        exact ⟨hslots ▸ clear_flow_info_unique h, fun _ => hcleared.mpr (hs.cleared hfin)⟩
    · have hslots : slots (decodeWinsize ptr s) = slots s := slots_of_other hcreates hfin
      exact iff_of_true ⟨hslots ▸ h, fun hne => absurd hne hfin⟩
        ⟨fun hne => absurd hne hcreates, fun hne => absurd hne hfin⟩

/-- The table stays one slot a flow through a run exactly if every packet of the
run meets `Single`. -/
theorem one_slot_iff (packets : List DataWinsize) :
    machine.Throughout (fun _ ptr r => ∃ t : Run seqlist, r = .ok t ∧ Consistent ptr t.flows)
      machine.start packets ↔
    machine.Throughout (fun (s : Run seqlist) ptr _ => Single s.flows ptr)
      machine.start packets := by
  have hunique : (slots (initial : State seqlist)).Unique := by
    intro i j key hi
    exact absurd ((slots_initial i).symm.trans hi) nofun
  refine Machine.throughout_iff (fun s => (slots s.flows).Unique) ?_ ?_ hunique packets
  · intro s ptr hs _
    rw [← consistent_iff hs ptr]
    constructor
    · rintro ⟨t, ht, hconsistent⟩
      rwa [← Except.ok.inj ht] at hconsistent
    · intro hconsistent
      exact ⟨_, rfl, hconsistent⟩
  · intro s ptr t hs _ hsingle ht
    rw [← Except.ok.inj ht]
    exact ((consistent_iff hs ptr).mpr hsingle).unique

/-- The first packet of a flow has its slot to itself. -/
theorem one_slot_iff_segment : (machine : Machine (Run 10000) DataWinsize Fault).Throughout
    (fun _ ptr r => ∃ t : Run 10000, r = .ok t ∧ Consistent ptr t.flows)
    machine.start [segment 5] := by
  refine (one_slot_iff [segment 5]).mpr fun _ => ⟨⟨?_, ?_⟩, fun _ _ => trivial⟩
  · intro _ _ i hi
    exact absurd ((slots_initial i).symm.trans hi) nofun
  · intro _ i hi
    exact absurd ((slots_initial i).symm.trans hi) nofun

/-- As long as one entry has no port, none that has one is overwritten. -/
theorem insert_place_free {s : State seqlist}
    (h : ∃ i, (s.flowSeqList i).tuple.sourceaddr = 0) :
    (s.flowSeqList (insertPlace s)).tuple.sourceaddr = 0 := by
  unfold insertPlace
  split
  · rename_i hfind
    simpa using (Fin.find?_eq_some_iff.mp hfind).1
  · rename_i hfind
    obtain ⟨i, hi⟩ := h
    simp at hfind
    exact absurd hi (hfind i)

/-- A second SYN of a flow takes a second slot. -/
theorem repeated_syn {s : State seqlist} {ptr : DataWinsize} (hcreates : Creates s ptr)
    (hport : ptr.sourceaddr ≠ 0) {i : Fin seqlist} (hi : slots s i = some ptr.tuple)
    (hfree : ∃ j, (s.flowSeqList j).tuple.sourceaddr = 0) : ¬ Single s ptr := by
  intro hsingle
  obtain rfl := hsingle.created hcreates (.inl hport) i hi
  have hzero := insert_place_free hfree
  rw [(slot_eq_some.mp hi).2] at hzero
  exact hport hzero

def syn : DataWinsize := { segment 5 with flags := 2 }

/-- A handshake whose first packet is sent twice leaves two slots of one flow. -/
theorem syn_twice : ¬ ∀ packets,
    (machine : Machine (Run 10000) DataWinsize Fault).Throughout
      (fun _ ptr r => ∃ t : Run 10000, r = .ok t ∧ Consistent ptr t.flows)
      machine.start packets := by
  intro h
  have hcreates : ∀ s : State 10000, Creates s syn := fun s =>
    .inl (show (2 : U16) &&& 0x0017 = 2 by decide)
  obtain ⟨⟨t, ht, hfirst⟩, hnext⟩ := h [syn, syn] trivial
  obtain ⟨⟨u, hu, hsecond⟩, -⟩ := hnext t ht trivial
  obtain rfl := Except.ok.inj hu
  obtain rfl := Except.ok.inj ht
  have hslots := slots_of_creates (hcreates initial)
  have hother : ∃ j : Fin 10000, j ≠ insertPlace initial := exists_ne _
  refine repeated_syn (hcreates _) (by decide) (i := insertPlace initial) ?_ ?_
    ((consistent_iff hfirst.unique syn).mp hsecond)
  · exact (congrFun hslots _).trans (Function.update_self ..)
  · obtain ⟨j, hj⟩ := hother
    have hfree : slots (decodeWinsize syn initial) j = none := by
      rw [hslots, Function.update_of_ne hj, slots_initial]
    refine ⟨j, ?_⟩
    by_contra hport
    have hsome := slot_eq_some.mpr ⟨Or.inl hport, rfl⟩
    exact absurd (hfree.symm.trans hsome) nofun

end ApTelemetry.Receiver.Flows
