import ApTelemetry.NewReceiver.Scaling
import ApTelemetry.Receiver.Retrans

namespace ApTelemetry
open Lib

/-- A packet that ends its connection has FIN or RST set. -/
def Closing (flags : U16) : Prop := flags &&& 0x0001 ≠ 0 ∨ flags &&& 0x0004 ≠ 0

/-- The other branches are not for it. -/
theorem Closing.masked {flags : U16} (h : Closing flags) :
    flags &&& 0x0017 ≠ 2 ∧ flags &&& 0x0017 ≠ 18 ∧ flags &&& 0x0017 ≠ 16 := by
  have hfin : flags &&& 0x0001 = flags &&& 0x0017 &&& 0x0001 := by
    rw [BitVec.and_assoc]
    rfl
  have hrst : flags &&& 0x0004 = flags &&& 0x0017 &&& 0x0004 := by
    rw [BitVec.and_assoc]
    rfl
  rw [Closing, hfin, hrst] at h
  refine ⟨?_, ?_, ?_⟩ <;>
  · intro he
    rw [he] at h
    exact absurd h (by decide)

namespace Receiver.Flows

variable {seqlist : Nat}

/-- A direction has an entry: one that is not as `memset` leaves it. -/
def HasEntry (tuple : FourTuple) (s : State seqlist) : Prop :=
  ∃ i, s.flowSeqList i ≠ zeroRecord ∧ (s.flowSeqList i).tuple = tuple

def Closed (tuple : FourTuple) (s : State seqlist) : Prop :=
  ¬ HasEntry tuple s ∧ ¬ HasEntry tuple.reverse s

/-- The only entry of either direction is the first one of the direction of the
packet, which `clear_flow_info` finds on FIN and ACK. -/
def OnlyFirst (ptr : DataWinsize) (s : State seqlist) : Prop :=
  ∀ i, s.flowSeqList i ≠ zeroRecord →
    (s.flowSeqList i).tuple = ptr.tuple ∨ (s.flowSeqList i).tuple = ptr.tuple.reverse →
    ptr.flags &&& 0x0017 = 17 ∧
      (Fin.find? fun j => (s.flowSeqList j).tuple = ptr.tuple) = some i

/-- A flow the search finds has an entry. -/
theorem has_entry_of_recorded {ptr : DataWinsize} {s : Run seqlist} {time : Time}
    (h : recordedFor ptr s = some time) : HasEntry ptr.tuple s.flows := by
  obtain ⟨i, hfind, _⟩ := Option.bind_eq_some_iff.mp h
  have hfound := (Fin.find?_eq_some_iff.mp hfind).1
  simp only [ne_eq, decide_eq_true_eq] at hfound
  refine ⟨i, fun hzero => hfound.1 ?_, hfound.2⟩
  rw [hzero]
  rfl

theorem closed_iff_entries {tuple : FourTuple} {s : State seqlist} : Closed tuple s ↔
    ∀ i, s.flowSeqList i ≠ zeroRecord →
      ¬ ((s.flowSeqList i).tuple = tuple ∨ (s.flowSeqList i).tuple = tuple.reverse) := by
  constructor
  · rintro ⟨hnone, hreverse⟩ i hused (heq | heq)
    · exact hnone ⟨i, hused, heq⟩
    · exact hreverse ⟨i, hused, heq⟩
  · intro h
    exact ⟨fun ⟨i, hused, heq⟩ => h i hused (.inl heq), fun ⟨i, hused, heq⟩ => h i hused (.inr heq)⟩

theorem clear_flow_info_closed (ptr : DataWinsize) (s : State seqlist)
    (hflags : ptr.flags &&& 0x0017 = 17) :
    Closed ptr.tuple (clearFlowInfo ptr s) ↔ OnlyFirst ptr s := by
  rw [closed_iff_entries]
  cases hfind : Fin.find? fun j => decide ((s.flowSeqList j).tuple = ptr.tuple) with
  | none =>
    simp only [clearFlowInfo, hfind]
    refine forall_congr' fun i => imp_congr_right fun _ => ?_
    simp [hfind]
  | some first =>
    simp only [clearFlowInfo, hfind]
    refine forall_congr' fun i => ?_
    by_cases hi : i = first
    · subst hi
      simp only [Function.update_self, ne_eq, not_true_eq_false, false_implies, hflags, hfind,
        and_self, implies_true]
    · have hne : first ≠ i := Ne.symm hi
      simp [Function.update_of_ne hi, hfind, hne]

theorem handle_flags_closing [NeZero seqlist] {ptr : DataWinsize} (h : Closing ptr.flags)
    (s : State seqlist) :
    handleFlags ptr s = if ptr.flags &&& 0x0017 = 17 then clearFlowInfo ptr s else s := by
  obtain ⟨h2, h18, h16⟩ := h.masked
  have hbit := rst_bit ptr.flags
  simp only [handleFlags, h2, h18, h16, hbit, or_self, or_false, if_false]

/-- A reset is no close to `decode_winsize`. -/
theorem reset_keeps_entry [NeZero seqlist] {ptr : DataWinsize} {s : State seqlist}
    (hclosing : Closing ptr.flags) (hflags : ptr.flags &&& 0x0017 ≠ 17)
    (h : HasEntry ptr.tuple s) : ¬ Closed ptr.tuple (decodeWinsize ptr s) := by
  rw [decodeWinsize, handle_flags_closing hclosing, if_neg hflags]
  exact fun hclosed => hclosed.1 h

/-- After a closing packet its connection has no entry exactly if the packet was
FIN and ACK and the entry it clears was the only one. -/
theorem decode_winsize_closed_iff [NeZero seqlist] {ptr : DataWinsize} (h : Closing ptr.flags)
    (s : State seqlist) : Closed ptr.tuple (decodeWinsize ptr s) ↔ OnlyFirst ptr s := by
  rw [decodeWinsize, handle_flags_closing h]
  split
  · rename_i hflags
    exact clear_flow_info_closed ptr (logTime ptr s) hflags
  · rename_i hflags
    have hsame : Closed ptr.tuple (logTime ptr s) ↔ Closed ptr.tuple s := Iff.rfl
    rw [hsame, closed_iff_entries]
    refine forall_congr' fun i => imp_congr_right fun _ => ?_
    simp only [hflags, false_and]

/-- After one segment only the entry of its flow is in use. -/
theorem only_first_after_segment [NeZero seqlist] {sequence : U32} {flags : U16}
    (hflags : flags &&& 0x0017 = 17) :
    OnlyFirst { segment sequence with flags } (afterSegment seqlist sequence).flows := by
  intro i hused hours
  have hplace : i = insertPlace (logTime (segment sequence) initial) := by
    by_contra hother
    exact hused (after_segment_other hother)
  have htuple : ((afterSegment seqlist sequence).flows.flowSeqList i).tuple =
      (segment sequence).tuple := by
    rw [hplace]
    exact after_segment_tuple sequence
  refine ⟨hflags, Fin.find?_eq_some_iff.mpr ⟨decide_eq_true htuple, fun j hj => ?_⟩⟩
  rw [after_segment_other (hplace ▸ ne_of_lt hj)]
  exact decide_eq_false (by decide : (⟨0, 0, 0, 0⟩ : FourTuple) ≠ ⟨1, 2, 80, 8080⟩)

end Receiver.Flows

namespace NewReceiver
open HashLin

/-- Neither direction of the connection is found in the table. -/
def Closed (f : Flow) (table : Table) : Prop :=
  lookupNode f.str table = .ok none ∧ lookupNode f.reverse.str table = .ok none

theorem handle_flags_closing {p : Packet} (h : Closing p.rdata.flags) (table : Table) :
    handleFlags p table = if p.flags = 17 then do
        let table ← removeFound p.flow.str table
        let table ← removeFound p.flow.reverse.str table
        .ok (table, some (p.rdata.windowsize.setWidth 32))
      else .ok (table, some (p.rdata.windowsize.setWidth 32)) := by
  obtain ⟨h2, h18, h16⟩ := h.masked
  have h2' : p.flags ≠ 2 := h2
  have h18' : p.flags ≠ 18 := h18
  have h16' : p.flags ≠ 16 := h16
  simp only [handleFlags, h2', h18', h16', rst_test, or_self, or_false, ne_eq, not_true_eq_false,
    if_false]

/-- After a closing packet the table has no entry for its connection exactly if
the packet was FIN and ACK or there was none before. -/
theorem decode_winsize_closed_iff {s : State} {chains : Fin hashTableMaxSize → List Node}
    (h : Holds s.table chains) {p : Packet} (hclosing : Closing p.rdata.flags)
    (hreadable : ∀ f ∈ p.keys, f.Readable) :
    ∃ t, decodeWinsize p s = .ok t ∧
      (Closed p.flow t.table ↔ p.flags = 17 ∨ Closed p.flow s.table) := by
  by_cases hflags : p.flags = 17
  · obtain ⟨k, hk⟩ := (hreadable p.flow (by simp [Packet.keys, hflags])).key
    obtain ⟨kr, hkr⟩ := (hreadable p.flow.reverse (by simp [Packet.keys, hflags])).key
    obtain ⟨table₁, chains₁, hrun₁, hholds₁, hcontent₁⟩ := remove_found h hk
    obtain ⟨table₂, chains₂, hrun₂, hholds₂, hcontent₂⟩ := remove_found hholds₁ hkr
    refine ⟨⟨table₂, s.log ++ [⟨{ p.rdata with flags := p.flags },
      some (p.rdata.windowsize.setWidth 32)⟩]⟩, ?_, iff_of_true ⟨?_, ?_⟩ (.inl hflags)⟩
    · simp only [decodeWinsize, handle_flags_closing hclosing, if_pos hflags, hrun₁, hrun₂, bind,
        Except.bind]
    · rw [hholds₂.lookup hk, hcontent₂, hcontent₁]
      by_cases hslot : k.slot = kr.slot
      · rw [hslot, Function.update_self]
      · rw [Function.update_of_ne hslot, Function.update_self]
    · rw [hholds₂.lookup hkr, hcontent₂, Function.update_self]
  · refine ⟨⟨s.table, s.log ++ [⟨{ p.rdata with flags := p.flags },
      some (p.rdata.windowsize.setWidth 32)⟩]⟩, ?_, by simp only [hflags, false_or]⟩
    simp only [decodeWinsize, handle_flags_closing hclosing, if_neg hflags, bind, Except.bind]

/-- A key without a NUL is read behind its end. -/
theorem decode_winsize_unterminated {p : Packet} (hflags : p.flags = 17) (hnul : 0 ∉ p.flow.str)
    (s : State) : decodeWinsize p s = .error .outside := by
  have hlookup : hashTableLookup p.flow.str s.table = .error .outside := by
    simp only [hashTableLookup, hash_pos_unterminated hnul, bind, Except.bind]
  have hremove : removeFound p.flow.str s.table = .error .outside := by
    simp only [removeFound, hlookup, bind, Except.bind]
  simp only [decodeWinsize, handleFlags, hflags]
  rw [if_neg (by decide), if_pos (.inl trivial)]
  simp only [hremove, bind, Except.bind]

end NewReceiver

end ApTelemetry
