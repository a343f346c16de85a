import ApTelemetry.NewReceiver.Winsize
import Mathlib.Order.Basic

namespace ApTelemetry.NewReceiver
open Lib HashLin

section Shifts

/-- Shifts of a word differ as long as its last bit stays in one of them. -/
theorem shift_ne_of_lt {w : BitVec 32} {i a b : Nat} (hi : w.getLsbD i)
    (hleast : ∀ j < i, w.getLsbD j = false) (hab : a < b) (hfits : i + a < 32) :
    w <<< a ≠ w <<< b := by
  intro he
  have hbit := congrArg (BitVec.getLsbD · (i + a)) he
  simp only [BitVec.getLsbD_shiftLeft, hfits, decide_true, Bool.true_and, Nat.add_sub_cancel,
    hi, Bool.and_true] at hbit
  by_cases hlt : i + a < b
  · simp [hlt] at hbit
  · have hlow := hleast (i + a - b) (by omega)
    simp [hlow] at hbit

theorem exists_last_bit {w : Nat} {v : BitVec w} (hv : v ≠ 0#w) :
    ∃ i, v.getLsbD i ∧ ∀ j < i, v.getLsbD j = false := by
  have hbit : ∃ i, v.getLsbD i := by
    by_contra hnone
    push Not at hnone
    exact hv (BitVec.eq_of_getLsbD_eq fun i _ => by simpa using hnone i)
  refine ⟨Nat.find hbit, Nat.find_spec hbit, fun j hj => ?_⟩
  simpa using Nat.find_min hbit hj

theorem shift_eq_iff (windowsize : U16) {a b : Nat} (hb : b ≤ 14) :
    windowsize.setWidth 32 <<< a = windowsize.setWidth 32 <<< b ↔ windowsize = 0 ∨ a = b := by
  constructor
  · intro he
    by_cases hzero : windowsize = 0
    · exact .inl hzero
    obtain ⟨i, hi, hleast⟩ := exists_last_bit hzero
    have hi16 := BitVec.lt_of_getLsbD hi
    have hi' : (windowsize.setWidth 32).getLsbD i := by
      rw [BitVec.getLsbD_setWidth, hi]
      simp
      omega
    have hleast' : ∀ j < i, (windowsize.setWidth 32).getLsbD j = false := by
      intro j hj
      rw [BitVec.getLsbD_setWidth, hleast j hj, Bool.and_false]
    rcases Nat.lt_trichotomy a b with hab | hab | hab
    · exact absurd he (shift_ne_of_lt hi' hleast' hab (by omega))
    · exact .inr hab
    · exact absurd he.symm (shift_ne_of_lt hi' hleast' hab (by omega))
  · rintro (rfl | rfl)
    · simp
    · rfl

end Shifts

def Flow.slot (f : Flow) : Slot := strSlot f.str

/-- A trace being decoded. `remembered` is the number last stored for a flow by
the rules of `decode_winsize`, `announced` the window scale of the last SYN or
SYN and ACK of a direction; both follow from the packets alone, and nothing of
the code reads them. -/
structure Run where
  state : State
  remembered : Flow → Option U32
  announced : FourTuple → Option U32

/-- A SYN sets the number of its direction, FIN and ACK forgets both directions,
and an acknowledgement sets the number of the reverse direction if there is none. -/
def remember (p : Packet) (remembered : Flow → Option U32) : Flow → Option U32 :=
  if p.flags = 2 ∨ p.flags = 18 then Function.update remembered p.flow (some p.wscale)
  else if p.flags = 17 then
    Function.update (Function.update remembered p.flow none) p.flow.reverse none
  else if p.flags = 16 ∧ remembered p.flow.reverse = none then
    Function.update remembered p.flow.reverse (some p.wscale)
  else remembered

/-- The option of kind 3 is the window scale. -/
def announce (p : Packet) (announced : FourTuple → Option U32) : FourTuple → Option U32 :=
  if p.flags = 2 ∨ p.flags = 18 then
    Function.update announced p.rdata.tuple (if p.rdata.wscale0 = 3 then some p.wscale else none)
  else announced

def Run.exec (s : Run) (p : Packet) : Except Fault Run := do
  let state ← decodeWinsize p s.state
  .ok ⟨state, remember p s.remembered, announce p s.announced⟩

def traceMachine (start : Table) : Machine Run Packet Fault :=
  ⟨⟨⟨hashTableInit start, []⟩, fun _ => none, fun _ => none⟩, fun s p => enabled s.state p,
    Run.exec⟩

/-- No other flow is remembered in the slot of this one. -/
def ApartFrom (remembered : Flow → Option U32) (f : Flow) : Prop :=
  ∀ g, remembered g ≠ none → g.slot = f.slot → g = f

/-- A packet the table takes as it is meant: the keys it builds can be read and meet no other
flow, and a new entry has room. -/
structure Tabled (s : Run) (p : Packet) : Prop where
  readable : ∀ f ∈ p.keys, f.Readable
  apart : ∀ f ∈ p.keys, ApartFrom s.remembered f
  room : p.flags = 2 ∨ p.flags = 18 ∨ p.flags = 16 ∧ s.remembered p.flow.reverse = none →
    s.state.table.hashTableSize < hashTableMaxSize

/-- A table that holds the numbers remembered, each flow in a slot of its own. -/
structure Remembers (m : Slot → Option HashNode) (remembered : Flow → Option U32) : Prop where
  found : ∀ f v, remembered f = some v → ∃ n, m f.slot = some n ∧ n.nValue = v
  only : ∀ c n, m c = some n → ∃ f, remembered f ≠ none ∧ f.slot = c
  apart : ∀ f, remembered f ≠ none → ApartFrom remembered f

namespace Remembers

variable {m : Slot → Option HashNode} {remembered : Flow → Option U32} {f : Flow}

theorem empty : Remembers (fun _ => none) fun _ => none where
  found := fun _ _ h => nomatch h
  only := fun _ _ h => nomatch h
  apart := fun _ h => absurd rfl h

theorem lookup (h : Remembers m remembered) (hf : ApartFrom remembered f) :
    (m f.slot).map HashNode.nValue = remembered f := by
  cases hrem : remembered f with
  | some v =>
    obtain ⟨n, hn, rfl⟩ := h.found f v hrem
    rw [hn]
    rfl
  | none =>
    cases hm : m f.slot with
    | none => rfl
    | some n =>
      obtain ⟨g, hg, hslot⟩ := h.only f.slot n hm
      obtain rfl := hf g hg hslot
      exact absurd hrem hg

/-- Another node under the key of a flow, or none. -/
theorem store (h : Remembers m remembered) (hf : ApartFrom remembered f) (node : Option HashNode) :
    Remembers (Function.update m f.slot node)
      (Function.update remembered f (node.map HashNode.nValue)) where
  found := by
    intro g v hg
    by_cases hgf : g = f
    · subst hgf
      rw [Function.update_self] at hg ⊢
      exact Option.map_eq_some_iff.mp hg
    · rw [Function.update_of_ne hgf] at hg
      obtain ⟨n, hn, hv⟩ := h.found g v hg
      refine ⟨n, ?_, hv⟩
      rw [Function.update_of_ne, hn]
      exact fun hslot => hgf (hf g (by simp [hg]) hslot)
  only := by
    intro c n hc
    by_cases hcf : c = f.slot
    · subst hcf
      rw [Function.update_self] at hc
      exact ⟨f, by simp [hc], rfl⟩
    · rw [Function.update_of_ne hcf] at hc
      obtain ⟨g, hg, rfl⟩ := h.only c n hc
      refine ⟨g, ?_, rfl⟩
      rwa [Function.update_of_ne]
      rintro rfl
      exact hcf rfl
  apart := by
    intro g hg g' hg' hslot
    by_cases hgf : g = f
    · subst hgf
      by_cases hg'g : g' = g
      · exact hg'g
      · rw [Function.update_of_ne hg'g] at hg'
        exact hf g' hg' hslot
    · rw [Function.update_of_ne hgf] at hg
      by_cases hg'f : g' = f
      · subst hg'f
        exact (hf g hg hslot.symm).symm
      · rw [Function.update_of_ne hg'f] at hg'
        exact h.apart g hg g' hg' hslot

theorem apart_of_forget (hf : ApartFrom remembered f) (g : Flow) :
    ApartFrom (Function.update remembered g none) f := by
  intro g' hg' hslot
  refine hf g' ?_ hslot
  intro hnone
  by_cases hg : g' = g
  · subst hg
    exact hg' (Function.update_self ..)
  · exact hg' (by rw [Function.update_of_ne hg, hnone])

end Remembers

/-- The table of a trace holds what the trace remembers. -/
def Kept (s : Run) : Prop :=
  ∃ chains, Holds s.state.table chains ∧ Remembers (content chains) s.remembered

section Packets

variable {table : Table} {chains : Fin hashTableMaxSize → List Node}
  {remembered : Flow → Option U32} {p : Packet} {f : Flow}

/-- An entry for a flow, in a table with room. -/
theorem insert_remembers (h : Holds table chains) (hm : Remembers (content chains) remembered)
    (hf : ApartFrom remembered f) (hreadable : f.Readable)
    (fresh : table.heap.lookup p.block = none) (hroom : table.hashTableSize < hashTableMaxSize) :
    ∃ table' chains', hashTableInsert p.block f.str p.wscale p.time table = .ok table' ∧
      Holds table' chains' ∧
      Remembers (content chains') (Function.update remembered f (some p.wscale)) := by
  obtain ⟨k, hk⟩ := hreadable.key
  have hslot : f.slot = k.slot := str_slot hk
  obtain ⟨table', chains', hrun, hholds, hcontent⟩ := h.insert hk fresh p.wscale p.time hroom
  refine ⟨table', chains', hrun, hholds, ?_⟩
  rw [hcontent, ← hslot]
  exact hm.store hf (some _)

theorem removal_remembers (h : Holds table chains) (hm : Remembers (content chains) remembered)
    (hf : ApartFrom remembered f) (hreadable : f.Readable) :
    ∃ table' chains', removeFound f.str table = .ok table' ∧ Holds table' chains' ∧
      Remembers (content chains') (Function.update remembered f none) := by
  obtain ⟨k, hk⟩ := hreadable.key
  have hslot : f.slot = k.slot := str_slot hk
  obtain ⟨table', chains', hrun, hholds, hcontent⟩ := remove_found h hk
  refine ⟨table', chains', hrun, hholds, ?_⟩
  rw [hcontent, ← hslot]
  exact hm.store hf none

/-- The window an acknowledgement is logged with comes from the reverse direction. -/
theorem ack_remembers (h : Holds table chains) (hm : Remembers (content chains) remembered)
    (hf : ApartFrom remembered p.flow.reverse) (hreadable : p.flow.reverse.Readable)
    (fresh : table.heap.lookup p.block = none)
    (hroom : remembered p.flow.reverse = none → table.hashTableSize < hashTableMaxSize) :
    ∃ table' chains', ackWindow p table = .ok (table',
        shiftWindow p.rdata.windowsize ((remembered p.flow.reverse).getD 0)) ∧
      Holds table' chains' ∧ Remembers (content chains')
        (if remembered p.flow.reverse = none
          then Function.update remembered p.flow.reverse (some p.wscale) else remembered) := by
  have hlookup := hm.lookup hf
  obtain ⟨k, hk⟩ := hreadable.key
  have hslot : p.flow.reverse.slot = k.slot := str_slot hk
  cases hnode : content chains p.flow.reverse.slot with
  | none =>
    rw [hnode] at hlookup
    have hnone : remembered p.flow.reverse = none := hlookup.symm
    obtain ⟨table', chains', hinsert, hholds, hremembers⟩ :=
      insert_remembers (p := p) h hm hf hreadable fresh (hroom hnone)
    refine ⟨table', chains', ?_, hholds, by rwa [if_pos hnone]⟩
    rw [ack_window_unknown h hk (hslot ▸ hnode) hinsert, hnone]
    simp [shiftWindow]
  | some n =>
    rw [hnode] at hlookup
    have hsome : remembered p.flow.reverse = some n.nValue := hlookup.symm
    obtain ⟨table', chains', hrun, hholds, hcontent⟩ := ack_window_known h hk (hslot ▸ hnode)
    refine ⟨table', chains', ?_, hholds, ?_⟩
    · rw [hrun, hsome]
      rfl
    · have hsame : Function.update remembered p.flow.reverse (some n.nValue) = remembered := by
        rw [← hsome, Function.update_eq_self]
      have hstore := hm.store hf (some { n with time := p.time })
      rw [if_neg (by simp [hsome]), hcontent, ← hslot]
      rwa [Option.map_some, hsame] at hstore

/-- Every branch keeps the table what the trace remembers. -/
theorem handle_flags_remembers (h : Holds table chains)
    (hm : Remembers (content chains) remembered) (hreadable : ∀ f ∈ p.keys, f.Readable)
    (hapart : ∀ f ∈ p.keys, ApartFrom remembered f) (fresh : table.heap.lookup p.block = none)
    (hroom : p.flags = 2 ∨ p.flags = 18 ∨ p.flags = 16 ∧ remembered p.flow.reverse = none →
      table.hashTableSize < hashTableMaxSize) :
    ∃ table' windowsize chains', handleFlags p table = .ok (table', windowsize) ∧
      Holds table' chains' ∧ Remembers (content chains') (remember p remembered) ∧
      (p.flags = 16 → windowsize =
        shiftWindow p.rdata.windowsize ((remembered p.flow.reverse).getD 0)) := by
  by_cases hsyn : p.flags = 2 ∨ p.flags = 18
  · have hkey : p.flow ∈ p.keys := by simp only [Packet.keys, if_pos hsyn, List.mem_singleton]
    have hf : ApartFrom remembered p.flow := hapart _ hkey
    obtain ⟨table', chains', hrun, hholds, hremembers⟩ :=
      insert_remembers (p := p) h hm hf (hreadable _ hkey)
      fresh (hroom (hsyn.elim .inl fun h => .inr (.inl h)))
    refine ⟨table', some (p.rdata.windowsize.setWidth 32), chains', ?_, hholds, ?_, ?_⟩
    · simp only [handleFlags, if_pos hsyn, hrun, bind, Except.bind]
    · rwa [remember, if_pos hsyn]
    · intro hack
      rw [hack] at hsyn
      exact absurd hsyn (by decide)
  by_cases hfin : p.flags = 17
  · have hkey : p.flow ∈ p.keys := by simp [Packet.keys, hfin]
    have hkey' : p.flow.reverse ∈ p.keys := by simp [Packet.keys, hfin]
    have hf : ApartFrom remembered p.flow := hapart _ hkey
    have hr : ApartFrom remembered p.flow.reverse := hapart _ hkey'
    have hreverse := hreadable _ hkey'
    obtain ⟨table₁, chains₁, hrun₁, hholds₁, hremembers₁⟩ :=
      removal_remembers h hm hf (hreadable _ hkey)
    obtain ⟨table₂, chains₂, hrun₂, hholds₂, hremembers₂⟩ := removal_remembers hholds₁ hremembers₁
      (Remembers.apart_of_forget hr p.flow) hreverse
    refine ⟨table₂, some (p.rdata.windowsize.setWidth 32), chains₂, ?_, hholds₂, ?_, ?_⟩
    · simp only [handleFlags, if_neg hsyn, rst_test, if_pos (Or.inl hfin), hrun₁, hrun₂, bind,
        Except.bind]
    · rwa [remember, if_neg hsyn, if_pos hfin]
    · intro hack
      rw [hack] at hfin
      exact absurd hfin (by decide)
  have hbranch : ¬ (p.flags = 17 ∨ p.flags &&& (if (0x0004 : U16) = 1 then 1 else 0) ≠ 0) := by
    rw [rst_test]
    simpa using hfin
  by_cases hack : p.flags = 16
  · have hkey : p.flow.reverse ∈ p.keys := by simp [Packet.keys, hack]
    have hr : ApartFrom remembered p.flow.reverse := hapart _ hkey
    have hreverse := hreadable _ hkey
    obtain ⟨table', chains', hrun, hholds, hremembers⟩ := ack_remembers h hm hr hreverse fresh
      fun hnone => hroom (.inr (.inr ⟨hack, hnone⟩))
    refine ⟨table', _, chains', ?_, hholds, ?_, fun _ => rfl⟩
    · simp only [handleFlags, if_neg hsyn, if_neg hbranch, if_pos hack, hrun]
    · rw [remember, if_neg hsyn, if_neg hfin]
      simpa only [hack, true_and] using hremembers
  · refine ⟨table, some (p.rdata.windowsize.setWidth 32), chains, ?_, h, ?_, fun h => absurd h hack⟩
    · simp only [handleFlags, if_neg hsyn, if_neg hbranch, if_neg hack]
    · simpa only [remember, if_neg hsyn, if_neg hfin, hack, false_and, if_false] using hm

end Packets

theorem Kept.exec {s : Run} (h : Kept s) {p : Packet} (hen : enabled s.state p)
    (htabled : Tabled s p) :
    ∃ t windowsize, s.exec p = .ok t ∧ Kept t ∧
      t.state.log = s.state.log ++ [⟨{ p.rdata with flags := p.flags }, windowsize⟩] ∧
      (p.flags = 16 → windowsize =
        shiftWindow p.rdata.windowsize ((s.remembered p.flow.reverse).getD 0)) := by
  obtain ⟨chains, hholds, hm⟩ := h
  obtain ⟨table', windowsize, chains', hrun, hholds', hm', hwindow⟩ :=
    handle_flags_remembers hholds hm htabled.readable htabled.apart hen htabled.room
  refine ⟨⟨⟨table', s.state.log ++ [⟨{ p.rdata with flags := p.flags }, windowsize⟩]⟩,
    remember p s.remembered, announce p s.announced⟩, windowsize, ?_, ⟨chains', hholds', hm'⟩, rfl,
    hwindow⟩
  simp only [Run.exec, decodeWinsize, hrun, bind, Except.bind]

theorem inductive_kept (start : Table) : ((traceMachine start).restrict Tabled).Inductive Kept where
  start := ⟨_, .init start, .empty⟩
  step := by
    rintro s p h ⟨hen, htabled⟩
    obtain ⟨t, _, hrun, hkept, _⟩ := h.exec hen htabled
    exact ⟨t, hrun, hkept⟩

/-- The logged window is the one advertised, under the shift the sender announced. -/
def Scaled (windowsize : U16) (own : U32) (calWindowsize : Option U32) : Prop :=
  own ≤ 14 ∧ calWindowsize = some (windowsize.setWidth 32 <<< own.toNat)

theorem shift_window_scaled (windowsize : U16) (own other : U32) :
    Scaled windowsize own (shiftWindow windowsize other) ↔
      own ≤ 14 ∧ (other = own ∨ windowsize = 0 ∧ other < 32) := by
  refine and_congr_right fun hown => ?_
  have hown' : own.toNat ≤ 14 := hown
  have hrange : (0 ≤ other.toInt ∧ other.toInt < 32) ↔ other < 32 := by
    rw [BitVec.lt_def, BitVec.toInt_eq_toNat_cond]
    have := other.isLt
    split
    · simp
    · simp
      omega
  rw [shiftWindow]
  by_cases hother : other < 32
  · rw [if_pos (hrange.mpr hother), Option.some_inj, shift_eq_iff windowsize hown',
      BitVec.toNat_inj]
    simp only [hother, and_true, or_comm]
  · rw [if_neg (mt hrange.mp hother)]
    have hne : other ≠ own := by
      rintro rfl
      exact hother (by rw [BitVec.lt_def]; simp; omega)
    refine iff_of_false (by simp) ?_
    rintro (heq | hzero)
    · exact hne heq
    · exact hother hzero.2

/-- What the sender of a packet announced, as the code reads the byte. -/
def own (s : Run) (p : Packet) : U32 := (s.announced p.rdata.tuple).getD 0

/-- What was last stored for the direction of its peer. -/
def other (s : Run) (p : Packet) : U32 := (s.remembered p.flow.reverse).getD 0

/-- As long as the table takes its packets as they are meant, the window of a pure
acknowledgement is scaled right exactly when the number stored for the peer is
the shift the sender announced, or the window is zero. -/
theorem scaled_iff (start : Table) {s : Run}
    (hr : ((traceMachine start).restrict Tabled).Reachable s) (p : Packet) (hack : p.flags = 16)
    (hen : enabled s.state p) (htabled : Tabled s p) :
    ∃ t windowsize, s.exec p = .ok t ∧
      t.state.log = s.state.log ++ [⟨{ p.rdata with flags := p.flags }, windowsize⟩] ∧
      (Scaled p.rdata.windowsize (own s p) windowsize ↔ own s p ≤ 14 ∧
        (other s p = own s p ∨ p.rdata.windowsize = 0 ∧ other s p < 32)) := by
  have hkept : Kept s := (inductive_kept start).reachable hr
  obtain ⟨t, windowsize, hrun, _, hlog, hwindow⟩ := hkept.exec hen htabled
  refine ⟨t, windowsize, hrun, hlog, ?_⟩
  rw [hwindow hack]
  exact shift_window_scaled p.rdata.windowsize (own s p) (other s p)

def noTable : Table := ⟨∅, fun _ => none, 0, []⟩

/-- A segment from host 1 to host 2, as one access point reports it. -/
def segment (block : Addr) (flags windowsize : U16) (kind wscale : U8) : Packet where
  mac := ⟨2, 4, 6, 8, 10, 12⟩
  rdata := ⟨1, 2, 80, 8080, 0, 0, flags, windowsize, 0, 0, 0, kind, kind, wscale, 0⟩
  time := 0
  block := block

/-- A segment from host 2 to host 1. -/
def answer (block : Addr) (flags windowsize : U16) (kind wscale : U8) : Packet where
  mac := ⟨2, 4, 6, 8, 10, 12⟩
  rdata := ⟨2, 1, 8080, 80, 0, 0, flags, windowsize, 0, 0, 0, kind, kind, wscale, 0⟩
  time := 0
  block := block

/-- After a SYN with window scale 7 the host that answers is logged with that scale. -/
theorem scaled_iff_answer : ∃ s t windowsize, s.exec (answer 2 16 100 0 0) = .ok t ∧
    t.state.log = s.state.log ++ [⟨(answer 2 16 100 0 0).rdata, windowsize⟩] ∧
    (Scaled 100 (own s (answer 2 16 100 0 0)) windowsize ↔
      own s (answer 2 16 100 0 0) ≤ 14 ∧ (other s (answer 2 16 100 0 0) =
        own s (answer 2 16 100 0 0) ∨ (100 : U16) = 0 ∧ other s (answer 2 16 100 0 0) < 32)) := by
  have hsyn : Tabled ⟨⟨hashTableInit noTable, []⟩, fun _ => none, fun _ => none⟩
      (segment 1 2 100 3 7) :=
    ⟨by decide, fun _ _ _ h => absurd rfl h, fun _ => show (0 : Int) < 10000 by decide⟩
  refine ⟨_, scaled_iff noTable (.step (segment 1 2 100 3 7) .start ⟨rfl, hsyn⟩ rfl)
    (answer 2 16 100 0 0) (by decide) rfl ⟨by decide, ?_, ?_⟩⟩
  · intro f hf g hg _
    have hkeys : (answer 2 16 100 0 0).keys = [(segment 1 2 100 3 7).flow] := by decide
    rw [hkeys, List.mem_singleton] at hf
    by_contra hne
    exact hg (Function.update_of_ne (hf ▸ hne) ..)
  · exact fun _ => show (1 : Int) < 10000 by decide

/-- The first acknowledgement of a handshake is scaled by the other side's shift. -/
theorem peer_shift_applied : ¬ ∀ s, (traceMachine noTable).Reachable s → ∀ p, p.flags = 16 →
    enabled s.state p → ∃ t windowsize, s.exec p = .ok t ∧
      t.state.log = s.state.log ++ [⟨{ p.rdata with flags := p.flags }, windowsize⟩] ∧
      Scaled p.rdata.windowsize (own s p) windowsize := by
  intro h
  obtain ⟨t, windowsize, hrun, hlog, hscaled⟩ := h _
    (.step (answer 2 18 100 3 2) (.step (segment 1 2 100 3 7) .start rfl rfl) rfl rfl)
    (segment 3 16 100 0 0) (by decide) rfl
  obtain ⟨-, rfl⟩ := hscaled
  have hline := congrArg (fun r : Except Fault Run => match r with
    | .ok t => t.state.log.map Line.calWindowsize
    | .error _ => []) hrun
  simp only [hlog] at hline
  revert hline
  decide

end ApTelemetry.NewReceiver
