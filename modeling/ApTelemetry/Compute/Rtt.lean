import ApTelemetry.Lib.Buffer
import ApTelemetry.Lib.Machine
import ApTelemetry.Lib.Text
import Mathlib.Logic.Function.Basic

namespace ApTelemetry.Compute.Rtt
open Lib

/-- A row of the winsize file, as far as it is used. -/
structure Packet where
  macAddr : Str
  ipSrc : Str
  ipDst : Str
  srcport : Str
  dstport : Str
  sequence : BitVec 32
  ackSequence : BitVec 32
  time : BitVec 64
  datalength : BitVec 32

/-- A value of `rtt_down`, without the two columns that stay 0: the fields at 4 and 5
are `acks` and `seen`. -/
structure Entry where
  time : BitVec 64
  datalength : BitVec 32
  acks : Nat
  seen : Nat

structure State where
  rttDown : Str → Option Entry
  rttDownRecordRtt : List (BitVec 64)

def dotless (ip : Str) : Str := ip.replaceChar '.' []

def str (n : BitVec 32) : Str := Nat.toDigits 10 n.toNat

def Packet.downlink (p : Packet) : Bool := (dotless p.ipSrc).find "1921681".toList == -1

/-- The branch for packets towards a station. The first `try` counts the packet in the
entry it finds, and opens one of its own only where it finds none. -/
def down (s : State) (p : Packet) : State :=
  let ipSrc := dotless p.ipSrc
  let key := p.macAddr ++ ipSrc ++ p.srcport ++ str p.sequence
  let stateSequenceExit : Int :=
    match s.rttDown key with
    | some e => e.seen + 1
    | none => -1
  let rttDown :=
    match s.rttDown key with
    | some e => Function.update s.rttDown key (some { e with seen := e.seen + 1 })
    | none =>
      if p.datalength ≠ 0 then
        Function.update s.rttDown
          (p.macAddr ++ ipSrc ++ p.srcport ++ str (p.sequence + p.datalength))
          (some ⟨p.time, p.datalength, 0, 0⟩)
      else s.rttDown
  let ackSequenceExit : Int :=
    match rttDown key with
    | some e => e.acks
    | none => -1
  if ackSequenceExit > 0 ∧ stateSequenceExit = 1 then
    match rttDown key with
    | some e =>
      let wifirtt := p.time - e.time
      ⟨Function.update rttDown key none,
        if wifirtt < 4000 then s.rttDownRecordRtt ++ [wifirtt] else s.rttDownRecordRtt⟩
    | none => ⟨rttDown, s.rttDownRecordRtt⟩
  else ⟨rttDown, s.rttDownRecordRtt⟩

/-- The branch for packets from a station. -/
def up (s : State) (p : Packet) : State :=
  let key := p.macAddr ++ dotless p.ipDst ++ p.dstport ++ str p.ackSequence
  match s.rttDown key with
  | some e =>
    { s with rttDown := Function.update s.rttDown key (some { e with acks := e.acks + 1 }) }
  | none => s

def step (s : State) (p : Packet) : State := if p.downlink then down s p else up s p

/-- What tells one flow from another: the AP, and the server's address and port. -/
structure Flow where
  macAddr : Str
  ip : Str
  port : Str
  deriving DecidableEq

/-- The text a flow and a number make a key of. -/
def Flow.text (f : Flow) (n : BitVec 32) : Str := f.macAddr ++ dotless f.ip ++ f.port ++ str n

namespace Packet

def flow (p : Packet) : Flow :=
  if p.downlink then ⟨p.macAddr, p.ipSrc, p.srcport⟩ else ⟨p.macAddr, p.ipDst, p.dstport⟩

/-- Where the packet starts, or what it acknowledges. -/
def number (p : Packet) : BitVec 32 := if p.downlink then p.sequence else p.ackSequence

/-- The key under which the packet is looked up. -/
def key (p : Packet) : Str := p.flow.text p.number

/-- The key under which it opens an entry. -/
def endKey (p : Packet) : Str := p.flow.text (p.sequence + p.datalength)

end Packet

/-- The packet opens an entry. -/
def Opens (s : State) (p : Packet) : Prop :=
  p.downlink = true ∧ s.rttDown p.key = none ∧ p.datalength ≠ 0

instance (s : State) (p : Packet) : Decidable (Opens s p) :=
  inferInstanceAs (Decidable (_ ∧ s.rttDown p.key = none ∧ _))

/-- The entry once the packet is counted in it. -/
def Entry.count (e : Entry) (p : Packet) : Entry :=
  if p.downlink then { e with seen := e.seen + 1 } else { e with acks := e.acks + 1 }

/-- The packet takes its sample from the entry, which goes. -/
def Takes (e : Entry) (p : Packet) : Prop := p.downlink = true ∧ 0 < e.acks ∧ e.seen = 0

section Step

variable {s : State} {p : Packet} {e : Entry}

theorem key_down (h : p.downlink = true) :
    p.key = p.macAddr ++ dotless p.ipSrc ++ p.srcport ++ str p.sequence := by
  simp [Packet.key, Packet.flow, Packet.number, Flow.text, h]

theorem end_key_down (h : p.downlink = true) :
    p.endKey = p.macAddr ++ dotless p.ipSrc ++ p.srcport ++ str (p.sequence + p.datalength) := by
  simp [Packet.endKey, Packet.flow, Flow.text, h]

theorem key_up (h : p.downlink = false) :
    p.key = p.macAddr ++ dotless p.ipDst ++ p.dstport ++ str p.ackSequence := by
  simp [Packet.key, Packet.flow, Packet.number, Flow.text, h]

theorem step_opens (h : Opens s p) : step s p =
    ⟨Function.update s.rttDown p.endKey (some ⟨p.time, p.datalength, 0, 0⟩),
      s.rttDownRecordRtt⟩ := by
  obtain ⟨hdown, hnone, hdata⟩ := h
  rw [key_down hdown] at hnone
  rw [step, if_pos hdown, down, end_key_down hdown]
  simp only [hnone, if_pos hdata]
  exact if_neg fun hc => absurd hc.2 (by decide)

theorem step_missing (hnone : s.rttDown p.key = none) (h : ¬ Opens s p) : step s p = s := by
  cases hdown : p.downlink with
  | false =>
    rw [key_up hdown] at hnone
    rw [step, if_neg (by simp [hdown]), up]
    simp only [hnone]
  | true =>
    have hempty : p.datalength = 0 := by
      by_contra hdata
      exact h ⟨hdown, hnone, hdata⟩
    rw [key_down hdown] at hnone
    rw [step, if_pos hdown, down]
    simp only [hnone, if_neg (not_not_intro hempty)]
    exact if_neg fun hc => absurd hc.2 (by decide)

theorem step_takes (hsome : s.rttDown p.key = some e) (h : Takes e p) : step s p =
    ⟨Function.update s.rttDown p.key none,
      if p.time - e.time < 4000 then s.rttDownRecordRtt ++ [p.time - e.time]
      else s.rttDownRecordRtt⟩ := by
  obtain ⟨hdown, hacks, hseen⟩ := h
  rw [key_down hdown] at hsome ⊢
  rw [step, if_pos hdown, down]
  simp only [hsome, Function.update_self, hseen, Function.update_idem]
  exact if_pos ⟨by omega, by omega⟩

theorem step_counts (hsome : s.rttDown p.key = some e) (h : ¬ Takes e p) : step s p =
    ⟨Function.update s.rttDown p.key (some (e.count p)), s.rttDownRecordRtt⟩ := by
  cases hdown : p.downlink with
  | false =>
    rw [key_up hdown] at hsome ⊢
    rw [step, if_neg (by simp [hdown]), up]
    simp only [hsome, Entry.count, hdown, Bool.false_eq_true, if_false]
  | true =>
    have hnot : ¬ (0 < e.acks ∧ e.seen = 0) := fun hc => h ⟨hdown, hc⟩
    rw [key_down hdown] at hsome ⊢
    rw [step, if_pos hdown, down]
    simp only [hsome, Function.update_self, Entry.count, hdown, if_true]
    rw [if_neg]
    rintro ⟨hacks, hseen⟩
    exact hnot ⟨by omega, by omega⟩

/-- An entry found after the packet is the one it opened, or was there before. -/
theorem step_entry {k : Str} {d : Entry} (h : (step s p).rttDown k = some d) :
    (Opens s p ∧ k = p.endKey ∧ d = ⟨p.time, p.datalength, 0, 0⟩) ∨
      ∃ e, s.rttDown k = some e ∧ d = (if p.key = k then e.count p else e) ∧
        (Opens s p → k ≠ p.endKey) := by
  by_cases hopens : Opens s p
  · rw [step_opens hopens] at h
    dsimp only at h
    by_cases hk : k = p.endKey
    · rw [hk, Function.update_self] at h
      exact Or.inl ⟨hopens, hk, (Option.some.inj h).symm⟩
    · rw [Function.update_of_ne hk] at h
      have hne : p.key ≠ k := by
        rintro rfl
        rw [hopens.2.1] at h
        cases h
      exact Or.inr ⟨d, h, (if_neg hne).symm, fun _ => hk⟩
  · have hnone : Opens s p → k ≠ p.endKey := fun hc => absurd hc hopens
    cases hfound : s.rttDown p.key with
    | none =>
      rw [step_missing hfound hopens] at h
      have hne : p.key ≠ k := by
        rintro rfl
        rw [hfound] at h
        cases h
      exact Or.inr ⟨d, h, (if_neg hne).symm, hnone⟩
    | some e =>
      by_cases hk : p.key = k
      · subst hk
        by_cases htakes : Takes e p
        · rw [step_takes hfound htakes] at h
          dsimp only at h
          rw [Function.update_self] at h
          cases h
        · rw [step_counts hfound htakes] at h
          dsimp only at h
          rw [Function.update_self] at h
          exact Or.inr ⟨e, hfound, (Option.some.inj h).symm.trans (if_pos rfl).symm, hnone⟩
      · have hsame : (step s p).rttDown k = s.rttDown k := by
          by_cases htakes : Takes e p
          · rw [step_takes hfound htakes]
            exact Function.update_of_ne (Ne.symm hk) ..
          · rw [step_counts hfound htakes]
            exact Function.update_of_ne (Ne.symm hk) ..
        exact Or.inr ⟨d, hsame.symm.trans h, (if_neg hk).symm, hnone⟩

end Step

/-- The script's state, the packets it has read, and where among them the packet
stands that opened each entry. -/
structure Trace where
  state : State
  done : List Packet
  opener : Str → Option Nat

def observe (g : Trace) (p : Packet) : Trace where
  state := step g.state p
  done := g.done ++ [p]
  opener :=
    if Opens g.state p then Function.update g.opener p.endKey (some g.done.length) else g.opener

theorem opener_opens {g : Trace} {p : Packet} (h : Opens g.state p) : (observe g p).opener =
    Function.update g.opener p.endKey (some g.done.length) := if_pos h

theorem opener_other {g : Trace} {p : Packet} (h : ¬ Opens g.state p) :
    (observe g p).opener = g.opener := if_neg h

/-- The loop over the rows of a log behind the first one. -/
def machine : Machine Trace Packet Fault :=
  ⟨⟨⟨fun _ => none, []⟩, [], fun _ => none⟩, fun _ _ => True, fun g p => .ok (observe g p)⟩

/-- The packet is counted in the entry that `q` opened. -/
def CountedWith (g : Trace) (p q : Packet) : Prop :=
  (g.state.rttDown p.key).isSome ∧ ∃ n, g.opener p.key = some n ∧ g.done[n]? = some q

/-- A sample: of one flow, the time from a data segment to the first later packet
towards the station that starts where it ends, acknowledged in between. -/
def Sample (done : List Packet) (p : Packet) (rtt : BitVec 64) : Prop :=
  ∃ n q, done[n]? = some q ∧ q.downlink = true ∧ p.downlink = true ∧ q.datalength ≠ 0 ∧
    q.flow = p.flow ∧ q.sequence + q.datalength = p.sequence ∧
    (∀ r ∈ done.drop (n + 1), r.downlink = true → r.flow = p.flow → r.sequence ≠ p.sequence) ∧
    (∃ r ∈ done.drop (n + 1), r.downlink = false ∧ r.flow = p.flow ∧
      r.ackSequence = p.sequence) ∧
    rtt = p.time - q.time

/-- What the step makes of the packet stays within its flow. -/
def WithinFlow (g : Trace) (p : Packet) : Except Fault Trace → Prop
  | .error _ => False
  | .ok t =>
    (∀ rtt, t.state.rttDownRecordRtt = g.state.rttDownRecordRtt ++ [rtt] →
      Sample g.done p rtt) ∧
    ∀ q, CountedWith g p q → q.flow = p.flow

/-- The entry the packet opened is still there. -/
def Open (g : Trace) (q : Packet) : Prop :=
  (g.state.rttDown q.endKey).isSome ∧ ∃ n, g.opener q.endKey = some n ∧ g.done[n]? = some q

/-- The text of the packet's key is not that of an open entry of another flow. -/
def KeyApart (g : Trace) (p : Packet) : Prop :=
  ∀ q, Open g q → q.endKey = p.key → q.flow = p.flow

/-- An open entry: the packet that opened it, and what has been counted in it since. -/
structure Opened (g : Trace) (k : Str) (e : Entry) (n : Nat) (q : Packet) : Prop where
  position : g.opener k = some n
  opener : g.done[n]? = some q
  downlink : q.downlink = true
  data : q.datalength ≠ 0
  ends : q.endKey = k
  time : e.time = q.time
  acks : e.acks = (g.done.drop (n + 1)).countP fun r => !r.downlink && decide (r.key = k)
  seen : e.seen = (g.done.drop (n + 1)).countP fun r => r.downlink && decide (r.key = k)
  own : ∀ r ∈ g.done.drop (n + 1), r.key = k → r.flow = q.flow

def Sound (g : Trace) : Prop :=
  ∀ k e, g.state.rttDown k = some e → ∃ n q, Opened g k e n q

section Invariant

variable {g : Trace} {p q : Packet} {k : Str} {e : Entry} {n : Nat}

theorem Opened.drop_snoc (h : Opened g k e n q) (p : Packet) :
    (g.done ++ [p]).drop (n + 1) = g.done.drop (n + 1) ++ [p] := by
  obtain ⟨hn, -⟩ := List.getElem?_eq_some_iff.mp h.opener
  exact List.drop_append_of_le_length hn

/-- The next packet, counted where it is looked up under the entry's key. -/
theorem Opened.next (h : Opened g k e n q) (hown : p.key = k → p.flow = q.flow)
    (hkeep : (observe g p).opener k = g.opener k) :
    Opened (observe g p) k (if p.key = k then e.count p else e) n q := by
  obtain ⟨hn, -⟩ := List.getElem?_eq_some_iff.mp h.opener
  refine ⟨hkeep.trans h.position, ?_, h.downlink, h.data, h.ends, ?_, ?_, ?_, ?_⟩
  · exact (List.getElem?_append_left hn).trans h.opener
  · rw [← h.time]
    split
    · rw [Entry.count]
      split <;> rfl
    · rfl
  · change _ = ((g.done ++ [p]).drop (n + 1)).countP _
    rw [h.drop_snoc, List.countP_append, ← h.acks, List.countP_singleton]
    by_cases hk : p.key = k <;> cases hdown : p.downlink <;> simp [hk, hdown, Entry.count]
  · change _ = ((g.done ++ [p]).drop (n + 1)).countP _
    rw [h.drop_snoc, List.countP_append, ← h.seen, List.countP_singleton]
    by_cases hk : p.key = k <;> cases hdown : p.downlink <;> simp [hk, hdown, Entry.count]
  · intro r hr
    change r ∈ (g.done ++ [p]).drop (n + 1) at hr
    rw [h.drop_snoc] at hr
    rcases List.mem_append.mp hr with hr | hr
    · exact h.own r hr
    · rw [List.mem_singleton.mp hr]
      exact hown

/-- The packet that opens an entry has nothing counted in it yet. -/
theorem opened_new (h : Opens g.state p) :
    Opened (observe g p) p.endKey ⟨p.time, p.datalength, 0, 0⟩ g.done.length p := by
  have hnone : (g.done ++ [p]).drop (g.done.length + 1) = [] :=
    List.drop_eq_nil_of_le (by simp)
  refine ⟨?_, ?_, h.1, h.2.2, rfl, rfl, ?_, ?_, ?_⟩
  · rw [opener_opens h, Function.update_self]
  · exact List.getElem?_concat_length
  · change 0 = ((g.done ++ [p]).drop (g.done.length + 1)).countP _
    rw [hnone, List.countP_nil]
  · change 0 = ((g.done ++ [p]).drop (g.done.length + 1)).countP _
    rw [hnone, List.countP_nil]
  · intro r hr
    change r ∈ (g.done ++ [p]).drop (g.done.length + 1) at hr
    rw [hnone] at hr
    exact absurd hr List.not_mem_nil

theorem counted_open (h : Sound g) (hcounted : CountedWith g p q) :
    Open g q ∧ q.endKey = p.key := by
  obtain ⟨hsome, n, hn, hq⟩ := hcounted
  obtain ⟨e, he⟩ := Option.isSome_iff_exists.mp hsome
  obtain ⟨m, r, hopened⟩ := h p.key e he
  obtain rfl := Option.some.inj (hopened.position.symm.trans hn)
  obtain rfl := Option.some.inj (hopened.opener.symm.trans hq)
  refine ⟨?_, hopened.ends⟩
  rw [Open, hopened.ends]
  exact ⟨hsome, m, hn, hq⟩

theorem Opened.flow_eq (h : Opened g k e n q) (hsome : g.state.rttDown k = some e)
    (hapart : KeyApart g p) (hk : p.key = k) : p.flow = q.flow := by
  refine (hapart q ?_ (h.ends.trans hk.symm)).symm
  rw [Open, h.ends]
  exact ⟨by rw [hsome]; rfl, n, h.position, h.opener⟩

theorem sound_step (h : Sound g) (hapart : KeyApart g p) : Sound (observe g p) := by
  intro k d hd
  rcases step_entry hd with ⟨hopens, rfl, rfl⟩ | ⟨e, he, rfl, hother⟩
  · exact ⟨_, _, opened_new hopens⟩
  · obtain ⟨n, q, hopened⟩ := h k e he
    have hkeep : (observe g p).opener k = g.opener k := by
      by_cases hopens : Opens g.state p
      · rw [opener_opens hopens, Function.update_of_ne (hother hopens)]
      · rw [opener_other hopens]
    exact ⟨n, q, hopened.next (hopened.flow_eq he hapart) hkeep⟩

theorem str_injective {m n : BitVec 32} (h : str m = str n) : m = n := by
  refine BitVec.eq_of_toNat_eq ?_
  rw [← digits_from_decimal m.toNat, ← digits_from_decimal n.toNat]
  exact congrArg (digitsFrom 0) h

/-- Within one flow the text tells the numbers apart. -/
theorem text_injective (f : Flow) {m n : BitVec 32} (h : f.text m = f.text n) : m = n :=
  str_injective (List.append_cancel_left h)

/-- A sample is appended only where the packet takes one. -/
theorem appends {rtt : BitVec 64} (h : (step g.state p).rttDownRecordRtt =
    g.state.rttDownRecordRtt ++ [rtt]) :
    ∃ e, g.state.rttDown p.key = some e ∧ Takes e p ∧ rtt = p.time - e.time := by
  have hlonger : g.state.rttDownRecordRtt ≠ g.state.rttDownRecordRtt ++ [rtt] := by simp
  by_cases hopens : Opens g.state p
  · rw [step_opens hopens] at h
    exact absurd h hlonger
  · cases hfound : g.state.rttDown p.key with
    | none =>
      rw [step_missing hfound hopens] at h
      exact absurd h hlonger
    | some e =>
      by_cases htakes : Takes e p
      · rw [step_takes hfound htakes] at h
        refine ⟨e, rfl, htakes, ?_⟩
        change (if _ then _ else _) = _ at h
        split at h
        · exact (List.singleton_inj.mp (List.append_cancel_left h)).symm
        · exact absurd h hlonger
      · rw [step_counts hfound htakes] at h
        exact absurd h hlonger

theorem Opened.sample (h : Opened g p.key e n q) (htakes : Takes e p) (hflow : p.flow = q.flow) :
    Sample g.done p (p.time - e.time) := by
  obtain ⟨hdown, hacks, hseen⟩ := htakes
  refine ⟨n, q, h.opener, h.downlink, hdown, h.data, hflow.symm, ?_, ?_, ?_, by rw [h.time]⟩
  · have hends := h.ends
    rw [Packet.endKey, Packet.key, ← hflow, Packet.number, if_pos hdown] at hends
    exact text_injective _ hends
  · intro r hr hrdown hrflow hsequence
    have hkey : r.key = p.key := by
      rw [Packet.key, Packet.key, hrflow, Packet.number, Packet.number, if_pos hrdown,
        if_pos hdown, hsequence]
    rw [h.seen, List.countP_eq_zero] at hseen
    exact hseen r hr (by simp [hrdown, hkey])
  · rw [h.acks, List.countP_pos_iff] at hacks
    obtain ⟨r, hr, hcond⟩ := hacks
    simp only [Bool.and_eq_true, Bool.not_eq_true', decide_eq_true_eq] at hcond
    obtain ⟨hrup, hkey⟩ := hcond
    have hrflow : r.flow = p.flow := (h.own r hr hkey).trans hflow.symm
    refine ⟨r, hr, hrup, hrflow, ?_⟩
    rw [Packet.key, Packet.key, hrflow, Packet.number, Packet.number,
      if_neg (by simp [hrup]), if_pos hdown] at hkey
    exact text_injective _ hkey

theorem within_flow_iff (h : Sound g) (p : Packet) :
    WithinFlow g p (.ok (observe g p)) ↔ KeyApart g p := by
  constructor
  · rintro ⟨-, hcounted⟩ q ⟨hsome, n, hn, hq⟩ hkey
    rw [hkey] at hsome hn
    exact hcounted q ⟨hsome, n, hn, hq⟩
  · intro hapart
    refine ⟨fun rtt hrtt => ?_, fun q hcounted => ?_⟩
    · obtain ⟨e, he, htakes, rfl⟩ := appends hrtt
      obtain ⟨n, q, hopened⟩ := h p.key e he
      exact hopened.sample htakes (hopened.flow_eq he hapart rfl)
    · obtain ⟨hopen, hkey⟩ := counted_open h hcounted
      exact hapart q hopen hkey

end Invariant

/-- Every value appended in a run is a sample of one flow, and no packet is counted for
another, exactly if no packet meets the text of its key in an open entry of another
flow. -/
theorem samples_iff (log : List Packet) :
    machine.Throughout WithinFlow machine.start log ↔
      machine.Throughout (fun g p _ => KeyApart g p) machine.start log := by
  refine Machine.throughout_iff Sound (fun g p h _ => within_flow_iff h p) ?_ ?_ log
  · intro g p t h _ hapart hrun
    obtain rfl := Except.ok.inj hrun
    exact sound_step h hapart
  · intro k e he
    cases he

/-- Two servers whose addresses differ in their dots only: the data of one, the
acknowledgement to the other, and a packet of the other. -/
def dotted : List Packet :=
  [⟨"aa".toList, "11.1.1.1".toList, "192.168.1.9".toList, "80".toList, "5000".toList,
      0, 0, 10, 100⟩,
    ⟨"aa".toList, "192.168.1.8".toList, "1.11.1.1".toList, "5001".toList, "80".toList,
      0, 100, 20, 0⟩,
    ⟨"aa".toList, "1.11.1.1".toList, "192.168.1.8".toList, "80".toList, "5001".toList,
      100, 0, 30, 0⟩]

/-- The third packet gives a sample although its own flow has sent no data. -/
theorem sample_across_flows : ¬ ∀ log, machine.Throughout WithinFlow machine.start log := by
  intro h
  have hrun := (((h dotted trivial).2 _ rfl trivial).2 _ rfl trivial).1
  obtain ⟨n, q, hq, hdown, -, -, hflow, -⟩ := hrun.1 20 (by decide +kernel)
  match n with
  | 0 =>
    obtain rfl := Option.some.inj hq
    exact absurd hflow (by decide)
  | 1 =>
    obtain rfl := Option.some.inj hq
    exact absurd hdown (by decide)
  | n + 2 => cases hq

end ApTelemetry.Compute.Rtt
