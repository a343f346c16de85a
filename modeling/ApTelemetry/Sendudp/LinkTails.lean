import ApTelemetry.Lib.Machine
import ApTelemetry.Sendudp.LinkInfo

namespace ApTelemetry.Sendudp.IwList
open Lib

/-- Both indices of every slot are inside its ring. -/
def InRing (s : State) : Prop :=
  ∀ i, (s.linkinfo i).head < iwamount ∧ (s.linkinfo i).tail < iwamount

/-- An action reads and writes no place behind a ring and leaves the indices in it. -/
def StaysInRing (_ : State) (_ : Action) (r : Except Fault State) : Prop :=
  ∃ t, r = .ok t ∧ InRing t

/-- No slot is taken over while its tail is at the end of the ring and its head
just before. -/
def TakesClear (s : State) : Action → Prop
  | .call _ => True
  | .station tmp => ∀ i, takenSlot tmp s = some i →
    ¬ ((s.linkinfo i).head = 98 ∧ (s.linkinfo i).tail = 99)

structure SlotsInRing (s : State) : Prop where
  sound : ∀ i, (s.linkinfo i).Sound
  tail_lt : ∀ i, (s.linkinfo i).tail < iwamount

theorem call_same (sur : DataSurvey) (s : State) : ∃ t, exec s (.call sur) = .ok t ∧
    t.linkinfo = s.linkinfo ∧ t.iwp = s.iwp ∧ t.rates = s.rates ∧ t.found1 = false := by
  refine ⟨_, rfl, ?_⟩
  unfold writeSurvey
  split <;> exact ⟨rfl, rfl, rfl, rfl⟩

theorem loaded_sound (i : Fin ten) : (loaded.linkinfo i).Sound where
  link := List.length_replicate
  origin := List.length_replicate
  head := rfl
  tail := .inr rfl
  stored := fun j _ hj => absurd hj (Nat.not_lt_zero j)
  since := Nat.le_refl _
  owner := by
    intro j x _ hx
    cases hx

theorem slots_in_ring_start : SlotsInRing machine.start :=
  ⟨loaded_sound, fun _ => Nat.zero_lt_succ 99⟩

theorem stays_in_ring_iff {s : State} (h : SlotsInRing s) (a : Action) :
    StaysInRing s a (exec s a) ↔ TakesClear s a := by
  cases a with
  | call sur =>
    obtain ⟨t, ht, hlinkinfo, -⟩ := call_same sur s
    refine iff_of_true ⟨t, ht, fun i => ?_⟩ trivial
    rw [hlinkinfo]
    exact ⟨(h.sound i).head_lt, h.tail_lt i⟩
  | station tmp =>
    obtain ⟨t, ht, hstep⟩ := station_runs h.sound fun i (_ : i ∈ touched tmp s) => h.tail_lt i
    constructor
    · rintro ⟨t', ht', hin⟩ i htaken hfull
      obtain rfl := Except.ok.inj (ht.symm.trans ht')
      exact ((hstep.tails i).mp (hin i).2).2 ⟨htaken, hfull⟩
    · intro hclear
      refine ⟨t, ht, fun i => ⟨(hstep.sound i).head_lt, (hstep.tails i).mpr ⟨h.tail_lt i, ?_⟩⟩⟩
      exact fun ⟨htaken, hfull⟩ => hclear i htaken hfull

theorem slots_in_ring_step {s t : State} {a : Action} (h : SlotsInRing s)
    (hclear : TakesClear s a) (hrun : exec s a = .ok t) : SlotsInRing t := by
  obtain ⟨t', ht', hin⟩ := (stays_in_ring_iff h a).mpr hclear
  obtain rfl := Except.ok.inj (ht'.symm.trans hrun)
  refine ⟨?_, fun i => (hin i).2⟩
  cases a with
  | call sur =>
    obtain ⟨t, ht, hlinkinfo, -⟩ := call_same sur s
    obtain rfl := Except.ok.inj (ht'.symm.trans ht)
    rw [hlinkinfo]
    exact h.sound
  | station tmp =>
    obtain ⟨t, ht, hstep⟩ := station_runs h.sound fun i (_ : i ∈ touched tmp s) => h.tail_lt i
    obtain rfl := Except.ok.inj (ht'.symm.trans ht)
    exact hstep.sound

/-- The rings of a run are never left exactly if no slot changes its owner with
the tail at the end of the ring and the head just before. -/
theorem link_rings_iff (actions : List Action) :
    machine.Throughout StaysInRing machine.start actions ↔
    machine.Throughout (fun s a _ => TakesClear s a) machine.start actions :=
  Machine.throughout_iff SlotsInRing (fun _ a hs _ => stays_in_ring_iff hs a)
    (fun _ _ _ hs _ hclear hrun => slots_in_ring_step hs hclear hrun) slots_in_ring_start actions

instance : NeZero ten := ⟨by decide⟩

/-- The first slot has `n` samples of one station, all of one time, and no other
station was heard. -/
structure Alone (x : DataIw) (n : Nat) (s : State) : Prop where
  slots : SlotsInRing s
  station : (s.linkinfo 0).station = x.station
  sec : (s.linkinfo 0).sec = x.sec
  samples : (s.linkinfo 0).samples.length = n
  other : ∀ i, i ≠ 0 → (s.linkinfo i).station = zeroMac

theorem Alone.call {x : DataIw} {n : Nat} {s : State} (h : Alone x n s) (sur : DataSurvey) :
    ∃ t, exec s (.call sur) = .ok t ∧ Alone x n t ∧ t.found1 = false := by
  obtain ⟨t, ht, hlinkinfo, -, -, hfound⟩ := call_same sur s
  have hslots := slots_in_ring_step (a := .call sur) h.slots trivial ht
  obtain ⟨-, hstation, hsec, hsamples, hother⟩ := h
  rw [← hlinkinfo] at hstation hsec hsamples hother
  exact ⟨t, ht, ⟨hslots, hstation, hsec, hsamples, hother⟩, hfound⟩

theorem taken_slot_first {tmp : DataIw} {s : State} (hfound : s.found1 = false)
    (hstations : ∀ i, (s.linkinfo i).station ≠ tmp.station)
    (hfree : ((expireLinks tmp s).linkinfo 0).sec = 0) : takenSlot tmp s = some 0 := by
  rw [takenSlot, if_pos ⟨hfound, hstations⟩, freeSlot, Fin.find?_eq_some_iff]
  exact ⟨decide_eq_true hfree, fun j hj => absurd hj (Fin.not_lt_zero j)⟩

theorem Alone.sample {x : DataIw} {n : Nat} {s : State} (h : Alone x n s)
    (hx : x.station ≠ zeroMac) : ∃ t, exec s (.station x) = .ok t ∧ Alone x (n + 1) t := by
  have hrange : List.finRange ten = 0 :: (List.finRange 9).map Fin.succ := rfl
  have hmem : 0 ∈ touched x s := by
    unfold touched
    rw [hrange]
    exact reached_head h.station.symm
  obtain ⟨t, ht, hstep⟩ := station_runs h.slots.sound fun i (_ : i ∈ touched x s) =>
    h.slots.tail_lt i
  have hnone : takenSlot x s = none := taken_slot_none (.inr (List.ne_nil_of_mem hmem))
  have hclear : TakesClear s (.station x) := by
    intro i hi
    rw [hnone] at hi
    cases hi
  obtain ⟨lstmp, hsample⟩ := hstep.sampled 0 hmem
  obtain ⟨l, lstmp', hsample', -, -, hsamples, -, hstation, hsec, -⟩ :=
    (h.slots.sound 0).sample_runs (h.slots.tail_lt 0) h.station.symm
  obtain ⟨rfl, rfl⟩ := Prod.mk.inj (Except.ok.inj (hsample.symm.trans hsample'))
  refine ⟨t, ht, slots_in_ring_step h.slots hclear ht, hstation.trans h.station, hsec, ?_, ?_⟩
  · rw [hsamples, List.length_append, h.samples]
    rfl
  · intro i hi
    have hout : i ∉ touched x s := by
      intro hmem
      have hsame := (reached_subset i hmem).2
      rw [h.other i hi] at hsame
      exact hx hsame
    rw [hstep.other i hout (by simp [hnone]), expire_links_station]
    exact h.other i hi

def calm : DataSurvey := ⟨0, 0, 0, 0, 0, 0, 0, 0, 0, 0, 0, 0⟩

/-- Whole calls are runs of the machine. -/
theorem compare_and_iwlist_reachable {ptr : List DataIw} {sur : DataSurvey} {s t : State}
    (hr : machine.Reachable s) (h : compareAndIwlist ptr sur s = .ok t) : machine.Reachable t :=
  hr.foldlM (fun _ _ _ => trivial) h

/-- A dump that lists one station. -/
theorem Alone.dump {x : DataIw} {n : Nat} {s : State} (h : Alone x n s)
    (hx : x.station ≠ zeroMac) (hr : machine.Reachable s) :
    ∃ t, machine.Reachable t ∧ Alone x (n + 1) t := by
  obtain ⟨t, ht, hcall, -⟩ := h.call calm
  obtain ⟨u, hu, hsampled⟩ := hcall.sample hx
  have hrun : compareAndIwlist [x] calm s = .ok u := by
    simp only [compareAndIwlist, List.map_cons, List.map_nil, List.foldlM_cons, List.foldlM_nil,
      ht, hu, bind, Except.bind, pure, Except.pure]
  exact ⟨u, compare_and_iwlist_reachable hr hrun, hsampled⟩

/-- A first station at one second and another one ten seconds later. -/
def early : DataIw := { zeroIw with station := ⟨0, 0, 0, 0, 0, 1⟩, sec := 1 }
def late : DataIw := { zeroIw with station := ⟨0, 0, 0, 0, 0, 2⟩, sec := 11 }

theorem alone_first : ∃ s, machine.Reachable s ∧ Alone early 1 s := by
  have hother : ∀ i, (loaded.linkinfo i).station ≠ early.station := by decide
  have htaken : takenSlot early loaded = some 0 := taken_slot_first rfl hother rfl
  have hnone : touched early loaded = [] := reached_nil_iff.mpr fun i _ => (hother i).symm
  obtain ⟨s, hs, hstep⟩ := station_runs (s := loaded) loaded_sound
    fun i (_ : i ∈ touched early loaded) => Nat.zero_lt_succ 99
  have hclear : TakesClear loaded (.station early) := fun i _ ⟨hhead, _⟩ => by cases hhead
  have htook := hstep.took 0 htaken
  refine ⟨s, .step (.station early) .start trivial hs,
    slots_in_ring_step slots_in_ring_start hclear hs, ?_, ?_, ?_, fun i hi => ?_⟩
  · rw [htook]
    rfl
  · rw [htook]
    rfl
  · rw [htook]
    rfl
  · have hout : takenSlot early loaded ≠ some i := by
      rw [htaken]
      exact fun heq => hi (Option.some.inj heq).symm
    rw [hstep.other i (by simp [hnone]) hout, expire_links_station]
    rfl

theorem alone_runs (n : Nat) : ∃ s, machine.Reachable s ∧ Alone early (n + 1) s := by
  induction n with
  | zero => exact alone_first
  | succ n ih =>
    obtain ⟨s, hr, h⟩ := ih
    exact h.dump (by decide) hr

/-- The 199th sample is another station's: its slot has been filled to the end. -/
theorem tail_leaves_ring : ¬ ∀ actions,
    machine.Throughout StaysInRing machine.start actions := by
  intro h
  obtain ⟨s, hr, hs⟩ := alone_runs 197
  obtain ⟨t, ht, halone, hfound⟩ := hs.call calm
  have hreach : machine.Reachable t := .step (.call calm) hr trivial ht
  obtain ⟨hgood, -⟩ := Machine.throughout_reachable h hreach [.station late] trivial
  have hhead : (t.linkinfo 0).head = 98 := by
    rw [(halone.slots.sound 0).head, halone.samples]
    rfl
  have htail : (t.linkinfo 0).tail = 99 := by
    rw [(halone.slots.sound 0).tail.resolve_left (Nat.ne_of_lt (halone.slots.tail_lt 0)),
      Links.gone, halone.samples]
    rfl
  have htaken : takenSlot late t = some 0 := by
    refine taken_slot_first hfound (fun i => ?_) ?_
    · by_cases hi : i = 0
      · subst hi
        rw [halone.station]
        decide
      · rw [halone.other i hi]
        decide
    · unfold expireLinks
      simp only [halone.sec]
      rfl
  exact (stays_in_ring_iff halone.slots _).mp hgood 0 htaken ⟨hhead, htail⟩

end ApTelemetry.Sendudp.IwList
