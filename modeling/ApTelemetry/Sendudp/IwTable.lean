import ApTelemetry.Sendudp.Baselines

namespace ApTelemetry.Sendudp.IwList
open Lib

namespace IwProcessed

variable (iwp : IwProcessed)

def Live (i : Fin ten) : Prop := (iwp.link i).sec ≠ 0

/-- A station has one entry. -/
def Keyed : Prop := ∀ i j, iwp.Live i → iwp.Live j →
  (iwp.link i).station = (iwp.link j).station → i = j

def Counted : Prop :=
  iwp.count = countWhere (fun tmp4 => tmp4.sec ≠ 0) iwp.link ∧ 0 ≤ iwp.count ∧ iwp.count ≤ ten

/-- A new station takes one of the free slots. The others stay free, and other
entries stay as they are or time out. -/
def InsertsOne (tmp : DataIw) (after : IwProcessed) : Prop :=
  (∀ i, iwp.Live i → (iwp.link i).station ≠ tmp.station) → (∃ i, ¬ iwp.Live i) →
  ∃ i, ¬ iwp.Live i ∧ (after.link i).station = tmp.station ∧
    (∀ j, j ≠ i → ¬ iwp.Live j → ¬ after.Live j) ∧
    ∀ j, iwp.Live j → after.link j = iwp.link j ∨
      2 < tmp.sec - (iwp.link j).sec ∧ ¬ after.Live j

/-- No entry was ever made. An entry of the zero address at second zero looks so too. -/
structure Blank : Prop where
  count : iwp.count = 0
  station : ∀ i, (iwp.link i).station = zeroMac
  sec : ∀ i, (iwp.link i).sec = 0

end IwProcessed

/-- An action leaves `iwp` a set of stations, and inserts into it as into one. -/
def KeepsSet (s : State) (a : Action) (r : Except Fault State) : Prop :=
  ∃ t, r = .ok t ∧ t.iwp.Keyed ∧ t.iwp.Counted ∧
    ∀ tmp, a = .station tmp → t.rates ≠ s.rates → s.iwp.InsertsOne tmp t.iwp

/-- No rate is due but for the zero address at second zero, and no tail that is
read is behind its ring. -/
def NoRate (s : State) : Action → Prop
  | .call _ => True
  | .station tmp => ∀ i ∈ touched tmp s, (s.linkinfo i).tail < iwamount ∧
    ((s.linkinfo i).computes tmp = true → tmp.station = zeroMac ∧ tmp.sec = 0)

namespace IwProcessed

variable {iwp : IwProcessed} {tmp3 : DataIw}

theorem Blank.keyed (h : iwp.Blank) : iwp.Keyed := fun i _ hi => absurd (h.sec i) hi

theorem Blank.counted (h : iwp.Blank) : iwp.Counted := by
  have hnone := count_where_none (fun tmp4 => tmp4.sec ≠ 0) iwp.link fun i => by
    simp [h.sec i]
  refine ⟨?_, ?_, ?_⟩
  · rw [hnone, h.count]
    rfl
  · rw [h.count]
  · rw [h.count]
    decide

/-- The first entry of a station other than the zero one fills every slot. -/
theorem Blank.record_fills (h : iwp.Blank) (hstation : tmp3.station ≠ zeroMac) :
    iwp.record tmp3 = ⟨10, fun _ => tmp3⟩ := by
  have hnew : iwp.position tmp3 = none := by
    rw [position, Fin.find?_eq_none_iff]
    intro i
    rw [h.station i]
    exact decide_eq_false (Ne.symm hstation)
  have hinsert : iwp.insert tmp3 = ⟨10, fun _ => tmp3⟩ := by
    have hall := count_where_all (fun tmp4 => tmp4.sec = 0) iwp.link fun i =>
      decide_eq_true (h.sec i)
    rw [insert, hall, h.count]
    simp only [h.sec, if_true]
    rfl
  have hkept := count_where_none (fun tmp4 => 2 < tmp3.sec - tmp4.sec)
    (fun _ : Fin ten => tmp3) fun _ => by simp
  unfold record
  simp only [hnew, hinsert, expire, hkept]
  simp

theorem Blank.record_zero (h : iwp.Blank) (hstation : tmp3.station = zeroMac) :
    iwp.record tmp3 = { iwp with link := Function.update iwp.link 0 tmp3 }.expire tmp3 := by
  have hfirst : iwp.position tmp3 = some 0 := by
    rw [position, Fin.find?_eq_some_iff]
    refine ⟨?_, fun j hj => absurd hj (Fin.not_lt_zero j)⟩
    rw [h.station 0, hstation]
    exact decide_eq_true rfl
  unfold record
  simp only [hfirst]

/-- The table is a set after its first entry only if that is the zero one. -/
theorem Blank.of_record (h : iwp.Blank) (hkeyed : (iwp.record tmp3).Keyed)
    (hcounted : (iwp.record tmp3).Counted) : tmp3.station = zeroMac ∧ tmp3.sec = 0 := by
  by_cases hstation : tmp3.station = zeroMac
  · refine ⟨hstation, ?_⟩
    by_contra hsec
    rw [h.record_zero hstation] at hcounted
    have hlive : 0 < countWhere (fun tmp4 => tmp4.sec ≠ 0)
        ({ iwp with link := Function.update iwp.link 0 tmp3 }.expire tmp3).link := by
      refine count_where_pos (i := 0) ?_
      simp only [expire, Function.update_self, BitVec.sub_self]
      exact decide_eq_true hsec
    obtain ⟨hcount, -⟩ := hcounted
    have hless : ({ iwp with link := Function.update iwp.link 0 tmp3 }.expire tmp3).count ≤ 0 := by
      simp only [expire, h.count]
      omega
    omega
  · rw [h.record_fills hstation] at hkeyed hcounted
    by_cases hsec : tmp3.sec = 0
    · have hnone := count_where_none (fun tmp4 => tmp4.sec ≠ 0) (fun _ : Fin ten => tmp3)
        fun _ => by simp [hsec]
      have hcount := hcounted.1
      rw [hnone] at hcount
      cases hcount
    · have hsame := hkeyed 0 1 hsec hsec rfl
      exact absurd hsame (by decide)

/-- The entry of the zero address at second zero changes nothing that is looked at. -/
theorem Blank.record (h : iwp.Blank) (hstation : tmp3.station = zeroMac) (hsec : tmp3.sec = 0) :
    (iwp.record tmp3).Blank := by
  have hentries : ∀ i, (Function.update iwp.link 0 tmp3 i).station = zeroMac ∧
      (Function.update iwp.link 0 tmp3 i).sec = 0 := by
    intro i
    by_cases hi : i = 0
    · subst hi
      rw [Function.update_self]
      exact ⟨hstation, hsec⟩
    · rw [Function.update_of_ne hi]
      exact ⟨h.station i, h.sec i⟩
  have hkept := count_where_none (fun tmp4 => 2 < tmp3.sec - tmp4.sec)
    (Function.update iwp.link 0 tmp3) fun i => by simp [(hentries i).2, hsec]
  rw [h.record_zero hstation]
  constructor
  · simp only [expire, hkept, h.count]
    rfl
  · intro i
    simp [expire, hsec, hentries i]
  · intro i
    simp [expire, hsec, hentries i]

theorem Blank.inserts_one (h : iwp.Blank) {tmp : DataIw} {after : IwProcessed}
    (hafter : after.Blank) (hstation : tmp.station = zeroMac) : iwp.InsertsOne tmp after := by
  intro _ _
  refine ⟨0, fun hlive => hlive (h.sec 0), (hafter.station 0).trans hstation.symm, ?_, ?_⟩
  · exact fun j _ _ hlive => hlive (hafter.sec j)
  · exact fun j hlive => absurd (h.sec j) hlive

end IwProcessed

structure TableInvariant (s : State) : Prop where
  sound : ∀ i, (s.linkinfo i).Sound
  blank : s.iwp.Blank

variable {s t : State}

/-- A station's record under the guard leaves the table blank. -/
theorem table_invariant_step (h : TableInvariant s) {a : Action} (hquiet : NoRate s a)
    (hrun : exec s a = .ok t) : TableInvariant t := by
  refine ⟨slots_sound_step h.sound hrun, ?_⟩
  cases a with
  | call sur =>
    obtain ⟨t', ht', -, hiwp, -⟩ := call_same sur s
    obtain rfl := Except.ok.inj (ht'.symm.trans hrun)
    rw [hiwp]
    exact h.blank
  | station tmp =>
    obtain ⟨t', ht', hstep⟩ := station_runs h.sound fun i hi => (hquiet i hi).1
    obtain rfl := Except.ok.inj (ht'.symm.trans hrun)
    by_cases hnone : ∀ i ∈ touched tmp s, (s.linkinfo i).computes tmp = false
    · rw [(hstep.quiet hnone).1]
      exact h.blank
    · simp only [not_forall, Bool.not_eq_false] at hnone
      obtain ⟨i, hi, hcomputes⟩ := hnone
      obtain ⟨ltmp, lstmp, -, -, hiwp, -⟩ := hstep.rated i hi hcomputes
      obtain ⟨hstation, hsec⟩ := (hquiet i hi).2 hcomputes
      rw [hiwp]
      exact h.blank.record hstation hsec

theorem keeps_set_iff (h : TableInvariant s) (a : Action) :
    KeepsSet s a (exec s a) ↔ NoRate s a := by
  constructor
  · rintro ⟨t, ht, hkeyed, hcounted, -⟩
    cases a with
    | call sur => trivial
    | station tmp =>
      intro i hi
      have hin := touched_tail_lt h.sound ht
      refine ⟨hin i hi, fun hcomputes => ?_⟩
      obtain ⟨t', ht', hstep⟩ := station_runs h.sound hin
      obtain rfl := Except.ok.inj (ht.symm.trans ht')
      obtain ⟨ltmp, lstmp, -, -, hiwp, -⟩ := hstep.rated i hi hcomputes
      rw [hiwp] at hkeyed hcounted
      have hzero : (processed tmp lstmp).station = zeroMac ∧ (processed tmp lstmp).sec = 0 :=
        h.blank.of_record hkeyed hcounted
      exact hzero
  · intro hquiet
    cases a with
    | call sur =>
      obtain ⟨t, ht, -⟩ := call_same sur s
      have hblank := (table_invariant_step h hquiet ht).blank
      exact ⟨t, ht, hblank.keyed, hblank.counted, fun tmp ha => by cases ha⟩
    | station tmp =>
      obtain ⟨t, ht, hstep⟩ := station_runs h.sound fun i hi => (hquiet i hi).1
      have hblank := (table_invariant_step h hquiet ht).blank
      refine ⟨t, ht, hblank.keyed, hblank.counted, fun tmp' ha hrates => ?_⟩
      cases ha
      have hdue : ¬ ∀ i ∈ touched tmp s, (s.linkinfo i).computes tmp = false :=
        fun hnone => hrates (hstep.quiet hnone).2
      simp only [not_forall, Bool.not_eq_false] at hdue
      obtain ⟨i, hi, hcomputes⟩ := hdue
      exact h.blank.inserts_one hblank ((hquiet i hi).2 hcomputes).1

theorem table_invariant_start : TableInvariant machine.start :=
  ⟨loaded_sound, rfl, fun _ => rfl, fun _ => rfl⟩

/-- `iwp` is a set of stations for as long as no rate is entered into it. -/
theorem iwp_set_iff (actions : List Action) :
    machine.Throughout KeepsSet machine.start actions ↔
    machine.Throughout (fun s a _ => NoRate s a) machine.start actions :=
  Machine.throughout_iff TableInvariant (fun _ a hs _ => keeps_set_iff hs a)
    (fun _ _ _ hs _ hquiet hrun => table_invariant_step hs hquiet hrun)
    table_invariant_start actions

/-- The first rate of a run fills all ten slots. -/
theorem first_rate_fills : ¬ ∀ actions,
    machine.Throughout KeepsSet machine.start actions := by
  intro h
  let second : DataIw := { early with sec := 2 }
  have hfacts : (machine.follow machine.start [.call calm, .station early, .call calm]).map
      (fun s => (touched second s, (s.linkinfo 0).computes second, s.iwp.count,
        decide (∀ i, (s.iwp.link i).station = zeroMac ∧ (s.iwp.link i).sec = 0))) =
      some ([0], true, 0, true) := by decide
  obtain ⟨s, hr, hs⟩ := Machine.follow_map_reachable hfacts
  simp only [Prod.mk.injEq, decide_eq_true_eq] at hs
  obtain ⟨htouched, hcomputes, hcount, hentries⟩ := hs
  have hinv : TableInvariant s :=
    ⟨reachable_sound hr, hcount, fun i => (hentries i).1, fun i => (hentries i).2⟩
  obtain ⟨hgood, -⟩ := Machine.throughout_reachable h hr [.station second] trivial
  have hmem : 0 ∈ touched second s := htouched ▸ List.mem_singleton_self _
  have hzero := ((keeps_set_iff hinv _).mp hgood 0 hmem).2 hcomputes
  exact absurd hzero.1 (by decide)

end ApTelemetry.Sendudp.IwList
