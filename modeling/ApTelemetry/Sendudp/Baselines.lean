import ApTelemetry.Sendudp.LinkTails

namespace ApTelemetry.Sendudp.IwList
open Lib

/-- A rate was computed against a sample that its station left in its slot
before this one and since the slot is its own. -/
def ComparesOwn (s t : State) (tmp : DataIw) : Prop :=
  ∃ ltmp lstmp j, t.rates = s.rates ++ [⟨tmp, ltmp⟩] ∧
    t.iwp = s.iwp.record (processed tmp lstmp) ∧
    ltmp.place ltmp.tail = (some lstmp, some (some j)) ∧
    ltmp.since ≤ j ∧ j + 1 < ltmp.samples.length ∧
    ltmp.samples[j]? = some lstmp ∧ lstmp.station = tmp.station

/-- An action writes no entry, or one from two samples of one station. -/
def RatesOwn (s : State) (a : Action) (r : Except Fault State) : Prop :=
  ∃ t, r = .ok t ∧ (t.iwp = s.iwp ∧ t.rates = s.rates ∨
    ∃ tmp, a = .station tmp ∧ ComparesOwn s t tmp)

/-- The tail of a slot that takes a sample is in its ring, and if a rate is due
the slot never had another owner or the ring has been filled by this one. -/
def OwnHistory (s : State) : Action → Prop
  | .call _ => True
  | .station tmp => ∀ i ∈ touched tmp s, (s.linkinfo i).tail < iwamount ∧
    ((s.linkinfo i).computes tmp = true →
      (s.linkinfo i).since = 0 ∨ (s.linkinfo i).since + 99 ≤ (s.linkinfo i).samples.length + 1)

/-- No time passes from a sample to itself. -/
theorem due_self (tmp : DataIw) : due tmp (iw2linkstates tmp) = false := by
  have hzero : duration tmp (iw2linkstates tmp) = 0 := by
    simp [duration, iw2linkstates]
  rw [due, hzero]
  decide

variable {s : State} {tmp : DataIw}

/-- A slot that is not read outside its ring has its tail there. -/
theorem touched_tail_lt (h : ∀ i, (s.linkinfo i).Sound) {t : State}
    (hrun : exec s (.station tmp) = .ok t) :
    ∀ i ∈ touched tmp s, (s.linkinfo i).tail < iwamount := by
  intro i hi
  by_contra hout
  have htail : (s.linkinfo i).tail = iwamount :=
    (h i).tail.resolve_right fun heq => hout (heq ▸ Nat.mod_lt _ (by decide))
  rw [station_stuck h hi htail] at hrun
  cases hrun

/-- The baseline is the owner's own exactly if the slot's history is. -/
theorem compares_own_iff (h : ∀ i, (s.linkinfo i).Sound) {t : State} (hstep : StationStep tmp s t)
    {i : Fin ten} (hi : i ∈ touched tmp s) (htail : (s.linkinfo i).tail < iwamount)
    (hcomputes : (s.linkinfo i).computes tmp = true) : ComparesOwn s t tmp ↔
      (s.linkinfo i).since = 0 ∨
      (s.linkinfo i).since + 99 ≤ (s.linkinfo i).samples.length + 1 := by
  have hstation := (reached_subset i hi).2
  obtain ⟨ltmp, lstmp, hsample, hdue, hiwp, hrates⟩ := hstep.rated i hi hcomputes
  obtain ⟨l, lstmp', hsample', hsound, -, hsamples, hsince, hsame, -, hplace, hget⟩ :=
    (h i).sample_runs htail hstation
  obtain ⟨rfl, rfl⟩ := Prod.mk.inj (Except.ok.inj (hsample.symm.trans hsample'))
  have hlength : ltmp.samples.length = (s.linkinfo i).samples.length + 1 := by
    rw [hsamples, List.length_append]
    rfl
  have hgone : ltmp.gone = (s.linkinfo i).samples.length + 1 - 99 := by
    rw [Links.gone, hlength, dropped]
    omega
  -- a rate is not due on the first sample of a slot: it is its own baseline
  have hsecond : (s.linkinfo i).samples ≠ [] := by
    intro hnil
    have hfirst : ltmp.gone = 0 := by simp [hgone, hnil]
    rw [hfirst, hsamples, hnil] at hget
    obtain rfl : iw2linkstates tmp = lstmp := Option.some.inj hget
    rw [due_self] at hdue
    cases hdue
  have hpos := List.length_pos_iff.mpr hsecond
  constructor
  · rintro ⟨l, x, j, hrates', -, hplace', hsince', -⟩
    have hlast := List.append_cancel_left (hrates.symm.trans hrates')
    obtain rfl : ltmp = l := congrArg Rate.ltmp (List.singleton_inj.mp hlast)
    have hj : ltmp.gone = j := by
      have horigin := congrArg Prod.snd (hplace.symm.trans hplace')
      exact Option.some.inj (Option.some.inj horigin)
    rw [hsince] at hsince'
    omega
  · intro hown
    have hle : ltmp.since ≤ ltmp.gone := by
      rw [hsince, hgone]
      omega
    refine ⟨ltmp, lstmp, ltmp.gone, hrates, hiwp, hplace, hle, by omega, hget, ?_⟩
    rw [hsound.owner ltmp.gone lstmp hle hget, hsame, hstation]

theorem rates_own_iff (h : ∀ i, (s.linkinfo i).Sound) (a : Action) :
    RatesOwn s a (exec s a) ↔ OwnHistory s a := by
  cases a with
  | call sur =>
    obtain ⟨t, ht, -, hiwp, hrates, -⟩ := call_same sur s
    exact iff_of_true ⟨t, ht, .inl ⟨hiwp, hrates⟩⟩ trivial
  | station tmp =>
    constructor
    · rintro ⟨t, ht, hrated⟩ i hi
      have hin := touched_tail_lt h ht
      refine ⟨hin i hi, fun hcomputes => ?_⟩
      obtain ⟨t', ht', hstep⟩ := station_runs h hin
      obtain rfl := Except.ok.inj (ht.symm.trans ht')
      apply (compares_own_iff h hstep hi (hin i hi) hcomputes).mp
      rcases hrated with ⟨-, hsame⟩ | ⟨tmp', ha, hown⟩
      · obtain ⟨ltmp, lstmp, -, -, -, hrates⟩ := hstep.rated i hi hcomputes
        rw [hrates] at hsame
        exact absurd hsame (by simp)
      · cases ha
        exact hown
    · intro hhistory
      have hin : ∀ i ∈ touched tmp s, (s.linkinfo i).tail < iwamount :=
        fun i hi => (hhistory i hi).1
      obtain ⟨t, ht, hstep⟩ := station_runs h hin
      refine ⟨t, ht, ?_⟩
      by_cases hquiet : ∀ i ∈ touched tmp s, (s.linkinfo i).computes tmp = false
      · exact .inl (hstep.quiet hquiet)
      · simp only [not_forall, Bool.not_eq_false] at hquiet
        obtain ⟨i, hi, hcomputes⟩ := hquiet
        exact .inr ⟨tmp, rfl, (compares_own_iff h hstep hi (hin i hi) hcomputes).mpr
          ((hhistory i hi).2 hcomputes)⟩

theorem slots_sound_step (h : ∀ i, (s.linkinfo i).Sound) {t : State} {a : Action}
    (hrun : exec s a = .ok t) : ∀ i, (t.linkinfo i).Sound := by
  cases a with
  | call sur =>
    obtain ⟨t', ht', hlinkinfo, -⟩ := call_same sur s
    obtain rfl := Except.ok.inj (ht'.symm.trans hrun)
    rwa [hlinkinfo]
  | station tmp =>
    obtain ⟨t', ht', hstep⟩ := station_runs h (touched_tail_lt h hrun)
    obtain rfl := Except.ok.inj (ht'.symm.trans hrun)
    exact hstep.sound

theorem reachable_sound (hr : machine.Reachable s) : ∀ i, (s.linkinfo i).Sound := by
  induction hr with
  | start => exact loaded_sound
  | step a _ _ runs ih => exact slots_sound_step ih runs

/-- The entries of a run all compare a station with itself exactly if every
slot that one is computed from has only its owner's samples within reach. -/
theorem rates_iff (actions : List Action) :
    machine.Throughout RatesOwn machine.start actions ↔
    machine.Throughout (fun s a _ => OwnHistory s a) machine.start actions :=
  Machine.throughout_iff (fun s => ∀ i, (s.linkinfo i).Sound)
    (fun _ a hs _ => rates_own_iff hs a)
    (fun _ _ _ hs _ _ hrun => slots_sound_step hs hrun) loaded_sound actions

/-- A slot is taken over, and its new station sends a second sample. -/
def handed : List Action :=
  [.call calm, .station early, .call calm, .station late, .call calm]

def later : DataIw := { late with sec := 12 }

/-- The second station's first rate is computed from the first one's sample. -/
theorem baseline_of_other_station : ¬ ∀ actions,
    machine.Throughout RatesOwn machine.start actions := by
  intro h
  have hfacts : (machine.follow machine.start handed).map (fun s =>
      (touched later s, (s.linkinfo 0).computes later, (s.linkinfo 0).since,
        (s.linkinfo 0).samples.length)) = some ([0], true, 1, 2) := by decide
  obtain ⟨s, hr, hs⟩ := Machine.follow_map_reachable hfacts
  simp only [Prod.mk.injEq] at hs
  obtain ⟨htouched, hcomputes, hsince, hlength⟩ := hs
  obtain ⟨hgood, -⟩ := Machine.throughout_reachable h hr [.station later] trivial
  have hmem : 0 ∈ touched later s := htouched ▸ List.mem_singleton_self _
  have hown := ((rates_own_iff (reachable_sound hr) _).mp hgood 0 hmem).2 hcomputes
  omega

end ApTelemetry.Sendudp.IwList
