import ApTelemetry.Sendudp.Baselines
import Mathlib.Data.Finset.Card

namespace ApTelemetry.Sendudp.IwList
open Lib

/-- A dump of `ieee80211_dump_station_linger`: one sample for each station the
driver knows, with the clock as it was read for it. -/
structure Dump where
  samples : List DataIw
  stations : (samples.map DataIw.station).Nodup
  named : ∀ tmp ∈ samples, tmp.station ≠ zeroMac
  timed : ∀ tmp ∈ samples, tmp.sec ≠ 0

theorem Dump.apart (dump : Dump) {done rest : List DataIw} {tmp x : DataIw}
    (h : dump.samples = done ++ tmp :: rest) (hx : x ∈ done) : tmp.station ≠ x.station := by
  have hstations := dump.stations
  rw [h, List.map_append, List.map_cons] at hstations
  exact ((List.nodup_append.mp hstations).2.2 x.station (List.mem_map_of_mem hx) tmp.station
    List.mem_cons_self).symm

/-- `linkinfo` as calls leave it. -/
structure Table (s : State) : Prop where
  sound : ∀ i, (s.linkinfo i).Sound
  distinct : ∀ i j, (s.linkinfo i).station = (s.linkinfo j).station →
    (s.linkinfo i).station ≠ zeroMac → i = j
  unnamed : ∀ i, (s.linkinfo i).station = zeroMac → (s.linkinfo i).sec = 0

/-- The stations whose slot is not out of date when the dump is taken, and those
of the dump. -/
def liveStations (s : State) : List DataIw → Finset Mac
  | [] => ∅
  | tmp :: rest =>
    (Finset.univ.filter fun i => ((expireLinks tmp s).linkinfo i).sec ≠ 0).image
      (fun i => (s.linkinfo i).station) ∪ ((tmp :: rest).map DataIw.station).toFinset

/-- After the call `s` has come to `t`: the station has a slot, of the time of
its sample, and the sample was appended there, and no other. -/
def Owns (s t : State) (tmp : DataIw) : Prop :=
  ∃ i, (t.linkinfo i).station = tmp.station ∧ (t.linkinfo i).sec = tmp.sec ∧
    (t.linkinfo i).samples = (s.linkinfo i).samples ++ [iw2linkstates tmp]

def TracksAll (dump : Dump) (s : State) (r : Except Fault State) : Prop :=
  ∃ t, r = .ok t ∧ ∀ tmp ∈ dump.samples, Owns s t tmp

/-- A slot the station has is to be sampled inside its ring. A station without
a slot comes before all that have one, as `found1` is not reset. -/
def Served (s : State) : Action → Prop
  | .call _ => True
  | .station tmp =>
    (∀ i, (s.linkinfo i).station = tmp.station → (s.linkinfo i).tail < iwamount) ∧
      (s.found1 = true → ∃ i, (s.linkinfo i).station = tmp.station)

/-- The later sample does not make the slot of the earlier one expire. -/
def Near (earlier later : DataIw) : Prop := ¬ (2 : U32).slt (later.sec - earlier.sec)

/-- The slot that comes to the station: the one it has, or a free one. -/
def Comes (s : State) (tmp : DataIw) (i : Fin ten) : Prop :=
  i ∈ touched tmp s ∨ takenSlot tmp s = some i

theorem expire_sec (tmp : DataIw) (s : State) (i : Fin ten) :
    ((expireLinks tmp s).linkinfo i).sec = (s.linkinfo i).sec ∨
      ((expireLinks tmp s).linkinfo i).sec = 0 := by
  simp only [expireLinks]
  split
  · exact .inr rfl
  · exact .inl rfl

theorem expire_samples (tmp : DataIw) (s : State) (i : Fin ten) :
    ((expireLinks tmp s).linkinfo i).samples = (s.linkinfo i).samples := by
  simp only [expireLinks]
  split <;> rfl

section Table

variable {s t : State} {tmp : DataIw} {i j : Fin ten}

theorem station_own (h : ∀ i, (s.linkinfo i).Sound) (hrun : exec s (.station tmp) = .ok t)
    (hi : Comes s tmp i) : (t.linkinfo i).station = tmp.station ∧ (t.linkinfo i).sec = tmp.sec ∧
      (t.linkinfo i).samples = (s.linkinfo i).samples ++ [iw2linkstates tmp] := by
  have hin := touched_tail_lt h hrun
  obtain ⟨t', ht', hstep⟩ := station_runs h hin
  obtain rfl := Except.ok.inj (ht'.symm.trans hrun)
  rcases hi with htouched | htaken
  · obtain ⟨lstmp, hsample⟩ := hstep.sampled i htouched
    obtain ⟨l, lstmp', hsample', -, -, hsamples, -, hstation, hsec, -⟩ :=
      (h i).sample_runs (hin i htouched) (reached_subset i htouched).2
    obtain ⟨rfl, rfl⟩ := Prod.mk.inj (Except.ok.inj (hsample.symm.trans hsample'))
    exact ⟨hstation.trans (reached_subset i htouched).2.symm, hsec, hsamples⟩
  · rw [hstep.took i htaken, ← expire_samples tmp s i]
    exact ⟨rfl, rfl, rfl⟩

theorem station_other (h : ∀ i, (s.linkinfo i).Sound) (hrun : exec s (.station tmp) = .ok t)
    (hi : ¬ Comes s tmp i) : t.linkinfo i = (expireLinks tmp s).linkinfo i := by
  obtain ⟨t', ht', hstep⟩ := station_runs h (touched_tail_lt h hrun)
  obtain rfl := Except.ok.inj (ht'.symm.trans hrun)
  exact hstep.other i (fun htouched => hi (.inl htouched)) fun htaken => hi (.inr htaken)

theorem taken_slot_some (h : takenSlot tmp s = some i) :
    (∀ j, (s.linkinfo j).station ≠ tmp.station) ∧ ((expireLinks tmp s).linkinfo i).sec = 0 := by
  rw [takenSlot] at h
  split at h
  · rename_i hboth
    exact ⟨hboth.2, of_decide_eq_true (Fin.find?_eq_some_iff.mp h).1⟩
  · cases h

/-- No other slot comes to the station, or has it. -/
theorem comes_only (h : Table s) (hnamed : tmp.station ≠ zeroMac) (hi : Comes s tmp i)
    (hj : (s.linkinfo j).station = tmp.station ∨ takenSlot tmp s = some j) : j = i := by
  rcases hi with htouched | htaken
  · have hstation := (reached_subset i htouched).2
    rcases hj with hj | hj
    · exact h.distinct j i (hj.trans hstation) (hj ▸ hnamed)
    · exact absurd hstation.symm ((taken_slot_some hj).1 i)
  · rcases hj with hj | hj
    · exact absurd hj ((taken_slot_some htaken).1 j)
    · exact (Option.some.inj (htaken.symm.trans hj)).symm

theorem touched_of_station (h : Table s) (hnamed : tmp.station ≠ zeroMac)
    (hi : (s.linkinfo i).station = tmp.station) : i ∈ touched tmp s := by
  have hsome : touched tmp s ≠ [] := fun hnil =>
    reached_nil_iff.mp hnil i (List.mem_finRange i) hi.symm
  obtain ⟨j, hj⟩ := List.exists_mem_of_ne_nil _ hsome
  exact comes_only h hnamed (.inl hj) (.inl hi) ▸ hj

theorem Comes.has (h : Comes s tmp i) :
    (s.linkinfo i).station = tmp.station ∨ takenSlot tmp s = some i := by
  rcases h with htouched | htaken
  · exact .inl (reached_subset i htouched).2.symm
  · exact .inr htaken

theorem table_call (h : Table s) {sur : DataSurvey} (hrun : exec s (.call sur) = .ok t) :
    Table t := by
  obtain ⟨t', ht', hlinkinfo, -⟩ := call_same sur s
  obtain rfl := Except.ok.inj (ht'.symm.trans hrun)
  obtain ⟨hsound, hdistinct, hunnamed⟩ := h
  rw [← hlinkinfo] at hsound hdistinct hunnamed
  exact ⟨hsound, hdistinct, hunnamed⟩

theorem table_station (h : Table s) (hnamed : tmp.station ≠ zeroMac)
    (hrun : exec s (.station tmp) = .ok t) : Table t where
  sound := slots_sound_step h.sound hrun
  distinct := by
    intro i j hsame hne
    by_cases hi : Comes s tmp i
    · by_cases hj : Comes s tmp j
      · exact (comes_only h hnamed hi hj.has).symm
      · rw [(station_own h.sound hrun hi).1, station_other h.sound hrun hj,
          expire_links_station] at hsame
        exact (comes_only h hnamed hi (.inl hsame.symm)).symm
    · rw [station_other h.sound hrun hi, expire_links_station] at hsame hne
      by_cases hj : Comes s tmp j
      · rw [(station_own h.sound hrun hj).1] at hsame
        exact comes_only h hnamed hj (.inl hsame)
      · rw [station_other h.sound hrun hj, expire_links_station] at hsame
        exact h.distinct i j hsame hne
  unnamed := by
    intro i hzero
    by_cases hi : Comes s tmp i
    · rw [(station_own h.sound hrun hi).1] at hzero
      exact absurd hzero hnamed
    · rw [station_other h.sound hrun hi] at hzero ⊢
      rw [expire_links_station] at hzero
      rcases expire_sec tmp s i with hsec | hsec
      · rw [hsec, h.unnamed i hzero]
      · exact hsec

end Table

theorem loaded_table : Table loaded :=
  ⟨loaded_sound, fun _ _ _ hne => absurd rfl hne, fun _ _ => rfl⟩

/-- The stations of a dump have addresses. -/
def Named (_ : State) : Action → Prop
  | .call _ => True
  | .station tmp => tmp.station ≠ zeroMac

theorem table_step {s t : State} {a : Action} (h : Table s) (hnamed : Named s a)
    (hrun : exec s a = .ok t) : Table t := by
  cases a with
  | call sur => exact table_call h hrun
  | station tmp => exact table_station h hnamed hrun

/-- So every state that calls lead to is a table. -/
theorem reachable_table {s : State} (hr : (machine.restrict Named).Reachable s) : Table s := by
  induction hr with
  | start => exact loaded_table
  | step a _ allowed runs ih => exact table_step ih allowed.2 runs

section Lost

variable {s t : State} {tmp : DataIw}

/-- No slot of the station has the time of the sample. -/
def Lost (s : State) (tmp : DataIw) : Prop :=
  ∀ i, (s.linkinfo i).station = tmp.station → (s.linkinfo i).sec ≠ tmp.sec

theorem Lost.not_owns {u : State} (h : Lost t tmp) : ¬ Owns u t tmp := by
  rintro ⟨i, hstation, hsec, -⟩
  exact h i hstation hsec

/-- Other stations do not bring it back. -/
theorem Lost.step (h : Lost s tmp) (hsound : ∀ i, (s.linkinfo i).Sound) (htimed : tmp.sec ≠ 0)
    {other : DataIw} (hother : other.station ≠ tmp.station)
    (hrun : exec s (.station other) = .ok t) : Lost t tmp := by
  intro i hstation
  have hi : ¬ Comes s other i := fun hi =>
    hother ((station_own hsound hrun hi).1.symm.trans hstation)
  rw [station_other hsound hrun hi] at hstation ⊢
  rw [expire_links_station] at hstation
  rcases expire_sec other s i with hsec | hsec
  · rw [hsec]
    exact h i hstation
  · rw [hsec]
    exact htimed.symm

theorem Lost.run (h : Lost s tmp) (hsound : ∀ i, (s.linkinfo i).Sound) (htimed : tmp.sec ≠ 0)
    {rest : List DataIw} (hrest : ∀ other ∈ rest, other.station ≠ tmp.station)
    (hrun : (rest.map Action.station).foldlM exec s = .ok t) : Lost t tmp := by
  induction rest generalizing s with
  | nil => exact Except.ok.inj hrun ▸ h
  | cons other rest ih =>
    obtain ⟨u, hu, hlater⟩ := bind_ok hrun
    exact ih (h.step hsound htimed (hrest other List.mem_cons_self) hu)
      (slots_sound_step hsound hu)
      (fun other hmem => hrest other (List.mem_cons_of_mem _ hmem)) hlater

end Lost

/-- The call has come past the samples `done`, and all their stations are tracked. -/
structure Midway (dump : Dump) (s u : State) (done : List DataIw) : Prop where
  table : Table u
  owns : ∀ tmp ∈ done, Owns s u tmp
  kept : ∀ i, (∀ tmp ∈ done, (u.linkinfo i).station ≠ tmp.station) →
    (u.linkinfo i).station = (s.linkinfo i).station ∧
      (u.linkinfo i).samples = (s.linkinfo i).samples
  live : ∀ tmp rest, dump.samples = done ++ tmp :: rest →
    ∀ i, ((expireLinks tmp u).linkinfo i).sec ≠ 0 →
      (u.linkinfo i).station ∈ liveStations s dump.samples
  near : done.Pairwise Near

theorem station_live (s : State) {samples : List DataIw} {tmp : DataIw} (h : tmp ∈ samples) :
    tmp.station ∈ liveStations s samples := by
  cases samples with
  | nil => cases h
  | cons first rest =>
    exact Finset.mem_union_right _ (List.mem_toFinset.mpr (List.mem_map_of_mem h))

theorem slot_live {s : State} {i : Fin ten} {tmp : DataIw} {rest : List DataIw}
    (h : ((expireLinks tmp s).linkinfo i).sec ≠ 0) :
    (s.linkinfo i).station ∈ liveStations s (tmp :: rest) :=
  Finset.mem_union_left _ (Finset.mem_image_of_mem _
    (Finset.mem_filter.mpr ⟨Finset.mem_univ i, h⟩))

/-- Ten stations at most do not fill the table before the last of them has come. -/
theorem exists_free {s : State} (h : Table s) (tmp : DataIw) {live : Finset Mac}
    (hlive : ∀ i, ((expireLinks tmp s).linkinfo i).sec ≠ 0 → (s.linkinfo i).station ∈ live)
    (hroom : live.card ≤ ten) (hmem : tmp.station ∈ live)
    (hnone : ∀ i, (s.linkinfo i).station ≠ tmp.station) :
    ∃ i, freeSlot (expireLinks tmp s) = some i := by
  let slots : Slots (Fin ten) Mac := fun i =>
    if ((expireLinks tmp s).linkinfo i).sec = 0 then none else some (s.linkinfo i).station
  have hslots : ∀ i key, slots i = some key →
      ((expireLinks tmp s).linkinfo i).sec ≠ 0 ∧ (s.linkinfo i).station = key := by
    intro i key hi
    simp only [slots] at hi
    split at hi
    · cases hi
    · rename_i hsec
      exact ⟨hsec, Option.some.inj hi⟩
  have hunique : slots.Unique := by
    intro i j key hi hj
    obtain ⟨hsec, hstation⟩ := hslots i key hi
    refine h.distinct i j (hstation.trans (hslots j key hj).2.symm) fun hzero => hsec ?_
    rcases expire_sec tmp s i with hsame | hsame
    · rw [hsame, h.unnamed i hzero]
    · exact hsame
  have hcard : (live.erase tmp.station).card < Fintype.card (Fin ten) := by
    have hpos := Finset.card_pos.mpr ⟨_, hmem⟩
    rw [Finset.card_erase_of_mem hmem, Fintype.card_fin]
    omega
  have hothers : ∀ i key, slots i = some key → key ∈ live.erase tmp.station := by
    intro i key hi
    obtain ⟨hsec, rfl⟩ := hslots i key hi
    exact Finset.mem_erase.mpr ⟨hnone i, hlive i hsec⟩
  obtain ⟨i, hi⟩ := hunique.exists_free hothers hcard
  have hfree : ((expireLinks tmp s).linkinfo i).sec = 0 := by
    by_contra hsec
    simp only [slots, if_neg hsec] at hi
    cases hi
  have hsome : (freeSlot (expireLinks tmp s)).isSome :=
    Fin.isSome_find?_iff.mpr ⟨i, decide_eq_true hfree⟩
  exact Option.isSome_iff_exists.mp hsome

namespace Midway

variable {dump : Dump} {s u : State} {done rest : List DataIw} {tmp : DataIw}

/-- The slot of a station that has come is not given to another. -/
theorem not_comes (h : Midway dump s u done) (hsamples : dump.samples = done ++ tmp :: rest)
    (hnear : ∀ x ∈ done, Near x tmp) {x : DataIw} (hx : x ∈ done) {i : Fin ten}
    (hi : (u.linkinfo i).station = x.station) :
    ¬ Comes u tmp i ∧ ((expireLinks tmp u).linkinfo i).sec = x.sec := by
  have hin : x ∈ dump.samples := hsamples ▸ List.mem_append_left _ hx
  obtain ⟨j, hstation, hsec, -⟩ := h.owns x hx
  obtain rfl := h.table.distinct i j (hi.trans hstation.symm) (hi ▸ dump.named x hin)
  have hkept : ((expireLinks tmp u).linkinfo i).sec = x.sec := by
    simp only [expireLinks, hsec, if_neg (hnear x hx)]
  refine ⟨fun hcomes => ?_, hkept⟩
  rcases hcomes.has with hsame | htaken
  · exact dump.apart hsamples hx (hsame.symm.trans hi)
  · exact dump.timed x hin (hkept.symm.trans (taken_slot_some htaken).2)

/-- A station that is served finds a slot: its own, or a free one. -/
theorem comes (h : Midway dump s u done) (hsamples : dump.samples = done ++ tmp :: rest)
    (hroom : (liveStations s dump.samples).card ≤ ten) (hserved : Served u (.station tmp)) :
    ∃ i, Comes u tmp i := by
  have hin : tmp ∈ dump.samples := hsamples ▸ List.mem_append_right _ List.mem_cons_self
  by_cases hnone : ∀ i, (u.linkinfo i).station ≠ tmp.station
  · have hfound : u.found1 = false := by
      by_contra hset
      obtain ⟨i, hi⟩ := hserved.2 (by simpa using hset)
      exact hnone i hi
    obtain ⟨i, hi⟩ := exists_free h.table tmp (h.live tmp rest hsamples) hroom
      (station_live s hin) hnone
    exact ⟨i, .inr ((if_pos ⟨hfound, hnone⟩).trans hi)⟩
  · obtain ⟨i, hi⟩ := not_forall.mp hnone
    exact ⟨i, .inl (touched_of_station h.table (dump.named tmp hin) (not_not.mp hi))⟩

/-- A station that is served is tracked in its turn. -/
theorem step (h : Midway dump s u done) (hsamples : dump.samples = done ++ tmp :: rest)
    (hroom : (liveStations s dump.samples).card ≤ ten) (hserved : Served u (.station tmp))
    (hnear : ∀ x ∈ done, Near x tmp) :
    ∃ t, exec u (.station tmp) = .ok t ∧ Midway dump s t (done ++ [tmp]) := by
  obtain ⟨t, hrun, -⟩ := station_runs h.table.sound fun i hi =>
    hserved.1 i (reached_subset i hi).2.symm
  have hin : tmp ∈ dump.samples := hsamples ▸ List.mem_append_right _ List.mem_cons_self
  have hnamed := dump.named tmp hin
  obtain ⟨own, hown⟩ := h.comes hsamples hroom hserved
  obtain ⟨hstation, hsec, hsampled⟩ := station_own h.table.sound hrun hown
  refine ⟨t, hrun, table_station h.table hnamed hrun, ?_, ?_, ?_, ?_⟩
  · intro x hx
    rcases List.mem_append.mp hx with hx | hx
    · obtain ⟨i, hsame, -, hsamples'⟩ := h.owns x hx
      obtain ⟨hnot, hkept⟩ := h.not_comes hsamples hnear hx hsame
      refine ⟨i, ?_, ?_, ?_⟩
      · rw [station_other h.table.sound hrun hnot, expire_links_station, hsame]
      · rw [station_other h.table.sound hrun hnot, hkept]
      · rw [station_other h.table.sound hrun hnot, expire_samples, hsamples']
    · rw [List.mem_singleton.mp hx]
      have hfresh := h.kept own fun x hx hsame => (h.not_comes hsamples hnear hx hsame).1 hown
      exact ⟨own, hstation, hsec, by rw [hsampled, hfresh.2]⟩
  · intro i hnone
    have hnot : ¬ Comes u tmp i := fun hi => hnone tmp (by simp)
      (station_own h.table.sound hrun hi).1
    rw [station_other h.table.sound hrun hnot, expire_links_station] at hnone ⊢
    rw [expire_samples]
    exact h.kept i fun x hx => hnone x (List.mem_append_left _ hx)
  · intro next later hlater i hi
    have hpos : (t.linkinfo i).sec ≠ 0 := by
      rcases expire_sec next t i with hsame | hsame
      · rwa [← hsame]
      · exact absurd hsame hi
    by_cases hcomes : Comes u tmp i
    · rw [(station_own h.table.sound hrun hcomes).1]
      exact station_live s hin
    · rw [station_other h.table.sound hrun hcomes] at hpos ⊢
      rw [expire_links_station]
      exact h.live tmp rest hsamples i hpos
  · exact List.pairwise_append.mpr ⟨h.near, List.pairwise_singleton _ _, fun x hx y hy => by
      rw [List.mem_singleton.mp hy]
      exact hnear x hx⟩

/-- A station that is not served has no slot when its turn is over. -/
theorem lost_unserved (h : Midway dump s u done) (hnamed : tmp.station ≠ zeroMac)
    (hserved : ¬ Served u (.station tmp)) {t : State} (hrun : exec u (.station tmp) = .ok t) :
    Lost t tmp := by
  have hin := touched_tail_lt h.table.sound hrun
  have hnone : u.found1 = true ∧ ∀ i, (u.linkinfo i).station ≠ tmp.station := by
    by_contra hnot
    refine hserved ⟨fun i hi => ?_, fun hfound => ?_⟩
    · exact hin i (touched_of_station h.table hnamed hi)
    · by_contra hex
      exact hnot ⟨hfound, fun i hi => hex ⟨i, hi⟩⟩
  intro i hstation
  have hnot : ¬ Comes u tmp i := by
    rintro (htouched | htaken)
    · exact hnone.2 i (reached_subset i htouched).2.symm
    · rw [taken_slot_none (.inl hnone.1)] at htaken
      cases htaken
  rw [station_other h.table.sound hrun hnot, expire_links_station] at hstation
  exact absurd hstation (hnone.2 i)

/-- A sample that comes too late clears the slot of an earlier one. -/
theorem lost_expired (h : Midway dump s u done) (hsamples : dump.samples = done ++ tmp :: rest)
    {x : DataIw} (hx : x ∈ done) (hfar : ¬ Near x tmp) {t : State}
    (hrun : exec u (.station tmp) = .ok t) : Lost t x := by
  have hin : x ∈ dump.samples := hsamples ▸ List.mem_append_left _ hx
  intro i hstation
  have hnot : ¬ Comes u tmp i := by
    intro hcomes
    have hsame := (station_own h.table.sound hrun hcomes).1
    exact dump.apart hsamples hx (hsame.symm.trans hstation)
  rw [station_other h.table.sound hrun hnot] at hstation ⊢
  rw [expire_links_station] at hstation
  obtain ⟨j, hown, hsec, -⟩ := h.owns x hx
  obtain rfl := h.table.distinct i j (hstation.trans hown.symm)
    (hstation ▸ dump.named x hin)
  simp only [expireLinks, hsec, if_pos (not_not.mp hfar)]
  exact (dump.timed x hin).symm

/-- Nothing behind makes up for a turn that is not in order. -/
theorem lost (h : Midway dump s u done) (hsamples : dump.samples = done ++ tmp :: rest)
    (hbad : ¬ (Served u (.station tmp) ∧ ∀ x ∈ done, Near x tmp)) {t : State}
    (hrun : ((tmp :: rest).map Action.station).foldlM exec u = .ok t) :
    ∃ x ∈ dump.samples, Lost t x := by
  obtain ⟨v, hv, hlater⟩ := bind_ok hrun
  have hsound := slots_sound_step h.table.sound hv
  have hsplit : dump.samples = (done ++ [tmp]) ++ rest := by simp [hsamples]
  obtain ⟨x, hx, hlost⟩ : ∃ x ∈ done ++ [tmp], Lost v x := by
    by_cases hserved : Served u (.station tmp)
    · obtain ⟨x, hx, hfar⟩ : ∃ x ∈ done, ¬ Near x tmp := by
        by_contra hnone
        exact hbad ⟨hserved, fun x hx => by_contra fun hfar => hnone ⟨x, hx, hfar⟩⟩
      exact ⟨x, List.mem_append_left _ hx, h.lost_expired hsamples hx hfar hv⟩
    · have hin : tmp ∈ dump.samples := hsamples ▸ List.mem_append_right _ List.mem_cons_self
      exact ⟨tmp, by simp, h.lost_unserved (dump.named tmp hin) hserved hv⟩
  have hin : x ∈ dump.samples := hsplit ▸ List.mem_append_left _ hx
  refine ⟨x, hin, hlost.run hsound (dump.timed x hin) (fun other hother => ?_) hlater⟩
  obtain ⟨pre, post, rfl⟩ := List.append_of_mem hother
  exact dump.apart (hsplit.trans (List.append_assoc ..).symm) (List.mem_append_left _ hx)

/-- The rest of a call. -/
theorem turns_iff (h : Midway dump s u done) (hsamples : dump.samples = done ++ rest)
    (hroom : (liveStations s dump.samples).card ≤ ten) :
    (∃ t, (rest.map Action.station).foldlM exec u = .ok t ∧ ∀ x ∈ dump.samples, Owns s t x) ↔
      machine.Throughout (fun s a _ => Served s a) u (rest.map .station) ∧
        dump.samples.Pairwise Near := by
  induction rest generalizing u done with
  | nil =>
    rw [List.append_nil] at hsamples
    refine iff_of_true ⟨u, rfl, fun x hx => h.owns x (hsamples ▸ hx)⟩ ⟨trivial, ?_⟩
    rw [hsamples]
    exact h.near
  | cons tmp rest ih =>
    by_cases hgood : Served u (.station tmp) ∧ ∀ x ∈ done, Near x tmp
    · obtain ⟨v, hv, hmid⟩ := h.step hsamples hroom hgood.1 hgood.2
      have hrest := ih hmid (by simp [hsamples])
      have hfold : ((tmp :: rest).map Action.station).foldlM exec u =
          (rest.map Action.station).foldlM exec v := by
        rw [List.map_cons, List.foldlM_cons, hv]
        rfl
      rw [hfold, hrest]
      refine and_congr_left fun _ => ?_
      constructor
      · intro hthrough _
        refine ⟨hgood.1, fun t ht => ?_⟩
        exact Except.ok.inj (hv.symm.trans ht) ▸ hthrough
      · intro hthrough
        exact (hthrough trivial).2 v hv
    · refine iff_of_false ?_ ?_
      · rintro ⟨t, hrun, howns⟩
        obtain ⟨x, hx, hlost⟩ := h.lost hsamples hgood hrun
        exact hlost.not_owns (howns x hx)
      · rintro ⟨hthrough, hnear⟩
        rw [hsamples] at hnear
        refine hgood ⟨(hthrough trivial).1, fun x hx => ?_⟩
        exact (List.pairwise_append.mp hnear).2.2 x hx tmp List.mem_cons_self

end Midway

/-- The call has reset `found1` and not looked at the dump yet. -/
theorem midway_start {s u : State} (h : Table s) (dump : Dump) {sur : DataSurvey}
    (hrun : exec s (.call sur) = .ok u) : Midway dump s u [] := by
  obtain ⟨t, ht, hlinkinfo, -⟩ := call_same sur s
  obtain rfl := Except.ok.inj (ht.symm.trans hrun)
  refine ⟨table_call h hrun, by simp, fun i _ => by rw [hlinkinfo]; exact ⟨rfl, rfl⟩, ?_, .nil⟩
  intro tmp rest hsamples i hi
  simp only [expireLinks, hlinkinfo] at hi
  rw [hsamples, hlinkinfo]
  exact slot_live hi

/-- Every station of a dump is tracked exactly if each is served in its turn and
no sample is more than two seconds later than one before. -/
theorem tracks_all_iff {s : State} (h : Table s) (dump : Dump) (sur : DataSurvey)
    (hroom : (liveStations s dump.samples).card ≤ ten) :
    TracksAll dump s (compareAndIwlist dump.samples sur s) ↔
      machine.Throughout (fun s a _ => Served s a) s
          (.call sur :: dump.samples.map .station) ∧ dump.samples.Pairwise Near := by
  obtain ⟨u, hu, -⟩ := call_same sur s
  have hturns := (midway_start h dump hu).turns_iff rfl hroom
  have hfold : compareAndIwlist dump.samples sur s =
      (dump.samples.map Action.station).foldlM exec u := by
    rw [compareAndIwlist, List.foldlM_cons, hu]
    rfl
  rw [TracksAll, hfold, hturns]
  refine and_congr_left fun _ => ?_
  constructor
  · intro hthrough _
    refine ⟨trivial, fun t ht => ?_⟩
    exact Except.ok.inj (hu.symm.trans ht) ▸ hthrough
  · intro hthrough
    exact (hthrough trivial).2 u hu

/-- The first station heard, in a dump of its own. -/
def firstDump : Dump where
  samples := [early]
  stations := List.nodup_singleton _
  named := by decide
  timed := by decide

/-- A second later it is heard again, and a new station behind it. -/
def soon : DataIw := { early with sec := 2 }
def newcomer : DataIw := { late with sec := 2 }

def secondDump : Dump where
  samples := [soon, newcomer]
  stations := by decide
  named := by decide
  timed := by decide

instance (s : State) (a : Action) : Decidable (Served s a) :=
  match a with
  | .call _ => isTrue trivial
  | .station tmp => inferInstanceAs (Decidable
    ((∀ i, (s.linkinfo i).station = tmp.station → (s.linkinfo i).tail < iwamount) ∧
      (s.found1 = true → ∃ i, (s.linkinfo i).station = tmp.station)))

/-- Two stations that were heard together have slots, and are heard again. -/
theorem tracks_all_iff_pair : ∃ s, compareAndIwlist [early, { late with sec := 1 }] calm loaded =
      .ok s ∧ (∀ tmp ∈ secondDump.samples, ∃ i, (s.linkinfo i).station = tmp.station) ∧
    TracksAll secondDump s (compareAndIwlist secondDump.samples calm s) := by
  have hfacts : (do
      let s ← compareAndIwlist [early, { late with sec := 1 }] calm loaded
      let u ← exec s (.call calm)
      let v ← exec u (.station soon)
      .ok (decide (∀ tmp ∈ secondDump.samples, ∃ i, (s.linkinfo i).station = tmp.station),
        decide ((liveStations s secondDump.samples).card ≤ ten),
        decide (Served u (.station soon)), decide (Served v (.station newcomer))) :
      Except Fault (Bool × Bool × Bool × Bool)) = .ok (true, true, true, true) := by rfl
  obtain ⟨s, hfirst, hrest⟩ := bind_ok hfacts
  obtain ⟨u, hcall, hrest⟩ := bind_ok hrest
  obtain ⟨v, hsoon, hok⟩ := bind_ok hrest
  simp only [Except.ok.injEq, Prod.mk.injEq, decide_eq_true_eq] at hok
  obtain ⟨hslots, hroom, hservedSoon, hservedNewcomer⟩ := hok
  obtain ⟨w, hcall', hstations⟩ := bind_ok hfirst
  obtain ⟨x, hearly, hstations⟩ := bind_ok hstations
  obtain ⟨y, hlate, hend⟩ := bind_ok hstations
  obtain rfl := Except.ok.inj hend
  have hcalled : Table w := table_step (a := .call calm) loaded_table trivial hcall'
  have htable : Table y := table_step (a := .station { late with sec := 1 })
    (table_step (a := .station early) hcalled (by decide : early.station ≠ zeroMac) hearly)
    (by decide : late.station ≠ zeroMac) hlate
  refine ⟨y, hfirst, hslots, (tracks_all_iff htable secondDump calm hroom).mpr ⟨fun _ => ?_, ?_⟩⟩
  · refine ⟨trivial, fun t ht _ => ?_⟩
    obtain rfl := Except.ok.inj (hcall.symm.trans ht)
    refine ⟨hservedSoon, fun t' ht' _ => ?_⟩
    obtain rfl := Except.ok.inj (hsoon.symm.trans ht')
    exact ⟨hservedNewcomer, fun _ _ => trivial⟩
  · exact List.pairwise_pair.mpr (by decide : ¬ (2 : U32).slt 0)

theorem newcomer_not_tracked : ¬ ∀ s dump sur, Table s →
    (liveStations s dump.samples).card ≤ ten →
      TracksAll dump s (compareAndIwlist dump.samples sur s) := by
  intro h
  have hfacts : (do
      let s ← compareAndIwlist firstDump.samples calm loaded
      let t ← compareAndIwlist secondDump.samples calm s
      .ok (decide ((liveStations s secondDump.samples).card ≤ ten),
        decide (∀ i, (t.linkinfo i).station ≠ newcomer.station)) : Except Fault (Bool × Bool)) =
      .ok (true, true) := by rfl
  obtain ⟨s, hfirst, hrest⟩ := bind_ok hfacts
  obtain ⟨t, hsecond, hok⟩ := bind_ok hrest
  obtain ⟨hroom, hnone⟩ := Prod.mk.inj (Except.ok.inj hok)
  obtain ⟨u, hcall, hstations⟩ := bind_ok hfirst
  obtain ⟨v, hearly, hend⟩ := bind_ok hstations
  obtain rfl := Except.ok.inj hend
  have htable : Table v := table_step (a := .station early)
    (table_step (a := .call calm) loaded_table trivial hcall) (by decide : early.station ≠ zeroMac)
    hearly
  obtain ⟨t', ht', howns⟩ := h v secondDump calm htable (of_decide_eq_true hroom)
  obtain rfl := Except.ok.inj (hsecond.symm.trans ht')
  obtain ⟨i, hstation, -⟩ := howns newcomer (by decide)
  exact of_decide_eq_true hnone i hstation

end ApTelemetry.Sendudp.IwList
