import ApTelemetry.Sendudp.LinkRing

namespace ApTelemetry.Sendudp.IwList
open Lib

section Scan

variable {tmp : DataIw} {s : State} {i : Fin ten} {rest : List (Fin ten)}

theorem scan_links_other (h : tmp.station ≠ (s.linkinfo i).station) :
    scanLinks tmp (i :: rest) s = scanLinks tmp rest s := by
  rw [scanLinks, if_neg h]

theorem scan_links_outside (h : tmp.station = (s.linkinfo i).station)
    (hsample : (s.linkinfo i).sample tmp = .error .outside) :
    scanLinks tmp (i :: rest) s = .error .outside := by
  simp only [scanLinks, if_pos h, hsample, bind, Except.bind]

variable {ltmp : Links} {lstmp : Linkstates}

theorem scan_links_due (h : tmp.station = (s.linkinfo i).station)
    (hsample : (s.linkinfo i).sample tmp = .ok (ltmp, lstmp)) (hdue : due tmp lstmp) :
    scanLinks tmp (i :: rest) s = .ok { s with
      linkinfo := Function.update s.linkinfo i ltmp
      found1 := true
      iwp := s.iwp.record (processed tmp lstmp)
      rates := s.rates ++ [⟨tmp, ltmp⟩] } := by
  simp only [scanLinks, if_pos h, hsample, hdue, if_true, bind, Except.bind]

theorem scan_links_early (h : tmp.station = (s.linkinfo i).station)
    (hsample : (s.linkinfo i).sample tmp = .ok (ltmp, lstmp)) (hdue : ¬ due tmp lstmp) :
    scanLinks tmp (i :: rest) s = scanLinks tmp rest { s with
      linkinfo := Function.update s.linkinfo i ltmp
      found1 := true } := by
  simp only [scanLinks, if_pos h, hsample, hdue, bind, Except.bind]
  rfl

theorem computes_of_sample (hsample : (s.linkinfo i).sample tmp = .ok (ltmp, lstmp)) :
    (s.linkinfo i).computes tmp = due tmp lstmp := by
  rw [Links.computes, hsample]

end Scan

theorem reached_congr {tmp : DataIw} {f g : Fin ten → Links} {l : List (Fin ten)}
    (h : ∀ i ∈ l, f i = g i) : reached tmp f l = reached tmp g l := by
  induction l with
  | nil => rfl
  | cons i rest ih =>
    have hrest := ih fun j hj => h j (List.mem_cons_of_mem _ hj)
    simp only [reached, h i (List.mem_cons_self ..), hrest]

theorem reached_head {tmp : DataIw} {linkinfo : Fin ten → Links} {i : Fin ten}
    {rest : List (Fin ten)} (h : tmp.station = (linkinfo i).station) :
    i ∈ reached tmp linkinfo (i :: rest) := by
  rw [reached, if_pos h]
  split <;> exact List.mem_cons_self ..

theorem reached_subset {tmp : DataIw} {linkinfo : Fin ten → Links} {l : List (Fin ten)} :
    ∀ i ∈ reached tmp linkinfo l, i ∈ l ∧ tmp.station = (linkinfo i).station := by
  induction l with
  | nil =>
    intro i hi
    cases hi
  | cons j rest ih =>
    intro i hi
    unfold reached at hi
    split at hi
    · rename_i hstation
      split at hi
      · obtain rfl := List.mem_singleton.mp hi
        exact ⟨List.mem_cons_self .., hstation⟩
      · rcases List.mem_cons.mp hi with rfl | hi
        · exact ⟨List.mem_cons_self .., hstation⟩
        · exact ⟨List.mem_cons_of_mem _ (ih i hi).1, (ih i hi).2⟩
    · exact ⟨List.mem_cons_of_mem _ (ih i hi).1, (ih i hi).2⟩

theorem reached_nil_iff {tmp : DataIw} {linkinfo : Fin ten → Links} {l : List (Fin ten)} :
    reached tmp linkinfo l = [] ↔ ∀ i ∈ l, tmp.station ≠ (linkinfo i).station := by
  induction l with
  | nil => simp [reached]
  | cons j rest ih =>
    unfold reached
    split
    · rename_i hstation
      constructor
      · intro h
        split at h <;> cases h
      · intro h
        exact absurd hstation (h j (List.mem_cons_self ..))
    · rename_i hstation
      rw [ih]
      simp [hstation]

/-- What the search for a station comes to. -/
structure Scanned (tmp : DataIw) (l : List (Fin ten)) (s t : State) : Prop where
  other : ∀ i, i ∉ reached tmp s.linkinfo l → t.linkinfo i = s.linkinfo i
  sampled : ∀ i ∈ reached tmp s.linkinfo l,
    ∃ lstmp, (s.linkinfo i).sample tmp = .ok (t.linkinfo i, lstmp)
  quiet : (∀ i ∈ reached tmp s.linkinfo l, (s.linkinfo i).computes tmp = false) →
    t.iwp = s.iwp ∧ t.rates = s.rates
  rated : ∀ i ∈ reached tmp s.linkinfo l, (s.linkinfo i).computes tmp = true →
    ∃ ltmp lstmp, (s.linkinfo i).sample tmp = .ok (ltmp, lstmp) ∧ due tmp lstmp ∧
      t.iwp = s.iwp.record (processed tmp lstmp) ∧ t.rates = s.rates ++ [⟨tmp, ltmp⟩]
  found : t.found1 = true ↔ s.found1 = true ∨ reached tmp s.linkinfo l ≠ []

theorem scanned_due {tmp : DataIw} {l : List (Fin ten)} {s : State} {i : Fin ten} {ltmp : Links}
    {lstmp : Linkstates} (hreached : reached tmp s.linkinfo l = [i])
    (hsample : (s.linkinfo i).sample tmp = .ok (ltmp, lstmp)) (hdue : due tmp lstmp) :
    Scanned tmp l s { s with
      linkinfo := Function.update s.linkinfo i ltmp
      found1 := true
      iwp := s.iwp.record (processed tmp lstmp)
      rates := s.rates ++ [⟨tmp, ltmp⟩] } where
  other := by
    intro j hj
    rw [hreached, List.mem_singleton] at hj
    exact Function.update_of_ne hj ..
  sampled := by
    intro j hj
    rw [hreached, List.mem_singleton] at hj
    subst hj
    exact ⟨lstmp, by simp only [hsample, Function.update_self]⟩
  quiet := by
    intro hnone
    have hcomputes := hnone i (by simp [hreached])
    rw [computes_of_sample hsample, hdue] at hcomputes
    cases hcomputes
  rated := by
    intro j hj _
    rw [hreached, List.mem_singleton] at hj
    subst hj
    exact ⟨ltmp, lstmp, hsample, hdue, rfl, rfl⟩
  found := by simp [hreached]

theorem scanned_early {tmp : DataIw} {rest : List (Fin ten)} {s t : State} {i : Fin ten}
    {ltmp : Links} {lstmp : Linkstates} (hi : i ∉ rest)
    (hreached : reached tmp s.linkinfo (i :: rest) = i :: reached tmp s.linkinfo rest)
    (hsample : (s.linkinfo i).sample tmp = .ok (ltmp, lstmp)) (hdue : ¬ due tmp lstmp)
    (hlater : reached tmp (Function.update s.linkinfo i ltmp) rest =
      reached tmp s.linkinfo rest)
    (h : Scanned tmp rest
      { s with linkinfo := Function.update s.linkinfo i ltmp, found1 := true } t) :
    Scanned tmp (i :: rest) s t := by
  have hbefore : i ∉ reached tmp s.linkinfo rest := fun hmem => hi (reached_subset i hmem).1
  have hsame : ∀ j ∈ reached tmp s.linkinfo rest,
      Function.update s.linkinfo i ltmp j = s.linkinfo j :=
    fun j hj => Function.update_of_ne (ne_of_mem_of_not_mem hj hbefore) ..
  have hother := h.other
  have hsampled := h.sampled
  have hquiet := h.quiet
  have hrated := h.rated
  simp only [hlater] at hother hsampled hquiet hrated
  constructor
  · intro j hj
    rw [hreached, List.mem_cons, not_or] at hj
    rw [hother j hj.2, Function.update_of_ne hj.1]
  · intro j hj
    rw [hreached] at hj
    rcases List.mem_cons.mp hj with rfl | hj
    · exact ⟨lstmp, by rw [hsample, hother j hbefore, Function.update_self]⟩
    · rw [← hsame j hj]
      exact hsampled j hj
  · intro hnone
    refine hquiet fun j hj => ?_
    rw [hsame j hj]
    exact hnone j (hreached ▸ List.mem_cons_of_mem _ hj)
  · intro j hj hcomputes
    rw [hreached] at hj
    rcases List.mem_cons.mp hj with rfl | hj
    · rw [computes_of_sample hsample] at hcomputes
      exact absurd hcomputes hdue
    · rw [← hsame j hj] at hcomputes ⊢
      exact hrated j hj hcomputes
  · simp [h.found, hreached]

theorem scan_links_runs {tmp : DataIw} {l : List (Fin ten)} (hnodup : l.Nodup) {s : State}
    (h : ∀ i, (s.linkinfo i).Sound)
    (hin : ∀ i ∈ reached tmp s.linkinfo l, (s.linkinfo i).tail < iwamount) :
    ∃ t, scanLinks tmp l s = .ok t ∧ Scanned tmp l s t := by
  induction l generalizing s with
  | nil =>
    refine ⟨s, rfl, fun _ _ => rfl, fun i hi => ?_, fun _ => ⟨rfl, rfl⟩, fun i hi => ?_, ?_⟩
    · cases hi
    · cases hi
    · simp [reached]
  | cons i rest ih =>
    obtain ⟨hi, hrest⟩ := List.nodup_cons.mp hnodup
    by_cases hstation : tmp.station = (s.linkinfo i).station
    · have hmem : i ∈ reached tmp s.linkinfo (i :: rest) := reached_head hstation
      obtain ⟨ltmp, lstmp, hsample, hsound, -⟩ := (h i).sample_runs (hin i hmem) hstation
      have hcomputes := computes_of_sample hsample
      by_cases hdue : due tmp lstmp
      · have hreached : reached tmp s.linkinfo (i :: rest) = [i] := by
          rw [reached, if_pos hstation, if_pos (hcomputes.trans hdue)]
        exact ⟨_, scan_links_due hstation hsample hdue,
          scanned_due hreached hsample hdue⟩
      · have hreached : reached tmp s.linkinfo (i :: rest) = i :: reached tmp s.linkinfo rest := by
          rw [reached, if_pos hstation, if_neg (by rwa [hcomputes])]
        have hsame : ∀ j ∈ rest, Function.update s.linkinfo i ltmp j = s.linkinfo j :=
          fun j hj => Function.update_of_ne (ne_of_mem_of_not_mem hj hi) ..
        have hlater : reached tmp (Function.update s.linkinfo i ltmp) rest =
            reached tmp s.linkinfo rest := reached_congr hsame
        have hsounds : ∀ j, (Function.update s.linkinfo i ltmp j).Sound := by
          intro j
          by_cases hj : j = i
          · subst hj
            rwa [Function.update_self]
          · rw [Function.update_of_ne hj]
            exact h j
        have hins : ∀ j ∈ reached tmp (Function.update s.linkinfo i ltmp) rest,
            (Function.update s.linkinfo i ltmp j).tail < iwamount := by
          intro j hj
          rw [hlater] at hj
          rw [hsame j (reached_subset j hj).1]
          exact hin j (hreached ▸ List.mem_cons_of_mem _ hj)
        obtain ⟨t, ht, hscanned⟩ := ih (s := { s with
          linkinfo := Function.update s.linkinfo i ltmp
          found1 := true }) hrest hsounds hins
        rw [scan_links_early hstation hsample hdue]
        exact ⟨t, ht, scanned_early hi hreached hsample hdue hlater hscanned⟩
    · have hreached : reached tmp s.linkinfo (i :: rest) = reached tmp s.linkinfo rest := by
        rw [reached, if_neg hstation]
      obtain ⟨t, ht, hscanned⟩ := ih hrest h (hreached ▸ hin)
      rw [scan_links_other hstation]
      exact ⟨t, ht, hreached ▸ hscanned.other, hreached ▸ hscanned.sampled,
        hreached ▸ hscanned.quiet, hreached ▸ hscanned.rated, hreached ▸ hscanned.found⟩

/-- A slot that is reached with its tail behind the ring is read there. -/
theorem scan_links_stuck {tmp : DataIw} {l : List (Fin ten)} (hnodup : l.Nodup) {s : State}
    (h : ∀ i, (s.linkinfo i).Sound) {j : Fin ten} (hj : j ∈ reached tmp s.linkinfo l)
    (htail : (s.linkinfo j).tail = iwamount) : scanLinks tmp l s = .error .outside := by
  induction l generalizing s with
  | nil => cases hj
  | cons i rest ih =>
    obtain ⟨hi, hrest⟩ := List.nodup_cons.mp hnodup
    by_cases hstation : tmp.station = (s.linkinfo i).station
    · by_cases hlt : (s.linkinfo i).tail < iwamount
      · obtain ⟨ltmp, lstmp, hsample, hsound, -⟩ := (h i).sample_runs hlt hstation
        have hne : j ≠ i := by
          rintro rfl
          omega
        have hcomputes := computes_of_sample hsample
        by_cases hdue : due tmp lstmp
        · rw [reached, if_pos hstation, if_pos (hcomputes.trans hdue), List.mem_singleton] at hj
          exact absurd hj hne
        · rw [reached, if_pos hstation, if_neg (by rwa [hcomputes]), List.mem_cons] at hj
          have hmem := hj.resolve_left hne
          have hsame : ∀ k ∈ rest, Function.update s.linkinfo i ltmp k = s.linkinfo k :=
            fun k hk => Function.update_of_ne (ne_of_mem_of_not_mem hk hi) ..
          rw [scan_links_early hstation hsample hdue]
          refine ih hrest (fun k => ?_) ?_ ?_
          · by_cases hk : k = i
            · subst hk
              simpa only [Function.update_self] using hsound
            · simpa only [Function.update_of_ne hk] using h k
          · simp only [reached_congr hsame]
            exact hmem
          · simp only [Function.update_of_ne hne]
            exact htail
      · have hbehind : (s.linkinfo i).tail = iwamount :=
          (h i).tail.resolve_right fun heq => hlt (heq ▸ Nat.mod_lt _ (by decide))
        exact scan_links_outside hstation ((h i).sample_outside hbehind tmp)
    · rw [scan_links_other hstation]
      rw [reached, if_neg hstation] at hj
      exact ih hrest h hj htail

/-- The slot a sample of an unknown station takes. -/
def takenSlot (tmp : DataIw) (s : State) : Option (Fin ten) :=
  if s.found1 = false ∧ ∀ i, (s.linkinfo i).station ≠ tmp.station then
    freeSlot (expireLinks tmp s)
  else none

/-- What a station of the dump comes to. -/
structure StationStep (tmp : DataIw) (s t : State) : Prop where
  sound : ∀ i, (t.linkinfo i).Sound
  tails : ∀ i, (t.linkinfo i).tail < iwamount ↔ (s.linkinfo i).tail < iwamount ∧
    ¬ (takenSlot tmp s = some i ∧ (s.linkinfo i).head = 98 ∧ (s.linkinfo i).tail = 99)
  sampled : ∀ i ∈ touched tmp s,
    ∃ lstmp, (s.linkinfo i).sample tmp = .ok (t.linkinfo i, lstmp)
  other : ∀ i, i ∉ touched tmp s → takenSlot tmp s ≠ some i →
    t.linkinfo i = (expireLinks tmp s).linkinfo i
  took : ∀ i, takenSlot tmp s = some i →
    t.linkinfo i = ((expireLinks tmp s).linkinfo i).taken tmp
  quiet : (∀ i ∈ touched tmp s, (s.linkinfo i).computes tmp = false) →
    t.iwp = s.iwp ∧ t.rates = s.rates
  rated : ∀ i ∈ touched tmp s, (s.linkinfo i).computes tmp = true →
    ∃ ltmp lstmp, (s.linkinfo i).sample tmp = .ok (ltmp, lstmp) ∧ due tmp lstmp ∧
      t.iwp = s.iwp.record (processed tmp lstmp) ∧ t.rates = s.rates ++ [⟨tmp, ltmp⟩]

theorem write_iw_same (tmp : DataIw) (s : State) : (writeIw tmp s).linkinfo = s.linkinfo ∧
    (writeIw tmp s).iwp = s.iwp ∧ (writeIw tmp s).rates = s.rates ∧
    (writeIw tmp s).found1 = s.found1 := by
  unfold writeIw
  split <;> exact ⟨rfl, rfl, rfl, rfl⟩

theorem expire_links_sound (tmp : DataIw) {s : State} (h : ∀ i, (s.linkinfo i).Sound)
    (i : Fin ten) : ((expireLinks tmp s).linkinfo i).Sound ∧
      ((expireLinks tmp s).linkinfo i).tail = (s.linkinfo i).tail ∧
      ((expireLinks tmp s).linkinfo i).head = (s.linkinfo i).head := by
  obtain ⟨hlink, horigin, hhead, htail, hstored, hsince, howner⟩ := h i
  unfold expireLinks
  simp only
  split
  · exact ⟨⟨hlink, horigin, hhead, htail, hstored, hsince, howner⟩, rfl, rfl⟩
  · exact ⟨h i, rfl, rfl⟩

theorem expire_links_station (tmp : DataIw) (s : State) (i : Fin ten) :
    ((expireLinks tmp s).linkinfo i).station = (s.linkinfo i).station := by
  unfold expireLinks
  simp only
  split <;> rfl

theorem station_stuck {tmp : DataIw} {s : State} (h : ∀ i, (s.linkinfo i).Sound) {i : Fin ten}
    (hi : i ∈ touched tmp s) (htail : (s.linkinfo i).tail = iwamount) :
    exec s (.station tmp) = .error .outside := by
  obtain ⟨hlinkinfo, -⟩ := write_iw_same tmp s
  have hmem : i ∈ reached tmp (writeIw tmp s).linkinfo (List.finRange ten) := by
    rw [hlinkinfo]
    exact hi
  have hscan := scan_links_stuck (List.nodup_finRange ten) (s := writeIw tmp s)
    (by rwa [hlinkinfo]) hmem (by rwa [hlinkinfo])
  simp only [exec, hscan, bind, Except.bind]

theorem taken_slot_none {tmp : DataIw} {s : State}
    (h : s.found1 = true ∨ touched tmp s ≠ []) : takenSlot tmp s = none := by
  refine if_neg fun ⟨hfound, hstations⟩ => ?_
  rcases h with h | h
  · rw [hfound] at h
    cases h
  · exact h (reached_nil_iff.mpr fun i _ => (hstations i).symm)

theorem taken_slot_free {tmp : DataIw} {s t : State} (hfound : s.found1 = false)
    (hnone : touched tmp s = []) (hlinkinfo : t.linkinfo = s.linkinfo) :
    takenSlot tmp s = freeSlot (expireLinks tmp t) := by
  have hstations : ∀ i, (s.linkinfo i).station ≠ tmp.station :=
    fun i => (reached_nil_iff.mp hnone i (List.mem_finRange i)).symm
  rw [takenSlot, if_pos ⟨hfound, hstations⟩, freeSlot, freeSlot]
  simp only [expireLinks, hlinkinfo]

/-- What a sample of an unknown station leaves in the slots. -/
theorem take_slot_runs (tmp : DataIw) {s : State} (h : ∀ i, (s.linkinfo i).Sound) :
    ∃ t, takeSlot tmp s = .ok t ∧ (∀ i, (t.linkinfo i).Sound) ∧ t.iwp = s.iwp ∧
      t.rates = s.rates ∧ (∀ i, (t.linkinfo i).tail < iwamount ↔
        (s.linkinfo i).tail < iwamount ∧
          ¬ (freeSlot s = some i ∧ (s.linkinfo i).head = 98 ∧ (s.linkinfo i).tail = 99)) ∧
      (∀ i, freeSlot s ≠ some i → t.linkinfo i = s.linkinfo i) ∧
      ∀ i, freeSlot s = some i → t.linkinfo i = (s.linkinfo i).taken tmp := by
  unfold takeSlot
  cases hfree : freeSlot s with
  | none => exact ⟨s, rfl, h, rfl, rfl, fun i => by simp, fun _ _ => rfl, fun _ hi => by cases hi⟩
  | some i =>
    simp only [(h i).take_over_runs tmp, bind, Except.bind]
    refine ⟨_, rfl, fun j => ?_, rfl, rfl, fun j => ?_, fun j hj => ?_, fun j hj => ?_⟩
    · by_cases hj : j = i
      · subst hj
        simp only [Function.update_self]
        exact (h j).taken tmp
      · simp only [Function.update_of_ne hj]
        exact h j
    · by_cases hj : j = i
      · subst hj
        simp only [Function.update_self, (h j).taken_tail_lt_iff tmp, true_and]
      · simp only [Function.update_of_ne hj, Option.some.injEq, Ne.symm hj, false_and,
          not_false_eq_true, and_true]
    · exact Function.update_of_ne (fun heq => hj (congrArg some heq.symm)) ..
    · obtain rfl := Option.some.inj hj
      exact Function.update_self ..

/-- The record written in front of the search has no part in it. -/
theorem station_scan {tmp : DataIw} {s : State} (h : ∀ i, (s.linkinfo i).Sound)
    (hin : ∀ i ∈ touched tmp s, (s.linkinfo i).tail < iwamount) :
    ∃ t, scanLinks tmp (List.finRange ten) (writeIw tmp s) = .ok t ∧
      Scanned tmp (List.finRange ten) s t := by
  obtain ⟨hlinkinfo, hiwp, hrates, hfound⟩ := write_iw_same tmp s
  obtain ⟨t, ht, hother, hsampled, hquiet, hrated, hfound1⟩ :=
    scan_links_runs (List.nodup_finRange ten) (s := writeIw tmp s)
      (by rwa [hlinkinfo]) (by rw [hlinkinfo]; exact hin)
  rw [hlinkinfo] at hother hsampled hquiet hrated hfound1
  rw [hiwp, hrates] at hquiet hrated
  rw [hfound] at hfound1
  exact ⟨t, ht, hother, hsampled, hquiet, hrated, hfound1⟩

section Scanned

variable {tmp : DataIw} {s t : State}

/-- A slot after the search. -/
theorem Scanned.slot (hscanned : Scanned tmp (List.finRange ten) s t)
    (h : ∀ i, (s.linkinfo i).Sound)
    (hin : ∀ i ∈ touched tmp s, (s.linkinfo i).tail < iwamount) (i : Fin ten) :
    (t.linkinfo i).Sound ∧
      ((t.linkinfo i).tail < iwamount ↔ (s.linkinfo i).tail < iwamount) ∧
      (i ∈ touched tmp s → (t.linkinfo i).sec = tmp.sec) := by
  by_cases hi : i ∈ touched tmp s
  · obtain ⟨lstmp, hsample⟩ := hscanned.sampled i hi
    obtain ⟨l, lstmp', hsample', hsound, htail, -, -, -, hsec, -⟩ :=
      (h i).sample_runs (hin i hi) (reached_subset i hi).2
    obtain ⟨rfl, rfl⟩ := Prod.mk.inj (Except.ok.inj (hsample.symm.trans hsample'))
    exact ⟨hsound, iff_of_true htail (hin i hi), fun _ => hsec⟩
  · rw [hscanned.other i hi]
    exact ⟨h i, Iff.rfl, fun hmem => absurd hmem hi⟩

theorem Scanned.expire_other (hscanned : Scanned tmp (List.finRange ten) s t) {i : Fin ten}
    (hi : i ∉ touched tmp s) :
    (expireLinks tmp t).linkinfo i = (expireLinks tmp s).linkinfo i := by
  simp only [expireLinks, hscanned.other i hi]

/-- The station has a slot, or an earlier one of this call had. -/
theorem Scanned.found_step (hscanned : Scanned tmp (List.finRange ten) s t)
    (h : ∀ i, (s.linkinfo i).Sound)
    (hin : ∀ i ∈ touched tmp s, (s.linkinfo i).tail < iwamount) (hfound : t.found1 = true) :
    StationStep tmp s (expireLinks tmp t) := by
  have hslots := hscanned.slot h hin
  have hexpired := expire_links_sound tmp fun i => (hslots i).1
  have hnone := taken_slot_none (hscanned.found.mp hfound)
  refine ⟨fun i => (hexpired i).1, fun i => ?_, fun i hi => ?_,
    fun i hi _ => hscanned.expire_other hi, fun i hi => ?_, hscanned.quiet, hscanned.rated⟩
  · rw [(hexpired i).2.1, (hslots i).2.1, hnone]
    simp
  · have hkept : (expireLinks tmp t).linkinfo i = t.linkinfo i := by
      have hsec := (hslots i).2.2 hi
      simp [expireLinks, hsec]
    rw [hkept]
    exact hscanned.sampled i hi
  · rw [hnone] at hi
    cases hi

/-- No station of this call had a slot yet: this one takes one if it can. -/
theorem Scanned.new_step (hscanned : Scanned tmp (List.finRange ten) s t)
    (h : ∀ i, (s.linkinfo i).Sound)
    (hin : ∀ i ∈ touched tmp s, (s.linkinfo i).tail < iwamount) (hfound : t.found1 = false) :
    ∃ u, takeSlot tmp (expireLinks tmp t) = .ok u ∧ StationStep tmp s u := by
  have hslots := hscanned.slot h hin
  have hexpired := expire_links_sound tmp fun i => (hslots i).1
  have hnot : ¬ (s.found1 = true ∨ touched tmp s ≠ []) := fun hor => by
    rw [hscanned.found.mpr hor] at hfound
    cases hfound
  rw [not_or, not_not, Bool.not_eq_true] at hnot
  have hsame : t.linkinfo = s.linkinfo := funext fun i => hscanned.other i (by
    show i ∉ touched tmp s
    simp [hnot.2])
  have hfree := taken_slot_free hnot.1 hnot.2 hsame
  obtain ⟨u, hu, hsounds, hiwp, hrates, htails, hothers, htook⟩ :=
    take_slot_runs tmp fun i => (hexpired i).1
  refine ⟨u, hu, hsounds, fun i => ?_, fun i hi => ?_, fun i hi htaken => ?_,
    fun i htaken => ?_, ?_, ?_⟩
  · rw [htails i, (hexpired i).2.1, (hexpired i).2.2, hsame, hfree]
  · rw [hnot.2] at hi
    cases hi
  · rw [hfree] at htaken
    exact (hothers i htaken).trans (hscanned.expire_other hi)
  · rw [hfree] at htaken
    rw [htook i htaken, hscanned.expire_other (by simp [hnot.2])]
  · rw [hiwp, hrates]
    exact hscanned.quiet
  · rw [hiwp, hrates]
    exact hscanned.rated

end Scanned

theorem station_runs {tmp : DataIw} {s : State} (h : ∀ i, (s.linkinfo i).Sound)
    (hin : ∀ i ∈ touched tmp s, (s.linkinfo i).tail < iwamount) :
    ∃ t, exec s (.station tmp) = .ok t ∧ StationStep tmp s t := by
  obtain ⟨t, ht, hscanned⟩ := station_scan h hin
  have hexec : exec s (.station tmp) =
      if t.found1 then .ok (expireLinks tmp t) else takeSlot tmp (expireLinks tmp t) := by
    simp only [exec, ht, bind, Except.bind]
    rfl
  rw [hexec]
  cases hfound : t.found1 with
  | true => exact ⟨_, if_pos rfl, hscanned.found_step h hin hfound⟩
  | false => exact hscanned.new_step h hin hfound

end ApTelemetry.Sendudp.IwList
