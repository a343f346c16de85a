import ApTelemetry.Lib.Ring
import ApTelemetry.Sendudp.IwList

namespace ApTelemetry.Sendudp.IwList
open Lib

/-- The samples of a slot with their numbers, as the places of its ring have them. -/
def numbered (samples : List Linkstates) : List (Option Linkstates × Option (Option Nat)) :=
  samples.zipIdx.map fun x => (some x.1, some (some x.2))

theorem numbered_length (samples : List Linkstates) :
    (numbered samples).length = samples.length := by
  simp [numbered]

theorem numbered_append (samples : List Linkstates) (x : Linkstates) :
    numbered (samples ++ [x]) = numbered samples ++ [(some x, some (some samples.length))] := by
  simp [numbered, List.zipIdx_append]

theorem numbered_get {samples : List Linkstates} {j : Nat} (h : j < samples.length)
    (h' : j < (numbered samples).length) :
    (numbered samples)[j] = (some samples[j], some (some j)) := by
  simp [numbered]

/-- A place of the ring: the sample in it and the number it is known by. -/
def Links.place (ltmp : Links) (p : Nat) : Option Linkstates × Option (Option Nat) :=
  (ltmp.link[p]?, ltmp.origin[p]?)

/-- How many samples of a slot are out of reach of its tail. -/
def Links.gone (ltmp : Links) : Nat := dropped 99 ltmp.samples.length

/-- What every run keeps of a slot. A tail behind the end of the ring is the
only way the two indices part from the number of samples. -/
structure Links.Sound (ltmp : Links) : Prop where
  link : ltmp.link.length = iwamount
  origin : ltmp.origin.length = iwamount
  head : ltmp.head = ltmp.samples.length % iwamount
  tail : ltmp.tail = iwamount ∨ ltmp.tail = ltmp.gone % iwamount
  stored : Stored iwamount ltmp.place (numbered ltmp.samples) ltmp.gone
  since : ltmp.since ≤ ltmp.samples.length
  owner : ∀ (j : Nat) (x : Linkstates), ltmp.since ≤ j → ltmp.samples[j]? = some x →
    x.station = ltmp.station

namespace Links.Sound

variable {ltmp : Links}

theorem head_lt (h : ltmp.Sound) : ltmp.head < iwamount := h.head ▸ Nat.mod_lt _ (by decide)

theorem cursors (h : ltmp.Sound) (htail : ltmp.tail < iwamount) :
    Cursors iwamount ltmp.gone ltmp.samples.length ltmp.tail ltmp.head :=
  ⟨by decide, h.tail.resolve_left (Nat.ne_of_lt htail), h.head, dropped_le ..⟩

end Links.Sound

/-- A slot after a sample was written, before the tail is looked at. -/
def Links.written (tmp : DataIw) (ltmp : Links) : Links :=
  { ltmp with
    link := ltmp.link.set ltmp.head (iw2linkstates tmp)
    head := (ltmp.head + 1) % iwamount
    sec := tmp.sec
    samples := ltmp.samples ++ [iw2linkstates tmp]
    origin := ltmp.origin.set ltmp.head (some ltmp.samples.length) }

namespace Links.Sound

variable {ltmp : Links}

theorem put_runs (h : ltmp.Sound) (tmp : DataIw) : ltmp.put tmp = .ok (ltmp.written tmp) := by
  have hlt : ltmp.head < ltmp.link.length := h.link.symm ▸ h.head_lt
  rw [Links.put, save_lt hlt]
  rfl

theorem written_head (h : ltmp.Sound) (tmp : DataIw) :
    (ltmp.written tmp).head = (ltmp.written tmp).samples.length % iwamount := by
  rw [Links.written, List.length_append, h.head, Nat.mod_add_mod]
  rfl

theorem written_stored (h : ltmp.Sound) (tmp : DataIw) :
    Stored iwamount (ltmp.written tmp).place (numbered (ltmp.written tmp).samples)
      (ltmp.written tmp).gone := by
  have hlength := numbered_length ltmp.samples
  have hroom : (numbered ltmp.samples).length < ltmp.gone + iwamount := by
    rw [hlength]
    exact dropped_room 99 _
  have hhead : (numbered ltmp.samples).length % iwamount = ltmp.head := by rw [hlength, h.head]
  have hput : Stored iwamount (ltmp.written tmp).place
      (numbered ltmp.samples ++ [(some (iw2linkstates tmp), some (some ltmp.samples.length))])
      ltmp.gone := by
    refine h.stored.put _ hroom ?_ ?_
    · rw [hhead]
      have hlink : ltmp.head < ltmp.link.length := h.link.symm ▸ h.head_lt
      have horigin : ltmp.head < ltmp.origin.length := h.origin.symm ▸ h.head_lt
      simp only [Links.place, Links.written, List.getElem?_set_self hlink,
        List.getElem?_set_self horigin]
    · intro i _ hi
      rw [hhead] at hi
      simp only [Links.place, Links.written, List.getElem?_set_ne (Ne.symm hi)]
  have hmore : ltmp.gone ≤ (ltmp.written tmp).gone := by
    simp only [Links.gone, Links.written, List.length_append, List.length_singleton, dropped]
    omega
  simp only [Links.written, numbered_append] at hput ⊢
  exact hput.mono hmore

/-- A sample of the owner, with the two indices still to be settled. -/
theorem written_owner (h : ltmp.Sound) {tmp : DataIw} (hstation : tmp.station = ltmp.station)
    (j : Nat) (x : Linkstates) (hj : ltmp.since ≤ j)
    (hx : (ltmp.written tmp).samples[j]? = some x) : x.station = ltmp.station := by
  rcases Nat.lt_trichotomy j ltmp.samples.length with hlt | heq | hgt
  · rw [Links.written, List.getElem?_append_left hlt] at hx
    exact h.owner j x hj hx
  · subst heq
    have hlast : (ltmp.samples ++ [iw2linkstates tmp])[ltmp.samples.length]? = some x := hx
    rw [List.getElem?_concat_length] at hlast
    exact Option.some.inj hlast ▸ hstation
  · rw [List.getElem?_eq_none] at hx
    · cases hx
    · simp only [Links.written, List.length_append, List.length_singleton]
      omega

end Links.Sound

/-- A slot after `giveUp`. -/
def Links.given (ltmp : Links) : Links :=
  if ltmp.head = ltmp.tail then
    { ltmp with
      link := ltmp.link.set ltmp.tail zeroLinkstates
      tail := (ltmp.tail + 1) % iwamount
      origin := ltmp.origin.set ltmp.tail none }
  else ltmp

namespace Links

variable {ltmp : Links}

theorem give_up_runs (h : ltmp.head = ltmp.tail → ltmp.tail < ltmp.link.length) :
    ltmp.giveUp = .ok ltmp.given := by
  unfold giveUp given
  split
  · rename_i hmeets
    rw [save_lt (h hmeets)]
    rfl
  · rfl

theorem given_tail : ltmp.given.tail =
    if ltmp.head = ltmp.tail then (ltmp.tail + 1) % iwamount else ltmp.tail := by
  unfold given
  split <;> rfl

/-- Giving up a place has no part in what else a slot has. -/
theorem given_same (ltmp : Links) : ltmp.given.head = ltmp.head ∧
    ltmp.given.samples = ltmp.samples ∧ ltmp.given.since = ltmp.since ∧
    ltmp.given.station = ltmp.station ∧ ltmp.given.sec = ltmp.sec ∧
    ltmp.given.link.length = ltmp.link.length ∧
    ltmp.given.origin.length = ltmp.origin.length := by
  unfold given
  split
  · exact ⟨rfl, rfl, rfl, rfl, rfl, List.length_set, List.length_set⟩
  · exact ⟨rfl, rfl, rfl, rfl, rfl, rfl, rfl⟩

theorem given_place {p : Nat} (hp : p ≠ ltmp.head) : ltmp.given.place p = ltmp.place p := by
  unfold given
  split
  · rename_i hmeets
    rw [hmeets] at hp
    simp only [place, List.getElem?_set_ne (Ne.symm hp)]
  · rfl

end Links

namespace Links.Sound

variable {ltmp : Links}

/-- The tail of a sound slot is at the oldest sample within its reach. -/
theorem tail_place (h : ltmp.Sound) (htail : ltmp.tail < iwamount) (hsome : ltmp.samples ≠ []) :
    ∃ lstmp, ltmp.place ltmp.tail = (some lstmp, some (some ltmp.gone)) ∧
      ltmp.samples[ltmp.gone]? = some lstmp := by
  have hpos := List.length_pos_iff.mpr hsome
  have hlt : ltmp.gone < ltmp.samples.length := by
    simp only [Links.gone, dropped]
    omega
  have hlt' : ltmp.gone < (numbered ltmp.samples).length := by rwa [numbered_length]
  have hheld := h.stored ltmp.gone (Nat.le_refl _) hlt'
  rw [← h.tail.resolve_left (Nat.ne_of_lt htail), numbered_get hlt hlt'] at hheld
  exact ⟨_, hheld, List.getElem?_eq_getElem hlt⟩

theorem written_lengths (h : ltmp.Sound) (tmp : DataIw) :
    (ltmp.written tmp).link.length = iwamount ∧ (ltmp.written tmp).origin.length = iwamount ∧
      (ltmp.written tmp).samples.length = ltmp.samples.length + 1 :=
  ⟨List.length_set.trans h.link, List.length_set.trans h.origin, by simp [Links.written]⟩

/-- A sample of the owner leaves the slot sound, with its tail in the ring. -/
theorem sampled_sound (h : ltmp.Sound) (htail : ltmp.tail < iwamount) {tmp : DataIw}
    (hstation : tmp.station = ltmp.station) : (ltmp.written tmp).given.Sound ∧
      (ltmp.written tmp).given.tail < iwamount := by
  obtain ⟨hlink, horigin, hlength⟩ := h.written_lengths tmp
  obtain ⟨hhead, hsamples, hsince, hsame, -, hlinks, horigins⟩ := (ltmp.written tmp).given_same
  have hcursors := (h.cursors htail).push (m := 99) (by decide)
  have hgone : (ltmp.written tmp).given.gone = dropped 99 (ltmp.samples.length + 1) := by
    rw [Links.gone, hsamples, hlength]
  have htailed : (ltmp.written tmp).given.tail = (ltmp.written tmp).given.gone % iwamount := by
    rw [Links.given_tail, hgone]
    exact hcursors.first
  refine ⟨?_, htailed ▸ Nat.mod_lt _ (by decide)⟩
  exact
    { link := hlinks.trans hlink
      origin := horigins.trans horigin
      head := by
        rw [hhead, hsamples]
        exact h.written_head tmp
      tail := .inr htailed
      stored := by
        rw [Links.gone, hsamples]
        refine (h.written_stored tmp).free ?_ ?_
        · rw [numbered_length]
          exact dropped_room 99 _
        · intro p _ hp
          rw [numbered_length, ← h.written_head tmp] at hp
          exact Links.given_place hp
      since := by
        rw [hsamples, hsince, hlength]
        exact Nat.le_succ_of_le h.since
      owner := by
        rw [hsamples, hsince, hsame]
        exact h.written_owner hstation }

/-- A sample of the owner moves both indices. -/
theorem sample_runs (h : ltmp.Sound) (htail : ltmp.tail < iwamount) {tmp : DataIw}
    (hstation : tmp.station = ltmp.station) : ∃ l lstmp, ltmp.sample tmp = .ok (l, lstmp) ∧
      l.Sound ∧ l.tail < iwamount ∧ l.samples = ltmp.samples ++ [iw2linkstates tmp] ∧
      l.since = ltmp.since ∧ l.station = ltmp.station ∧ l.sec = tmp.sec ∧
      l.place l.tail = (some lstmp, some (some l.gone)) ∧ l.samples[l.gone]? = some lstmp := by
  obtain ⟨hlink, -, -⟩ := h.written_lengths tmp
  obtain ⟨-, hsamples, hsince, hsame, hsec, -, -⟩ := (ltmp.written tmp).given_same
  obtain ⟨hsound, htail'⟩ := h.sampled_sound htail hstation
  have hgive : (ltmp.written tmp).giveUp = .ok (ltmp.written tmp).given :=
    Links.give_up_runs fun _ => hlink.symm ▸ htail
  obtain ⟨lstmp, hplace, hget⟩ := hsound.tail_place htail' (by
    rw [hsamples, Links.written]
    simp)
  have hload : load (ltmp.written tmp).given.link (ltmp.written tmp).given.tail = .ok lstmp :=
    load_ok_iff.mpr (congrArg Prod.fst hplace)
  refine ⟨_, lstmp, ?_, hsound, htail', hsamples, hsince, hsame, hsec, hplace, hget⟩
  rw [Links.sample, h.put_runs tmp]
  show ((ltmp.written tmp).giveUp >>= fun l => load l.link l.tail >>= fun x => .ok (l, x)) = _
  rw [hgive]
  show (load (ltmp.written tmp).given.link _ >>= fun x => .ok ((ltmp.written tmp).given, x)) = _
  rw [hload]
  rfl

/-- A tail behind the ring is read. -/
theorem sample_outside (h : ltmp.Sound) (htail : ltmp.tail = iwamount) (tmp : DataIw) :
    ltmp.sample tmp = .error .outside := by
  have hne : (ltmp.written tmp).head ≠ (ltmp.written tmp).tail := by
    have hlt : (ltmp.written tmp).head < iwamount := Nat.mod_lt _ (by decide)
    have hsame : (ltmp.written tmp).tail = iwamount := htail
    omega
  have hgive : (ltmp.written tmp).giveUp = .ok (ltmp.written tmp) := if_neg hne
  have hnone : load (ltmp.written tmp).link (ltmp.written tmp).tail = .error .outside := by
    have hout : (ltmp.written tmp).link[(ltmp.written tmp).tail]? = none := by
      refine List.getElem?_eq_none ?_
      rw [Links.written, List.length_set, h.link, htail]
    rw [load, hout]
  rw [Links.sample, h.put_runs tmp]
  show ((ltmp.written tmp).giveUp >>= fun l => load l.link l.tail >>= fun x => .ok (l, x)) = _
  rw [hgive]
  show (load (ltmp.written tmp).link (ltmp.written tmp).tail >>= fun x => .ok (_, x)) = _
  rw [hnone]
  rfl

end Links.Sound

/-- A slot after it was taken over. -/
def Links.taken (tmp : DataIw) (ltmp : Links) : Links :=
  { ltmp.written tmp with
    tail := if ltmp.tail = (ltmp.head + 1) % iwamount then ltmp.tail + 1 else ltmp.tail
    station := tmp.station
    since := ltmp.samples.length }

namespace Links.Sound

variable {ltmp : Links}

theorem take_over_runs (h : ltmp.Sound) (tmp : DataIw) :
    ltmp.takeOver tmp = .ok (ltmp.taken tmp) := by
  rw [Links.takeOver, h.put_runs tmp]
  rfl

/-- From one position of the indices the tail is pushed out of the ring. -/
theorem taken_tail_lt_iff (h : ltmp.Sound) (tmp : DataIw) : (ltmp.taken tmp).tail < iwamount ↔
    ltmp.tail < iwamount ∧ ¬ (ltmp.head = 98 ∧ ltmp.tail = 99) := by
  have hhead := h.head_lt
  by_cases hmeets : ltmp.tail = (ltmp.head + 1) % iwamount
  · have htail : (ltmp.taken tmp).tail = ltmp.tail + 1 := if_pos hmeets
    rw [htail]
    simp only [iwamount] at hmeets hhead ⊢
    omega
  · have htail : (ltmp.taken tmp).tail = ltmp.tail := if_neg hmeets
    rw [htail]
    simp only [iwamount] at hmeets hhead ⊢
    omega

/-- The new owner goes on in the ring of the old one. -/
theorem taken (h : ltmp.Sound) (tmp : DataIw) : (ltmp.taken tmp).Sound := by
  have hlength : (ltmp.samples ++ [iw2linkstates tmp]).length = ltmp.samples.length + 1 := by
    simp
  refine
    { link := List.length_set.trans h.link
      origin := List.length_set.trans h.origin
      head := h.written_head tmp
      tail := ?_
      stored := h.written_stored tmp
      since := Nat.le_of_lt (by simp [Links.taken, Links.written])
      owner := ?_ }
  · by_cases hlt : ltmp.tail < iwamount
    · have hpush : (if (ltmp.head + 1) % iwamount = ltmp.tail then (ltmp.tail + 1) % iwamount
          else ltmp.tail) = dropped 99 (ltmp.samples.length + 1) % iwamount :=
        ((h.cursors hlt).push (m := 99) (by decide)).first
      have hgone : (ltmp.taken tmp).gone = dropped 99 (ltmp.samples.length + 1) :=
        congrArg (dropped 99) hlength
      rw [hgone]
      by_cases hmeets : ltmp.tail = (ltmp.head + 1) % iwamount
      · have htail : (ltmp.taken tmp).tail = ltmp.tail + 1 := if_pos hmeets
        rw [if_pos hmeets.symm] at hpush
        rw [htail]
        simp only [iwamount] at hpush hlt ⊢
        omega
      · have htail : (ltmp.taken tmp).tail = ltmp.tail := if_neg hmeets
        rw [if_neg (Ne.symm hmeets)] at hpush
        exact .inr (htail.trans hpush)
    · have htail : ltmp.tail = iwamount :=
        h.tail.resolve_right fun heq => hlt (heq ▸ Nat.mod_lt _ (by decide))
      have hne : ltmp.tail ≠ (ltmp.head + 1) % iwamount := by
        rw [htail]
        exact Nat.ne_of_gt (Nat.mod_lt _ (by decide))
      exact .inl ((if_neg hne).trans htail)
  · intro j x hj hx
    have hge : ltmp.samples.length ≤ j := hj
    have hlt : j < ltmp.samples.length + 1 := by
      rw [← hlength]
      exact (List.getElem?_eq_some_iff.mp hx).1
    obtain rfl : j = ltmp.samples.length := by omega
    have hlast : (ltmp.samples ++ [iw2linkstates tmp])[ltmp.samples.length]? = some x := hx
    rw [List.getElem?_concat_length] at hlast
    rw [← Option.some.inj hlast]
    rfl

end Links.Sound

end ApTelemetry.Sendudp.IwList
