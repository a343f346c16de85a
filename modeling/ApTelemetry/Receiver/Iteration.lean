import ApTelemetry.Receiver.Samples

namespace ApTelemetry.Receiver.Samples
open Lib

/-- One turn of the loop of `format_data`, as far as it works on the lists of samples. -/
def iteration (s : Lists) : Except Fault Lists := do
  let s ← queue3Section s
  let s ← queueFSection s
  surveySection s

/-- The first and the last sample of a list that is not empty. -/
def ends {α : Type} : List (Addr × α) → Option (α × α)
  | [] => none
  | n :: nodes => some (n.2, ((n :: nodes).getLast (List.cons_ne_nil n nodes)).2)

def microseconds (q : DataQueue) : Int := q.sec.toNat * 1000000 + q.usec.toNat

/-- At least 900 ms between two samples, whichever is the earlier. -/
def QueueApart (new last : DataQueue) : Prop :=
  900000 ≤ (microseconds last - microseconds new).natAbs

def SurveyApart (new last : DataSurvey) : Prop :=
  900 ≤ ((last.time.toNat : Int) - new.time.toNat).natAbs

/-- An item that a turn adds is about samples of its own list that are apart. -/
def AddsApart {α : Type} (apart : α → α → Prop) (nodes : List (Addr × α))
    (before after : List (Measured α)) : Prop :=
  before ≠ after → ∃ new last, ends nodes = some (new, last) ∧ apart new last

/-- A turn follows no NULL, and each stream goes by its own clock. -/
def OwnClocks (nodes3 nodesF : List (Addr × DataQueue)) (nodesS : List (Addr × DataSurvey))
    (s : Lists) : Prop :=
  ∃ t, iteration s = .ok t ∧
    AddsApart QueueApart nodes3 s.newitemQueue3 t.newitemQueue3 ∧
    AddsApart QueueApart nodesF s.newitemQueueF t.newitemQueueF ∧
    AddsApart SurveyApart nodesS s.newitemSurvey t.newitemSurvey

/-- Whole milliseconds between two clock readings, in `int` arithmetic. -/
def wholeMilliseconds (new last : DataQueue) : Int :=
  ((last.sec - new.sec) * 1000 + (last.usec - new.usec).sdiv 1000).toInt

/-- Two samples of a queue less than 900 ms apart that pass for more: the
microseconds go back and are cut towards zero, or wrap around. -/
def QueueMisjudged (new last : DataQueue) : Prop :=
  (microseconds last - microseconds new).natAbs < 900000 ∧
    ((last.usec.toNat : Int) < new.usec.toNat - 2147483648 ∨
      last.usec.toNat < new.usec.toNat ∧ 899000 < microseconds last - microseconds new)

/-- The same for the survey: the time goes back by less. -/
def SurveyMisjudged (new last : DataSurvey) : Prop :=
  last.time.toNat < new.time.toNat ∧ new.time.toNat < last.time.toNat + 900

/-- The samples of a list, if any, do not pass for more than 900 ms apart and
those of the list before it do not when this one is empty. -/
def Judged {α β : Type} (misjudged : α → α → Prop) (far : β → β → Prop)
    (own : List (Addr × α)) (before : List (Addr × β)) : Prop :=
  match ends own with
  | some (new, last) => ¬ misjudged new last
  | none => ∀ new last, ends before = some (new, last) → ¬ far new last

def Far (new last : DataQueue) : Prop := 900 ≤ wholeMilliseconds new last

/-- Rounding to 24 bits does not move a value across 900. -/
theorem to_float_far {z : Int} : 900 ≤ toFloat z ↔ 900 ≤ z := by
  rcases le_or_gt z 0 with hneg | hpos
  · have hsign : z.sign ≤ 0 := by
      rcases lt_or_eq_of_le hneg with hlt | rfl
      · rw [Int.sign_eq_neg_one_of_neg hlt]
        omega
      · exact le_refl 0
    have hfloat : toFloat z ≤ 0 := Int.mul_nonpos_of_nonpos_of_nonneg hsign (Int.natCast_nonneg _)
    omega
  · obtain ⟨n, rfl⟩ : ∃ n : Nat, z = n := ⟨z.toNat, by omega⟩
    have hn : n ≠ 0 := by omega
    unfold toFloat
    rw [Int.sign_eq_one_of_pos hpos, Int.one_mul, Int.natAbs_natCast]
    rcases Nat.lt_or_ge n (2 ^ 24) with hsmall | hlarge
    · have hlog : n.log2 - 23 = 0 := by
        have := (Nat.log2_lt hn).mpr hsmall
        omega
      rw [hlog, Nat.pow_zero, Nat.mod_one, Nat.div_one, Nat.mul_one, if_neg (by omega)]
    · have hlog : 24 ≤ n.log2 := (Nat.le_log2 hn).mpr hlarge
      have hquot : 2 ^ 23 ≤ n / 2 ^ (n.log2 - 23) := by
        rw [Nat.le_div_iff_mul_le (Nat.two_pow_pos _), ← Nat.pow_add,
          show 23 + (n.log2 - 23) = n.log2 by omega]
        exact Nat.log2_self_le hn
      generalize n / 2 ^ (n.log2 - 23) = q at hquot
      generalize n % 2 ^ (n.log2 - 23) = r
      have hulp : 1 ≤ 2 ^ (n.log2 - 23) := Nat.one_le_two_pow
      generalize 2 ^ (n.log2 - 23) = ulp at hulp
      have hbig : 900 ≤ (if ulp < 2 * r ∨ ulp = 2 * r ∧ q % 2 = 1 then q + 1 else q) * ulp := by
        refine le_trans ?_ (Nat.le_mul_of_pos_right _ hulp)
        split <;> omega
      exact ⟨fun _ => by omega, fun _ => Int.ofNat_le.mpr hbig⟩

section Clock

/-- What `int` arithmetic makes of a number. -/
theorem bmod_int (x : Int) : ∃ k, x.bmod (2 ^ 32) = x - 4294967296 * k ∧
    -2147483648 ≤ x.bmod (2 ^ 32) ∧ x.bmod (2 ^ 32) < 2147483648 := by
  have hpow : 2 ^ 32 = 4294967296 := rfl
  obtain ⟨k, hk⟩ : ∃ k, x - x.bmod 4294967296 = 4294967296 * k :=
    (Int.dvd_self_sub_bmod : (4294967296 : Int) ∣ x - x.bmod 4294967296)
  have hlow := Int.le_bmod (x := x) (m := 4294967296) (by decide)
  have hhigh := Int.bmod_lt (x := x) (m := 4294967296) (by decide)
  rw [hpow]
  exact ⟨k, by omega, by omega, by omega⟩

/-- A division by 1000 that cuts towards zero. -/
theorem tdiv_int (x : Int) : ∃ r, x = 1000 * x.tdiv 1000 + r ∧ (0 ≤ x → 0 ≤ r ∧ r < 1000) ∧
    (x ≤ 0 → -1000 < r ∧ r ≤ 0) := by
  refine ⟨x.tmod 1000, (Int.mul_tdiv_add_tmod x 1000).symm, fun h => ?_, fun h => ?_⟩
  · exact ⟨Int.tmod_nonneg 1000 h, Int.tmod_lt_of_pos x (by omega)⟩
  · have hlow := Int.tmod_nonneg 1000 (a := -x) (by omega)
    have hhigh := Int.tmod_lt_of_pos (-x) (b := 1000) (by omega)
    rw [Int.neg_tmod] at hlow hhigh
    omega

/-- A difference of two clock fields as an `int`. -/
theorem sub_int (x y : U32) : ∃ k, (x - y).toInt = x.toNat - y.toNat - 4294967296 * k ∧
    -2147483648 ≤ (x - y).toInt ∧ (x - y).toInt < 2147483648 := by
  obtain ⟨k, hk, hlow, hhigh⟩ := bmod_int ((x - y).toNat)
  rw [← BitVec.toInt_eq_toNat_bmod] at hk hlow hhigh
  have hsub : ((x - y).toNat : Int) = x.toNat - y.toNat ∨
      ((x - y).toNat : Int) = x.toNat - y.toNat + 4294967296 := by
    bv_omega
  rcases hsub with hsub | hsub
  · exact ⟨k, by omega, hlow, hhigh⟩
  · exact ⟨k - 1, by omega, hlow, hhigh⟩

/-- The arithmetic of the test on two clock readings `s` seconds and `u`
microseconds apart, with the multiples of 2^32 that are lost on the way. -/
theorem misjudged_arith {s u d1 d2 e q r z k1 k2 k3 k4 : Int}
    (hu : -4294967296 < u ∧ u < 4294967296)
    (hd1 : d1 = s - 4294967296 * k1) (hr1 : -2147483648 ≤ d1 ∧ d1 < 2147483648)
    (hd2 : d2 = u - 4294967296 * k2) (hr2 : -2147483648 ≤ d2 ∧ d2 < 2147483648)
    (hq : d2 = 1000 * q + r) (hpos : 0 ≤ d2 → 0 ≤ r ∧ r < 1000)
    (hneg : d2 ≤ 0 → -1000 < r ∧ r ≤ 0)
    (he : e = d1 * 1000 - 4294967296 * k3) (hr3 : -2147483648 ≤ e ∧ e < 2147483648)
    (hz : z = e + q - 4294967296 * k4) (hr4 : -2147483648 ≤ z ∧ z < 2147483648)
    (hnear : -900000 < s * 1000000 + u ∧ s * 1000000 + u < 900000) :
    u < -2147483648 ∨ u < 0 ∧ 899000 < s * 1000000 + u ↔ 900 ≤ z := by
  have hs : -4296 < s ∧ s < 4296 := by omega
  obtain rfl : k1 = 0 := by omega
  obtain rfl : k3 = 0 := by omega
  obtain rfl : k4 = 0 := by omega
  have hk2 : k2 = -1 ∨ k2 = 0 ∨ k2 = 1 := by omega
  rcases hk2 with rfl | rfl | rfl <;> omega

theorem queue_misjudged_iff {new last : DataQueue} :
    QueueMisjudged new last ↔ Far new last ∧ ¬ QueueApart new last := by
  obtain ⟨k1, hd1, hr1⟩ := sub_int last.sec new.sec
  obtain ⟨k2, hd2, hr2⟩ := sub_int last.usec new.usec
  obtain ⟨r, hq, hpos, hneg⟩ := tdiv_int (last.usec - new.usec).toInt
  obtain ⟨k3, he, hr3⟩ := bmod_int ((last.sec - new.sec).toInt * 1000)
  obtain ⟨k4, hz, hr4⟩ := bmod_int (((last.sec - new.sec).toInt * 1000).bmod (2 ^ 32) +
    (last.usec - new.usec).toInt.tdiv 1000)
  have hwhole : wholeMilliseconds new last = (((last.sec - new.sec).toInt * 1000).bmod (2 ^ 32) +
      (last.usec - new.usec).toInt.tdiv 1000).bmod (2 ^ 32) := by
    have hdiv : ((last.usec - new.usec).sdiv 1000).toInt =
        (last.usec - new.usec).toInt.tdiv 1000 :=
      BitVec.toInt_sdiv_of_ne_or_ne _ _ (.inr (by decide))
    have hmul : ((last.sec - new.sec) * 1000).toInt =
        ((last.sec - new.sec).toInt * 1000).bmod (2 ^ 32) := BitVec.toInt_mul _ _
    rw [wholeMilliseconds, BitVec.toInt_add, hmul, hdiv]
  have hu : (-4294967296 : Int) < last.usec.toNat - new.usec.toNat ∧
      (last.usec.toNat : Int) - new.usec.toNat < 4294967296 := by
    have hlast : last.usec.toNat < 4294967296 := last.usec.isLt
    have hnew : new.usec.toNat < 4294967296 := new.usec.isLt
    omega
  have hdistance : microseconds last - microseconds new =
      ((last.sec.toNat : Int) - new.sec.toNat) * 1000000 +
        (last.usec.toNat - new.usec.toNat) := by
    unfold microseconds
    omega
  rw [QueueMisjudged, QueueApart, Far, not_le, and_comm (a := 900 ≤ _), hdistance, hwhole]
  refine and_congr_right fun hnear => ?_
  rw [← misjudged_arith hu hd1 hr1 hd2 hr2 hq hpos hneg he hr3 hz hr4 (by omega)]
  refine or_congr ?_ (and_congr_left fun _ => ?_) <;> omega

theorem survey_misjudged_iff {new last : DataSurvey} :
    SurveyMisjudged new last ↔
      900 ≤ toFloat (last.time - new.time).toNat ∧ ¬ SurveyApart new last := by
  rw [to_float_far, SurveyMisjudged, SurveyApart]
  have hlast : last.time.toNat < 18446744073709551616 := last.time.isLt
  have hnew : new.time.toNat < 18446744073709551616 := new.time.isLt
  have hsub : (last.time - new.time).toNat =
      (18446744073709551616 - new.time.toNat + last.time.toNat) % 18446744073709551616 :=
    BitVec.toNat_sub ..
  rw [hsub]
  omega

end Clock

section Measure

variable {α : Type} {nodes : List (Addr × α)}

theorem ends_none : ends nodes = none ↔ nodes = [] := by
  cases nodes <;> simp [ends]

theorem first_none {q : Lib.Fifo α} (h : q.Holds nodes) (hends : ends nodes = none) :
    q.first = none := by
  rw [h.chain.start_eq, ends_none.mp hends]
  rfl

/-- Both ends of a list that is not empty can be read. -/
theorem ends_read {q : Lib.Fifo α} (h : q.Holds nodes) {new last : α}
    (hends : ends nodes = some (new, last)) : q.first ≠ none ∧ q.last ≠ none ∧
      (∃ c, q.heap.read q.first = .ok c ∧ c.item = new) ∧
      (∃ c, q.heap.read q.last = .ok c ∧ c.item = last) := by
  cases nodes with
  | nil => cases hends
  | cons n rest =>
    obtain ⟨rfl, rfl⟩ := Prod.mk.inj (Option.some.inj hends)
    have hfirst : q.first = some n.1 := h.chain.start_eq
    have hlast : q.last = some ((n :: rest).getLast (List.cons_ne_nil n rest)).1 := by
      rw [h.last, List.getLast?_eq_some_getLast (List.cons_ne_nil n rest)]
      rfl
    have hlook := (List.dropLast_append_getLast (List.cons_ne_nil n rest)).symm ▸ h.chain
    rw [hfirst, hlast]
    exact ⟨by simp, by simp, ⟨_, Heap.read_of_lookup h.chain.lookup_head, rfl⟩,
      ⟨_, Heap.read_of_lookup hlook.lookup_append, rfl⟩⟩

/-- What is measured at both ends, or what the lists before left behind. -/
def measuredQueue (nodes : List (Addr × DataQueue)) (l : Locals) : Locals :=
  match ends nodes with
  | some (new, last) => ⟨last.sec - new.sec, last.usec - new.usec,
      milliseconds (last.sec - new.sec) (last.usec - new.usec)⟩
  | none => l

def measuredSurvey (nodes : List (Addr × DataSurvey)) (l : Locals) : Locals :=
  match ends nodes with
  | some (new, last) => { l with duration := toFloat (last.time - new.time).toNat }
  | none => l

theorem measure_queue_eq {q : Lib.Fifo DataQueue} {nodes : List (Addr × DataQueue)}
    (h : q.Holds nodes) (l : Locals) : measureQueue q l = .ok (measuredQueue nodes l) := by
  unfold measuredQueue
  cases hends : ends nodes with
  | none => exact if_neg fun hboth => hboth.2 (first_none h hends)
  | some pair =>
    obtain ⟨new, last⟩ := pair
    obtain ⟨hfirst, hlast, ⟨c, hc, rfl⟩, ⟨d, hd, rfl⟩⟩ := ends_read h hends
    rw [measureQueue, if_pos ⟨hlast, hfirst⟩, hd, hc]
    rfl

theorem measure_survey_eq {q : Lib.Fifo DataSurvey} {nodes : List (Addr × DataSurvey)}
    (h : q.Holds nodes) (l : Locals) : measureSurvey q l = .ok (measuredSurvey nodes l) := by
  unfold measuredSurvey
  cases hends : ends nodes with
  | none => exact if_neg fun hboth => hboth.2 (first_none h hends)
  | some pair =>
    obtain ⟨new, last⟩ := pair
    obtain ⟨hfirst, hlast, ⟨c, hc, rfl⟩, ⟨d, hd, rfl⟩⟩ := ends_read h hends
    rw [measureSurvey, if_pos ⟨hlast, hfirst⟩, hd, hc]
    rfl

/-- An empty list is followed when the duration left over is long. -/
theorem drop_measured_empty {q : Lib.Fifo α} (h : q.Holds nodes) (hempty : ends nodes = none)
    {duration : Int} (hfar : 900 ≤ duration) : dropMeasured q duration = .error .null := by
  have hlast : q.last = none := by
    rw [h.last, ends_none.mp hempty]
    rfl
  rw [dropMeasured, if_pos hfar, hlast]
  rfl

theorem drop_measured_near {q : Lib.Fifo α} {duration : Int} (hnear : ¬ 900 ≤ duration) :
    dropMeasured q duration = .ok (q, none) := if_neg hnear

theorem drop_measured_far {q : Lib.Fifo α} (h : q.Holds nodes) {new last : α}
    (hends : ends nodes = some (new, last)) {duration : Int} (hfar : 900 ≤ duration) :
    ∃ q', dropMeasured q duration = .ok (q', some ⟨new, last, duration⟩) := by
  obtain ⟨-, -, ⟨c, hc, rfl⟩, ⟨d, hd, rfl⟩⟩ := ends_read h hends
  cases nodes with
  | nil => cases hends
  | cons n rest =>
    have hfirst : q.first = some n.1 := h.chain.start_eq
    have hfree : q.heap.free q.first = .ok (q.heap.erase n.1) := by
      rw [hfirst]
      exact Heap.free_of_lookup h.chain.lookup_head
    refine ⟨{ q with heap := q.heap.erase n.1, first := c.next }, ?_⟩
    simp only [dropMeasured, if_pos hfar, Lib.Fifo.dropFirst, hd, hc, hfree, bind, Except.bind]

/-- No two samples are misjudged, and with none the duration left over is short. -/
def Held (misjudged : α → α → Prop) (nodes : List (Addr × α)) (duration : Int) : Prop :=
  match ends nodes with
  | some (new, last) => ¬ misjudged new last
  | none => ¬ 900 ≤ duration

/-- One section of the turn: which duration it goes by decides what it does. -/
theorem section_iff {q : Lib.Fifo α} (h : q.Holds nodes) {duration : Int}
    {apart misjudged : α → α → Prop} {before : List (Measured α)}
    (hjudge : ∀ new last, ends nodes = some (new, last) →
      (misjudged new last ↔ 900 ≤ duration ∧ ¬ apart new last)) :
    (∃ q' newitem, dropMeasured q duration = .ok (q', newitem) ∧
      AddsApart apart nodes before (before ++ newitem.toList)) ↔
    Held misjudged nodes duration := by
  unfold Held
  cases hends : ends nodes with
  | none =>
    simp only
    constructor
    · rintro ⟨q', newitem, hrun, -⟩ hfar
      rw [drop_measured_empty h hends hfar] at hrun
      cases hrun
    · intro hnear
      exact ⟨q, none, drop_measured_near hnear, fun hadds => absurd (by simp) hadds⟩
  | some pair =>
    obtain ⟨new, last⟩ := pair
    simp only [hjudge new last hends]
    constructor
    · rintro ⟨q', newitem, hrun, hadds⟩ ⟨hfar, hnot⟩
      obtain ⟨q'', hrun'⟩ := drop_measured_far h hends hfar
      rw [hrun'] at hrun
      obtain ⟨rfl, rfl⟩ := Prod.mk.inj (Except.ok.inj hrun)
      obtain ⟨new', last', hends', hapart⟩ := hadds (by simp)
      obtain ⟨rfl, rfl⟩ := Prod.mk.inj (Option.some.inj (hends.symm.trans hends'))
      exact hnot hapart
    · intro hgood
      by_cases hfar : 900 ≤ duration
      · obtain ⟨q', hrun⟩ := drop_measured_far h hends hfar
        have hapart : apart new last := by
          by_contra hnot
          exact hgood ⟨hfar, hnot⟩
        exact ⟨q', _, hrun, fun _ => ⟨new, last, hends, hapart⟩⟩
      · exact ⟨q, none, drop_measured_near hfar, fun hadds => absurd (by simp) hadds⟩

end Measure

section Iteration

variable {s : Lists} {nodes3 nodesF : List (Addr × DataQueue)}
  {nodesS : List (Addr × DataSurvey)} (h3 : s.queueList3.Holds nodes3)
  (hF : s.queueListF.Holds nodesF) (hS : s.surveyList.Holds nodesS)

/-- The locals behind each section. -/
def locals3 (nodes3 : List (Addr × DataQueue)) : Locals := measuredQueue nodes3 ⟨0, 0, 0⟩

def localsF (nodes3 nodesF : List (Addr × DataQueue)) : Locals :=
  let l := measuredQueue nodesF (locals3 nodes3)
  { l with duration := milliseconds l.d1 l.d2 }

def localsS (nodes3 nodesF : List (Addr × DataQueue)) (nodesS : List (Addr × DataSurvey)) :
    Locals := measuredSurvey nodesS (localsF nodes3 nodesF)

/-- The states between the sections, by what each section's list comes to. -/
def after3 (s : Lists) (nodes3 : List (Addr × DataQueue))
    (r : Lib.Fifo DataQueue × Option (Measured DataQueue)) : Lists := { s with
  queueList3 := r.1
  locals := locals3 nodes3
  next := .queueF
  newitemQueue3 := s.newitemQueue3 ++ r.2.toList }

def afterF (s : Lists) (nodes3 nodesF : List (Addr × DataQueue))
    (r : Lib.Fifo DataQueue × Option (Measured DataQueue)) : Lists := { s with
  queueListF := r.1
  locals := localsF nodes3 nodesF
  next := .survey
  newitemQueueF := s.newitemQueueF ++ r.2.toList }

def afterS (s : Lists) (nodes3 nodesF : List (Addr × DataQueue)) (nodesS : List (Addr × DataSurvey))
    (r : Lib.Fifo DataSurvey × Option (Measured DataSurvey)) : Lists := { s with
  surveyList := r.1
  locals := localsS nodes3 nodesF nodesS
  next := .queue3
  newitemSurvey := s.newitemSurvey ++ r.2.toList }

include h3 in
theorem queue_3_eq : queue3Section s =
    (dropMeasured s.queueList3 (locals3 nodes3).duration >>= fun r => .ok (after3 s nodes3 r)) := by
  rw [queue3Section, measure_queue_eq h3]
  rfl

include hF in
theorem queue_f_eq (hlocals : s.locals = locals3 nodes3) : queueFSection s =
    (dropMeasured s.queueListF (localsF nodes3 nodesF).duration >>= fun r =>
      .ok (afterF s nodes3 nodesF r)) := by
  rw [queueFSection, hlocals, measure_queue_eq hF]
  rfl

include hS in
theorem survey_eq (hlocals : s.locals = localsF nodes3 nodesF) : surveySection s =
    (dropMeasured s.surveyList (localsS nodes3 nodesF nodesS).duration >>= fun r =>
      .ok (afterS s nodes3 nodesF nodesS r)) := by
  rw [surveySection, hlocals, measure_survey_eq hS]
  rfl

include h3 hF hS in
theorem iteration_eq : iteration s =
    (dropMeasured s.queueList3 (locals3 nodes3).duration >>= fun r3 =>
      dropMeasured s.queueListF (localsF nodes3 nodesF).duration >>= fun rF =>
        dropMeasured s.surveyList (localsS nodes3 nodesF nodesS).duration >>= fun rS =>
          .ok (afterS (afterF (after3 s nodes3 r3) nodes3 nodesF rF) nodes3 nodesF nodesS rS)) := by
  rw [iteration, queue_3_eq h3]
  cases dropMeasured s.queueList3 (locals3 nodes3).duration with
  | error fault => rfl
  | ok r3 =>
    show (queueFSection (after3 s nodes3 r3) >>= surveySection) = _
    rw [queue_f_eq (s := after3 s nodes3 r3) hF rfl]
    show ((dropMeasured s.queueListF _ >>= _) >>= surveySection) = _
    cases dropMeasured s.queueListF (localsF nodes3 nodesF).duration with
    | error fault => rfl
    | ok rF => exact survey_eq (s := afterF (after3 s nodes3 r3) nodes3 nodesF rF) hS rfl

include h3 hF hS in
/-- A turn is good exactly if each of its sections is. -/
theorem own_clocks_sections : OwnClocks nodes3 nodesF nodesS s ↔
    (∃ q item, dropMeasured s.queueList3 (locals3 nodes3).duration = .ok (q, item) ∧
      AddsApart QueueApart nodes3 s.newitemQueue3 (s.newitemQueue3 ++ item.toList)) ∧
    (∃ q item, dropMeasured s.queueListF (localsF nodes3 nodesF).duration = .ok (q, item) ∧
      AddsApart QueueApart nodesF s.newitemQueueF (s.newitemQueueF ++ item.toList)) ∧
    ∃ q item, dropMeasured s.surveyList (localsS nodes3 nodesF nodesS).duration = .ok (q, item) ∧
      AddsApart SurveyApart nodesS s.newitemSurvey (s.newitemSurvey ++ item.toList) := by
  unfold OwnClocks
  rw [iteration_eq h3 hF hS]
  constructor
  · rintro ⟨t, hrun, hadds3, haddsF, haddsS⟩
    obtain ⟨⟨q3, item3⟩, hdrop3, hrun⟩ := bind_ok hrun
    obtain ⟨⟨qF, itemF⟩, hdropF, hrun⟩ := bind_ok hrun
    obtain ⟨⟨qS, itemS⟩, hdropS, hrun⟩ := bind_ok hrun
    obtain rfl := Except.ok.inj hrun
    exact ⟨⟨q3, item3, hdrop3, hadds3⟩, ⟨qF, itemF, hdropF, haddsF⟩, qS, itemS, hdropS, haddsS⟩
  · rintro ⟨⟨q3, item3, hdrop3, hadds3⟩, ⟨qF, itemF, hdropF, haddsF⟩, qS, itemS, hdropS, haddsS⟩
    rw [hdrop3, hdropF, hdropS]
    exact ⟨_, rfl, hadds3, haddsF, haddsS⟩

/-- The duration a queue's section goes by where its list is not empty. -/
theorem measured_far (l : Locals) {new last : DataQueue} (hends : ends nodes3 = some (new, last)) :
    900 ≤ milliseconds (measuredQueue nodes3 l).d1 (measuredQueue nodes3 l).d2 ↔ Far new last := by
  rw [measuredQueue, hends]
  exact to_float_far

/-- An empty list is judged by the clock of the list before it. -/
theorem left_by_queue_3 (hends : ends nodesF = none) :
    ¬ 900 ≤ (localsF nodes3 nodesF).duration ↔
      ∀ new last, ends nodes3 = some (new, last) → ¬ Far new last := by
  have hleft : (localsF nodes3 nodesF).duration =
      milliseconds (locals3 nodes3).d1 (locals3 nodes3).d2 := by
    simp only [localsF, measuredQueue, hends]
  rw [hleft]
  cases hends3 : ends nodes3 with
  | none =>
    have hzero : milliseconds (locals3 nodes3).d1 (locals3 nodes3).d2 = 0 := by
      rw [locals3, measuredQueue, hends3]
      exact milliseconds_zero
    simp [hzero]
  | some pair =>
    obtain ⟨new, last⟩ := pair
    rw [locals3, measured_far _ hends3]
    constructor
    · intro hnear new' last' heq
      obtain ⟨rfl, rfl⟩ := Prod.mk.inj (Option.some.inj heq)
      exact hnear
    · exact fun hnear => hnear new last rfl

include h3 hF hS in
/-- A turn goes by each stream's own clock exactly if no list is empty behind one
whose samples are far apart, and no two samples are misjudged. -/
theorem own_clocks_iff : OwnClocks nodes3 nodesF nodesS s ↔
    Judged QueueMisjudged Far nodes3 ([] : List (Addr × DataQueue)) ∧
    Judged QueueMisjudged Far nodesF nodes3 ∧ Judged SurveyMisjudged Far nodesS nodesF := by
  have hjudge3 : ∀ new last, ends nodes3 = some (new, last) → (QueueMisjudged new last ↔
      900 ≤ (locals3 nodes3).duration ∧ ¬ QueueApart new last) := by
    intro new last hends
    rw [queue_misjudged_iff, locals3, measuredQueue, hends]
    exact and_congr_left fun _ => to_float_far.symm
  have hjudgeF : ∀ new last, ends nodesF = some (new, last) → (QueueMisjudged new last ↔
      900 ≤ (localsF nodes3 nodesF).duration ∧ ¬ QueueApart new last) := by
    intro new last hends
    rw [queue_misjudged_iff, localsF, measured_far _ hends]
  have hjudgeS : ∀ new last, ends nodesS = some (new, last) → (SurveyMisjudged new last ↔
      900 ≤ (localsS nodes3 nodesF nodesS).duration ∧ ¬ SurveyApart new last) := by
    intro new last hends
    rw [survey_misjudged_iff, localsS, measuredSurvey, hends]
  rw [own_clocks_sections h3 hF hS, section_iff h3 hjudge3, section_iff hF hjudgeF,
    section_iff hS hjudgeS]
  have hfirst : Held QueueMisjudged nodes3 (locals3 nodes3).duration ↔
      Judged QueueMisjudged Far nodes3 ([] : List (Addr × DataQueue)) := by
    unfold Held Judged
    cases hends : ends nodes3 with
    | some pair => rfl
    | none =>
      have hzero : (locals3 nodes3).duration = 0 := by
        rw [locals3, measuredQueue, hends]
      simp [hzero, ends]
  have hmiddle : Held QueueMisjudged nodesF (localsF nodes3 nodesF).duration ↔
      Judged QueueMisjudged Far nodesF nodes3 := by
    unfold Held Judged
    cases hends : ends nodesF with
    | some pair => rfl
    | none => exact left_by_queue_3 hends
  rw [hfirst, hmiddle]
  refine and_congr_right fun _ => and_congr_right fun hjudged => ?_
  unfold Judged at hjudged
  unfold Held Judged
  cases hends : ends nodesS with
  | some pair => rfl
  | none =>
    have hleft : (localsS nodes3 nodesF nodesS).duration = (localsF nodes3 nodesF).duration := by
      rw [localsS, measuredSurvey, hends]
    simp only [hleft]
    cases hendsF : ends nodesF with
    | none =>
      rw [hendsF] at hjudged
      simp [(left_by_queue_3 hendsF).mpr hjudged]
    | some pair =>
      obtain ⟨new, last⟩ := pair
      rw [localsF, measured_far _ hendsF]
      constructor
      · intro hnear new' last' heq
        obtain ⟨rfl, rfl⟩ := Prod.mk.inj (Option.some.inj heq)
        exact hnear
      · exact fun hnear => hnear new last rfl

end Iteration

/-- The first sample of each list, and one 900 ms behind it. -/
def twoEach : Lists where
  queueList3 := ⟨(AList.singleton 1 ⟨queueSample 3 1, some 2⟩).insert 2
    ⟨{ queueSample 3 1 with usec := 900000 }, none⟩, some 1, some 2⟩
  queueListF := ⟨(AList.singleton 3
    ⟨{ queueSample 4294967295 1 with usec := 500000 }, some 4⟩).insert 4
    ⟨{ queueSample 4294967295 2 with usec := 400000 }, none⟩, some 3, some 4⟩
  surveyList := ⟨(AList.singleton 5 ⟨surveySample 1000, some 6⟩).insert 6 ⟨surveySample 1900, none⟩,
    some 5, some 6⟩
  next := .queue3
  locals := ⟨0, 0, 0⟩
  newitemQueue3 := []
  newitemQueueF := []
  newitemSurvey := []
  appended3 := [queueSample 3 1, { queueSample 3 1 with usec := 900000 }]
  appendedF := [{ queueSample 4294967295 1 with usec := 500000 },
    { queueSample 4294967295 2 with usec := 400000 }]
  appendedSurvey := [surveySample 1000, surveySample 1900]

/-- The turn computes one item of each list. -/
theorem own_clocks_iff_two_each :
    OwnClocks [(1, queueSample 3 1), (2, { queueSample 3 1 with usec := 900000 })]
      [(3, { queueSample 4294967295 1 with usec := 500000 }),
        (4, { queueSample 4294967295 2 with usec := 400000 })]
      [(5, surveySample 1000), (6, surveySample 1900)] twoEach ∧
    ∃ t, iteration twoEach = .ok t ∧ t.newitemQueue3.length = 1 ∧
      t.newitemQueueF.length = 1 ∧ t.newitemSurvey.length = 1 := by
  refine ⟨(own_clocks_iff ⟨.cons rfl (.cons rfl (.nil none)), rfl⟩
    ⟨.cons rfl (.cons rfl (.nil none)), rfl⟩ ⟨.cons rfl (.cons rfl (.nil none)), rfl⟩).mpr
    ⟨?_, ?_, ?_⟩, _, rfl, rfl, rfl, rfl⟩
  · simp only [Judged, ends, QueueMisjudged]
    decide
  · simp only [Judged, ends, QueueMisjudged]
    decide
  · simp only [Judged, ends, SurveyMisjudged]
    decide

/-- Two samples of queue 3 one second apart, and nothing else yet. -/
def onlyQueue3 : Lists where
  queueList3 := ⟨(AList.singleton 1 ⟨queueSample 3 1, some 2⟩).insert 2 ⟨queueSample 3 2, none⟩,
    some 1, some 2⟩
  queueListF := ⟨∅, none, none⟩
  surveyList := ⟨∅, none, none⟩
  next := .queue3
  locals := ⟨0, 0, 0⟩
  newitemQueue3 := []
  newitemQueueF := []
  newitemSurvey := []
  appended3 := [queueSample 3 1, queueSample 3 2]
  appendedF := []
  appendedSurvey := []

/-- The root queue's list is empty, and the second that queue 3 leaves behind
makes the code follow it. -/
theorem empty_list_followed : ¬ ∀ (s : Lists) (nodes3 nodesF : List (Addr × DataQueue))
    (nodesS : List (Addr × DataSurvey)), s.queueList3.Holds nodes3 → s.queueListF.Holds nodesF →
    s.surveyList.Holds nodesS → OwnClocks nodes3 nodesF nodesS s := by
  intro h
  obtain ⟨t, hrun, -⟩ := h onlyQueue3 [(1, queueSample 3 1), (2, queueSample 3 2)] [] []
    ⟨.cons rfl (.cons rfl (.nil none)), rfl⟩ ⟨.nil none, rfl⟩ ⟨.nil none, rfl⟩
  have hfault : iteration onlyQueue3 = .error .null := by rfl
  rw [hfault] at hrun
  cases hrun

end ApTelemetry.Receiver.Samples
