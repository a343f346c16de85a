import ApTelemetry.Lib.CInt
import ApTelemetry.Sendudp.IwList

namespace ApTelemetry.Sendudp.Rates
open Lib

/-- `INT_MAX`. -/
def intMax : Nat := 2147483647

/-- `times * (new - old)` of two counters cast to `int`. -/
def scaledC (new old : Nat) : CInt := .op .mul (.num 1000000) (.op .sub (.num new) (.num old))

/-- The milliseconds between two clock readings, as `duration` has them. -/
def durationC (sec usec sec' usec' : U32) : CInt :=
  .op .add (.op .mul (.op .sub (.num sec.toNat) (.num sec'.toNat)) (.num 1000))
    (.op .div (.op .sub (.num usec.toNat) (.num usec'.toNat)) (.num 1000))

def durSurC (time time' : U64) : CInt := .op .sub (.num time.toNat) (.num time'.toNat)

/-- A rate of a counter over a time is what it should be, and nothing on the way
to it left `int`. -/
structure Rated (new old : Nat) (time : CInt) (rate : Nat) : Prop where
  scaled : (scaledC new old).Exact 32
  time_exact : time.Exact 32
  rate_eq : (rate : Int) = 1000000 * ((new : Int) - old) / time.value

/-- A counter that can be scaled in `int`. -/
def Small (new old : Nat) : Prop := new ≤ intMax ∧ 1000000 * (new - old) ≤ intMax

/-- Clock readings whose difference in milliseconds can be computed in `int`. -/
structure Timed (sec usec sec' usec' : U32) : Prop where
  sec_le : sec.toNat ≤ intMax
  usec_le : usec.toNat ≤ intMax
  old_sec_le : sec'.toNat ≤ intMax
  old_usec_le : usec'.toNat ≤ intMax
  scaled : 1000 * ((sec.toNat : Int) - sec'.toNat) ≤ intMax
  total : (durationC sec usec sec' usec').value ≤ intMax

section Machine

/-- What the machine computes is the model's own arithmetic. -/
theorem scaled_run {w : Nat} (new old : BitVec w) :
    (scaledC new.toNat old.toNat).run 32 = scaled (new.setWidth 32) (old.setWidth 32) := by
  simp only [scaledC, CInt.run, CInt.Op.run, BitVec.ofInt_natCast, BitVec.ofNat_toNat]
  rfl

theorem duration_run (sec usec sec' usec' : U32) :
    (durationC sec usec sec' usec').run 32 =
      (sec - sec') * 1000 + (usec - usec').sdiv 1000 := by
  simp only [durationC, CInt.run, CInt.Op.run, BitVec.ofInt_natCast, BitVec.ofNat_toNat,
    BitVec.setWidth_eq]
  rfl

theorem dur_sur_run (time time' : U64) :
    (durSurC time time').run 32 = time.setWidth 32 - time'.setWidth 32 := by
  simp only [durSurC, CInt.run, CInt.Op.run, BitVec.ofInt_natCast, BitVec.ofNat_toNat]

theorem fits_iff {n : Int} : CInt.Fits 32 n ↔ -2147483648 ≤ n ∧ n ≤ 2147483647 := by
  rw [CInt.Fits]
  omega

theorem scaled_exact_iff {new old : Nat} (h : old ≤ new) :
    (scaledC new old).Exact 32 ↔ Small new old := by
  simp only [scaledC, CInt.exact_op, CInt.exact_num, CInt.value, CInt.Op.ideal, fits_iff, Small,
    intMax]
  omega

theorem dur_sur_exact_iff {time time' : U64} (h : 0 < (durSurC time time').value) :
    (durSurC time time').Exact 32 ↔ time.toNat ≤ intMax := by
  simp only [durSurC, CInt.exact_op, CInt.exact_num, CInt.value, CInt.Op.ideal, fits_iff,
    intMax] at h ⊢
  omega

theorem duration_exact_iff {sec usec sec' usec' : U32}
    (h : 0 < (durationC sec usec sec' usec').value) :
    (durationC sec usec sec' usec').Exact 32 ↔ Timed sec usec sec' usec' := by
  have htdiv := Int.mul_tdiv_add_tmod ((usec.toNat : Int) - usec'.toNat) 1000
  have hpos : (0 : Int) < 1000 := by decide
  have hlt := Int.tmod_lt_of_pos ((usec.toNat : Int) - usec'.toNat) hpos
  have hgt := Int.lt_tmod_of_pos ((usec.toNat : Int) - usec'.toNat) hpos
  constructor
  · intro hexact
    simp only [durationC, CInt.exact_op, CInt.exact_num, CInt.value, CInt.Op.ideal, fits_iff]
      at hexact
    refine ⟨?_, ?_, ?_, ?_, ?_, ?_⟩ <;>
      simp only [durationC, CInt.value, CInt.Op.ideal, intMax] <;> omega
  · rintro ⟨hsec, husec, hsec', husec', hscaled, htotal⟩
    simp only [durationC, CInt.exact_op, CInt.exact_num, CInt.value, CInt.Op.ideal, fits_iff,
      intMax] at *
    omega

section Division

variable {s d : U32}

theorem msb_of_nonneg {x : U32} (h : 0 ≤ x.toInt) : x.msb = false := by
  rw [BitVec.msb_eq_toInt, decide_eq_false_iff_not]
  exact Int.not_lt.mpr h

/-- The division of two `int`s that are not negative, into a field. -/
theorem int_div_value (hs : 0 ≤ s.toInt) (hd : 0 ≤ d.toInt) :
    ((s.sdiv d).toNat : Int) = s.toInt / d.toInt := by
  rw [BitVec.sdiv_eq, msb_of_nonneg hs, msb_of_nonneg hd,
    BitVec.toInt_eq_toNat_of_msb (msb_of_nonneg hs),
    BitVec.toInt_eq_toNat_of_msb (msb_of_nonneg hd)]
  exact congrArg Int.ofNat (BitVec.toNat_udiv (x := s) (y := d))

/-- The same by `do_div`, into a field of 64 bits. -/
theorem do_div_value (hs : 0 ≤ s.toInt) (hd : 0 ≤ d.toInt) :
    ((s.signExtend 64 / d.setWidth 64).toNat : Int) = s.toInt / d.toInt := by
  rw [BitVec.signExtend_eq_setWidth_of_msb_false (msb_of_nonneg hs), BitVec.toNat_udiv,
    BitVec.toNat_setWidth_of_le (by decide), BitVec.toNat_setWidth_of_le (by decide),
    BitVec.toInt_eq_toNat_of_msb (msb_of_nonneg hs),
    BitVec.toInt_eq_toNat_of_msb (msb_of_nonneg hd)]
  rfl

end Division

/-- Where counter and time are computed in `int`, their quotient is the rate. -/
theorem scaled_div_value {new old : Nat} {time : CInt} (hmono : old ≤ new)
    (hscaled : (scaledC new old).Exact 32) (htime : time.Exact 32) (hpos : 0 < time.value) :
    0 ≤ ((scaledC new old).run 32).toInt ∧ 0 ≤ (time.run 32).toInt ∧
      ((scaledC new old).run 32).toInt / (time.run 32).toInt =
        1000000 * ((new : Int) - old) / time.value := by
  rw [hscaled.run_toInt, htime.run_toInt]
  refine ⟨?_, hpos.le, rfl⟩
  simp only [scaledC, CInt.value, CInt.Op.ideal]
  omega

/-- A rate of two `int`s is exact if the counter and the time are. -/
theorem rated_int_iff {new old : U32} {time : CInt} (hmono : old.toNat ≤ new.toNat)
    (hpos : 0 < time.value) :
    Rated new.toNat old.toNat time ((scaled new old).sdiv (time.run 32)).toNat ↔
      Small new.toNat old.toNat ∧ time.Exact 32 := by
  rw [← scaled_exact_iff hmono]
  constructor
  · rintro ⟨hscaled, htime, -⟩
    exact ⟨hscaled, htime⟩
  · rintro ⟨hscaled, htime⟩
    obtain ⟨hs, hd, heq⟩ := scaled_div_value hmono hscaled htime hpos
    have hrun := scaled_run new old
    rw [BitVec.setWidth_eq, BitVec.setWidth_eq] at hrun
    refine ⟨hscaled, htime, ?_⟩
    rw [← hrun, int_div_value hs hd, heq]

theorem rated_do_div_iff {new old : U64} {time : CInt} (hmono : old.toNat ≤ new.toNat)
    (hpos : 0 < time.value) :
    Rated new.toNat old.toNat time (scaledLow new old / (time.run 32).setWidth 64).toNat ↔
      Small new.toNat old.toNat ∧ time.Exact 32 := by
  rw [← scaled_exact_iff hmono]
  constructor
  · rintro ⟨hscaled, htime, -⟩
    exact ⟨hscaled, htime⟩
  · rintro ⟨hscaled, htime⟩
    obtain ⟨hs, hd, heq⟩ := scaled_div_value hmono hscaled htime hpos
    refine ⟨hscaled, htime, ?_⟩
    rw [scaledLow, ← scaled_run, do_div_value hs hd, heq]

end Machine

/-- A counter of the state, whose rate goes into the same field of the reply. -/
inductive Counter where
  | int (get : Apstates → U32)
  | long (get : Apstates → U64)

namespace Counter

def read : Counter → Apstates → Nat
  | int get, s => (get s).toNat
  | long get, s => (get s).toNat

/-- What `recv_cb` computes for it. -/
def rate (tmp2 tmp1 : Apstates) (time : U32) : Counter → Nat
  | int get => ((scaled (get tmp2) (get tmp1)).sdiv time).toNat
  | long get => (scaledLow (get tmp2) (get tmp1) / time.setWidth 64).toNat

/-- The counters whose rates are over the survey's own time. -/
def survey : List Counter := [.long (·.timeBusy), .long (·.timeRx), .long (·.timeTx)]

/-- Those whose rates are over the time between the samples. -/
def queues : List Counter :=
  [.int (·.q3packets), .long (·.q3bytes), .int (·.q3drops), .int (·.q3requeues),
    .int (·.qfpackets), .long (·.qfbytes), .int (·.qfdrops), .int (·.qfrequeues),
    .int (·.congestion), .int (·.noncongestion)]

theorem rated_iff (c : Counter) {tmp2 tmp1 : Apstates} {time : CInt}
    (hmono : c.read tmp1 ≤ c.read tmp2) (hpos : 0 < time.value) :
    Rated (c.read tmp2) (c.read tmp1) time (c.rate tmp2 tmp1 (time.run 32)) ↔
      Small (c.read tmp2) (c.read tmp1) ∧ time.Exact 32 := by
  cases c with
  | int get => exact rated_int_iff hmono hpos
  | long get => exact rated_do_div_iff hmono hpos

end Counter

section Reply

/-- No counter goes back from one sample to another. -/
def Nondecreasing (tmp2 tmp1 : Apstates) : Prop :=
  ∀ c ∈ Counter.survey ++ Counter.queues, c.read tmp1 ≤ c.read tmp2

def timeC (tmp2 tmp1 : Apstates) : CInt := durationC tmp2.sec tmp2.usec tmp1.sec tmp1.usec

def surveyTimeC (tmp2 tmp1 : Apstates) : CInt := durSurC tmp2.time tmp1.time

/-- All rates of a reply are exact. -/
def ReplyRated (tmp2 tmp1 apstat : Apstates) : Prop :=
  (∀ c ∈ Counter.survey, Rated (c.read tmp2) (c.read tmp1) (surveyTimeC tmp2 tmp1)
    (c.read apstat)) ∧
  ∀ c ∈ Counter.queues, Rated (c.read tmp2) (c.read tmp1) (timeC tmp2 tmp1) (c.read apstat)

/-- A states request is answered with exact rates. -/
def StateRated (data : List Char) (stack : Apstates) (tables : Tables) (s : ApsRing) : Prop :=
  ∃ apstat links, recvCb data stack tables s = .ok (.state apstat :: links) ∧
    ReplyRated (newest s) (oldest s) apstat

/-- Two samples small and close enough for `int`. -/
structure Close (tmp2 tmp1 : Apstates) : Prop where
  timed : Timed tmp2.sec tmp2.usec tmp1.sec tmp1.usec
  time : tmp2.time.toNat ≤ intMax
  small : ∀ c ∈ Counter.survey ++ Counter.queues, Small (c.read tmp2) (c.read tmp1)

variable {stack tmp2 tmp1 apstat : Apstates} {q3 qf : Peak} {count : Nat}

theorem time_run (tmp2 tmp1 : Apstates) : (timeC tmp2 tmp1).run 32 = duration tmp2 tmp1 :=
  duration_run ..

theorem survey_time_run (tmp2 tmp1 : Apstates) :
    (surveyTimeC tmp2 tmp1).run 32 = durSur tmp2 tmp1 := dur_sur_run ..

/-- Every rate of the reply is what is computed for its counter. -/
theorem rates_computed (h : rates stack tmp2 tmp1 q3 qf count = .ok apstat) :
    (∀ c ∈ Counter.survey, c.read apstat = c.rate tmp2 tmp1 (durSur tmp2 tmp1)) ∧
      ∀ c ∈ Counter.queues, c.read apstat = c.rate tmp2 tmp1 (duration tmp2 tmp1) := by
  unfold rates doDiv intDiv at h
  by_cases hs : durSur tmp2 tmp1 = 0
  · simp only [hs, if_true] at h
    cases h
  · by_cases hd : duration tmp2 tmp1 = 0
    · simp only [hd, hs, if_true, if_false, bind, Except.bind] at h
      cases h
    · simp only [hd, hs, if_false, bind, Except.bind] at h
      obtain rfl := Except.ok.inj h
      simp [Counter.survey, Counter.queues, Counter.read, Counter.rate]

/-- The rates computed are exact exactly if the samples are close. -/
theorem reply_rated_iff (hmono : Nondecreasing tmp2 tmp1) (hpos : 0 < (timeC tmp2 tmp1).value)
    (hsur : 0 < (surveyTimeC tmp2 tmp1).value)
    (h : rates stack tmp2 tmp1 q3 qf count = .ok apstat) :
    ReplyRated tmp2 tmp1 apstat ↔ Close tmp2 tmp1 := by
  obtain ⟨hsurvey, hqueues⟩ := rates_computed h
  have hsurvey' : ∀ c ∈ Counter.survey, (Rated (c.read tmp2) (c.read tmp1) (surveyTimeC tmp2 tmp1)
      (c.read apstat) ↔ Small (c.read tmp2) (c.read tmp1) ∧ tmp2.time.toNat ≤ intMax) := by
    intro c hc
    rw [hsurvey c hc, ← survey_time_run, c.rated_iff (hmono c (List.mem_append_left _ hc)) hsur]
    exact and_congr_right fun _ => dur_sur_exact_iff hsur
  have hqueues' : ∀ c ∈ Counter.queues, (Rated (c.read tmp2) (c.read tmp1) (timeC tmp2 tmp1)
      (c.read apstat) ↔ Small (c.read tmp2) (c.read tmp1) ∧
        Timed tmp2.sec tmp2.usec tmp1.sec tmp1.usec) := by
    intro c hc
    rw [hqueues c hc, ← time_run, c.rated_iff (hmono c (List.mem_append_right _ hc)) hpos]
    exact and_congr_right fun _ => duration_exact_iff hpos
  constructor
  · rintro ⟨hs, hq⟩
    refine ⟨?_, ?_, fun c hc => ?_⟩
    · exact ((hqueues' _ List.mem_cons_self).mp (hq _ List.mem_cons_self)).2
    · exact ((hsurvey' _ List.mem_cons_self).mp (hs _ List.mem_cons_self)).2
    · rcases List.mem_append.mp hc with hc | hc
      · exact ((hsurvey' c hc).mp (hs c hc)).1
      · exact ((hqueues' c hc).mp (hq c hc)).1
  · rintro ⟨htimed, htime, hsmall⟩
    exact ⟨fun c hc => (hsurvey' c hc).mpr ⟨hsmall c (List.mem_append_left _ hc), htime⟩,
      fun c hc => (hqueues' c hc).mpr ⟨hsmall c (List.mem_append_right _ hc), htimed⟩⟩

/-- Exact times are not zero on the machine either. -/
theorem Close.moved {s : ApsRing} (h : Close (newest s) (oldest s))
    (hpos : 0 < (timeC (newest s) (oldest s)).value)
    (hsur : 0 < (surveyTimeC (newest s) (oldest s)).value) : ¬ Unmoved s := by
  have htime := ((duration_exact_iff hpos).mpr h.timed).run_toInt
  have hsurvey := ((dur_sur_exact_iff hsur).mpr h.time).run_toInt
  change ((timeC _ _).run 32).toInt = (timeC _ _).value at htime
  change ((surveyTimeC _ _).run 32).toInt = (surveyTimeC _ _).value at hsurvey
  rw [time_run] at htime
  rw [survey_time_run] at hsurvey
  rintro (hzero | hzero)
  · rw [hzero] at htime
    exact absurd htime (Int.ne_of_lt hpos)
  · rw [hzero] at hsurvey
    exact absurd hsurvey (Int.ne_of_lt hsur)

theorem state_rated_iff {data : List Char} {tables : Tables} {s : ApsRing}
    (hsize : s.apstatesGlobal.length = apsl) (htail : s.apsTail < apsl)
    (hdata : strcmpN data ['s', 't', 'a', 't', 'e', 's'] 6 = true)
    (hmono : Nondecreasing (newest s) (oldest s))
    (hpos : 0 < (timeC (newest s) (oldest s)).value)
    (hsur : 0 < (surveyTimeC (newest s) (oldest s)).value) :
    StateRated data stack tables s ↔ Close (newest s) (oldest s) := by
  obtain ⟨q3, qf, ⟨hun, hreply⟩ | ⟨hun, hreply⟩⟩ := states_reply_eq hsize htail stack tables
  · refine iff_of_false ?_ fun hclose => hclose.moved hpos hsur hun
    rintro ⟨apstat, links, hrun, -⟩
    rw [recvCb, if_pos hdata, hreply] at hrun
    cases hrun
  · obtain ⟨hd, hs⟩ := not_or.mp hun
    obtain ⟨apstat, hrates, -⟩ := rates_runs stack hd hs q3 qf (liveLinks tables.iwp).length
    rw [← reply_rated_iff hmono hpos hsur hrates]
    rw [hrates] at hreply
    constructor
    · rintro ⟨apstat', links, hrun, hrated⟩
      rw [recvCb, if_pos hdata, hreply] at hrun
      obtain ⟨hstate, -⟩ := List.cons.inj (Except.ok.inj hrun)
      obtain rfl := Reply.state.inj hstate
      exact hrated
    · intro hrated
      exact ⟨apstat, _, by rw [recvCb, if_pos hdata, hreply]; rfl, hrated⟩

end Reply

section Links

/-- The counters of a link with the places of their older values. -/
def linkCounters : List ((DataIw → U32) × (Linkstates → U32)) :=
  [(DataIw.rxBytes, Linkstates.rxBytes), (DataIw.rxPackets, Linkstates.rxPackets),
    (DataIw.txBytes, Linkstates.txBytes), (DataIw.txPackets, Linkstates.txPackets),
    (DataIw.txRetries, Linkstates.txRetries), (DataIw.txFailed, Linkstates.txFailed)]

variable (tmp : DataIw) (lstmp : Linkstates)

def linkTimeC : CInt := durationC tmp.sec tmp.usec lstmp.sec lstmp.usec

def LinkNondecreasing : Prop :=
  ∀ c ∈ linkCounters, (c.2 lstmp).toNat ≤ (c.1 tmp).toNat

/-- All rates of the entry that `compare_and_iwlist` makes are exact. -/
def LinkRated : Prop :=
  ∀ c ∈ linkCounters, Rated (c.1 tmp).toNat (c.2 lstmp).toNat (linkTimeC tmp lstmp)
    (c.1 (IwList.processed tmp lstmp)).toNat

structure LinkClose : Prop where
  timed : Timed tmp.sec tmp.usec lstmp.sec lstmp.usec
  small : ∀ c ∈ linkCounters, Small (c.1 tmp).toNat (c.2 lstmp).toNat

variable {tmp lstmp}

theorem link_time_run : (linkTimeC tmp lstmp).run 32 = IwList.duration tmp lstmp :=
  duration_run ..

theorem processed_rate : ∀ c ∈ linkCounters, c.1 (IwList.processed tmp lstmp) =
    (scaled (c.1 tmp) (c.2 lstmp)).sdiv (IwList.duration tmp lstmp) := by
  simp [linkCounters, IwList.processed, IwList.rate]

theorem link_rated_iff (hmono : LinkNondecreasing tmp lstmp)
    (hpos : 0 < (linkTimeC tmp lstmp).value) : LinkRated tmp lstmp ↔ LinkClose tmp lstmp := by
  have hrated : ∀ c ∈ linkCounters, (Rated (c.1 tmp).toNat (c.2 lstmp).toNat (linkTimeC tmp lstmp)
      (c.1 (IwList.processed tmp lstmp)).toNat ↔
      Small (c.1 tmp).toNat (c.2 lstmp).toNat ∧
        Timed tmp.sec tmp.usec lstmp.sec lstmp.usec) := by
    intro c hc
    rw [processed_rate c hc, ← link_time_run, rated_int_iff (hmono c hc) hpos]
    exact and_congr_right fun _ => duration_exact_iff hpos
  constructor
  · intro h
    exact ⟨((hrated _ List.mem_cons_self).mp (h _ List.mem_cons_self)).2,
      fun c hc => ((hrated c hc).mp (h c hc)).1⟩
  · rintro ⟨htimed, hsmall⟩ c hc
    exact (hrated c hc).mpr ⟨hsmall c hc, htimed⟩

end Links

/-- A second in which the root queue sent 3000 bytes, and nothing else happened. -/
def busySecond : List Tick :=
  [⟨some ⟨1000, 1, 0, 0, 0, 0, 0, 0, 0, 0, 0, 0⟩, none, []⟩,
    ⟨some ⟨2000, 2, 0, 0, 0, 0, 0, 0, 0, 0, 0, 0⟩, none,
      [⟨4294967295, 0, 3000, 0, 0, 0, 0, 0, 0, 0, 0⟩]⟩]

/-- The history after it. -/
def afterBusySecond : ApsRing where
  apstatesGlobal :=
    { zeroApstates with time := 1000, sec := 1 } ::
    { zeroApstates with time := 2000, sec := 2, qfbytes := 3000 } ::
    List.replicate 248 zeroApstates
  apsHead := 2
  apsTail := 0
  queuePrevious := ⟨4294967295, 0, 3000, 0, 0, 0, 0, 0, 0, 0, 0⟩ :: List.replicate 5 zeroQueue
  queueRecords := [⟨4294967295, 0, 3000, 0, 0, 0, 0, 0, 0, 0, 0⟩]
  samples := [⟨0, { zeroApstates with time := 1000, sec := 1 }⟩,
    ⟨1, { zeroApstates with time := 2000, sec := 2, qfbytes := 3000 }⟩]

set_option maxRecDepth 4000 in
example : busySecond.foldlM getInformation loaded = .ok afterBusySecond := rfl

theorem busy_second_size : afterBusySecond.apstatesGlobal.length = apsl := by
  rw [afterBusySecond, List.length_cons, List.length_cons, List.length_replicate, apsl]

theorem busy_second_samples : Nondecreasing (newest afterBusySecond) (oldest afterBusySecond) ∧
    0 < (timeC (newest afterBusySecond) (oldest afterBusySecond)).value ∧
    0 < (surveyTimeC (newest afterBusySecond) (oldest afterBusySecond)).value := by
  refine ⟨?_, by decide, by decide⟩
  unfold Nondecreasing
  decide

/-- A link a second later, with a kilobyte received. -/
def oneKilobyte : DataIw := { IwList.zeroIw with sec := 1, rxBytes := 1000 }

/-- The rates sent to the controller are exact exactly if no counter is too large
for `int`, none moves by more than 2147, and the time between the samples can be
computed in `int`. -/
theorem rates_exact_iff (data : List Char) (stack : Apstates) (tables : Tables) (s : ApsRing)
    (tmp : DataIw) (lstmp : Linkstates) :
    (s.apstatesGlobal.length = apsl → s.apsTail < apsl →
      strcmpN data ['s', 't', 'a', 't', 'e', 's'] 6 = true →
      Nondecreasing (newest s) (oldest s) → 0 < (timeC (newest s) (oldest s)).value →
      0 < (surveyTimeC (newest s) (oldest s)).value →
      (StateRated data stack tables s ↔ Close (newest s) (oldest s))) ∧
    (LinkNondecreasing tmp lstmp → 0 < (linkTimeC tmp lstmp).value →
      (LinkRated tmp lstmp ↔ LinkClose tmp lstmp)) :=
  ⟨fun hsize htail hdata hmono hpos hsur => state_rated_iff hsize htail hdata hmono hpos hsur,
    fun hmono hpos => link_rated_iff hmono hpos⟩

theorem rates_exact_iff_busy_second :
    (StateRated ['s', 't', 'a', 't', 'e', 's'] zeroApstates IwList.zeroTables afterBusySecond ↔
      Close (newest afterBusySecond) (oldest afterBusySecond)) ∧
    (LinkRated oneKilobyte IwList.zeroLinkstates ↔
      LinkClose oneKilobyte IwList.zeroLinkstates) := by
  obtain ⟨hmono, hpos, hsur⟩ := busy_second_samples
  obtain ⟨hstate, hlink⟩ := rates_exact_iff ['s', 't', 'a', 't', 'e', 's'] zeroApstates
    IwList.zeroTables afterBusySecond oneKilobyte IwList.zeroLinkstates
  refine ⟨hstate busy_second_size (by decide) rfl hmono hpos hsur, hlink ?_ (by decide)⟩
  unfold LinkNondecreasing
  decide

/-- Three kilobytes in a second are more than `int` can scale. -/
theorem bytes_leave_int : ¬ ((∀ (data : List Char) (stack : Apstates) (tables : Tables)
      (s : ApsRing), s.apstatesGlobal.length = apsl → s.apsTail < apsl →
      strcmpN data ['s', 't', 'a', 't', 'e', 's'] 6 = true →
      Nondecreasing (newest s) (oldest s) → 0 < (timeC (newest s) (oldest s)).value →
      0 < (surveyTimeC (newest s) (oldest s)).value → StateRated data stack tables s) ∧
    ∀ (tmp : DataIw) (lstmp : Linkstates), LinkNondecreasing tmp lstmp →
      0 < (linkTimeC tmp lstmp).value → LinkRated tmp lstmp) := by
  rintro ⟨h, -⟩
  obtain ⟨hmono, hpos, hsur⟩ := busy_second_samples
  have hrated := h ['s', 't', 'a', 't', 'e', 's'] zeroApstates IwList.zeroTables afterBusySecond
    busy_second_size (by decide) rfl hmono hpos hsur
  have hclose := (state_rated_iff busy_second_size (by decide) rfl hmono hpos hsur).mp hrated
  have hsmall := (hclose.small (.long (·.qfbytes)) (by simp [Counter.queues])).2
  exact absurd hsmall (by decide)

end ApTelemetry.Sendudp.Rates
