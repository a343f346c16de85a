import ApTelemetry.Sendudp.RecvCb

namespace ApTelemetry.Sendudp
open Lib

def slotState (s : ApsRing) (i : Nat) : Apstates := s.apstatesGlobal[i]?.getD zeroApstates

/-- The slots from `aps_tail` up to `aps_head`. -/
def InWindow (s : ApsRing) (i : Nat) : Prop := ∃ k < lenTmpDel s, i = (s.apsTail + k) % apsl

/-- The two fields of a sample that the scan reads for one queue. -/
structure Column where
  qlen : Apstates → U32
  backlog : Apstates → U32

def queue3 : Column := ⟨Apstates.q3qlen, Apstates.q3backlog⟩
def rootQueue : Column := ⟨Apstates.qfqlen, Apstates.qfbacklog⟩

def Column.backlogAt (c : Column) (s : ApsRing) (i : Nat) : U32 := c.backlog (slotState s i)
def Column.qlenAt (c : Column) (s : ApsRing) (i : Nat) : U32 := c.qlen (slotState s i)

/-- A reply carries the fields of a sample of the window, and no sample of the
window has a larger backlog. -/
def WindowPeak (c : Column) (s : ApsRing) (apstat : Apstates) : Prop :=
  ∃ i, InWindow s i ∧ c.backlogAt s i = c.backlog apstat ∧ c.qlenAt s i = c.qlen apstat ∧
    ∀ j, InWindow s j → c.backlogAt s j ≤ c.backlog apstat

/-- What a scan of the first `m` slots keeps: the first of the largest backlogs. -/
structure FirstPeak (c : Column) (s : ApsRing) (m : Nat) (p : Peak) : Prop where
  bound : ∀ k < m, c.backlogAt s k ≤ p.maxbacklog
  first : p = ⟨0, 0⟩ ∨ ∃ i < m, c.backlogAt s i ≠ 0 ∧ p = ⟨c.qlenAt s i, c.backlogAt s i⟩ ∧
    ∀ k < i, c.backlogAt s k < c.backlogAt s i

theorem FirstPeak.raise {c : Column} {s : ApsRing} {m : Nat} {p : Peak} (h : FirstPeak c s m p) :
    FirstPeak c s (m + 1) (p.raise (c.qlenAt s m) (c.backlogAt s m)) := by
  unfold Peak.raise
  split
  · rename_i hmore
    have hbelow : ∀ k < m, c.backlogAt s k < c.backlogAt s m := by
      intro k hk
      have hle := h.bound k hk
      bv_omega
    constructor
    · intro k hk
      rcases Nat.lt_succ_iff_lt_or_eq.mp hk with hk | rfl
      · have hlt := hbelow k hk
        show c.backlogAt s k ≤ c.backlogAt s m
        bv_omega
      · exact BitVec.le_refl _
    · refine .inr ⟨m, Nat.lt_succ_self m, ?_, rfl, hbelow⟩
      bv_omega
  · rename_i hless
    constructor
    · intro k hk
      rcases Nat.lt_succ_iff_lt_or_eq.mp hk with hk | rfl
      · exact h.bound k hk
      · exact BitVec.not_lt.mp hless
    · rcases h.first with hzero | ⟨i, hi, hne, hp, hbefore⟩
      · exact .inl hzero
      · exact .inr ⟨i, Nat.lt_succ_of_lt hi, hne, hp, hbefore⟩

theorem scan_peaks_spec {s : ApsRing} (hsize : s.apstatesGlobal.length = apsl) {m : Nat}
    (hm : m ≤ apsl) : ∃ peaks, scanPeaks s.apstatesGlobal m = .ok peaks ∧
      FirstPeak queue3 s m peaks.1 ∧ FirstPeak rootQueue s m peaks.2 := by
  let inv : Nat → Peak × Peak → Prop := fun k p => FirstPeak queue3 s k p.1 ∧
    FirstPeak rootQueue s k p.2
  refine foldlM_range inv m ?_ ⟨⟨by simp, .inl rfl⟩, ⟨by simp, .inl rfl⟩⟩
  rintro k p hk ⟨h3, hf⟩
  have hlt : k < s.apstatesGlobal.length := by omega
  have hload : load s.apstatesGlobal (k % apsl) = .ok (slotState s k) := by
    rw [Nat.mod_eq_of_lt (by omega), load_lt hlt, slotState, List.getElem?_eq_getElem hlt,
      Option.getD_some]
  refine ⟨(p.1.raise (queue3.qlenAt s k) (queue3.backlogAt s k),
    p.2.raise (rootQueue.qlenAt s k) (rootQueue.backlogAt s k)), ?_, h3.raise, hf.raise⟩
  rw [raisePeaks, hload]
  rfl

/-- The indices of the ring after `n` ticks, with any content in the slots. -/
structure Ticked (n : Nat) (s : ApsRing) : Prop where
  size : s.apstatesGlobal.length = apsl
  cursors : Cursors apsl (givenUp n) n s.apsTail s.apsHead

theorem RingInvariant.ticked {ticks : List Tick} {s : ApsRing} (h : RingInvariant ticks s) :
    Ticked ticks.length s := ⟨h.size, h.cursors⟩

theorem rates_peaks {stack tmp2 tmp1 apstat : Apstates} (hd : duration tmp2 tmp1 ≠ 0)
    (hs : durSur tmp2 tmp1 ≠ 0) {q3 qf : Peak} {count : Nat}
    (h : rates stack tmp2 tmp1 q3 qf count = .ok apstat) :
    q3 = ⟨apstat.q3qlen, apstat.q3backlog⟩ ∧ qf = ⟨apstat.qfqlen, apstat.qfbacklog⟩ := by
  have hdiv : ∀ n, doDiv n (durSur tmp2 tmp1) = .ok (n / (durSur tmp2 tmp1).setWidth 64) :=
    fun n => if_neg hs
  have hdiv' : ∀ n, doDiv n (duration tmp2 tmp1) = .ok (n / (duration tmp2 tmp1).setWidth 64) :=
    fun n => if_neg hd
  have hint : ∀ a, intDiv a (duration tmp2 tmp1) = .ok (a.sdiv (duration tmp2 tmp1)) :=
    fun a => if_neg hd
  simp only [rates, hdiv, hdiv', hint, bind, Except.bind] at h
  obtain rfl := Except.ok.inj h
  exact ⟨rfl, rfl⟩

/-- A state that is sent reports the peaks of the scan. -/
theorem state_reply_peaks {n : Nat} {s : ApsRing} (h : Ticked n s) {data : List Char}
    {stack apstat : Apstates} {tables : Tables} {links : List Reply}
    (hreply : recvCb data stack tables s = .ok (.state apstat :: links)) :
    FirstPeak queue3 s (lenTmpDel s) ⟨apstat.q3qlen, apstat.q3backlog⟩ ∧
      FirstPeak rootQueue s (lenTmpDel s) ⟨apstat.qfqlen, apstat.qfbacklog⟩ := by
  have hnew : newestSlot s < s.apstatesGlobal.length := h.size.symm ▸ Nat.mod_lt _ (by decide)
  have hold : s.apsTail < s.apstatesGlobal.length := h.size.symm ▸ h.cursors.first_lt
  have hlen : lenTmpDel s ≤ apsl := Nat.le_of_lt (Nat.mod_lt _ (by decide))
  obtain ⟨⟨q3, qf⟩, hpeaks, h3, hf⟩ := scan_peaks_spec h.size hlen
  unfold recvCb at hreply
  split at hreply
  · simp only [statesReply, load_lt hnew, load_lt hold, hpeaks, bind, Except.bind] at hreply
    split at hreply
    · cases hreply
    · rename_i hmoved
      obtain ⟨hd, hs⟩ := not_or.mp hmoved
      split at hreply
      · cases hreply
      · rename_i hrates
        obtain ⟨hstate, -⟩ := List.cons.inj (Except.ok.inj hreply)
        obtain rfl := Reply.state.inj hstate
        obtain ⟨rfl, rfl⟩ := rates_peaks hd hs hrates
        exact ⟨h3, hf⟩
  · split at hreply
    · obtain ⟨_, _, _, hflow, _⟩ := List.map_eq_cons_iff.mp (Except.ok.inj hreply)
      cases hflow
    · cases hreply

/-- While the ring has not been round, or the head is at its last slot, the scan
meets the window and nothing else. -/
def Unlapped (n : Nat) (s : ApsRing) : Prop := n ≤ 249 ∨ s.apsHead = 249

theorem len_tmp_del {n : Nat} {s : ApsRing} (h : Ticked n s) : lenTmpDel s = min n 249 := by
  rw [lenTmpDel, h.cursors.distance (room n), givenUp]
  omega

theorem in_window_unlapped {n : Nat} {s : ApsRing} (h : Ticked n s) (hun : Unlapped n s) (i : Nat) :
    InWindow s i ↔ i < lenTmpDel s := by
  have hlen := len_tmp_del h
  have htail : s.apsTail = 0 := by
    have hhead := h.cursors.next
    rw [h.cursors.first]
    simp only [Unlapped, givenUp, apsl] at hun hhead ⊢
    omega
  have hplace : ∀ k < lenTmpDel s, (s.apsTail + k) % apsl = k := by
    intro k hk
    rw [htail, Nat.zero_add]
    exact Nat.mod_eq_of_lt (by simp only [apsl]; omega)
  constructor
  · rintro ⟨k, hk, rfl⟩
    rwa [hplace k hk]
  · intro hi
    exact ⟨i, hi, (hplace i hi).symm⟩

/-- Otherwise the window is every slot but the head's, and the scan leaves out the last. -/
theorem in_window_lapped {n : Nat} {s : ApsRing} (h : Ticked n s) (hun : ¬ Unlapped n s) :
    lenTmpDel s = 249 ∧ s.apsHead < 249 ∧ ∀ i, InWindow s i ↔ i < apsl ∧ i ≠ s.apsHead := by
  obtain ⟨hmany, hnot⟩ := not_or.mp hun
  have hlen : lenTmpDel s = 249 := by
    rw [len_tmp_del h]
    omega
  have hhead := h.cursors.next
  have htail : s.apsTail = s.apsHead + 1 := by
    have hfirst := h.cursors.first
    simp only [givenUp, apsl] at hfirst hhead
    omega
  refine ⟨hlen, ?_, fun i => ?_⟩
  · simp only [apsl] at hhead
    omega
  · rw [InWindow, hlen, htail]
    simp only [apsl] at hhead ⊢
    constructor
    · rintro ⟨k, hk, rfl⟩
      omega
    · rintro ⟨hi, hne⟩
      exact ⟨(i + 249 - s.apsHead) % 250, by omega, by omega⟩

/-- The slot the head is at, which the scan meets although it is not in the
window, and the last slot, which it never meets, make no difference. -/
structure Alike (c : Column) (s : ApsRing) : Prop where
  outside : ∃ i, InWindow s i ∧ c.backlogAt s s.apsHead ≤ c.backlogAt s i
  unscanned : c.backlogAt s 249 = 0 ∨ ∃ i < 249, c.backlogAt s 249 ≤ c.backlogAt s i
  first : c.backlogAt s s.apsHead ≠ 0 →
    (∀ i, InWindow s i → c.backlogAt s i ≤ c.backlogAt s s.apsHead) →
    (∀ i < s.apsHead, c.backlogAt s i < c.backlogAt s s.apsHead) →
    ∃ i, InWindow s i ∧ c.backlogAt s i = c.backlogAt s s.apsHead ∧
      c.qlenAt s i = c.qlenAt s s.apsHead

/-- The content of the slots under which the scan finds the peak of the window. -/
structure PeakSeen (c : Column) (n : Nat) (s : ApsRing) : Prop where
  idle : (∀ i, InWindow s i → c.backlogAt s i = 0) → ∃ i, InWindow s i ∧ c.qlenAt s i = 0
  lap : Unlapped n s ∨ Alike c s

/-- Without any backlog the scan reports zeros. -/
theorem idle_peak {c : Column} {s : ApsRing} {apstat : Apstates}
    (hidle : (∀ i, InWindow s i → c.backlogAt s i = 0) → ∃ i, InWindow s i ∧ c.qlenAt s i = 0)
    (hmax : ∀ j, InWindow s j → c.backlogAt s j ≤ c.backlog apstat)
    (hp : (⟨c.qlen apstat, c.backlog apstat⟩ : Peak) = ⟨0, 0⟩) : WindowPeak c s apstat := by
  have hbacklog : c.backlog apstat = 0 := congrArg Peak.maxbacklog hp
  have hqlen : c.qlen apstat = 0 := congrArg Peak.maxqlen hp
  have hzero : ∀ j, InWindow s j → c.backlogAt s j = 0 := by
    intro j hj
    have hle := hmax j hj
    rw [hbacklog] at hle
    bv_omega
  obtain ⟨i, hi, hnone⟩ := hidle hzero
  exact ⟨i, hi, (hzero i hi).trans hbacklog.symm, hnone.trans hqlen.symm, hmax⟩

theorem unlapped_peak_iff {c : Column} {n : Nat} {s : ApsRing} {apstat : Apstates}
    (h : Ticked n s) (hun : Unlapped n s)
    (hpeak : FirstPeak c s (lenTmpDel s) ⟨c.qlen apstat, c.backlog apstat⟩) :
    WindowPeak c s apstat ↔ PeakSeen c n s := by
  have hwindow := in_window_unlapped h hun
  constructor
  · rintro ⟨i, hi, hbacklog, hqlen, hmax⟩
    refine ⟨fun hzero => ?_, .inl hun⟩
    rcases hpeak.first with hp | ⟨k, hk, hne, hp, -⟩
    · exact ⟨i, hi, hqlen.trans (congrArg Peak.maxqlen hp)⟩
    · exact absurd (hzero k ((hwindow k).mpr hk)) hne
  · intro hseen
    have hmax : ∀ j, InWindow s j → c.backlogAt s j ≤ c.backlog apstat :=
      fun j hj => hpeak.bound j ((hwindow j).mp hj)
    rcases hpeak.first with hp | ⟨k, hk, -, hp, -⟩
    · exact idle_peak hseen.idle hmax hp
    · exact ⟨k, (hwindow k).mpr hk, (congrArg Peak.maxbacklog hp).symm,
        (congrArg Peak.maxqlen hp).symm, hmax⟩

section Lapped

variable {c : Column} {n : Nat} {s : ApsRing} {apstat : Apstates}
  (h : Ticked n s) (hun : ¬ Unlapped n s)
  (hpeak : FirstPeak c s (lenTmpDel s) ⟨c.qlen apstat, c.backlog apstat⟩)

include h hun hpeak

/-- A peak of the window that the scan reports was there to be seen. -/
theorem lapped_seen (hwindowed : WindowPeak c s apstat) : PeakSeen c n s := by
  obtain ⟨hlen, hhead, hwindow⟩ := in_window_lapped h hun
  rw [hlen] at hpeak
  obtain ⟨i, hi, hbacklog, hqlen, hmax⟩ := hwindowed
  refine ⟨fun hzero => ?_, .inr ⟨⟨i, hi, ?_⟩, ?_, ?_⟩⟩
  · have hnone : c.backlog apstat = 0 := hbacklog.symm.trans (hzero i hi)
    rcases hpeak.first with hp | ⟨k, hk, hne, hp, -⟩
    · exact ⟨i, hi, hqlen.trans (congrArg Peak.maxqlen hp)⟩
    · exact absurd ((congrArg Peak.maxbacklog hp).symm.trans hnone) hne
  · rw [hbacklog]
    exact hpeak.bound _ hhead
  · have hle := hmax 249 ((hwindow 249).mpr ⟨by decide, by omega⟩)
    rcases hpeak.first with hp | ⟨k, hk, -, hp, -⟩
    · left
      rw [show c.backlog apstat = 0 from congrArg Peak.maxbacklog hp] at hle
      bv_omega
    · right
      rw [show c.backlog apstat = c.backlogAt s k from congrArg Peak.maxbacklog hp] at hle
      exact ⟨k, hk, hle⟩
  · intro hne hle hbefore
    have heq : c.backlogAt s i = c.backlogAt s s.apsHead := by
      have hover := hle i hi
      have hbound := hpeak.bound _ hhead
      simp only at hbound
      rw [← hbacklog] at hbound
      bv_omega
    refine ⟨i, hi, heq, ?_⟩
    rcases hpeak.first with hp | ⟨k, hk, -, hp, hless⟩
    · rw [← heq, hbacklog] at hne
      exact absurd (congrArg Peak.maxbacklog hp) hne
    · have hreported : c.backlog apstat = c.backlogAt s k := congrArg Peak.maxbacklog hp
      have hfirst : k = s.apsHead := by
        rcases Nat.lt_trichotomy k s.apsHead with hlt | rfl | hlt
        · have habove := hbefore k hlt
          bv_omega
        · rfl
        · have habove := hless _ hlt
          bv_omega
      rw [hqlen, ← hfirst]
      exact congrArg Peak.maxqlen hp

/-- What the scan reports is a peak of the window if that could be seen. -/
theorem lapped_peak (hseen : PeakSeen c n s) : WindowPeak c s apstat := by
  obtain ⟨hlen, hhead, hwindow⟩ := in_window_lapped h hun
  rw [hlen] at hpeak
  have halike : Alike c s := hseen.lap.resolve_left hun
  have hmax : ∀ j, InWindow s j → c.backlogAt s j ≤ c.backlog apstat := by
    intro j hj
    obtain ⟨hlt, -⟩ := (hwindow j).mp hj
    rcases Nat.lt_or_eq_of_le (Nat.le_of_lt_succ hlt) with hlt | rfl
    · exact hpeak.bound j hlt
    · rcases halike.unscanned with hzero | ⟨i, hi, hle⟩
      · bv_omega
      · exact BitVec.le_trans hle (hpeak.bound i hi)
  rcases hpeak.first with hp | ⟨k, hk, hne, hp, hless⟩
  · exact idle_peak hseen.idle hmax hp
  · have hbacklog : c.backlog apstat = c.backlogAt s k := congrArg Peak.maxbacklog hp
    have hqlen : c.qlen apstat = c.qlenAt s k := congrArg Peak.maxqlen hp
    by_cases hk' : k = s.apsHead
    · subst hk'
      obtain ⟨i, hi, heq, hbeside⟩ := halike.first hne (hbacklog ▸ hmax) hless
      exact ⟨i, hi, heq.trans hbacklog.symm, hbeside.trans hqlen.symm, hmax⟩
    · have hin : InWindow s k := (hwindow k).mpr ⟨by simp only [apsl]; omega, hk'⟩
      exact ⟨k, hin, hbacklog.symm, hqlen.symm, hmax⟩

end Lapped

/-- A state that is sent reports the peaks of its window exactly if the scan can
see them, for queue 3 and for the root queue. -/
theorem peaks_iff {n : Nat} {s : ApsRing} (h : Ticked n s) {data : List Char}
    {stack apstat : Apstates} {tables : Tables} {links : List Reply}
    (hreply : recvCb data stack tables s = .ok (.state apstat :: links)) :
    WindowPeak queue3 s apstat ∧ WindowPeak rootQueue s apstat ↔
      PeakSeen queue3 n s ∧ PeakSeen rootQueue n s := by
  obtain ⟨h3, hf⟩ := state_reply_peaks h hreply
  by_cases hun : Unlapped n s
  · exact and_congr (unlapped_peak_iff h hun h3) (unlapped_peak_iff h hun hf)
  · exact and_congr ⟨lapped_seen h hun h3, lapped_peak h hun h3⟩
      ⟨lapped_seen h hun hf, lapped_peak h hun hf⟩

/-- Queue 3 alone has reported: one packet, five bytes of backlog. -/
def oneQueue : List DataQueue :=
  [zeroQueue, zeroQueue, zeroQueue, ⟨3, 1, 1, 0, 0, 1, 5, 0, 0, 0, 0⟩, zeroQueue, zeroQueue]

def quietTick : Tick := ⟨none, none, oneQueue⟩

/-- A tick with stations, one second into the survey. -/
def surveyTick : Tick := ⟨some ⟨1, 1, 0, 0, 0, 0, 0, 0, 0, 0, 0, 0⟩, none, oneQueue⟩

theorem compare_and_queue_same (queues : List DataQueue) (xx : Apstates) :
    compareAndQueue queues queues xx = (queues, xx, []) := by
  induction queues with
  | nil => rfl
  | cons tmp queues ih => simp only [compareAndQueue, ih, if_true]

/-- A tick that finds the queues as they were changes its slot by the survey only. -/
theorem same_queues_tick {s : ApsRing} (hsize : s.apstatesGlobal.length = apsl)
    (hlt : s.apsHead < apsl) (hprevious : s.queuePrevious = oneQueue)
    (survey : Option DataSurvey) :
    ∃ t, getInformation s ⟨survey, none, oneQueue⟩ = .ok t ∧
      t.apstatesGlobal =
        s.apstatesGlobal.set s.apsHead (recordSurvey survey (slotState s s.apsHead)) ∧
      t.queuePrevious = oneQueue ∧ t.apsHead = (s.apsHead + 1) % apsl := by
  have hlt' : s.apsHead < s.apstatesGlobal.length := hsize.symm ▸ hlt
  have hslot : slotState s s.apsHead = s.apstatesGlobal[s.apsHead] := by
    rw [slotState, List.getElem?_eq_getElem hlt', Option.getD_some]
  have hsame : compareAndQueue oneQueue s.queuePrevious
      (recordSurvey survey s.apstatesGlobal[s.apsHead]) =
      (oneQueue, recordSurvey survey s.apstatesGlobal[s.apsHead], []) := by
    rw [hprevious]
    exact compare_and_queue_same _ _
  have hrun : getInformation s ⟨survey, none, oneQueue⟩ = _ := get_information_out hlt' hsame
  refine ⟨_, hrun, ?_, rfl, rfl⟩
  rw [hslot]
  rfl

/-- Ticks without stations and packets leave all slots as they were. -/
theorem quiet_ticks {s : ApsRing} (hsize : s.apstatesGlobal.length = apsl)
    (hlt : s.apsHead < apsl) (hprevious : s.queuePrevious = oneQueue) (k : Nat) :
    ∃ t, (List.replicate k quietTick).foldlM getInformation s = .ok t ∧
      t.apstatesGlobal = s.apstatesGlobal := by
  induction k generalizing s with
  | zero => exact ⟨s, rfl, rfl⟩
  | succ k ih =>
    obtain ⟨t, ht, hslots, hqueues, hhead⟩ := same_queues_tick hsize hlt hprevious none
    have hkept : t.apstatesGlobal = s.apstatesGlobal := by
      have hlt' : s.apsHead < s.apstatesGlobal.length := hsize.symm ▸ hlt
      rw [hslots, recordSurvey, slotState, List.getElem?_eq_getElem hlt', Option.getD_some]
      exact List.set_getElem_self hlt'
    obtain ⟨u, hu, hend⟩ := ih (hkept ▸ hsize) (hhead ▸ Nat.mod_lt _ (by decide)) hqueues
    refine ⟨u, ?_, hend.trans hkept⟩
    rw [List.replicate_succ, List.foldlM_cons]
    exact (congrArg (fun e => e >>= fun t => (List.replicate k quietTick).foldlM getInformation t)
      ht).trans hu

theorem get_replicate (n i : Nat) : (List.replicate n zeroApstates)[i]?.getD zeroApstates =
    zeroApstates := by
  rw [List.getElem?_replicate]
  split <;> rfl

def firstSample : Apstates := recordQueue ⟨3, 1, 1, 0, 0, 1, 5, 0, 0, 0, 0⟩ zeroApstates

/-- The first tick writes what queue 3 has reported into the first slot. -/
theorem first_tick : ∃ s, getInformation loaded quietTick = .ok s ∧
    s.apstatesGlobal = (List.replicate apsl zeroApstates).set 0 firstSample ∧
    s.apsHead = 1 ∧ s.queuePrevious = oneQueue := by
  have hsize : loaded.apstatesGlobal.length = apsl := List.length_replicate
  have hfirst : loaded.apsHead < loaded.apstatesGlobal.length := hsize ▸ by decide
  have hslot : loaded.apstatesGlobal[loaded.apsHead] = zeroApstates := List.getElem_replicate ..
  have hout : compareAndQueue quietTick.queueGlobal loaded.queuePrevious
      (recordNeibours quietTick.neibours
        (recordSurvey quietTick.survey loaded.apstatesGlobal[loaded.apsHead])) =
      (oneQueue, firstSample, [⟨3, 1, 1, 0, 0, 1, 5, 0, 0, 0, 0⟩]) := by
    rw [hslot]
    rfl
  exact ⟨_, get_information_out hfirst hout, rfl, rfl, rfl⟩

theorem two_ticks : ∃ s, [quietTick, surveyTick].foldlM getInformation loaded = .ok s ∧
    s.apstatesGlobal = ((List.replicate apsl zeroApstates).set 0 firstSample).set 1
      (recordSurvey surveyTick.survey zeroApstates) ∧
    s.apsHead = 2 ∧ s.queuePrevious = oneQueue := by
  obtain ⟨s, hs, hbuf, hhead, hqueues⟩ := first_tick
  have hlength : s.apstatesGlobal.length = apsl := by
    rw [hbuf, List.length_set, List.length_replicate]
  obtain ⟨t, ht, hslots, hprevious, hnext⟩ :=
    same_queues_tick hlength (hhead ▸ by decide) hqueues surveyTick.survey
  have hone : slotState s s.apsHead = zeroApstates := by
    rw [slotState, hbuf, hhead, List.getElem?_set_ne (by decide), get_replicate]
  refine ⟨t, ?_, ?_, ?_, hprevious⟩
  · rw [List.foldlM_cons, hs]
    exact congrArg (fun e => e >>= fun t => .ok t) ht
  · rw [hslots, hone, hhead, hbuf]
  · rw [hnext, hhead]
    rfl

def twoSlots (i : Nat) : Apstates :=
  if i = 1 then recordSurvey surveyTick.survey zeroApstates
  else if i = 0 then firstSample else zeroApstates

theorem slot_state_two {s : ApsRing} (h : s.apstatesGlobal =
    ((List.replicate apsl zeroApstates).set 0 firstSample).set 1
      (recordSurvey surveyTick.survey zeroApstates)) (i : Nat) : slotState s i = twoSlots i := by
  rw [slotState, h, twoSlots]
  by_cases h1 : i = 1
  · subst h1
    rw [List.getElem?_set_self (by rw [List.length_set, List.length_replicate]; decide),
      Option.getD_some, if_pos rfl]
  · rw [List.getElem?_set_ne (Ne.symm h1)]
    by_cases h0 : i = 0
    · subst h0
      rw [List.getElem?_set_self (by rw [List.length_replicate]; decide), Option.getD_some,
        if_neg (by decide), if_pos rfl]
    · rw [List.getElem?_set_ne (Ne.symm h0), if_neg h1, if_neg h0, get_replicate]

/-- 250 ticks of which only the second finds a station. -/
def lapTicks : List Tick := [quietTick, surveyTick] ++ List.replicate 248 quietTick

/-- The ring has just been round: its first slot is the one outside the window. -/
theorem lapped_run : ∃ s, lapTicks.foldlM getInformation loaded = .ok s ∧
    RingInvariant lapTicks s ∧ ∀ i, slotState s i = twoSlots i := by
  obtain ⟨s, hs, hbuf, hhead, hqueues⟩ := two_ticks
  have hlength : s.apstatesGlobal.length = apsl := by
    rw [hbuf, List.length_set, List.length_set, List.length_replicate]
  obtain ⟨t, ht, hkept⟩ := quiet_ticks hlength (hhead ▸ by decide) hqueues 248
  have hrun : lapTicks.foldlM getInformation loaded = .ok t := by
    rw [lapTicks, List.foldlM_append, hs]
    exact ht
  obtain ⟨u, hu, hinv⟩ := get_information_run lapTicks
  obtain rfl := Except.ok.inj (hrun.symm.trans hu)
  exact ⟨t, hrun, hinv, slot_state_two (hkept.trans hbuf)⟩

def idleTables : Tables where
  iwp := Vector.replicate 10 ⟨⟨0, 0, 0, 0, 0, 0⟩, 0, 0, 0, 0, 0, 0, 0, 0, 0, 0, 0, 0, 0, 0⟩
  flowLinger := Vector.replicate 10
    ⟨0, 0, 0, 0, 0, 0, 0, 0, 0, ⟨0, 0, 0, 0, 0, 0⟩, 0, ⟨0, 0, 0, 0, 0, 0⟩, 0⟩

theorem state_reply_sent {ticks : List Tick} {s : ApsRing} (h : RingInvariant ticks s)
    (hmoved : ¬ Unmoved s) : ∃ apstat links,
    recvCb ['s', 't', 'a', 't', 'e', 's'] zeroApstates idleTables s =
      .ok (.state apstat :: links) := by
  rcases states_reply_cases h zeroApstates idleTables with ⟨hun, -⟩ | ⟨-, apstat, -, hreply⟩
  · exact absurd hun hmoved
  · exact ⟨apstat, _, hreply⟩

/-- In the first round the scan is right: the backlog of the first tick. -/
theorem peaks_iff_two_ticks : ∃ s apstat links,
    [quietTick, surveyTick].foldlM getInformation loaded = .ok s ∧
    recvCb ['s', 't', 'a', 't', 'e', 's'] zeroApstates idleTables s =
      .ok (.state apstat :: links) ∧
    WindowPeak queue3 s apstat ∧ WindowPeak rootQueue s apstat := by
  obtain ⟨s, hrun, hbuf, -, -⟩ := two_ticks
  obtain ⟨t, ht, hinv⟩ := get_information_run [quietTick, surveyTick]
  obtain rfl := Except.ok.inj (hrun.symm.trans ht)
  have hslots := slot_state_two hbuf
  have hhead : s.apsHead = 2 := hinv.cursors.next
  have htail : s.apsTail = 0 := hinv.cursors.first
  have hmoved : ¬ Unmoved s := by
    have hnewest : newest s = twoSlots 1 := by
      rw [← hslots, newest, newestSlot, hhead]
      rfl
    have holdest : oldest s = twoSlots 0 := by
      rw [← hslots, oldest, htail]
      rfl
    rw [Unmoved, hnewest, holdest]
    decide
  obtain ⟨apstat, links, hreply⟩ := state_reply_sent hinv hmoved
  have hun : Unlapped 2 s := .inl (by decide)
  have hwindow : ∀ i, InWindow s i ↔ i < 2 := by
    intro i
    rw [in_window_unlapped hinv.ticked hun, len_tmp_del hinv.ticked]
    rfl
  refine ⟨s, apstat, links, hrun, hreply, (peaks_iff hinv.ticked hreply).mpr
    ⟨⟨fun _ => ?_, .inl hun⟩, ⟨fun _ => ?_, .inl hun⟩⟩⟩
  · refine ⟨1, (hwindow 1).mpr (by decide), ?_⟩
    rw [Column.qlenAt, hslots]
    rfl
  · refine ⟨1, (hwindow 1).mpr (by decide), ?_⟩
    rw [Column.qlenAt, hslots]
    rfl

/-- After 250 ticks the backlog of the first is still reported. -/
theorem stale_peak : ¬ ∀ (ticks : List Tick) (s : ApsRing) (data : List Char) (stack : Apstates)
    (tables : Tables) (apstat : Apstates) (links : List Reply),
    ticks.foldlM getInformation loaded = .ok s →
    recvCb data stack tables s = .ok (.state apstat :: links) →
    WindowPeak queue3 s apstat ∧ WindowPeak rootQueue s apstat := by
  intro h
  obtain ⟨s, hrun, hinv, hslots⟩ := lapped_run
  have hlength : lapTicks.length = 250 := by
    rw [lapTicks, List.length_append, List.length_replicate]
    rfl
  have hticked : Ticked 250 s := hlength ▸ hinv.ticked
  have hhead : s.apsHead = 0 := hticked.cursors.next
  have htail : s.apsTail = 1 := hticked.cursors.first
  have hmoved : ¬ Unmoved s := by
    have hnewest : newest s = twoSlots 249 := by
      rw [← hslots, newest, newestSlot, hhead]
      rfl
    have holdest : oldest s = twoSlots 1 := by
      rw [← hslots, oldest, htail]
      rfl
    rw [Unmoved, hnewest, holdest]
    decide
  obtain ⟨apstat, links, hreply⟩ := state_reply_sent hinv hmoved
  obtain ⟨i, hi, hbacklog, -, -⟩ := (h _ _ _ _ _ _ _ hrun hreply).1
  have hlapped : ¬ Unlapped 250 s := by
    rw [Unlapped, hhead]
    decide
  obtain ⟨hlen, -, hwindow⟩ := in_window_lapped hticked hlapped
  have hfive : queue3.backlogAt s 0 = 5 := by
    rw [Column.backlogAt, hslots]
    rfl
  have hscan : queue3.backlogAt s 0 ≤ queue3.backlog apstat :=
    (state_reply_peaks hticked hreply).1.bound 0 (by omega)
  have hne : i ≠ 0 := hhead ▸ ((hwindow i).mp hi).2
  have hzero : queue3.backlogAt s i = 0 := by
    rw [Column.backlogAt, hslots, twoSlots, if_neg hne]
    split <;> rfl
  rw [hfive, ← hbacklog, hzero] at hscan
  exact absurd hscan (by decide)

end ApTelemetry.Sendudp
