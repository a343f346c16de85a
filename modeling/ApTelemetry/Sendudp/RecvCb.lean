import ApTelemetry.Sendudp.GetInformation

namespace ApTelemetry.Sendudp
open Lib

/-- The messages `recv_cb` sends to the controller. -/
inductive Reply where
  | nonedata
  | state (apstat : Apstates)
  | link (xtmp : Linkstates)
  | flow (tmp : TcpFlow)
  deriving DecidableEq

/-- What `recv_cb` reads besides the state history: the computed links and the
flow table. -/
structure Tables where
  iwp : Vector DataIw 10
  flowLinger : Vector TcpFlow 10

def iw2linkstates (s : DataIw) : Linkstates where
  station := s.station
  signal := s.signal.setWidth 8
  signalAvg := s.signalAvg.setWidth 8
  inactiveTime := s.inactiveTime
  rxBytes := s.rxBytes
  rxPackets := s.rxPackets
  txBytes := s.txBytes
  txPackets := s.txPackets
  txRetries := s.txRetries
  txFailed := s.txFailed
  expectedThroughput := s.expectedThroughput
  sec := s.sec
  usec := s.usec

/-- Division of two `int`s. -/
def intDiv (a b : U32) : Except Fault U32 := if b = 0 then .error .divide else .ok (a.sdiv b)

/-- `do_div` takes its divisor as an unsigned 32-bit number. -/
def doDiv (n : U64) (base : U32) : Except Fault U64 :=
  if base = 0 then .error .divide else .ok (n / base.setWidth 64)

/-- `times * ((int)new - (int)old)` in `int` arithmetic. -/
def scaled (new old : U32) : U32 := 1000000 * (new - old)

/-- The same for 64-bit counters, whose upper halves the casts drop. -/
def scaledLow (new old : U64) : U64 := (scaled (new.setWidth 32) (old.setWidth 32)).signExtend 64

def duration (tmp2 tmp1 : Apstates) : U32 :=
  (tmp2.sec - tmp1.sec) * 1000 + (tmp2.usec - tmp1.usec).sdiv 1000

def durSur (tmp2 tmp1 : Apstates) : U32 := tmp2.time.setWidth 32 - tmp1.time.setWidth 32

/-- The largest backlog met so far and the queue length beside it. -/
structure Peak where
  maxqlen : U32
  maxbacklog : U32

def Peak.raise (p : Peak) (qlen backlog : U32) : Peak :=
  if p.maxbacklog < backlog then ⟨qlen, backlog⟩ else p

/-- One slot compared with both peaks, queue 3's and the root queue's. -/
def raisePeaks (buf : List Apstates) (p : Peak × Peak) (k : Nat) :
    Except Fault (Peak × Peak) := do
  let xyztmp ← load buf (k % apsl)
  .ok (p.1.raise xyztmp.q3qlen xyztmp.q3backlog, p.2.raise xyztmp.qfqlen xyztmp.qfbacklog)

def scanPeaks (buf : List Apstates) (lenTmpDel : Nat) : Except Fault (Peak × Peak) :=
  (List.range lenTmpDel).foldlM (raisePeaks buf) (⟨0, 0⟩, ⟨0, 0⟩)

/-- The entries of `iwp` in use. -/
def liveLinks (iwp : Vector DataIw 10) : List DataIw := iwp.toList.filter fun tmp4 => 0 < tmp4.sec

/-- The reply built from the two ends of the window. `apstat` starts as what
`stack` holds: three fields are never written. -/
def rates (stack tmp2 tmp1 : Apstates) (q3 qf : Peak) (count : Nat) : Except Fault Apstates := do
  let duration := duration tmp2 tmp1
  let durSur := durSur tmp2 tmp1
  let timeBusy ← doDiv (scaledLow tmp2.timeBusy tmp1.timeBusy) durSur
  let timeRx ← doDiv (scaledLow tmp2.timeRx tmp1.timeRx) durSur
  let timeTx ← doDiv (scaledLow tmp2.timeTx tmp1.timeTx) durSur
  let q3packets ← intDiv (scaled tmp2.q3packets tmp1.q3packets) duration
  let q3bytes ← doDiv (scaledLow tmp2.q3bytes tmp1.q3bytes) duration
  let q3drops ← intDiv (scaled tmp2.q3drops tmp1.q3drops) duration
  let q3requeues ← intDiv (scaled tmp2.q3requeues tmp1.q3requeues) duration
  let qfpackets ← intDiv (scaled tmp2.qfpackets tmp1.qfpackets) duration
  let qfbytes ← doDiv (scaledLow tmp2.qfbytes tmp1.qfbytes) duration
  let qfdrops ← intDiv (scaled tmp2.qfdrops tmp1.qfdrops) duration
  let qfrequeues ← intDiv (scaled tmp2.qfrequeues tmp1.qfrequeues) duration
  let congestion ← intDiv (scaled tmp2.congestion tmp1.congestion) duration
  let noncongestion ← intDiv (scaled tmp2.noncongestion tmp1.noncongestion) duration
  .ok { stack with
    timeBusy, timeRx, timeTx
    noise := tmp2.noise
    q3packets, q3bytes
    q3qlen := q3.maxqlen
    q3backlog := q3.maxbacklog
    q3drops, q3requeues, qfpackets, qfbytes
    qfqlen := qf.maxqlen
    qfbacklog := qf.maxbacklog
    qfdrops, qfrequeues, congestion, noncongestion
    sec := tmp2.sec
    usec := tmp2.usec
    stationCount := BitVec.ofNat 32 count }

/-- The slot before the head, counted round the ring. -/
def newestSlot (s : ApsRing) : Nat := (s.apsHead + apsl - 1) % apsl

def lenTmpDel (s : ApsRing) : Nat := (s.apsHead + apsl - s.apsTail) % apsl

/-- The answer to a request for the states: `nonedata` while the two ends of the
window do not differ in time, else the state and one message for each link. -/
def statesReply (stack : Apstates) (tables : Tables) (s : ApsRing) :
    Except Fault (List Reply) := do
  let tmp2 ← load s.apstatesGlobal (newestSlot s)
  let tmp1 ← load s.apstatesGlobal s.apsTail
  let (q3, qf) ← scanPeaks s.apstatesGlobal (lenTmpDel s)
  if duration tmp2 tmp1 = 0 ∨ durSur tmp2 tmp1 = 0 then .ok [.nonedata]
  else
    let links := liveLinks tables.iwp
    let apstat ← rates stack tmp2 tmp1 q3 qf links.length
    .ok (.state apstat :: links.map fun tmp4 => .link (iw2linkstates tmp4))

/-- `strcmp_n` finds no difference in the first `n` places. -/
def strcmpN (s t : List Char) (n : Nat) : Bool := s.take n = t.take n

def recvCb (data : List Char) (stack : Apstates) (tables : Tables) (s : ApsRing) :
    Except Fault (List Reply) :=
  if strcmpN data ['s', 't', 'a', 't', 'e', 's'] 6 then statesReply stack tables s
  else if strcmpN data ['f', 'l', 'o', 'w', 's', 's'] 6 then
    .ok (tables.flowLinger.toList.map .flow)
  else .ok []

theorem scan_peaks_runs {buf : List Apstates} (hsize : buf.length = apsl) (lenTmpDel : Nat) :
    ∃ peaks, scanPeaks buf lenTmpDel = .ok peaks := by
  have hstep : ∀ (done : List Nat) p k, True → ∃ p', raisePeaks buf p k = .ok p' ∧ True := by
    intro _ p k _
    have hlt : k % apsl < buf.length := hsize.symm ▸ Nat.mod_lt k (by decide)
    exact ⟨_, by rw [raisePeaks, load_lt hlt]; rfl, trivial⟩
  obtain ⟨peaks, hrun, _⟩ := foldlM_invariant (fun _ _ => True) hstep [] trivial
    (List.range lenTmpDel)
  exact ⟨peaks, hrun⟩

/-- The fields of the reply that the controller's framing rests on. -/
structure Heads (stack tmp2 : Apstates) (count : Nat) (apstat : Apstates) : Prop where
  neibours : apstat.neibours = stack.neibours
  noise : apstat.noise = tmp2.noise
  pad : apstat.pad = stack.pad
  sec : apstat.sec = tmp2.sec
  stationCount : apstat.stationCount = BitVec.ofNat 32 count

/-- The guard in front of the divisions rules out both zero divisors. -/
theorem rates_runs (stack : Apstates) {tmp2 tmp1 : Apstates} (hd : duration tmp2 tmp1 ≠ 0)
    (hs : durSur tmp2 tmp1 ≠ 0) (q3 qf : Peak) (count : Nat) :
    ∃ apstat, rates stack tmp2 tmp1 q3 qf count = .ok apstat ∧ Heads stack tmp2 count apstat := by
  have hdiv : ∀ n, doDiv n (durSur tmp2 tmp1) = .ok (n / (durSur tmp2 tmp1).setWidth 64) :=
    fun n => if_neg hs
  have hdiv' : ∀ n, doDiv n (duration tmp2 tmp1) = .ok (n / (duration tmp2 tmp1).setWidth 64) :=
    fun n => if_neg hd
  have hint : ∀ a, intDiv a (duration tmp2 tmp1) = .ok (a.sdiv (duration tmp2 tmp1)) :=
    fun a => if_neg hd
  simp only [rates, hdiv, hdiv', hint, bind, Except.bind]
  exact ⟨_, rfl, rfl, rfl, rfl, rfl, rfl⟩

/-- The two ends of the window. -/
def newest (s : ApsRing) : Apstates := s.apstatesGlobal[newestSlot s]?.getD zeroApstates
def oldest (s : ApsRing) : Apstates := s.apstatesGlobal[s.apsTail]?.getD zeroApstates

/-- The window shows no passing of time on one of the two clocks. -/
def Unmoved (s : ApsRing) : Prop :=
  duration (newest s) (oldest s) = 0 ∨ durSur (newest s) (oldest s) = 0

/-- What a states request is answered, in any state whose indices are in the ring. -/
theorem states_reply_eq {s : ApsRing} (hsize : s.apstatesGlobal.length = apsl)
    (htail : s.apsTail < apsl) (stack : Apstates) (tables : Tables) : ∃ q3 qf,
    Unmoved s ∧ statesReply stack tables s = .ok [.nonedata] ∨
    ¬ Unmoved s ∧ statesReply stack tables s =
      (rates stack (newest s) (oldest s) q3 qf (liveLinks tables.iwp).length).map fun apstat =>
        .state apstat :: (liveLinks tables.iwp).map fun tmp4 => .link (iw2linkstates tmp4) := by
  have hnew : newestSlot s < s.apstatesGlobal.length := hsize.symm ▸ Nat.mod_lt _ (by decide)
  have hold : s.apsTail < s.apstatesGlobal.length := hsize.symm ▸ htail
  have hloadNew : load s.apstatesGlobal (newestSlot s) = .ok (newest s) := by
    rw [load_lt hnew, newest, List.getElem?_eq_getElem hnew, Option.getD_some]
  have hloadOld : load s.apstatesGlobal s.apsTail = .ok (oldest s) := by
    rw [load_lt hold, oldest, List.getElem?_eq_getElem hold, Option.getD_some]
  obtain ⟨⟨q3, qf⟩, hpeaks⟩ := scan_peaks_runs hsize (lenTmpDel s)
  refine ⟨q3, qf, ?_⟩
  simp only [statesReply, hloadNew, hloadOld, hpeaks, bind, Except.bind]
  by_cases hun : Unmoved s
  · exact .inl ⟨hun, if_pos hun⟩
  · exact .inr ⟨hun, if_neg hun⟩

/-- The two answers to a states request. -/
theorem states_reply_cases {ticks : List Tick} {s : ApsRing} (h : RingInvariant ticks s)
    (stack : Apstates) (tables : Tables) :
    Unmoved s ∧ statesReply stack tables s = .ok [.nonedata] ∨
    ¬ Unmoved s ∧ ∃ apstat, Heads stack (newest s) (liveLinks tables.iwp).length apstat ∧
      statesReply stack tables s =
        .ok (.state apstat ::
          (liveLinks tables.iwp).map fun tmp4 => .link (iw2linkstates tmp4)) := by
  obtain ⟨q3, qf, hnone | ⟨hun, hreply⟩⟩ := states_reply_eq h.size h.cursors.first_lt stack tables
  · exact .inl hnone
  · obtain ⟨hd, hs⟩ := not_or.mp hun
    obtain ⟨apstat, hrates, hheads⟩ := rates_runs stack hd hs q3 qf (liveLinks tables.iwp).length
    rw [hrates] at hreply
    exact .inr ⟨hun, apstat, hheads, hreply⟩

theorem recv_cb_runs {ticks : List Tick} {s : ApsRing} (h : RingInvariant ticks s)
    (data : List Char) (stack : Apstates) (tables : Tables) :
    ∃ replies, recvCb data stack tables s = .ok replies := by
  unfold recvCb
  split
  · rcases states_reply_cases h stack tables with ⟨_, hreply⟩ | ⟨_, apstat, _, hreply⟩
    · exact ⟨_, hreply⟩
    · exact ⟨_, hreply⟩
  · split <;> exact ⟨_, rfl⟩

/-- The history as `recv_cb` finds it after `ticks`: its window is the last 249
ticks at most, in order, and its two ends are the newest and the oldest of them. -/
structure RecentPast (ticks : List Tick) (s : ApsRing) : Prop where
  count : s.samples.length = ticks.length
  head_lt : s.apsHead < apsl
  tail_lt : s.apsTail < apsl
  window : (List.range (lenTmpDel s)).map
      (fun k => sampleAt s.apstatesGlobal ((s.apsTail + k) % apsl)) =
    (s.samples.drop (ticks.length - min ticks.length 249)).map some
  newest : ticks ≠ [] → sampleAt s.apstatesGlobal (newestSlot s) = s.samples.getLast?
  oldest : ticks ≠ [] → sampleAt s.apstatesGlobal s.apsTail =
    (s.samples.drop (ticks.length - min ticks.length 249)).head?

theorem RingInvariant.recent_past {ticks : List Tick} {s : ApsRing} (h : RingInvariant ticks s) :
    RecentPast ticks s := by
  have hcount : (s.samples.map some).length = ticks.length := by rw [List.length_map, h.count]
  have hheld : ∀ j, givenUp ticks.length ≤ j → j < ticks.length →
      sampleAt s.apstatesGlobal (j % apsl) = s.samples[j]? := by
    intro j hj hlt
    rw [h.held j hj (hcount ▸ hlt), List.getElem_map, List.getElem?_eq_getElem]
  refine ⟨h.count, h.cursors.next_lt, h.cursors.first_lt, ?_, ?_, ?_⟩
  · have hcursors : Cursors apsl (givenUp ticks.length) (s.samples.map some).length s.apsTail
        s.apsHead := by
      rw [hcount]
      exact h.cursors
    have hwindow := h.held.window hcursors (hcount.symm ▸ room ticks.length)
    rw [List.map_drop]
    exact hwindow
  · intro hne
    have hpos := List.length_pos_iff.mpr hne
    have hslot : newestSlot s = (ticks.length - 1) % apsl := by
      rw [newestSlot, h.cursors.next, Nat.add_sub_assoc (by decide), Nat.mod_add_mod,
        show ticks.length + (apsl - 1) = ticks.length - 1 + apsl by simp only [apsl]; omega,
        Nat.add_mod_right]
    rw [hslot, hheld _ (by simp only [givenUp]; omega) (by omega), List.getLast?_eq_getElem?,
      h.count]
  · intro hne
    have hpos := List.length_pos_iff.mpr hne
    rw [h.cursors.first, hheld _ (Nat.le_refl _) (by simp only [givenUp]; omega), List.head?_drop]
    rfl

/-- After any number of ticks the window is the recent past, and no request
makes `recv_cb` divide by zero. -/
theorem aps_window (ticks : List Tick) : ∃ s, ticks.foldlM getInformation loaded = .ok s ∧
    RecentPast ticks s ∧ ∀ data stack tables,
      ∃ replies, recvCb data stack tables s = .ok replies := by
  obtain ⟨s, hrun, hinv⟩ := get_information_run ticks
  exact ⟨s, hrun, hinv.recent_past, recv_cb_runs hinv⟩

end ApTelemetry.Sendudp
