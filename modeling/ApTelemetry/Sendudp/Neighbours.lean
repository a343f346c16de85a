import ApTelemetry.Scan.BeaconList
import ApTelemetry.Sendudp.LastSent

namespace ApTelemetry.Sendudp.Neighbours
open Lib Scan

/-- The beacon list of `scan.c` and what `get_information` keeps for it. Nothing
reads the last three: the frames heard since `compare_and_beacon` ran last, the
clock at the first frame of each BSSID, and how many of these there were then. -/
structure State where
  scan : Scan.State
  controlBeacon : Nat
  lastBeacon : LastSent
  beaconRecords : List DataBeacon
  arrivals : List (Mac × Stamp)
  firsts : List (Mac × Stamp)
  reported : Nat

/-- The clock a node of the list carries. -/
def time (beacon : DataBeacon) : Stamp := stamp beacon.sec beacon.usec

def compareAndBeacon (s : State) : Except Fault State := do
  let heap := s.scan.beacons.heap
  let ptr ← heap.items heap.entries.length s.scan.beacons.first
  let (lastBeacon, written) := s.lastBeacon.filter DataBeacon.sec DataBeacon.usec ptr
  .ok { s with
    lastBeacon
    beaconRecords := s.beaconRecords ++ written
    arrivals := []
    reported := s.firsts.length }

/-- The list is taken in every tenth call, and looked at unless it is empty. -/
def Compares (s : State) : Prop := s.controlBeacon % 10 = 0 ∧ s.scan.beacons.first.isSome

instance (s : State) : Decidable (Compares s) := inferInstanceAs (Decidable (_ ∧ _))

def countUp (s : State) : State := { s with controlBeacon := (s.controlBeacon + 1) % 10000000 }

def getInformation (s : State) : Except Fault State :=
  if Compares (countUp s) then compareAndBeacon (countUp s) else .ok (countUp s)

def scanRx (malloc : Malloc DataBeacon) (frame : Frame) (s : State) : Except Fault State := do
  let scan ← s.scan.exec malloc frame
  let first := (frame.bssid, stamp frame.sec frame.usec)
  if frame.Heard then
    .ok { s with
      scan
      arrivals := s.arrivals ++ [first]
      firsts :=
        if frame.bssid ∈ s.firsts.map Prod.fst then s.firsts else s.firsts ++ [first] }
  else .ok { s with scan }

inductive Action where
  | frame (frame : Frame)
  | tick

def State.exec (malloc : Malloc DataBeacon) (s : State) : Action → Except Fault State
  | .frame frame => scanRx malloc frame s
  | .tick => getInformation s

def enabled (s : State) : Action → Prop
  | .frame frame => s.scan.now ≤ frame.jiffies
  | .tick => True

def machine (malloc : Malloc DataBeacon) : Machine State Action Fault :=
  ⟨⟨Scan.loaded, 0, ⟨0, 0⟩, [], [], [], 0⟩, enabled, State.exec malloc⟩

/-- Every BSSID heard since the last time gets a record no older than its frames. -/
def Reports (s : State) (a : Action) (r : Except Fault State) : Prop :=
  a = .tick → Compares (countUp s) →
  ∃ t written, r = .ok t ∧ t.beaconRecords = s.beaconRecords ++ written ∧
    ∀ b arrival, (b, arrival) ∈ s.arrivals →
      ∃ x ∈ written, x.bssid = b ∧ arrival ≤ time x

/-- Every BSSID heard since the last time was new then, and the clock at its
first frame is not before that of its other frames and behind that of all first
frames before. -/
def AllNew (s : State) (a : Action) : Prop :=
  a = .tick → Compares (countUp s) →
  ∀ b arrival, (b, arrival) ∈ s.arrivals →
    ∃ earlier clock later, s.firsts = earlier ++ (b, clock) :: later ∧
      s.reported ≤ earlier.length ∧ arrival ≤ clock ∧ stamp 0 0 < clock ∧
      ∀ x ∈ earlier, x.2 < clock

/-- What a run keeps for as long as it does not fault. -/
structure Tracked (s : State) (nodes : List (Addr × DataBeacon)) : Prop where
  listed : Listed s.scan nodes
  firsts : s.firsts = nodes.map fun n => (n.2.bssid, time n.2)
  reported : s.reported ≤ s.firsts.length
  last : s.lastBeacon.stamp = highest Prod.snd (stamp 0 0) (s.firsts.take s.reported)

variable {s t : State} {nodes : List (Addr × DataBeacon)}

theorem Tracked.count_up (h : Tracked s nodes) : Tracked (countUp s) nodes :=
  ⟨h.listed, h.firsts, h.reported, h.last⟩

/-- The records written are those of the nodes newer than all before them. -/
theorem compare_runs (h : Tracked s nodes) : ∃ t, compareAndBeacon s = .ok t ∧
    t.scan = s.scan ∧ t.firsts = s.firsts ∧ t.reported = s.firsts.length ∧
    t.lastBeacon.stamp = highest time s.lastBeacon.stamp (nodes.map Prod.snd) ∧
    t.beaconRecords = s.beaconRecords ++
      maxima time s.lastBeacon.stamp (nodes.map Prod.snd) := by
  have hitems := h.listed.holds.chain.items_eq _ h.listed.holds.chain.length_le
  obtain ⟨hstamp, hwritten⟩ :=
    s.lastBeacon.filter_runs DataBeacon.sec DataBeacon.usec (nodes.map Prod.snd)
  simp only [compareAndBeacon, hitems, bind, Except.bind]
  exact ⟨_, rfl, rfl, rfl, rfl, hstamp, congrArg _ hwritten⟩

theorem Tracked.compare (h : Tracked s nodes) (hrun : compareAndBeacon s = .ok t) :
    Tracked t nodes := by
  obtain ⟨t', ht', hscan, hfirsts, hreported, hlast, -⟩ := compare_runs h
  obtain rfl := Except.ok.inj (ht'.symm.trans hrun)
  refine ⟨hscan ▸ h.listed, hfirsts.trans h.firsts, by rw [hreported, hfirsts], ?_⟩
  rw [hlast, hfirsts, hreported, List.take_length]
  -- the first part of the list was taken into account before: it changes nothing
  refine eq_of_forall_gt_iff fun z => ?_
  have hitems : (∀ x ∈ nodes.map Prod.snd, time x < z) ↔ ∀ x ∈ s.firsts, x.2 < z := by
    rw [h.firsts]
    simp only [List.forall_mem_map]
  rw [highest_lt_iff, highest_lt_iff, h.last, highest_lt_iff, hitems]
  constructor
  · rintro ⟨⟨hzero, -⟩, hall⟩
    exact ⟨hzero, hall⟩
  · rintro ⟨hzero, hall⟩
    exact ⟨⟨hzero, fun x hx => hall x (List.mem_of_mem_take hx)⟩, hall⟩

theorem Tracked.hear (h : Tracked s nodes) {malloc : Malloc DataBeacon} {frame : Frame}
    (hin : s.scan.now ≤ frame.jiffies) (hrun : scanRx malloc frame s = .ok t) :
    ∃ nodes', Tracked t nodes' := by
  obtain ⟨scan, hscan, hrun⟩ := bind_ok hrun
  by_cases hheard : frame.Heard
  · rw [if_pos hheard] at hrun
    obtain rfl := Except.ok.inj hrun
    obtain ⟨u, hu, -, hok⟩ := exec_ok_iff h.listed hheard hin malloc
    obtain ⟨rfl, -⟩ := (hok scan).mp hscan
    have hknown : frame.bssid ∈ s.firsts.map Prod.fst ↔ frame.bssid ∈ bssids nodes := by
      rw [h.firsts, List.map_map]
      rfl
    have hmap := heard_nodes_map (malloc.block s.scan.beacons.heap) nodes
      (g := fun x => (x.bssid, time x)) fun x (hhas : x.bssid = frame.bssid) => by
        rw [refresh, hhas]
        rfl
    refine ⟨_, hu, ?_, ?_, ?_⟩
    · simp only [hknown]
      rw [hmap, h.firsts]
      rfl
    · simp only
      split
      · exact h.reported
      · rw [List.length_append]
        exact Nat.le_add_right_of_le h.reported
    · simp only
      split
      · exact h.last
      · rw [List.take_append_of_le_length h.reported]
        exact h.last
  · rw [if_neg hheard] at hrun
    obtain rfl := Except.ok.inj hrun
    rw [exec_unheard hheard malloc] at hscan
    obtain rfl := Except.ok.inj hscan
    exact ⟨nodes, h.listed.pass hin, h.firsts, h.reported, h.last⟩

/-- A record for a BSSID comes from its first frame, if that is new. -/
theorem written_iff (h : Tracked s nodes) (b : Mac) (arrival : Stamp) :
    (∃ x ∈ maxima time s.lastBeacon.stamp (nodes.map Prod.snd), x.bssid = b ∧
      arrival ≤ time x) ↔
    ∃ earlier clock later, s.firsts = earlier ++ (b, clock) :: later ∧
      s.reported ≤ earlier.length ∧ arrival ≤ clock ∧ stamp 0 0 < clock ∧
      ∀ x ∈ earlier, x.2 < clock := by
  have hfirsts : s.firsts = (nodes.map Prod.snd).map fun x => (x.bssid, time x) := by
    rw [h.firsts, List.map_map]
    rfl
  generalize nodes.map Prod.snd = items at hfirsts
  constructor
  · rintro ⟨x, hx, rfl, hle⟩
    obtain ⟨pre, post, rfl, hlt⟩ := mem_maxima_iff.mp hx
    rw [highest_lt_iff, h.last, highest_lt_iff] at hlt
    obtain ⟨⟨hzero, hreported⟩, hpre⟩ := hlt
    rw [List.map_append, List.map_cons] at hfirsts
    refine ⟨_, _, _, hfirsts, ?_, hle, hzero, ?_⟩
    · by_contra hless
      have hmem : (x.bssid, time x) ∈ s.firsts.take s.reported := by
        rw [hfirsts, List.mem_take_iff_getElem]
        refine ⟨(pre.map fun x => (x.bssid, time x)).length, ?_, ?_⟩
        · rw [List.length_append, List.length_cons]
          omega
        · simp
      exact lt_irrefl _ (hreported _ hmem)
    · intro y hy
      obtain ⟨z, hz, rfl⟩ := List.mem_map.mp hy
      exact hpre z hz
  · rintro ⟨earlier, clock, later, heq, hlength, hle, hzero, hlt⟩
    have hlast : s.lastBeacon.stamp < clock := by
      rw [h.last, highest_lt_iff, heq, List.take_append_of_le_length hlength]
      exact ⟨hzero, fun x hx => hlt x (List.mem_of_mem_take hx)⟩
    rw [hfirsts, List.map_eq_append_iff] at heq
    obtain ⟨pre, rest, rfl, rfl, hrest⟩ := heq
    obtain ⟨x, post, rfl, hx, -⟩ := List.map_eq_cons_iff.mp hrest
    obtain ⟨rfl, rfl⟩ := Prod.mk.inj hx
    refine ⟨x, mem_maxima_iff.mpr ⟨pre, post, rfl, ?_⟩, rfl, hle⟩
    exact highest_lt_iff.mpr ⟨hlast, fun y hy => hlt _ (List.mem_map_of_mem hy)⟩

theorem reports_iff (h : Tracked s nodes) (malloc : Malloc DataBeacon) (a : Action) :
    Reports s a (s.exec malloc a) ↔ AllNew s a := by
  refine imp_congr_right fun ha => imp_congr_right fun hcompares => ?_
  subst ha
  obtain ⟨t, ht, -, -, -, -, hrecords⟩ := compare_runs h.count_up
  have hexec : s.exec malloc .tick = .ok t := (if_pos hcompares).trans ht
  constructor
  · rintro ⟨t', written, ht', hwritten, hall⟩ b arrival harrival
    obtain rfl := Except.ok.inj (hexec.symm.trans ht')
    obtain rfl := List.append_cancel_left (hrecords.symm.trans hwritten)
    exact (written_iff h b arrival).mp (hall b arrival harrival)
  · intro hall
    refine ⟨t, _, hexec, hrecords, fun b arrival harrival => ?_⟩
    exact (written_iff h b arrival).mpr (hall b arrival harrival)

theorem tracked_step (h : Tracked s nodes) {malloc : Malloc DataBeacon} {a : Action}
    (ha : enabled s a) (hrun : s.exec malloc a = .ok t) : ∃ nodes', Tracked t nodes' := by
  cases a with
  | frame frame => exact h.hear ha hrun
  | tick =>
    have htick : getInformation s = .ok t := hrun
    unfold getInformation at htick
    split at htick
    · exact ⟨nodes, h.count_up.compare htick⟩
    · obtain rfl := Except.ok.inj htick
      exact ⟨nodes, h.count_up⟩

theorem tracked_start (malloc : Malloc DataBeacon) : Tracked (machine malloc).start [] :=
  ⟨listed_start, rfl, Nat.le_refl 0, rfl⟩

/-- A run reports the neighbours it hears exactly if it hears new ones only: the
node of a known BSSID keeps the clock of its first frame. -/
theorem neighbours_reported_iff (malloc : Malloc DataBeacon) (actions : List Action) :
    (machine malloc).Throughout Reports (machine malloc).start actions ↔
    (machine malloc).Throughout (fun s a _ => AllNew s a) (machine malloc).start actions := by
  refine Machine.throughout_iff (fun s => ∃ nodes, Tracked s nodes) ?_ ?_ ⟨[], tracked_start malloc⟩
    actions
  · rintro s a ⟨nodes, hs⟩ -
    exact reports_iff hs malloc a
  · rintro s a t ⟨nodes, hs⟩ ha - hrun
    exact tracked_step hs ha hrun

instance (s : State) (a : Action) : Decidable ((machine Malloc.bump).enabled s a) :=
  match a with
  | .frame frame => inferInstanceAs (Decidable (s.scan.now ≤ frame.jiffies))
  | .tick => inferInstanceAs (Decidable True)

def heardAt (jiffies : Nat) (sec : U32) : Action :=
  .frame ⟨24, false, true, ⟨0, 0, 0, 0, 0, 1⟩, 2412, 0, jiffies, sec, 0⟩

/-- One BSSID at one second and at two, with `compare_and_beacon` in between. -/
def heardTwice : List Action :=
  heardAt 0 1 :: List.replicate 10 .tick ++ heardAt 100 2 :: List.replicate 9 .tick

theorem reachable_tracked {malloc : Malloc DataBeacon} (hr : (machine malloc).Reachable s) :
    ∃ nodes, Tracked s nodes := by
  induction hr with
  | start => exact ⟨[], tracked_start malloc⟩
  | step a _ allowed runs ih =>
    obtain ⟨nodes, h⟩ := ih
    exact tracked_step h allowed runs

/-- The neighbour that is heard again gets no second record. -/
theorem second_report_missing : ¬ ∀ actions,
    (machine Malloc.bump).Throughout Reports (machine Malloc.bump).start actions := by
  intro h
  have hfacts : ((machine Malloc.bump).follow (machine Malloc.bump).start heardTwice).map
      (fun s => (decide (Compares (countUp s)), s.arrivals.length, s.firsts.length,
        s.reported)) = some (true, 1, 1, 1) := by decide
  obtain ⟨s, hr, hs⟩ := Machine.follow_map_reachable hfacts
  simp only [Prod.mk.injEq, decide_eq_true_eq] at hs
  obtain ⟨hcompares, harrivals, hlength, hreported⟩ := hs
  obtain ⟨nodes, htracked⟩ := reachable_tracked hr
  obtain ⟨hgood, -⟩ := Machine.throughout_reachable h hr [.tick] trivial
  have hnew := (reports_iff htracked Malloc.bump .tick).mp hgood
  obtain ⟨⟨b, arrival⟩, harrived⟩ := List.length_eq_one_iff.mp harrivals
  obtain ⟨earlier, clock, later, hfirsts, hlater, -⟩ :=
    hnew rfl hcompares b arrival (by simp [harrived])
  rw [hfirsts, List.length_append, List.length_cons] at hlength
  omega

end ApTelemetry.Sendudp.Neighbours
