import ApTelemetry.Scan.Beacons
import Mathlib.Logic.Function.Basic

namespace ApTelemetry.Scan
open Lib

/-- The beacon list between two frames. `now` is `jiffies` at the last frame and
`heard` when each BSSID was heard last; nothing reads them. -/
structure State where
  beacons : Beacons
  now : Nat
  heard : Mac → Option Nat

def State.exec (malloc : Malloc DataBeacon) (s : State) (frame : Frame) : Except Fault State := do
  let beacons ← ieee80211ScanRx malloc frame s.beacons
  .ok
    { beacons
      now := frame.jiffies
      heard :=
        if frame.Heard then Function.update s.heard frame.bssid (some frame.jiffies)
        else s.heard }

def loaded : State := ⟨⟨∅, none, none⟩, 0, fun _ => none⟩

/-- Beacons and probe responses, at any times in order. -/
def machine (malloc : Malloc DataBeacon) : Machine State Frame Fault :=
  ⟨loaded, fun s frame => frame.Heard ∧ s.now ≤ frame.jiffies, State.exec malloc⟩

/-- After a frame the list is a set of BSSIDs, heard at most 1000 jiffies ago,
with its last node at `beacon_last`. -/
structure FreshSet (frame : Frame) (t : State) (nodes : List (Addr × DataBeacon)) : Prop where
  holds : t.beacons.Holds nodes
  ends : t.beacons.first = none ↔ t.beacons.last = none
  distinct : (bssids nodes).Nodup
  heard : frame.bssid ∈ bssids nodes
  fresh : ∀ n ∈ nodes, ∃ j, t.heard n.2.bssid = some j ∧ frame.jiffies ≤ j + 1000

def StaysFresh (_ : State) (frame : Frame) (r : Except Fault State) : Prop :=
  ∃ t nodes, r = .ok t ∧ FreshSet frame t nodes

/-- No other BSSID has been silent for more than 1000 jiffies. -/
def AllRecent (s : State) (frame : Frame) : Prop :=
  ∀ b j, s.heard b = some j → b ≠ frame.bssid → frame.jiffies ≤ j + 1000

/-- What a run keeps for as long as it does not fault: nothing has been deleted. -/
structure Listed (s : State) (nodes : List (Addr × DataBeacon)) : Prop where
  holds : s.beacons.Holds nodes
  distinct : (bssids nodes).Nodup
  known : ∀ b j, s.heard b = some j → b ∈ bssids nodes
  timein : ∀ n ∈ nodes, ∃ j, s.heard n.2.bssid = some j ∧ n.2.timein = BitVec.ofNat 32 j
  past : ∀ b j, s.heard b = some j → j ≤ s.now

variable {block : Addr} {frame : Frame} {nodes : List (Addr × DataBeacon)}

/-- What a frame does not store into a known node stays as it was. -/
theorem heard_nodes_map (block : Addr) (nodes : List (Addr × DataBeacon)) {γ : Type}
    {g : DataBeacon → γ} (hg : ∀ x, x.bssid = frame.bssid → g (refresh frame x) = g x) :
    (heardNodes block frame nodes).map (fun n => g n.2) =
      if frame.bssid ∈ bssids nodes then nodes.map fun n => g n.2
      else nodes.map (fun n => g n.2) ++ [g (newBeacon frame)] := by
  unfold heardNodes
  split
  · rw [List.map_map]
    refine List.map_congr_left fun n _ => ?_
    simp only [Function.comp_apply]
    split
    · rename_i hhas
      exact hg n.2 hhas
    · rfl
  · rw [List.map_append]
    rfl

theorem bssids_heard_nodes : bssids (heardNodes block frame nodes) =
    if frame.bssid ∈ bssids nodes then bssids nodes else bssids nodes ++ [frame.bssid] :=
  heard_nodes_map block nodes fun _ hhas => hhas.symm

theorem mem_bssids_heard_nodes {b : Mac} : b ∈ bssids (heardNodes block frame nodes) ↔
    b ∈ bssids nodes ∨ b = frame.bssid := by
  rw [bssids_heard_nodes]
  split
  · rename_i hmem
    exact ⟨.inl, fun h => h.elim id fun heq => heq ▸ hmem⟩
  · simp

theorem nodup_heard_nodes (h : (bssids nodes).Nodup) :
    (bssids (heardNodes block frame nodes)).Nodup := by
  rw [bssids_heard_nodes]
  split
  · exact h
  · rename_i hnew
    rw [List.nodup_append]
    refine ⟨h, List.nodup_singleton _, fun b hb c hc => ?_⟩
    rw [List.mem_singleton.mp hc]
    exact fun heq => hnew (heq ▸ hb)

/-- A node after a frame is the frame's own or one of before. -/
theorem mem_heard_nodes {n : Addr × DataBeacon} (h : n ∈ heardNodes block frame nodes) :
    n.2.bssid = frame.bssid ∧ n.2.timein = BitVec.ofNat 32 frame.jiffies ∨
    n ∈ nodes ∧ n.2.bssid ≠ frame.bssid := by
  unfold heardNodes at h
  split at h
  · obtain ⟨m, hm, rfl⟩ := List.mem_map.mp h
    by_cases hhas : m.2.bssid = frame.bssid
    · rw [if_pos hhas]
      exact .inl ⟨rfl, rfl⟩
    · rw [if_neg hhas]
      exact .inr ⟨hm, hhas⟩
  · rename_i hnew
    rcases List.mem_append.mp h with hmem | hmem
    · exact .inr ⟨hmem, fun heq => hnew (heq ▸ List.mem_map_of_mem hmem)⟩
    · rw [List.mem_singleton.mp hmem]
      exact .inl ⟨rfl, rfl⟩

theorem timed_out_recent {jiffies j : Nat} {beacon : DataBeacon}
    (htimein : beacon.timein = BitVec.ofNat 32 j) (hpast : j ≤ jiffies)
    (hrecent : jiffies ≤ j + 1000) : timedOut jiffies beacon = false := by
  have hage : BitVec.ofNat 32 jiffies - BitVec.ofNat 32 j = BitVec.ofNat 32 (jiffies - j) := by
    apply BitVec.eq_of_toNat_eq
    simp only [BitVec.toNat_sub, BitVec.toNat_ofNat]
    omega
  have hsmall : (jiffies - j) % 2 ^ 32 ≤ 1000 := Nat.le_trans (Nat.mod_le _ _) (by omega)
  have hint : (BitVec.ofNat 32 (jiffies - j)).toInt = ((jiffies - j) % 2 ^ 32 : Nat) := by
    rw [BitVec.toInt_eq_toNat_of_lt, BitVec.toNat_ofNat]
    rw [BitVec.toNat_ofNat]
    omega
  have hlimit : (1000 : U32).toInt = (1000 : Nat) := by decide
  rw [timedOut, htimein, hage, BitVec.slt_eq_decide, hint, hlimit, decide_eq_false_iff_not,
    not_lt]
  exact_mod_cast hsmall

variable {malloc : Malloc DataBeacon} {s t : State}

/-- The list that a frame leaves if nothing is deleted. -/
theorem Listed.hear (h : Listed s nodes) (hin : s.now ≤ frame.jiffies) {beacons : Beacons}
    (hheld : beacons.Holds (heardNodes block frame nodes)) :
    Listed ⟨beacons, frame.jiffies,
      Function.update s.heard frame.bssid (some frame.jiffies)⟩
      (heardNodes block frame nodes) where
  holds := hheld
  distinct := nodup_heard_nodes h.distinct
  known := by
    intro b j hb
    rw [mem_bssids_heard_nodes]
    by_cases heq : b = frame.bssid
    · exact .inr heq
    · simp only [Function.update_of_ne heq] at hb
      exact .inl (h.known b j hb)
  timein := by
    intro n hn
    rcases mem_heard_nodes hn with ⟨heq, htimein⟩ | ⟨hmem, hne⟩
    · exact ⟨frame.jiffies, by simp only [heq, Function.update_self], htimein⟩
    · simp only [Function.update_of_ne hne]
      exact h.timein n hmem
  past := by
    intro b j hb
    by_cases heq : b = frame.bssid
    · subst heq
      simp only [Function.update_self] at hb
      exact Nat.le_of_eq (Option.some.inj hb).symm
    · simp only [Function.update_of_ne heq] at hb
      exact Nat.le_trans (h.past b j hb) hin

/-- Time passes with a frame that is not looked at. -/
theorem Listed.pass (h : Listed s nodes) (hin : s.now ≤ frame.jiffies) :
    Listed ⟨s.beacons, frame.jiffies, s.heard⟩ nodes :=
  ⟨h.holds, h.distinct, h.known, h.timein, fun b j hb => Nat.le_trans (h.past b j hb) hin⟩

theorem exec_unheard (hheard : ¬ frame.Heard) (malloc : Malloc DataBeacon) :
    s.exec malloc frame = .ok ⟨s.beacons, frame.jiffies, s.heard⟩ := by
  simp only [State.exec, ieee80211ScanRx, if_neg hheard, bind, Except.bind]

/-- A frame that is heard runs through exactly if nothing times out. -/
theorem exec_ok_iff (h : Listed s nodes) (hheard : frame.Heard) (hin : s.now ≤ frame.jiffies)
    (malloc : Malloc DataBeacon) :
    ∃ u, Listed u (heardNodes (malloc.block s.beacons.heap) frame nodes) ∧
      u.heard = Function.update s.heard frame.bssid (some frame.jiffies) ∧
      ∀ t, s.exec malloc frame = .ok t ↔ u = t ∧
        ∀ n ∈ heardNodes (malloc.block s.beacons.heap) frame nodes,
          timedOut frame.jiffies n.2 = false := by
  obtain ⟨beacons, hhear, hheld⟩ := hear_runs h.holds h.distinct malloc frame
  refine ⟨_, h.hear hin hheld, rfl, fun t => ?_⟩
  have hexec : s.exec malloc frame =
      beaconTimeOut frame.jiffies beacons.heap.entries.length beacons beacons.first >>= fun b =>
        .ok ⟨b, frame.jiffies, Function.update s.heard frame.bssid (some frame.jiffies)⟩ := by
    simp only [State.exec, ieee80211ScanRx, if_pos hheard, hhear, bind, Except.bind]
  rw [hexec]
  constructor
  · intro hrun
    obtain ⟨b, hout, hrun⟩ := bind_ok hrun
    obtain ⟨rfl, hnone⟩ := (time_out_iff hheld.chain hheld.chain.length_le).mp hout
    exact ⟨Except.ok.inj hrun, hnone⟩
  · rintro ⟨rfl, hnone⟩
    rw [(time_out_iff hheld.chain hheld.chain.length_le).mpr ⟨rfl, hnone⟩]
    rfl

/-- What a frame leaves is fresh exactly if everything but it was recent. -/
theorem stays_fresh_iff (h : Listed s nodes) (hheard : frame.Heard)
    (hin : s.now ≤ frame.jiffies) :
    StaysFresh s frame (s.exec malloc frame) ↔ AllRecent s frame := by
  obtain ⟨u, hu, hupdate, hrun⟩ := exec_ok_iff h hheard hin malloc
  constructor
  · rintro ⟨t, nodes', ht, hfresh⟩ b j hb hne
    obtain ⟨rfl, -⟩ := (hrun t).mp ht
    obtain rfl := hfresh.holds.chain.unique hu.holds.chain
    have hlater : u.heard b = some j := by
      rw [hupdate, Function.update_of_ne hne]
      exact hb
    obtain ⟨n, hn, rfl⟩ := List.mem_map.mp (hu.known b j hlater)
    obtain ⟨j', hj', hrecent⟩ := hfresh.fresh n hn
    rw [hlater] at hj'
    exact Option.some.inj hj' ▸ hrecent
  · intro hrecent
    have hfresh : ∀ n ∈ heardNodes (malloc.block s.beacons.heap) frame nodes,
        ∃ j, u.heard n.2.bssid = some j ∧ n.2.timein = BitVec.ofNat 32 j ∧
          j ≤ frame.jiffies ∧ frame.jiffies ≤ j + 1000 := by
      intro n hn
      rw [hupdate]
      rcases mem_heard_nodes hn with ⟨heq, htimein⟩ | ⟨hmem, hne⟩
      · exact ⟨frame.jiffies, by rw [heq, Function.update_self], htimein, Nat.le_refl _,
          Nat.le_add_right ..⟩
      · obtain ⟨j, hj, htimein⟩ := h.timein n hmem
        exact ⟨j, by rw [Function.update_of_ne hne, hj], htimein,
          Nat.le_trans (h.past _ j hj) hin, hrecent _ j hj hne⟩
    have hnone : ∀ n ∈ heardNodes (malloc.block s.beacons.heap) frame nodes,
        timedOut frame.jiffies n.2 = false := by
      intro n hn
      obtain ⟨j, -, htimein, hpast, hlate⟩ := hfresh n hn
      exact timed_out_recent htimein hpast hlate
    refine ⟨u, _, (hrun u).mpr ⟨rfl, hnone⟩, hu.holds, ?_, hu.distinct, ?_, ?_⟩
    · exact hu.holds.none_iff
    · exact mem_bssids_heard_nodes.mpr (.inr rfl)
    · intro n hn
      obtain ⟨j, hj, -, -, hlate⟩ := hfresh n hn
      exact ⟨j, hj, hlate⟩

theorem listed_step (h : Listed s nodes) (hallowed : (machine malloc).enabled s frame)
    (hrun : s.exec malloc frame = .ok t) : ∃ nodes', Listed t nodes' := by
  obtain ⟨u, hu, -, hok⟩ := exec_ok_iff h hallowed.1 hallowed.2 malloc
  obtain ⟨rfl, -⟩ := (hok t).mp hrun
  exact ⟨_, hu⟩

theorem listed_start : Listed loaded [] where
  holds := ⟨.nil none, rfl⟩
  distinct := List.nodup_nil
  known := by
    intro b j hb
    cases hb
  timein := by
    intro n hn
    cases hn
  past := by
    intro b j hb
    cases hb

/-- The list stays a sound and fresh set for as long as no BSSID has to be
deleted from it. -/
theorem beacon_list_iff (malloc : Malloc DataBeacon) (frames : List Frame) :
    (machine malloc).Throughout StaysFresh (machine malloc).start frames ↔
    (machine malloc).Throughout (fun s frame _ => AllRecent s frame) (machine malloc).start
      frames := by
  refine Machine.throughout_iff (fun s => ∃ nodes, Listed s nodes) ?_ ?_ ⟨[], listed_start⟩ frames
  · rintro s frame ⟨nodes, hs⟩ ⟨hheard, hin⟩
    exact stays_fresh_iff hs hheard hin
  · rintro s frame t ⟨nodes, hs⟩ hallowed _ hrun
    exact listed_step hs hallowed hrun

def beaconAt (jiffies : Nat) (last : U8) : Frame :=
  ⟨24, false, true, ⟨0, 0, 0, 0, 0, last⟩, 0, 0, jiffies, 0, 0⟩

theorem beacon_at_heard (jiffies : Nat) (last : U8) : (beaconAt jiffies last).Heard := by
  simp [Frame.Heard, beaconAt]

/-- The first node is 1001 jiffies old when a second BSSID is heard. It is
released and then read. -/
theorem timed_out_node_read : ¬ ∀ frames,
    (machine Malloc.bump).Throughout StaysFresh (machine Malloc.bump).start frames := by
  intro h
  obtain ⟨-, hlater⟩ := h [beaconAt 0 1, beaconAt 1001 2] ⟨by decide, Nat.le_refl 0⟩
  obtain ⟨u, hu, hupdate, hok⟩ :=
    exec_ok_iff listed_start (beacon_at_heard 0 1) (Nat.le_refl 0) Malloc.bump
  have hrun : loaded.exec Malloc.bump (beaconAt 0 1) = .ok u :=
    (hok u).mpr ⟨rfl, by decide⟩
  have hnow : u.now = 0 := congrArg State.now (Except.ok.inj hrun).symm
  obtain ⟨hgood, -⟩ := hlater u hrun ⟨by decide, hnow ▸ Nat.zero_le 1001⟩
  have hrecent := (stays_fresh_iff hu (by decide) (hnow ▸ Nat.zero_le 1001)).mp hgood
    (beaconAt 0 1).bssid 0 (by rw [hupdate, Function.update_self]; rfl) (by decide)
  exact absurd hrecent (by decide)

end ApTelemetry.Scan
