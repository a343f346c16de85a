import ApTelemetry.Lib.Fifo
import ApTelemetry.Lib.Machine
import ApTelemetry.Structs

namespace ApTelemetry.Scan
open Lib

/-- A received frame as `ieee80211_scan_rx` sees it, and what `jiffies` and
`do_gettimeofday` are at that moment. -/
structure Frame where
  len : Nat
  probeResp : Bool
  beacon : Bool
  bssid : Mac
  freq : U16
  signal : U8
  jiffies : Nat
  sec : U32
  usec : U32

/-- The frames that are looked at. -/
def Frame.Heard (frame : Frame) : Prop :=
  ¬ (frame.len < 24 ∨ frame.probeResp = false ∧ frame.beacon = false)

instance (frame : Frame) : Decidable frame.Heard := inferInstanceAs (Decidable (¬ _))

/-- `beacon_global` and `beacon_last` are the two ends of `beacons`. -/
abbrev Beacons := Fifo DataBeacon

def newBeacon (frame : Frame) : DataBeacon where
  sec := frame.sec
  usec := frame.usec
  dataRate := 0
  freq := frame.freq
  timein := BitVec.ofNat 32 frame.jiffies
  signal := frame.signal
  pad := 0
  bssid := frame.bssid
  pad1 := 0

/-- What is stored into the node of a known BSSID. `sec` and `usec` are not. -/
def refresh (frame : Frame) (beacon : DataBeacon) : DataBeacon :=
  { beacon with
    freq := frame.freq
    signal := frame.signal
    bssid := frame.bssid
    timein := BitVec.ofNat 32 frame.jiffies }

/-- The live blocks bound the turns of this walk and of the two below. -/
def findBeacon (bssid : Mac) (heap : Heap DataBeacon) :
    Nat → Option Addr → Except Fault (Option Addr)
  | _, none => .ok none
  | 0, some _ => .error .endless
  | turns + 1, some beacon => do
    let c ← heap.read (some beacon)
    if c.item.bssid = bssid then .ok (some beacon)
    else findBeacon bssid heap turns c.next

/-- A new node goes behind `beacon_last`, whatever that is. -/
def linkBeacon (block : Addr) (newb : DataBeacon) (s : Beacons) : Except Fault Beacons :=
  if s.last.isSome then do
    let heap ← Heap.setNext (s.heap.insert block ⟨newb, none⟩) s.last (some block)
    .ok { s with heap, last := some block }
  else .ok { s with heap := s.heap.insert block ⟨newb, none⟩, last := some block }

/-- What a frame does to the list before `beacon_time_out`. -/
def hear (malloc : Malloc DataBeacon) (frame : Frame) (s : Beacons) : Except Fault Beacons :=
  let block := malloc.block s.heap
  match s.first with
  | none => .ok ⟨s.heap.insert block ⟨newBeacon frame, none⟩, some block, some block⟩
  | some _ => do
    let found ← findBeacon frame.bssid s.heap s.heap.entries.length s.first
    match found with
    | none => linkBeacon block (newBeacon frame) s
    | some beacon_t => do
      let heap ← s.heap.setItem (some beacon_t) (refresh frame)
      .ok { s with heap }

/-- The walk of `del_node` to the node in front of `beacon`, or to the last. -/
def nodeBefore (beacon : Addr) (heap : Heap DataBeacon) :
    Nat → Option Addr → Except Fault (Option Addr)
  | 0, _ => .error .endless
  | turns + 1, tmp => do
    let c ← heap.read tmp
    match c.next with
    | none => .ok tmp
    | some next =>
      if next = beacon then .ok tmp else nodeBefore beacon heap turns (some next)

/-- `beacon_last` is left as it is. -/
def delNode (beacon : Addr) (s : Beacons) : Except Fault Beacons :=
  if s.first = some beacon then do
    let c ← s.heap.read s.first
    let heap ← s.heap.free s.first
    .ok { s with heap, first := c.next }
  else do
    let tmp ← nodeBefore beacon s.heap s.heap.entries.length s.first
    let c ← s.heap.read (some beacon)
    let heap ← s.heap.setNext tmp c.next
    let heap ← heap.free (some beacon)
    .ok { s with heap }

/-- `(int)(jiffies - beacon->timein) > 1000`. -/
def timedOut (jiffies : Nat) (beacon : DataBeacon) : Bool :=
  (1000 : U32).slt (BitVec.ofNat 32 jiffies - beacon.timein)

/-- The node is read again for its link after it may have been deleted. -/
def beaconTimeOut (jiffies : Nat) : Nat → Beacons → Option Addr → Except Fault Beacons
  | _, s, none => .ok s
  | 0, _, some _ => .error .endless
  | turns + 1, s, some beacon => do
    let c ← s.heap.read (some beacon)
    let s ← if timedOut jiffies c.item then delNode beacon s else .ok s
    let c ← s.heap.read (some beacon)
    beaconTimeOut jiffies turns s c.next

def ieee80211ScanRx (malloc : Malloc DataBeacon) (frame : Frame) (s : Beacons) :
    Except Fault Beacons :=
  if frame.Heard then do
    let s ← hear malloc frame s
    beaconTimeOut frame.jiffies s.heap.entries.length s s.first
  else .ok s

def bssids (nodes : List (Addr × DataBeacon)) : List Mac := nodes.map fun n => n.2.bssid

/-- The list after a frame, before anything is deleted: what `hear` is for. -/
def heardNodes (block : Addr) (frame : Frame) (nodes : List (Addr × DataBeacon)) :
    List (Addr × DataBeacon) :=
  if frame.bssid ∈ bssids nodes then
    nodes.map fun n => if n.2.bssid = frame.bssid then (n.1, refresh frame n.2) else n
  else nodes ++ [(block, newBeacon frame)]

theorem find_beacon_runs {heap : Heap DataBeacon} {p : Option Addr}
    {nodes : List (Addr × DataBeacon)} (h : Chain heap p nodes) (bssid : Mac) (turns : Nat)
    (hn : nodes.length ≤ turns) : findBeacon bssid heap turns p =
      .ok ((nodes.find? fun n => n.2.bssid = bssid).map Prod.fst) := by
  induction nodes generalizing p turns with
  | nil =>
    obtain rfl : p = none := h.start_eq
    cases turns <;> rfl
  | cons n nodes ih =>
    obtain ⟨turns, rfl⟩ : ∃ k, turns = k + 1 := ⟨turns - 1, by simp at hn; omega⟩
    cases h with
    | @cons a x p _ _ found tail =>
      simp only [findBeacon, Heap.read_of_lookup found, bind, Except.bind]
      by_cases hhas : x.bssid = bssid
      · rw [if_pos hhas, List.find?_cons_of_pos (by simpa using hhas)]
        rfl
      · rw [if_neg hhas, List.find?_cons_of_neg (by simpa using hhas)]
        exact ih tail turns (by simpa using hn)

theorem heard_nodes_known {block : Addr} {frame : Frame} {xs ys : List (Addr × DataBeacon)}
    {a : Addr} {x : DataBeacon} (hhas : x.bssid = frame.bssid)
    (hdistinct : (bssids (xs ++ (a, x) :: ys)).Nodup) :
    heardNodes block frame (xs ++ (a, x) :: ys) = xs ++ (a, refresh frame x) :: ys := by
  have hmem : frame.bssid ∈ bssids (xs ++ (a, x) :: ys) := by simp [bssids, hhas]
  simp only [bssids, List.map_append, List.map_cons, List.nodup_append, List.nodup_cons,
    List.mem_map, hhas] at hdistinct
  obtain ⟨-, ⟨hafter, -⟩, hbefore⟩ := hdistinct
  have hkeep : ∀ zs : List (Addr × DataBeacon), (∀ n ∈ zs, n.2.bssid ≠ frame.bssid) →
      zs.map (fun n => if n.2.bssid = frame.bssid then (n.1, refresh frame n.2) else n) = zs := by
    intro zs hnone
    refine (List.map_congr_left fun n hn => ?_).trans (List.map_id zs)
    rw [if_neg (hnone n hn)]
    rfl
  have hxs : ∀ n ∈ xs, n.2.bssid ≠ frame.bssid := fun n hn heq =>
    hbefore n.2.bssid ⟨n, hn, rfl⟩ frame.bssid (List.mem_cons_self ..) heq
  have hys : ∀ n ∈ ys, n.2.bssid ≠ frame.bssid := fun n hn heq => hafter ⟨n, hn, heq⟩
  rw [heardNodes, if_pos hmem, List.map_append, List.map_cons, hkeep xs hxs, hkeep ys hys,
    if_pos hhas]

section Hear

variable {s : Beacons} {nodes : List (Addr × DataBeacon)} (h : s.Holds nodes)
  (hdistinct : (bssids nodes).Nodup) (malloc : Malloc DataBeacon) (frame : Frame)

include h

/-- A BSSID that is not on the list goes behind it. -/
theorem hear_new (hnew : frame.bssid ∉ bssids nodes) :
    hear malloc frame s = s.append (malloc.block s.heap) (newBeacon frame) := by
  cases hfirst : s.first with
  | none => simp only [hear, Fifo.append, hfirst]
  | some f =>
    have hfind := find_beacon_runs h.chain frame.bssid s.heap.entries.length h.chain.length_le
    have hunknown : nodes.find? (fun n => n.2.bssid = frame.bssid) = none := by
      rw [List.find?_eq_none]
      exact fun n hn heq => hnew (of_decide_eq_true heq ▸ List.mem_map_of_mem hn)
    have hlast : s.last.isSome := by
      rw [Option.isSome_iff_ne_none, Ne, ← h.none_iff, hfirst]
      simp
    rw [hfirst, hunknown] at hfind
    simp only [hear, Fifo.append, hfirst, hfind, linkBeacon, hlast, if_true, Option.map_none,
      bind, Except.bind]

include hdistinct

/-- The node of a BSSID on the list is stored to. -/
theorem hear_known (hknown : frame.bssid ∈ bssids nodes) :
    ∃ t, hear malloc frame s = .ok t ∧
      t.Holds (heardNodes (malloc.block s.heap) frame nodes) := by
  obtain ⟨m, hm, hhas'⟩ := List.mem_map.mp hknown
  obtain ⟨⟨a, x⟩, hfound⟩ : ∃ n, nodes.find? (fun n => n.2.bssid = frame.bssid) = some n :=
    Option.isSome_iff_exists.mp (List.find?_isSome.mpr ⟨m, hm, decide_eq_true hhas'⟩)
  have hhas : x.bssid = frame.bssid := by simpa using List.find?_some hfound
  obtain ⟨f, hfirst⟩ : ∃ f, s.first = some f := by
    rw [h.chain.start_eq]
    cases nodes with
    | nil => cases hm
    | cons n nodes => exact ⟨n.1, rfl⟩
  have hfind := find_beacon_runs h.chain frame.bssid s.heap.entries.length h.chain.length_le
  rw [hfirst, hfound] at hfind
  obtain ⟨xs, ys, rfl⟩ := List.append_of_mem (List.mem_of_find?_eq_some hfound)
  have hlook := h.chain.lookup_append
  rw [heard_nodes_known hhas hdistinct]
  refine ⟨{ s with heap := s.heap.insert a ⟨refresh frame x, firstAddr ys⟩ }, ?_,
    h.chain.set_item _, ?_⟩
  · simp only [hear, hfirst, hfind, Option.map_some, bind, Except.bind,
      Heap.set_item_of_lookup (refresh frame) hlook]
  · rw [h.last]
    cases hys : ys.getLast? <;> simp [List.getLast?_append, List.getLast?_cons, hys]

/-- The two pointers stay those of a list of distinct BSSIDs. -/
theorem hear_runs : ∃ t, hear malloc frame s = .ok t ∧
    t.Holds (heardNodes (malloc.block s.heap) frame nodes) := by
  by_cases hknown : frame.bssid ∈ bssids nodes
  · exact hear_known h hdistinct malloc frame hknown
  · obtain ⟨t, ht, hheld⟩ := h.append (newBeacon frame) (malloc.fresh s.heap)
    refine ⟨t, (hear_new h malloc frame hknown).trans ht, ?_⟩
    rw [heardNodes, if_neg hknown]
    exact hheld

end Hear

theorem free_gone {h t : Heap DataBeacon} {a : Addr} (hfree : h.free (some a) = .ok t) :
    t.lookup a = none := by
  unfold Heap.free at hfree
  simp only at hfree
  split at hfree
  · cases hfree
  · rw [← Except.ok.inj hfree]
    exact AList.lookup_erase ..

/-- However a node is deleted, its block is gone. -/
theorem del_node_gone {beacon : Addr} {s t : Beacons} (h : delNode beacon s = .ok t) :
    t.heap.lookup beacon = none := by
  unfold delNode at h
  split at h
  · rename_i hfirst
    rw [hfirst] at h
    obtain ⟨c, -, h⟩ := bind_ok h
    obtain ⟨heap, hfree, h⟩ := bind_ok h
    rw [← Except.ok.inj h]
    exact free_gone hfree
  · obtain ⟨tmp, -, h⟩ := bind_ok h
    obtain ⟨c, -, h⟩ := bind_ok h
    obtain ⟨heap, -, h⟩ := bind_ok h
    obtain ⟨heap', hfree, h⟩ := bind_ok h
    rw [← Except.ok.inj h]
    exact free_gone hfree

/-- The walk survives only where it deletes nothing. -/
theorem time_out_iff {jiffies : Nat} {s t : Beacons} {p : Option Addr}
    {nodes : List (Addr × DataBeacon)} (h : Chain s.heap p nodes) {turns : Nat}
    (hn : nodes.length ≤ turns) : beaconTimeOut jiffies turns s p = .ok t ↔
      s = t ∧ ∀ n ∈ nodes, timedOut jiffies n.2 = false := by
  induction nodes generalizing p turns with
  | nil =>
    obtain rfl : p = none := h.start_eq
    cases turns <;> simp [beaconTimeOut]
  | cons n nodes ih =>
    obtain ⟨turns, rfl⟩ : ∃ k, turns = k + 1 := ⟨turns - 1, by simp at hn; omega⟩
    cases h with
    | @cons a x p _ _ found tail =>
      have hread := Heap.read_of_lookup found
      simp only [beaconTimeOut, hread, bind, Except.bind]
      cases hout : timedOut jiffies x with
      | false =>
        simp only [Bool.false_eq_true, if_false, ih tail (Nat.le_of_succ_le_succ hn),
          List.mem_cons, forall_eq_or_imp, hout, true_and]
      | true =>
        simp only [if_true]
        constructor
        · intro hrun
          obtain ⟨u, hdel, hrun⟩ := bind_ok hrun
          obtain ⟨c, hread, -⟩ := bind_ok hrun
          rw [Heap.read, del_node_gone hdel] at hread
          cases hread
        · rintro ⟨-, hnone⟩
          have hfalse := hnone (a, x) (List.mem_cons_self ..)
          rw [hout] at hfalse
          cases hfalse

end ApTelemetry.Scan
