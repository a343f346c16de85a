import ApTelemetry.Lib.Machine
import ApTelemetry.Lib.Ordered
import ApTelemetry.Structs

namespace ApTelemetry.Receiver.Neibours
open Lib

/-- `struct station_list` as far as `decode_beacon` uses it. -/
structure Station where
  station : Mac
  sec : U32
  count : U32

/-- A beacon and the address of the AP that reports it. -/
structure Report where
  mac : Mac
  beacon : DataBeacon

/-- `neibour_lists` with its last pointer, and the BSSIDs heard so far with their
times, which nothing reads. -/
structure State where
  neibourLists : Lib.Fifo Station
  heard : List (Mac × U32)

/-- `(beacon.sec - tlist->sec) > 10`, in unsigned arithmetic. -/
def outOfTime (sec : U32) (tlist : Station) : Bool := decide (10 < sec - tlist.sec)

/-- The walk for the node in front of the last. `pre` is not initialised, which
`none` stands for: a store through it is a fault. -/
def preOfLast (heap : Heap Station) (last : Option Addr) :
    Nat → Option Addr → Option Addr → Except Fault (Option Addr)
  | 0, _, _ => .error .endless
  | turns + 1, pre, tmp1 =>
    if tmp1 = last then .ok pre else do
      let c ← heap.read tmp1
      preOfLast heap last turns tmp1 c.next

/-- Removing the old nodes. Behind a middle one that goes, the next is passed over. -/
def removeOld (sec : U32) :
    Nat → Option Addr → Option Addr → Lib.Fifo Station → Except Fault (Lib.Fifo Station)
  | _, _, none, q => .ok q
  | 0, _, some _, _ => .error .endless
  | turns + 1, last, some tlist, q => do
    let c ← q.heap.read (some tlist)
    if outOfTime sec c.item then
      if some tlist = q.first then
        if q.first = q.last then do
          let heap ← q.heap.free q.first
          .ok ⟨heap, none, none⟩
        else do
          let heap ← q.heap.free (some tlist)
          removeOld sec turns last c.next { q with heap, first := c.next }
      else if some tlist = q.last then do
        let pre ← preOfLast q.heap q.last (q.heap.entries.length + 1) none q.first
        let heap ← q.heap.setNext pre none
        let heap ← heap.free q.last
        .ok { q with heap, last := pre }
      else do
        let heap ← q.heap.setNext last c.next
        let heap ← heap.free (some tlist)
        let c' ← heap.read c.next
        removeOld sec turns c.next c'.next { q with heap }
    else removeOld sec turns (some tlist) c.next q

/-- The node of the beacon's BSSID is stored to, or a new one goes to the end. -/
def insert (block : Addr) (beacon : DataBeacon) (q : Lib.Fifo Station) :
    Except Fault (Lib.Fifo Station) := do
  let (_, tlist) ←
    q.heap.seek (fun x => x.station = beacon.bssid) q.heap.entries.length none q.first
  match tlist with
  | some tlist => do
    let heap ← q.heap.setItem (some tlist) fun x => { x with sec := beacon.sec }
    .ok { q with heap }
  | none =>
    match q.first with
    | some _ => do
      let q ← q.append block ⟨beacon.bssid, beacon.sec, 0⟩
      let heap ← q.heap.setItem q.first fun x => { x with count := x.count + 1 }
      .ok { q with heap }
    | none =>
      .ok ⟨q.heap.insert block ⟨⟨beacon.bssid, beacon.sec, 1⟩, none⟩, some block, some block⟩

/-- On an empty list the AP that reports is stored, not the BSSID. -/
def decodeBeacon (malloc : Malloc Station) (s : State) (report : Report) : Except Fault State :=
  let heard := s.heard ++ [(report.beacon.bssid, report.beacon.sec)]
  let block := malloc.block s.neibourLists.heap
  match s.neibourLists.first with
  | none =>
    .ok ⟨⟨s.neibourLists.heap.insert block ⟨⟨report.mac, report.beacon.sec, 1⟩, none⟩, some block,
      some block⟩, heard⟩
  | some _ => do
    let q ← removeOld report.beacon.sec s.neibourLists.heap.entries.length none
      s.neibourLists.first s.neibourLists
    let q ← insert (malloc.block q.heap) report.beacon q
    .ok ⟨q, heard⟩

def start : State := ⟨⟨∅, none, none⟩, []⟩

section Sweep

variable {α : Type} (old : α → Bool)

/-- What the walk leaves of the nodes behind the head. -/
def sweepRest : List α → List α
  | [] => []
  | [x] => if old x then [] else [x]
  | x :: y :: rest => if old x then y :: sweepRest rest else x :: sweepRest (y :: rest)

/-- What it leaves of the list. -/
def sweep (xs : List α) : List α :=
  match xs.dropWhile old with
  | [] => []
  | x :: rest => x :: sweepRest old rest

end Sweep

def stations (nodes : List (Addr × Station)) : List Mac := nodes.map fun n => n.2.station

/-- A new time for the first node of a station. -/
def storeSec (bssid : Mac) (sec : U32) : List (Addr × Station) → List (Addr × Station)
  | [] => []
  | n :: rest =>
    if n.2.station = bssid then (n.1, { n.2 with sec }) :: rest else n :: storeSec bssid sec rest

/-- A new node at the end, which the head counts. -/
def appendCounted (block : Addr) (bssid : Mac) (sec : U32) :
    List (Addr × Station) → List (Addr × Station)
  | [] => [(block, ⟨bssid, sec, 1⟩)]
  | n :: rest => (n.1, { n.2 with count := n.2.count + 1 }) :: rest ++ [(block, ⟨bssid, sec, 0⟩)]

/-- What `insert` makes of the nodes. -/
def inserted (block : Addr) (beacon : DataBeacon) (nodes : List (Addr × Station)) :
    List (Addr × Station) :=
  if beacon.bssid ∈ stations nodes then storeSec beacon.bssid beacon.sec nodes
  else appendCounted block beacon.bssid beacon.sec nodes

section Runs

variable {q : Lib.Fifo Station} {sec : U32}

theorem pre_of_last_runs {heap : Heap Station} {p : Option Addr} {init : List (Addr × Station)}
    {l : Addr} {y : Station} (h : Chain heap p (init ++ [(l, y)])) (pre : Option Addr)
    (turns : Nat) (hn : init.length < turns) :
    preOfLast heap (some l) turns pre p = .ok (lastAddr pre init) := by
  induction init generalizing p pre turns with
  | nil =>
    obtain ⟨turns, rfl⟩ : ∃ k, turns = k + 1 := ⟨turns - 1, by omega⟩
    obtain rfl : p = some l := h.start_eq
    exact if_pos rfl
  | cons n init ih =>
    obtain ⟨turns, rfl⟩ : ∃ k, turns = k + 1 := ⟨turns - 1, by omega⟩
    obtain ⟨a, x⟩ := n
    have hne : some a ≠ some l := by
      intro heq
      have hnodup := h.nodup
      rw [List.cons_append, addrs_cons, List.nodup_cons] at hnodup
      exact hnodup.1 (by simp [Option.some.inj heq])
    cases h with
    | cons found tail =>
      rw [preOfLast, if_neg hne, Heap.read_of_lookup found, last_addr_cons]
      exact ih tail (some a) turns (by simpa using hn)

/-- A node behind another is not where the list starts. -/
theorem first_ne {kept rest : List (Addr × Station)} {l a : Addr} {y x : Station}
    (h : q.Holds (kept ++ (l, y) :: (a, x) :: rest)) : some a ≠ q.first := by
  rw [h.chain.start_eq]
  intro heq
  have hnot := (List.append_cons kept (l, y) _ ▸ h.chain).not_mem_around.1
  refine hnot ?_
  cases kept with
  | nil => simpa [firstAddr] using heq
  | cons n kept => exact List.mem_cons.mpr (.inl (Option.some.inj heq))

/-- A node in front of another is not where it ends. -/
theorem last_ne {pre rest : List (Addr × Station)} {a b : Addr} {x z : Station}
    (h : q.Holds (pre ++ (a, x) :: (b, z) :: rest)) : some a ≠ q.last := by
  rw [h.last]
  intro heq
  have hnot := h.chain.not_mem_around.2
  refine hnot ?_
  rw [List.getLast?_append_of_ne_nil _ (by simp), List.getLast?_cons_cons,
    List.getLast?_cons] at heq
  have hmem := List.mem_of_getLast? (l := (b, z) :: rest) List.getLast?_cons
  rw [Option.some.inj heq]
  exact List.mem_map_of_mem hmem

section Unlink

variable {kept tail : List (Addr × Station)} {l a : Addr} {y x : Station}
  (h : q.Holds (kept ++ (l, y) :: (a, x) :: tail))

include h

theorem lookup_behind : q.heap.lookup a = some ⟨x, firstAddr tail⟩ := by
  have hchain := h.chain
  rw [List.append_cons] at hchain
  exact hchain.lookup_append

/-- Linking a node past the next and releasing that one. -/
theorem unlink_runs (next : Option Addr) : q.heap.setNext (some l) next =
    .ok (q.heap.insert l ⟨y, next⟩) ∧
    Heap.free (q.heap.insert l ⟨y, next⟩) (some a) = .ok ((q.heap.insert l ⟨y, next⟩).erase a) := by
  have hla : a ≠ l := by
    rintro rfl
    exact h.chain.not_mem_around.2 (by simp)
  have hlook := lookup_behind h
  rw [← AList.lookup_insert_ne hla] at hlook
  exact ⟨Heap.set_next_of_lookup next h.chain.lookup_append, Heap.free_of_lookup hlook⟩

end Unlink

/-- The last node goes. -/
theorem remove_tail {kept : List (Addr × Station)} {l a : Addr} {y x : Station}
    (h : q.Holds (kept ++ [(l, y), (a, x)])) :
    Lib.Fifo.Holds ⟨(q.heap.insert l ⟨y, none⟩).erase a, q.first, some l⟩ (kept ++ [(l, y)]) :=
  ⟨h.chain.unlink, by simp⟩

/-- A node between two others goes. -/
theorem remove_middle {kept tail : List (Addr × Station)} {l a b : Addr} {y x z : Station}
    (h : q.Holds (kept ++ (l, y) :: (a, x) :: (b, z) :: tail)) :
    Lib.Fifo.Holds { q with heap := (q.heap.insert l ⟨y, some b⟩).erase a }
      (kept ++ (l, y) :: (b, z) :: tail) := by
  refine ⟨h.chain.unlink, ?_⟩
  rw [h.last, List.getLast?_append_of_ne_nil _ (by simp),
    List.getLast?_append_of_ne_nil _ (by simp)]
  simp only [List.getLast?_cons_cons]

/-- The walk behind a head that stays. -/
theorem remove_rest_runs {kept rest : List (Addr × Station)} {l : Addr} {y : Station}
    (h : q.Holds (kept ++ (l, y) :: rest)) (turns : Nat) (hn : rest.length ≤ turns) :
    ∃ t, removeOld sec turns (some l) (firstAddr rest) q = .ok t ∧
      t.Holds (kept ++ (l, y) :: sweepRest (fun n => outOfTime sec n.2) rest) := by
  induction turns generalizing q kept rest l y with
  | zero =>
    obtain rfl : rest = [] := List.eq_nil_of_length_eq_zero (Nat.le_zero.mp hn)
    exact ⟨q, rfl, h⟩
  | succ turns ih =>
    cases rest with
    | nil => exact ⟨q, rfl, h⟩
    | cons n tail =>
      obtain ⟨a, x⟩ := n
      have hfirst := first_ne h
      have hread := Heap.read_of_lookup (lookup_behind h)
      simp only [firstAddr, List.head?_cons, Option.map_some, removeOld, hread, bind, Except.bind]
      by_cases hold : outOfTime sec x = true
      · rw [if_pos hold, if_neg hfirst]
        cases tail with
        | nil =>
          have hlast : some a = q.last := by
            rw [h.last, List.getLast?_append_of_ne_nil _ (by simp)]
            rfl
          have hpre := pre_of_last_runs (List.append_cons kept (l, y) _ ▸ h.chain) none
            (q.heap.entries.length + 1)
            (by have := h.chain.length_le; simp at this ⊢; omega)
          have hpre' : lastAddr none (kept ++ [(l, y)]) = some l := by simp [lastAddr]
          rw [hpre'] at hpre
          obtain ⟨hset, hfree⟩ := unlink_runs h none
          refine ⟨⟨(q.heap.insert l ⟨y, none⟩).erase a, q.first, some l⟩, ?_,
            by simpa [sweepRest, hold] using remove_tail h⟩
          rw [if_pos hlast, ← hlast, hpre]
          simp only [hset, hfree]
        | cons m tail =>
          obtain ⟨b, z⟩ := m
          -- the next node is passed over without a look at its time
          obtain ⟨hset, hfree⟩ := unlink_runs h (some b)
          have hmiddle := remove_middle h
          have hreadb := Heap.read_of_lookup (lookup_behind hmiddle)
          have hlast := last_ne (List.append_cons kept (l, y) _ ▸ h)
          obtain ⟨t, hrun, hholds⟩ :=
            ih (List.append_cons kept (l, y) _ ▸ hmiddle) (by simp at hn; omega)
          refine ⟨t, ?_, by simpa [sweepRest, hold] using hholds⟩
          rw [if_neg hlast]
          simp only [firstAddr, List.head?_cons, Option.map_some, hset, hfree, hreadb]
          exact hrun
      · rw [if_neg hold]
        obtain ⟨t, hrun, hholds⟩ := ih (List.append_cons kept (l, y) _ ▸ h) (by simpa using hn)
        refine ⟨t, hrun, ?_⟩
        cases tail <;> simpa [sweepRest, hold] using hholds

theorem sweep_cons {α : Type} {old : α → Bool} {x : α} {rest : List α} :
    sweep old (x :: rest) = if old x then sweep old rest else x :: sweepRest old rest := by
  cases hold : old x <;> simp [sweep, hold]

/-- The walk from the head. -/
theorem remove_old_runs (sec : U32) {nodes : List (Addr × Station)} (h : q.Holds nodes)
    (turns : Nat) (hn : nodes.length ≤ turns) : ∃ t, removeOld sec turns none q.first q = .ok t ∧
      t.Holds (sweep (fun n => outOfTime sec n.2) nodes) := by
  induction nodes generalizing q turns with
  | nil =>
    rw [show q.first = none from h.chain.start_eq]
    exact ⟨q, by cases turns <;> rfl, h⟩
  | cons n nodes ih =>
    obtain ⟨turns, rfl⟩ : ∃ k, turns = k + 1 := ⟨turns - 1, by simp at hn; omega⟩
    obtain ⟨a, x⟩ := n
    have hfirst : q.first = some a := h.chain.start_eq
    have hlook := h.chain.lookup_head
    have hfree := Heap.free_of_lookup hlook
    simp only [hfirst, removeOld, Heap.read_of_lookup hlook, bind, Except.bind, sweep_cons]
    by_cases hold : outOfTime sec x = true
    · rw [if_pos hold, if_pos trivial, if_pos hold]
      match nodes with
      | [] =>
        have hlast : some a = q.last := h.last.symm
        rw [if_pos hlast, hfree]
        exact ⟨_, rfl, .nil none, rfl⟩
      | (b, z) :: nodes =>
        have hlast := last_ne (List.nil_append ((a, x) :: (b, z) :: nodes) ▸ h)
        rw [if_neg hlast, hfree]
        have hrest : Lib.Fifo.Holds ⟨q.heap.erase a, some b, q.last⟩ ((b, z) :: nodes) := by
          refine ⟨h.chain.erase_head, ?_⟩
          rw [h.last, List.getLast?_cons_cons]
        exact ih hrest turns (by simpa using hn)
    · rw [if_neg hold, if_neg hold]
      exact remove_rest_runs (List.nil_append ((a, x) :: nodes) ▸ h) turns (by simpa using hn)

end Runs

section Insert

variable {q : Lib.Fifo Station} {beacon : DataBeacon} {block : Addr}

theorem store_sec_split {bssid : Mac} {sec : U32} {xs ys : List (Addr × Station)}
    {n : Addr × Station}
    (hxs : ∀ m ∈ xs, m.2.station ≠ bssid) (hn : n.2.station = bssid) :
    storeSec bssid sec (xs ++ n :: ys) = xs ++ (n.1, { n.2 with sec }) :: ys := by
  induction xs with
  | nil => exact if_pos hn
  | cons m xs ih =>
    rw [List.cons_append, storeSec, if_neg (hxs m (List.mem_cons_self ..)),
      ih fun k hk => hxs k (List.mem_cons_of_mem _ hk)]
    rfl

/-- Storing to one node leaves the ends where they are. -/
theorem holds_set_item {xs ys : List (Addr × Station)} {a : Addr} {x : Station}
    (h : q.Holds (xs ++ (a, x) :: ys)) (y : Station) :
    Lib.Fifo.Holds { q with heap := q.heap.insert a ⟨y, firstAddr ys⟩ } (xs ++ (a, y) :: ys) := by
  refine ⟨h.chain.set_item y, ?_⟩
  rw [h.last]
  cases hys : ys.getLast? <;> simp [List.getLast?_append, List.getLast?_cons, hys]

theorem insert_known {xs ys : List (Addr × Station)} {a : Addr} {x : Station}
    (h : q.Holds (xs ++ (a, x) :: ys)) (hxs : ∀ m ∈ xs, m.2.station ≠ beacon.bssid)
    (hx : x.station = beacon.bssid) : ∃ t, insert block beacon q = .ok t ∧
      t.Holds (storeSec beacon.bssid beacon.sec (xs ++ (a, x) :: ys)) := by
  have hseek := h.chain.seek_runs (fun x => decide (x.station = beacon.bssid)) none _
    h.chain.length_le
  have hdrop : (xs ++ (a, x) :: ys).dropWhile (fun n => !decide (n.2.station = beacon.bssid)) =
      (a, x) :: ys := by
    rw [List.dropWhile_append_of_pos (by simpa using hxs),
      List.dropWhile_cons_of_neg (by simpa using hx)]
  rw [hdrop] at hseek
  rw [store_sec_split hxs hx]
  refine ⟨_, ?_, holds_set_item h _⟩
  rw [insert, hseek]
  simp only [bind, Except.bind, firstAddr, List.head?_cons, Option.map_some,
    Heap.set_item_of_lookup _ h.chain.lookup_append]

theorem insert_new {nodes : List (Addr × Station)} (h : q.Holds nodes)
    (hnew : beacon.bssid ∉ stations nodes) (fresh : q.heap.lookup block = none) :
    ∃ t, insert block beacon q = .ok t ∧
      t.Holds (appendCounted block beacon.bssid beacon.sec nodes) := by
  have hseek := h.chain.seek_runs (fun x => decide (x.station = beacon.bssid)) none _
    h.chain.length_le
  have hnone : nodes.dropWhile (fun n => !decide (n.2.station = beacon.bssid)) = [] := by
    rw [List.dropWhile_eq_nil_iff]
    intro n hn
    have hne : n.2.station ≠ beacon.bssid := fun heq => hnew (heq ▸ List.mem_map_of_mem hn)
    simpa using hne
  rw [hnone] at hseek
  cases nodes with
  | nil =>
    have hfirst : q.first = none := h.chain.start_eq
    refine ⟨⟨q.heap.insert block ⟨⟨beacon.bssid, beacon.sec, 1⟩, none⟩, some block, some block⟩,
      ?_, Segment.single q.heap block _, rfl⟩
    rw [insert, hseek]
    simp only [bind, Except.bind, hfirst]
    rfl
  | cons n rest =>
    have hfirst : q.first = some n.1 := h.chain.start_eq
    obtain ⟨u, hrun, hu⟩ := h.append ⟨beacon.bssid, beacon.sec, 0⟩ fresh
    have hfirst' : u.first = some n.1 := hu.chain.start_eq
    have hhead : u.Holds ([] ++ n :: (rest ++ [(block, ⟨beacon.bssid, beacon.sec, 0⟩)])) := hu
    refine ⟨_, ?_, holds_set_item hhead { n.2 with count := n.2.count + 1 }⟩
    rw [insert, hseek]
    simp only [bind, Except.bind, hfirst, firstAddr, List.head?_nil, Option.map_none, hrun, hfirst',
      Heap.set_item_of_lookup _ hu.chain.lookup_head]
    rfl

theorem insert_runs (beacon : DataBeacon) {nodes : List (Addr × Station)} (h : q.Holds nodes)
    (fresh : q.heap.lookup block = none) :
    ∃ t, insert block beacon q = .ok t ∧ t.Holds (inserted block beacon nodes) := by
  by_cases hknown : beacon.bssid ∈ stations nodes
  · rw [inserted, if_pos hknown]
    obtain ⟨m, hm, hhas⟩ := List.mem_map.mp hknown
    obtain ⟨⟨a, x⟩, hfound⟩ : ∃ n, nodes.find? (fun n => n.2.station = beacon.bssid) = some n :=
      Option.isSome_iff_exists.mp (List.find?_isSome.mpr ⟨m, hm, decide_eq_true hhas⟩)
    obtain ⟨hx, xs, ys, rfl, hxs⟩ := List.find?_eq_some_iff_append.mp hfound
    exact insert_known h (by simpa using hxs) (of_decide_eq_true hx)
  · rw [inserted, if_neg hknown]
    exact insert_new h hknown fresh

end Insert

section Step

variable (malloc : Malloc Station) (report : Report)

/-- The nodes after a beacon; `free` is the block a new one gets. -/
def heardNodes (free : Addr) (nodes : List (Addr × Station)) : List (Addr × Station) :=
  if nodes = [] then [(free, ⟨report.mac, report.beacon.sec, 1⟩)]
  else inserted free report.beacon (sweep (fun n => outOfTime report.beacon.sec n.2) nodes)

theorem decode_beacon_runs {s : State} {nodes : List (Addr × Station)}
    (h : s.neibourLists.Holds nodes) : ∃ t free, decodeBeacon malloc s report = .ok t ∧
      t.heard = s.heard ++ [(report.beacon.bssid, report.beacon.sec)] ∧
      t.neibourLists.Holds (heardNodes report free nodes) := by
  cases nodes with
  | nil =>
    have hfirst : s.neibourLists.first = none := h.chain.start_eq
    let block := malloc.block s.neibourLists.heap
    refine ⟨⟨⟨s.neibourLists.heap.insert block ⟨⟨report.mac, report.beacon.sec, 1⟩, none⟩,
      some block, some block⟩, s.heard ++ [(report.beacon.bssid, report.beacon.sec)]⟩, block, ?_,
      rfl, Segment.single s.neibourLists.heap _ _, rfl⟩
    simp only [decodeBeacon, hfirst]
    rfl
  | cons n rest =>
    have hfirst : s.neibourLists.first = some n.1 := h.chain.start_eq
    obtain ⟨q, hremove, hq⟩ := remove_old_runs report.beacon.sec h _ h.chain.length_le
    obtain ⟨t, hinsert, ht⟩ := insert_runs report.beacon hq (malloc.fresh q.heap)
    refine ⟨⟨t, s.heard ++ [(report.beacon.bssid, report.beacon.sec)]⟩, malloc.block q.heap, ?_,
      rfl, ?_⟩
    · simp only [decodeBeacon, hfirst]
      rw [← hfirst, hremove]
      simp only [bind, Except.bind, hinsert]
    · rw [heardNodes, if_neg (List.cons_ne_nil _ _)]
      exact ht

end Step

/-- Whatever beacons come and whatever blocks `malloc` hands out, no pointer that
is NULL, not set or freed is used, and the two pointers are the ends of a list. -/
theorem neibour_list_well_formed (malloc : Malloc Station) (reports : List Report) :
    ∃ t nodes, reports.foldlM (decodeBeacon malloc) start = .ok t ∧
      (t.neibourLists.first = none ↔ t.neibourLists.last = none) ∧
      Chain t.neibourLists.heap t.neibourLists.first nodes ∧
      t.neibourLists.last = nodes.getLast?.map Prod.fst := by
  obtain ⟨t, hrun, nodes, hholds⟩ :=
    foldlM_invariant (f := decodeBeacon malloc) (fun _ s => ∃ nodes, s.neibourLists.Holds nodes)
      (fun _ s report ⟨nodes, h⟩ => by
        obtain ⟨t, free, hrun, -, hholds⟩ := decode_beacon_runs malloc report h
        exact ⟨t, hrun, _, hholds⟩)
      [] (s := start) ⟨[], .nil none, rfl⟩ reports
  exact ⟨t, nodes, hrun, hholds.none_iff, hholds.chain, hholds.last⟩

end ApTelemetry.Receiver.Neibours
