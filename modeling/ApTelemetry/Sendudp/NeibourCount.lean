import ApTelemetry.Sendudp.Streams
import Mathlib.Data.List.Dedup

namespace ApTelemetry.Sendudp.NeibourCount
open Lib

structure Ivlinger where
  name : Mac
  sec : U32

/-- `struct sta_list`. -/
structure StaList where
  count : U8
  lists : List Ivlinger

/-- `neibour_lists`, the sample's `neibours` and what the filter of the beacons
works on. Nothing reads `processed`, the items so far. -/
structure State where
  globals : Streams.Globals
  neibourLists : StaList
  neibours : U8
  processed : List DataBeacon

/-- `for (i = 0; i < neibour_lists.count; i++)`. The bound is read in every turn,
and a counter of eight bits allows for 255 of them. -/
def loop {σ : Type} (count : σ → U8) (body : Nat → σ → Except Fault σ) :
    Nat → Nat → σ → Except Fault σ
  | 0, _, _ => .error .endless
  | turns + 1, i, s =>
    if i < (count s).toNat then do
      let s ← body i s
      loop count body turns (i + 1) s
    else .ok s

def loopTurns : Nat := 256

def zeroMac : Mac := ⟨0, 0, 0, 0, 0, 0⟩

def refresh (tmp : DataBeacon) (i : Nat) (s : StaList × Bool) : Except Fault (StaList × Bool) := do
  let (list, found1) := s
  let entry ← load list.lists i
  if entry.name = tmp.bssid then
    let lists ← save list.lists i { entry with sec := tmp.sec }
    .ok ({ list with lists }, true)
  else .ok (list, found1)

/-- The loop goes on behind a free entry. -/
def insert (tmp : DataBeacon) (i : Nat) (list : StaList) : Except Fault StaList := do
  let entry ← load list.lists i
  if entry.sec = 0 then
    let lists ← save list.lists i ⟨tmp.bssid, tmp.sec⟩
    .ok ⟨list.count + 1, lists⟩
  else .ok list

/-- The counter goes up here, too. -/
def expire (tmp : DataBeacon) (i : Nat) (list : StaList) : Except Fault StaList := do
  let entry ← load list.lists i
  if 2 < tmp.sec - entry.sec then
    let lists ← save list.lists i ⟨zeroMac, 0⟩
    .ok ⟨list.count + 1, lists⟩
  else .ok list

/-- The three loops over `neibour_lists`. -/
def countNeibour (tmp : DataBeacon) (list : StaList) : Except Fault StaList := do
  let (list, found1) ← loop (·.1.count) (refresh tmp) loopTurns 0 (list, false)
  let list ← if found1 then .ok list else loop StaList.count (insert tmp) loopTurns 0 list
  loop StaList.count (expire tmp) loopTurns 0 list

def processBeacon (mac : Mac) (s : State) (tmp : DataBeacon) : Except Fault State := do
  let globals ← Streams.offer .beacon s.globals (.beacon mac tmp 0)
  let neibourLists ← countNeibour tmp s.neibourLists
  .ok { s with globals, neibourLists, processed := s.processed ++ [tmp] }

def compareAndBeacon (mac : Mac) (s : State) (ptr : List DataBeacon) : Except Fault State := do
  let s ← ptr.foldlM (processBeacon mac) s
  .ok { s with neibours := s.neibourLists.count }

def loaded : State where
  globals := Streams.loaded
  neibourLists := ⟨0, List.replicate 100 ⟨zeroMac, 0⟩⟩
  neibours := 0
  processed := []

/-- The BSSIDs of the items that are not more than two seconds older than the last. -/
def recentBssids (items : List DataBeacon) : List Mac :=
  match items.getLast? with
  | some latest =>
    ((items.filter fun b => latest.sec.toNat ≤ b.sec.toNat + 2).map DataBeacon.bssid).dedup
  | none => []

/-- The counter after these lists is the number of neighbours heard lately. -/
def CountsNeibours (mac : Mac) (lists : List (List DataBeacon)) : Prop :=
  ∃ s, lists.foldlM (compareAndBeacon mac) loaded = .ok s ∧
    s.neibours.toNat = (recentBssids lists.flatten).length

/-- What every item keeps: the counter never gets off the ground. -/
structure Empty (s : State) : Prop where
  filtered : Streams.Filtered s.globals
  count : s.neibourLists.count = 0
  size : s.neibourLists.lists.length = 100

/-- A loop over no entries. -/
theorem loop_none {σ : Type} (count : σ → U8) {s : σ} (h : count s = 0)
    (body : Nat → σ → Except Fault σ) : loop count body loopTurns 0 s = .ok s := by
  have hstop : ¬ 0 < (count s).toNat := by
    rw [h]
    decide
  exact if_neg hstop

theorem count_neibour {list : StaList} (h : list.count = 0) (tmp : DataBeacon) :
    countNeibour tmp list = .ok list := by
  have hrefresh : loop (·.1.count) (refresh tmp) loopTurns 0 (list, false) = .ok (list, false) :=
    loop_none (fun s : StaList × Bool => s.1.count) h _
  have hinsert : loop StaList.count (insert tmp) loopTurns 0 list = .ok list := loop_none _ h _
  have hexpire : loop StaList.count (expire tmp) loopTurns 0 list = .ok list := loop_none _ h _
  simp [countNeibour, hrefresh, hinsert, hexpire, bind, Except.bind]

theorem process_beacon {s : State} (h : Empty s) (mac : Mac) (tmp : DataBeacon) :
    ∃ t, processBeacon mac s tmp = .ok t ∧ Empty t := by
  obtain ⟨globals, hoffer, hoffered⟩ := Streams.offer_step (t := .beacon mac tmp 0) h.filtered
    .beacon (by simp [Wire.Record.category])
  refine ⟨{ s with globals, processed := s.processed ++ [tmp] }, ?_, hoffered.filtered, h.count,
    h.size⟩
  simp only [processBeacon, hoffer, count_neibour h.count, bind, Except.bind]

theorem compare_and_beacon {s : State} (h : Empty s) (mac : Mac) (ptr : List DataBeacon) :
    ∃ t, compareAndBeacon mac s ptr = .ok t ∧ Empty t ∧ t.neibours = 0 := by
  obtain ⟨t, hrun, ht⟩ := foldlM_invariant (fun _ s => Empty s)
    (fun _ s tmp hs => process_beacon hs mac tmp) [] h ptr
  refine ⟨{ t with neibours := t.neibourLists.count }, ?_, ⟨ht.filtered, ht.count, ht.size⟩,
    ht.count⟩
  rw [compareAndBeacon, hrun]
  rfl

theorem loaded_empty : Empty loaded := ⟨Streams.loaded_filtered, rfl, List.length_replicate⟩

theorem compare_run (mac : Mac) (lists : List (List DataBeacon)) :
    ∃ s, lists.foldlM (compareAndBeacon mac) loaded = .ok s ∧ Empty s ∧ s.neibours = 0 :=
  foldlM_invariant (fun _ s => Empty s ∧ s.neibours = 0)
    (fun _ _ ptr h => compare_and_beacon h.1 mac ptr) [] ⟨loaded_empty, rfl⟩ lists

/-- The last item is a neighbour itself. -/
theorem recent_eq_nil_iff (items : List DataBeacon) : recentBssids items = [] ↔ items = [] := by
  constructor
  · intro h
    by_contra hne
    have hlast := List.getLast?_eq_some_getLast hne
    rw [recentBssids, hlast] at h
    have hmem : items.getLast hne ∈ items.filter fun b =>
        (items.getLast hne).sec.toNat ≤ b.sec.toNat + 2 :=
      List.mem_filter.mpr ⟨List.getLast_mem hne, decide_eq_true (Nat.le_add_right ..)⟩
    have hbssid := List.mem_dedup.mpr (List.mem_map_of_mem (f := DataBeacon.bssid) hmem)
    exact List.ne_nil_of_mem hbssid h
  · rintro rfl
    rfl

theorem counts_neibours {mac : Mac} {lists : List (List DataBeacon)} :
    CountsNeibours mac lists ↔ lists.flatten = [] := by
  obtain ⟨s, hrun, -, hzero⟩ := compare_run mac lists
  rw [← recent_eq_nil_iff, ← List.length_eq_zero_iff]
  constructor
  · rintro ⟨t, ht, hcount⟩
    obtain rfl := Except.ok.inj (hrun.symm.trans ht)
    rw [hzero] at hcount
    exact hcount.symm
  · intro hnone
    exact ⟨s, hrun, by rw [hzero, hnone]; rfl⟩

/-- The lists never get an entry: the loops stay inside, and the counter is right
only as long as no beacon came. -/
theorem neibour_count_iff (mac : Mac) (lists : List (List DataBeacon)) :
    (∃ s, lists.foldlM (compareAndBeacon mac) loaded = .ok s ∧
      s.neibourLists.count.toNat ≤ 100 ∧ s.neibours = s.neibourLists.count) ∧
    (CountsNeibours mac lists ↔ ∀ ptr ∈ lists, ptr = []) := by
  obtain ⟨s, hrun, hempty, hzero⟩ := compare_run mac lists
  refine ⟨⟨s, hrun, ?_, hzero.trans hempty.count.symm⟩, ?_⟩
  · rw [hempty.count]
    decide
  · rw [counts_neibours, List.flatten_eq_nil_iff]

def oneBeacon : DataBeacon := ⟨1, 0, 0, 0, 0, 0, 0, ⟨2, 0, 0, 0, 0, 1⟩, 0⟩

theorem neibour_not_counted : ¬ ∀ mac lists, CountsNeibours mac lists := by
  intro h
  have hnone := counts_neibours.mp (h ⟨2, 0, 0, 0, 0, 0⟩ [[oneBeacon]])
  cases hnone

end ApTelemetry.Sendudp.NeibourCount
