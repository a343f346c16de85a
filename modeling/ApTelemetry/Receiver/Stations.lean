import ApTelemetry.Lib.Heap
import ApTelemetry.Lib.Machine
import ApTelemetry.Structs

namespace ApTelemetry.Receiver.Stations
open Lib

/-- `struct data_iwp` without its list pointer. The throughput is in thousandths. -/
structure DataIwp where
  timex : U64
  inactiveTime : U32
  rxBytes : U32
  rxPackets : U32
  txBytes : U32
  txPackets : U32
  txRetries : U32
  txFailed : U32
  signal : U32
  signalAvg : U32
  expectedThroughput : U32

/-- A `float` quotient: a counter difference and what it is divided by. -/
structure Rate where
  difference : U32
  duration : U64

/-- `struct data_iwget`. A rate is `none` as long as it is the 0 of `memset`. -/
structure DataIwget where
  inactiveTime : Option Rate
  rxBytes : Option Rate
  rxPackets : Option Rate
  txBytes : Option Rate
  txPackets : Option Rate
  txRetries : Option Rate
  txFailed : Option Rate
  signal : U32
  signalAvg : U32
  expectedThroughput : U32

/-- `struct station_list` without its list pointer. -/
structure Station where
  station : Mac
  sec : U32
  count : U32
  iwget : DataIwget
  iwh : Option Addr

/-- Both kinds of nodes are blocks of one memory. -/
inductive Block where
  | station (x : Station)
  | sample (x : DataIwp)

structure State where
  heap : Heap Block
  stationLists : Option Addr
  stationLLast : Option Addr

def DataIwget.zero : DataIwget := ⟨none, none, none, none, none, none, none, 0, 0, 0⟩

/-- `timex` of `decode_iw`, in microseconds. -/
def timex (rdata : DataIw) : U64 := rdata.sec.setWidth 64 * 1000000 + rdata.usec.setWidth 64

/-- The seconds count as milliseconds here. -/
def iw2iwp (q : DataIw) : DataIwp where
  timex := q.sec.setWidth 64 * 1000 + q.usec.setWidth 64
  inactiveTime := q.inactiveTime
  rxBytes := q.rxBytes
  rxPackets := q.rxPackets
  txBytes := q.txBytes
  txPackets := q.txPackets
  txRetries := q.txRetries
  txFailed := q.txFailed
  signal := q.signal
  signalAvg := q.signalAvg
  expectedThroughput := q.expectedThroughput

/-- Reading a block through a `struct station_list` pointer. -/
def readStation (h : Heap Block) (p : Option Addr) : Except Fault (Station × Option Addr) := do
  let c ← h.read p
  match c.item with
  | .station x => .ok (x, c.next)
  | .sample _ => .error .outside

/-- Reading a block through a `struct data_iwp` pointer. -/
def readSample (h : Heap Block) (p : Option Addr) : Except Fault DataIwp := do
  let c ← h.read p
  match c.item with
  | .sample x => .ok x
  | .station _ => .error .outside

/-- `iwptr->next`. In a station block `signal_avg` and `expected_throughput` stand
where a sample has its link: zeros are NULL, anything else leads anywhere. -/
def nextSample (h : Heap Block) (p : Option Addr) : Except Fault (Option Addr) := do
  let c ← h.read p
  match c.item with
  | .sample _ => .ok c.next
  | .station x =>
    if x.iwget.signalAvg = 0 ∧ x.iwget.expectedThroughput = 0 then .ok none else .error .outside

/-- Releasing the samples of a station. -/
def freeSamples : Nat → Heap Block → Option Addr → Except Fault (Heap Block)
  | _, h, none => .ok h
  | 0, _, some _ => .error .endless
  | turns + 1, h, some iwptr => do
    let next ← nextSample h (some iwptr)
    let h ← h.free (some iwptr)
    freeSamples turns h next

def preOfLast (h : Heap Block) (last : Option Addr) :
    Nat → Option Addr → Option Addr → Except Fault (Option Addr)
  | 0, _, _ => .error .endless
  | turns + 1, pre, tmp1 =>
    if tmp1 = last then .ok pre else do
      let (_, next) ← readStation h tmp1
      preOfLast h last turns tmp1 next

/-- Removing the old stations. At the tail and in the middle the samples are
looked for at the station itself. -/
def removeOld (sec : U32) : Nat → Option Addr → Option Addr → State → Except Fault State
  | _, _, none, s => .ok s
  | 0, _, some _, _ => .error .endless
  | turns + 1, last, some tlist, s => do
    let (x, next) ← readStation s.heap (some tlist)
    let fuel := s.heap.entries.length + 1
    if 10 < sec - x.sec then
      if some tlist = s.stationLists then
        if s.stationLists = s.stationLLast then do
          let heap ← freeSamples fuel s.heap x.iwh
          let heap ← heap.free s.stationLists
          .ok ⟨heap, none, none⟩
        else do
          let heap ← freeSamples fuel s.heap x.iwh
          let heap ← heap.free (some tlist)
          removeOld sec turns last next { s with heap, stationLists := next }
      else if some tlist = s.stationLLast then do
        let pre ← preOfLast s.heap s.stationLLast fuel none s.stationLists
        let heap ← s.heap.setNext pre none
        let heap ← freeSamples fuel heap s.stationLLast
        let heap ← heap.free s.stationLLast
        .ok { s with heap, stationLLast := pre }
      else do
        let heap ← s.heap.setNext last next
        let heap ← freeSamples fuel heap (some tlist)
        let heap ← heap.free (some tlist)
        let (_, next') ← readStation heap next
        removeOld sec turns next next' { s with heap }
    else removeOld sec turns (some tlist) next s

def findStation (station : Mac) (h : Heap Block) :
    Nat → Option Addr → Except Fault (Option Addr)
  | _, none => .ok none
  | 0, some _ => .error .endless
  | turns + 1, some tlist => do
    let (x, next) ← readStation h (some tlist)
    if x.station = station then .ok (some tlist) else findStation station h turns next

/-- Storing to a station node. -/
def storeStation (h : Heap Block) (p : Option Addr) (store : Station → Station) :
    Except Fault (Heap Block) :=
  h.setItem p fun
    | .station x => .station (store x)
    | .sample x => .sample x

/-- The rates against the first sample, if it is more than 900 units old. -/
def computeRates (rdata : DataIw) (top : DataIwp) (iwget : DataIwget) : DataIwget :=
  let duration := timex rdata - top.timex
  if 900 < duration then
    { inactiveTime := some ⟨rdata.inactiveTime - top.inactiveTime, duration⟩
      rxBytes := some ⟨rdata.rxBytes - top.rxBytes, duration⟩
      rxPackets := some ⟨rdata.rxPackets - top.rxPackets, duration⟩
      txBytes := some ⟨rdata.txBytes - top.txBytes, duration⟩
      txPackets := some ⟨rdata.txPackets - top.txPackets, duration⟩
      txRetries := some ⟨rdata.txRetries - top.txRetries, duration⟩
      txFailed := some ⟨rdata.txFailed - top.txFailed, duration⟩
      signal := rdata.signal
      signalAvg := rdata.signalAvg
      expectedThroughput := rdata.expectedThroughput }
  else iwget

/-- A record of a station that is on the list. -/
def updateStation (rdata : DataIw) (tlist : Addr) (s : State) : Except Fault State := do
  let heap ← storeStation s.heap (some tlist) fun x => { x with sec := rdata.sec }
  let (x, _) ← readStation heap (some tlist)
  let top ← readSample heap x.iwh
  let heap ← storeStation heap (some tlist) fun x =>
    { x with iwget := computeRates rdata top x.iwget }
  .ok { s with heap }

/-- A record of a station that is not. The list may have been emptied just before,
and the sample made for the new station is not linked to it. -/
def addStation (malloc : Malloc Block) (rdata : DataIw) (s : State) : Except Fault State := do
  let _ ← readStation s.heap s.stationLists
  let new := malloc.block s.heap
  let heap := s.heap.insert new ⟨.station ⟨rdata.station, rdata.sec, 0, .zero, none⟩, none⟩
  let heap := heap.insert (malloc.block heap) ⟨.sample (iw2iwp rdata), none⟩
  match s.stationLists with
  | some _ => do
    let heap ← Heap.setNext heap s.stationLLast (some new)
    let heap ← storeStation heap s.stationLists fun x => { x with count := x.count + 1 }
    .ok { s with heap, stationLLast := some new }
  | none => do
    let heap ← storeStation heap (some new) fun x => { x with count := 1 }
    .ok ⟨heap, some new, some new⟩

def decodeIw (malloc : Malloc Block) (s : State) (rdata : DataIw) : Except Fault State :=
  match s.stationLists with
  | none =>
    let tlist := malloc.block s.heap
    let heap := s.heap.insert tlist ⟨.station ⟨rdata.station, rdata.sec, 1, .zero, none⟩, none⟩
    let heap := heap.insert (malloc.block heap) ⟨.sample (iw2iwp rdata), none⟩
    .ok ⟨heap, some tlist, some tlist⟩
  | some _ => do
    let s ← removeOld rdata.sec s.heap.entries.length none s.stationLists s
    let found ← findStation rdata.station s.heap s.heap.entries.length s.stationLists
    match found with
    | some tlist => updateStation rdata tlist s
    | none => addStation malloc rdata s

def start : State := ⟨∅, none, none⟩

def counters (rdata : DataIw) : List U32 :=
  [rdata.inactiveTime, rdata.rxBytes, rdata.rxPackets, rdata.txBytes, rdata.txPackets,
    rdata.txRetries, rdata.txFailed]

def DataIwget.rates (iwget : DataIwget) : List (Option Rate) :=
  [iwget.inactiveTime, iwget.rxBytes, iwget.rxPackets, iwget.txBytes, iwget.txPackets,
    iwget.txRetries, iwget.txFailed]

/-- The microseconds of a record. -/
def microseconds (rdata : DataIw) : Nat := rdata.sec.toNat * 1000000 + rdata.usec.toNat

/-- No rates yet, or those between two records of the station: the differences of
the counters over the time between the two, in some unit. -/
def Rated (records : List DataIw) (x : Station) : Prop :=
  x.iwget = .zero ∨ ∃ earlier later duration unit, [earlier, later].Sublist records ∧
    earlier.station = x.station ∧ later.station = x.station ∧ 0 < unit ∧
    microseconds earlier + duration.toNat * unit = microseconds later ∧
    x.iwget.rates = List.zipWith (fun a b => some ⟨a - b, duration⟩) (counters later)
      (counters earlier)

/-- A sample that was made of a record of the station. -/
def SampleOf (h : Heap Block) (records : List DataIw) (x : Station) : Prop :=
  ∃ a next, x.iwh = some a ∧ ∃ rdata ∈ records, rdata.station = x.station ∧
    h.lookup a = some ⟨.sample (iw2iwp rdata), next⟩

/-- The list of stations, each with a first sample of its own and rates that are
ones. -/
structure Usable (s : State) (records : List DataIw) (nodes : List (Addr × Station)) : Prop where
  chain : Chain s.heap s.stationLists (nodes.map fun n => (n.1, .station n.2))
  last : s.stationLLast = nodes.getLast?.map Prod.fst
  sampled : ∀ n ∈ nodes, SampleOf s.heap records n.2
  own : (nodes.map fun n => n.2.iwh).Nodup
  rated : ∀ n ∈ nodes, Rated records n.2

/-- No station block has a sample. -/
def Bare (h : Heap Block) : Prop :=
  ∀ a x next, h.lookup a = some ⟨.station x, next⟩ → x.iwh = none

section Bare

variable {h t : Heap Block} {p : Option Addr}

theorem bare_insert {a : Addr} {block : Block} {next : Option Addr} (hb : Bare h)
    (hblock : ∀ x, block = .station x → x.iwh = none) : Bare (h.insert a ⟨block, next⟩) := by
  intro b x next' hlook
  by_cases hba : b = a
  · subst hba
    rw [AList.lookup_insert] at hlook
    exact hblock x (congrArg Cell.item (Option.some.inj hlook))
  · rw [AList.lookup_insert_ne hba] at hlook
    exact hb b x next' hlook

theorem bare_erase {a : Addr} (hb : Bare h) : Bare (h.erase a) := by
  intro b x next hlook
  by_cases hba : b = a
  · subst hba
    rw [AList.lookup_erase] at hlook
    cases hlook
  · rw [AList.lookup_erase_ne hba] at hlook
    exact hb b x next hlook

theorem bare_free (hb : Bare h) (hrun : h.free p = .ok t) : Bare t := by
  unfold Heap.free at hrun
  split at hrun
  · exact Except.ok.inj hrun ▸ hb
  · split at hrun
    · cases hrun
    · exact Except.ok.inj hrun ▸ bare_erase hb

theorem bare_set_next {next : Option Addr} (hb : Bare h) (hrun : h.setNext p next = .ok t) :
    Bare t := by
  unfold Heap.setNext at hrun
  split at hrun
  · cases hrun
  · split at hrun
    · cases hrun
    · rename_i a _ c hlook
      rw [← Except.ok.inj hrun]
      exact bare_insert hb fun x hx => hb a x c.next (by rw [hlook, ← hx])

theorem bare_store {store : Station → Station} (hb : Bare h)
    (hrun : storeStation h p store = .ok t) (hstore : ∀ x, (store x).iwh = x.iwh) : Bare t := by
  unfold storeStation Heap.setItem at hrun
  split at hrun
  · cases hrun
  · split at hrun
    · cases hrun
    · rename_i a _ c hlook
      rw [← Except.ok.inj hrun]
      refine bare_insert hb fun x hx => ?_
      obtain ⟨item, next⟩ := c
      cases item with
      | station y =>
        have hy : store y = x := Block.station.inj hx
        rw [← hy, hstore]
        exact hb a y next hlook
      | sample y => cases hx

theorem bare_free_samples {turns : Nat} (hb : Bare h) (hrun : freeSamples turns h p = .ok t) :
    Bare t := by
  induction turns generalizing h p with
  | zero =>
    cases p with
    | none => exact Except.ok.inj hrun ▸ hb
    | some a => cases hrun
  | succ turns ih =>
    cases p with
    | none => exact Except.ok.inj hrun ▸ hb
    | some a =>
      obtain ⟨next, -, hrun⟩ := bind_ok hrun
      obtain ⟨u, hfree, hrun⟩ := bind_ok hrun
      exact ih (bare_free hb hfree) hrun

end Bare

/-- The expiry links no samples. -/
theorem bare_remove_old {sec : U32} {turns : Nat} {last tlist : Option Addr} {s t : State}
    (hb : Bare s.heap) (hrun : removeOld sec turns last tlist s = .ok t) : Bare t.heap := by
  induction turns generalizing last tlist s with
  | zero =>
    cases tlist with
    | none => exact Except.ok.inj hrun ▸ hb
    | some a => cases hrun
  | succ turns ih =>
    cases tlist with
    | none => exact Except.ok.inj hrun ▸ hb
    | some tlist =>
      obtain ⟨⟨x, next⟩, -, hrun⟩ := bind_ok hrun
      simp only at hrun
      split at hrun
      · split at hrun
        · split at hrun
          · obtain ⟨u, hsamples, hrun⟩ := bind_ok hrun
            obtain ⟨v, hfree, hrun⟩ := bind_ok hrun
            rw [← Except.ok.inj hrun]
            exact bare_free (bare_free_samples hb hsamples) hfree
          · obtain ⟨u, hsamples, hrun⟩ := bind_ok hrun
            obtain ⟨v, hfree, hrun⟩ := bind_ok hrun
            exact ih (bare_free (bare_free_samples hb hsamples) hfree) hrun
        · split at hrun
          · obtain ⟨pre, -, hrun⟩ := bind_ok hrun
            obtain ⟨u, hset, hrun⟩ := bind_ok hrun
            obtain ⟨v, hsamples, hrun⟩ := bind_ok hrun
            obtain ⟨w, hfree, hrun⟩ := bind_ok hrun
            rw [← Except.ok.inj hrun]
            exact bare_free (bare_free_samples (bare_set_next hb hset) hsamples) hfree
          · obtain ⟨u, hset, hrun⟩ := bind_ok hrun
            obtain ⟨v, hsamples, hrun⟩ := bind_ok hrun
            obtain ⟨w, hfree, hrun⟩ := bind_ok hrun
            obtain ⟨next', -, hrun⟩ := bind_ok hrun
            exact ih (bare_free (bare_free_samples (bare_set_next hb hset) hsamples) hfree) hrun
      · exact ih hb hrun

/-- The walk over the samples that starts at the station releases the station, so
that the release behind it is the second one. -/
theorem station_freed_twice {h : Heap Block} {a : Addr} {x : Station} {next : Option Addr}
    (hlook : h.lookup a = some ⟨.station x, next⟩) (hiwget : x.iwget = .zero) (turns : Nat) :
    (freeSamples (turns + 1) h (some a) >>= fun heap => heap.free (some a)) = .error .freed := by
  have hread : nextSample h (some a) = .ok none := by
    simp only [nextSample, Heap.read_of_lookup hlook, hiwget, bind, Except.bind]
    rfl
  have hsamples : freeSamples (turns + 1) h (some a) = .ok (h.erase a) := by
    simp only [freeSamples, hread, Heap.free_of_lookup hlook, bind, Except.bind]
  rw [hsamples]
  simp only [bind, Except.bind, Heap.free, AList.lookup_erase]

/-- The update of a station that is on the list reads its first sample. -/
theorem update_station_faults {rdata : DataIw} {tlist : Addr} {s t : State} (hb : Bare s.heap)
    (hrun : updateStation rdata tlist s = .ok t) : False := by
  obtain ⟨u, hstore, hrun⟩ := bind_ok hrun
  obtain ⟨⟨x, next⟩, hread, hrun⟩ := bind_ok hrun
  obtain ⟨top, hsample, -⟩ := bind_ok hrun
  have hu := bare_store hb hstore fun _ => rfl
  obtain ⟨⟨item, next'⟩, hcell, hitem⟩ := bind_ok hread
  cases item with
  | sample y => cases hitem
  | station y =>
    obtain ⟨rfl, rfl⟩ := Prod.mk.inj (Except.ok.inj hitem)
    have hnone : y.iwh = none := by
      refine hu tlist y next' ?_
      simp only [Heap.read] at hcell
      split at hcell
      · cases hcell
      · rename_i hlook
        rw [hlook, Except.ok.inj hcell]
    rw [hnone] at hsample
    cases hsample

theorem add_station_bare {malloc : Malloc Block} {rdata : DataIw} {s t : State} (hb : Bare s.heap)
    (hrun : addStation malloc rdata s = .ok t) : Bare t.heap ∧ t.stationLists ≠ none := by
  obtain ⟨x, hread, hrun⟩ := bind_ok hrun
  have hboth : ∀ new a, Bare ((s.heap.insert new
      ⟨.station ⟨rdata.station, rdata.sec, 0, .zero, none⟩, none⟩).insert a
      ⟨.sample (iw2iwp rdata), none⟩) := fun new a => by
    refine bare_insert (bare_insert hb fun y hy => ?_) (by simp)
    rw [← Block.station.inj hy]
  cases hfirst : s.stationLists with
  | none =>
    rw [hfirst] at hread
    cases hread
  | some first =>
    simp only [hfirst] at hrun
    obtain ⟨u, hset, hrun⟩ := bind_ok hrun
    obtain ⟨v, hstore, hrun⟩ := bind_ok hrun
    rw [← Except.ok.inj hrun]
    exact ⟨bare_store (bare_set_next (hboth _ _) hset) hstore fun _ => rfl,
      Option.some_ne_none first⟩

/-- Where a record is processed at all, the list is not empty and has no samples. -/
theorem decode_iw_bare {malloc : Malloc Block} {rdata : DataIw} {s t : State} (hb : Bare s.heap)
    (hrun : decodeIw malloc s rdata = .ok t) : Bare t.heap ∧ t.stationLists ≠ none := by
  unfold decodeIw at hrun
  split at hrun
  · rw [← Except.ok.inj hrun]
    refine ⟨bare_insert (bare_insert hb fun y hy => ?_) (by simp), by simp⟩
    rw [← Block.station.inj hy]
  · obtain ⟨u, hremove, hrun⟩ := bind_ok hrun
    have hu := bare_remove_old hb hremove
    obtain ⟨found, -, hrun⟩ := bind_ok hrun
    cases found with
    | some tlist => exact (update_station_faults hu hrun).elim
    | none => exact add_station_bare hu hrun

theorem decode_all_bare {malloc : Malloc Block} {records : List DataIw} {s t : State}
    (hb : Bare s.heap) (hrun : records.foldlM (decodeIw malloc) s = .ok t) :
    Bare t.heap ∧ (records ≠ [] → t.stationLists ≠ none) := by
  induction records generalizing s with
  | nil => exact ⟨Except.ok.inj hrun ▸ hb, fun h => absurd rfl h⟩
  | cons rdata rest ih =>
    rw [List.foldlM_cons] at hrun
    obtain ⟨u, hdecode, hrest⟩ := bind_ok hrun
    obtain ⟨hu, hsome⟩ := decode_iw_bare hb hdecode
    obtain ⟨ht, hlater⟩ := ih hu hrest
    refine ⟨ht, fun _ => ?_⟩
    cases rest with
    | nil => exact Except.ok.inj hrest ▸ hsome
    | cons r rest => exact hlater (List.cons_ne_nil r rest)

/-- A list without samples is not usable unless it is empty. -/
theorem Usable.empty {s : State} {records : List DataIw} {nodes : List (Addr × Station)}
    (h : Usable s records nodes) (hb : Bare s.heap) : s.stationLists = none := by
  cases nodes with
  | nil => exact h.chain.start_eq
  | cons n rest =>
    obtain ⟨a, next, hiwh, -⟩ := h.sampled n (List.mem_cons_self ..)
    rw [hb n.1 n.2 _ h.chain.lookup_head] at hiwh
    cases hiwh

theorem usable_start : Usable start [] [] :=
  ⟨.nil none, rfl, by simp, .nil, by simp⟩

theorem bare_start : Bare start.heap := fun _ _ _ hlook => nomatch hlook

/-- The station list is usable only as long as no record was processed. -/
theorem usable_iff (malloc : Malloc Block) (records : List DataIw) :
    (∃ t nodes, records.foldlM (decodeIw malloc) start = .ok t ∧ Usable t records nodes) ↔
      records = [] := by
  constructor
  · rintro ⟨t, nodes, hrun, husable⟩
    obtain ⟨hb, hsome⟩ := decode_all_bare bare_start hrun
    by_contra hne
    exact hsome hne (husable.empty hb)
  · rintro rfl
    exact ⟨start, [], rfl, usable_start⟩

/-- A station whose first sample is lost. -/
theorem first_sample_lost : ¬ ∀ records, ∃ t nodes,
    records.foldlM (decodeIw Malloc.bump) start = .ok t ∧ Usable t records nodes := by
  intro h
  obtain ⟨t, nodes, hrun, husable⟩ :=
    h [⟨⟨0, 0, 0, 0, 0, 1⟩, 0, 100, 0, 0, 0, 0, 0, 0, 0, 0, 0, 0, 0, 0⟩]
  obtain ⟨hb, hsome⟩ := decode_all_bare bare_start hrun
  exact hsome (by simp) (husable.empty hb)

end ApTelemetry.Receiver.Stations
