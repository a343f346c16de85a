import ApTelemetry.DropLog.Codel
import ApTelemetry.DropLog.Mac80211
import ApTelemetry.Sendudp.Streams

namespace ApTelemetry.Sendudp.Streams
open Lib DropLog

/-- The two drop logs `get_information` empties. -/
inductive Source where
  | mac80211
  | codel
  deriving DecidableEq

def Source.variant : Source → Variant
  | mac80211 => Mac80211.macLog
  | codel => Codel.codelLog

def Source.stream : Source → Stream
  | mac80211 => .dropMac
  | codel => .dropQueue

/-- A drop log, all packets logged in it, and the numbers of those that a record
was written for. -/
structure Log where
  list : DropList
  appended : List DpPacket
  reported : List Nat

/-- `dpt_queue_linger` or `dpt_mac_linger`, the walk over the list it gives and
`destroy_after_transmitted`. -/
def Log.collect (v : Variant) (l : Log) : Except Fault (List DpPacket × DropList) := do
  let (ptr, list) := v.dpt l.list
  let pkts ← list.heap.items list.heap.entries.length ptr
  .ok (pkts, if ptr.isSome then v.destroy list else list)

/-- The numbers of the packets whose offers were written. -/
def reportsOf (i : Stream) (first : Nat) (new : List Offer) : List Nat :=
  (((new.filter (·.stream = i)).zipIdx first).filter (·.1.written)).map Prod.snd

structure System where
  globals : Globals
  logs : Source → Log

/-- What a call finds besides the drop logs. -/
structure Dump where
  survey : DataSurvey
  iwlist : List DataIw
  beacon : List DataBeacon
  queueGlobal : List DataQueue

inductive Action where
  | dropped (source : Source) (block : Addr) (skb : Skb) (now : Clock)
  | tick (dump : Dump)

/-- The offers of the last call. -/
def newOffers (s t : Globals) : List Offer := t.offers.drop s.offers.length

def Log.report (l : Log) (i : Stream) (pkts : List DpPacket) (list : DropList)
    (new : List Offer) : Log :=
  { l with list, reported := l.reported ++ reportsOf i (l.appended.length - pkts.length) new }

/-- No packet is logged while the call runs. -/
def tick (mac : Mac) (s : System) (dump : Dump) : Except Fault System := do
  let (dpQue, queueList) ← (s.logs .codel).collect Source.codel.variant
  let (dpMac, macList) ← (s.logs .mac80211).collect Source.mac80211.variant
  let globals ← getInformation mac s.globals
    ⟨dump.survey, dump.iwlist, dpMac, dump.beacon, dump.queueGlobal, dpQue⟩
  let new := newOffers s.globals globals
  .ok {
    globals
    logs := fun
      | .mac80211 => (s.logs .mac80211).report .dropMac dpMac macList new
      | .codel => (s.logs .codel).report .dropQueue dpQue queueList new }

def exec (mac : Mac) (s : System) : Action → Except Fault System
  | .dropped source block skb now => do
    let l := s.logs source
    let pkt := droppedPacket source.variant.dpl skb now
    let list ← appendPacket source.variant.delete block pkt l.list
    .ok { s with
      logs := Function.update s.logs source { l with list, appended := l.appended ++ [pkt] } }
  | .tick dump => tick mac s dump

/-- A later packet may come at the time of an earlier one. -/
def enabled (s : System) : Action → Prop
  | .dropped source block _ now =>
    (∀ p ∈ (s.logs source).appended, p.stamp ≤ now.stamp) ∧
      ∀ l, dropAcknowledged source.variant.delete (s.logs source).list = .ok l →
        l.heap.lookup block = none
  | .tick _ => True

def start : System := ⟨loaded, fun _ => ⟨⟨∅, none, none, none, false, []⟩, [], []⟩⟩

def machine (mac : Mac) : Machine System Action Fault := ⟨start, enabled, exec mac⟩

/-- The packets on the list that no record was written for. -/
def Log.waiting (l : Log) : List DpPacket :=
  match l.list.heap.items l.list.heap.entries.length l.list.first with
  | .ok pkts =>
    ((pkts.zipIdx (l.appended.length - pkts.length)).filter (·.2 ∉ l.reported)).map Prod.fst
  | .error _ => []

/-- The records one of the streams emitted. -/
def emittedRecords (i : Stream) (new : List Offer) : List Wire.Record :=
  (new.filter fun o => o.stream = i ∧ o.written = true).map Offer.record

/-- A call writes one record for each station and for each packet not reported yet. -/
def ReportsAll (mac : Mac) (s : System) (a : Action) (r : Except Fault System) : Prop :=
  match a with
  | .dropped .. => True
  | .tick dump => ∃ t, r = .ok t ∧
      emittedRecords .iw (newOffers s.globals t.globals) = dump.iwlist.map (.iw mac · 0) ∧
      ∀ source : Source, emittedRecords source.stream (newOffers s.globals t.globals) =
        (s.logs source).waiting.map (.drops mac · 0)

/-- The times go up, from that of the last record of the stream. -/
def Increasing (last : LastSent) (stamps : List Stamp) : Prop :=
  (last.stamp :: stamps).Pairwise (· < ·)

/-- No two stations, and no two packets of a list, were stamped at one time. -/
def Apart (s : System) (a : Action) : Prop :=
  match a with
  | .dropped .. => True
  | .tick dump =>
    Increasing (s.globals.last .iw) (dump.iwlist.map fun iw => stamp iw.sec iw.usec) ∧
      ∀ source : Source, Increasing (s.globals.last source.stream)
        ((s.logs source).waiting.map DpPacket.stamp)

section New

variable {s u : Globals} {new : List Offer} {i : Stream}

/-- Of what a call offers, the items before this one in the call count, and the
last record of the stream. -/
theorem written_new (hs : Filtered s) (hu : Filtered u) (hnew : u.offers = s.offers ++ new)
    {pre post : List Offer} {o : Offer} (hsplit : new = pre ++ o :: post) : o.written = true ↔
      (s.last o.stream).stamp < o.stamp ∧ ∀ e ∈ pre, e.stream = o.stream → e.stamp < o.stamp := by
  have hlast := hs.last o.stream
  rw [Globals.stream] at hlast
  rw [hsplit, ← List.append_assoc] at hnew
  rw [hu.exact _ o post hnew, List.filter_append, highest_append, ← hlast, highest_lt_iff]
  simp only [List.mem_filter, decide_eq_true_eq, and_imp]

theorem all_written_iff (hs : Filtered s) (hu : Filtered u) (hnew : u.offers = s.offers ++ new)
    (i : Stream) : (∀ o ∈ new, o.stream = i → o.written = true) ↔
      Increasing (s.last i) ((new.filter (·.stream = i)).map Offer.stamp) := by
  unfold Increasing
  rw [List.pairwise_cons, List.pairwise_map, List.pairwise_filter]
  simp only [List.mem_map, List.mem_filter, decide_eq_true_eq]
  constructor
  · intro h
    constructor
    · rintro _ ⟨o, ⟨ho, rfl⟩, rfl⟩
      obtain ⟨pre, post, hsplit⟩ := List.append_of_mem ho
      exact ((written_new hs hu hnew hsplit).mp (h o ho rfl)).1
    · refine pairwise_of_split fun pre o post hsplit e he hfirst hsecond => ?_
      have hwritten := h o (hsplit ▸ List.mem_append_right _ List.mem_cons_self) hsecond
      exact ((written_new hs hu hnew hsplit).mp hwritten).2 e he (hfirst.trans hsecond.symm)
  · rintro ⟨hlast, hpairs⟩ o ho rfl
    obtain ⟨pre, post, rfl⟩ := List.append_of_mem ho
    refine (written_new hs hu hnew rfl).mpr ⟨hlast _ ⟨o, ⟨ho, rfl⟩, rfl⟩, fun e he hstream => ?_⟩
    exact (List.pairwise_append.mp hpairs).2.2 e he o List.mem_cons_self hstream rfl

theorem emitted_filter (i : Stream) (new : List Offer) : emittedRecords i new =
    ((new.filter (·.stream = i)).filter (·.written)).map Offer.record := by
  rw [emittedRecords, List.filter_filter]
  congr 2
  funext o
  simp [Bool.and_comm]

theorem emits_all_iff : emittedRecords i new = (new.filter (·.stream = i)).map Offer.record ↔
    ∀ o ∈ new, o.stream = i → o.written = true := by
  rw [emitted_filter]
  constructor
  · intro h o ho hstream
    have hlength := congrArg List.length h
    rw [List.length_map, List.length_map, List.length_filter_eq_length_iff] at hlength
    exact hlength o (List.mem_filter.mpr ⟨ho, decide_eq_true hstream⟩)
  · intro h
    rw [List.filter_eq_self.mpr]
    intro o ho
    obtain ⟨hmem, hstream⟩ := List.mem_filter.mp ho
    exact h o hmem (of_decide_eq_true hstream)

/-- The records offered on a stream are emitted exactly if their times increase. -/
theorem emits_iff (hs : Filtered s) (hu : Filtered u) (hnew : u.offers = s.offers ++ new)
    {records : List Wire.Record}
    (hrecords : (new.filter (·.stream = i)).map Offer.record = records) :
    emittedRecords i new = records ↔ Increasing (s.last i) (records.map Wire.Record.stamp) := by
  rw [← hrecords, emits_all_iff, all_written_iff hs hu hnew, List.map_map]
  rfl

/-- Nothing old is written again. -/
theorem none_written (hs : Filtered s) (hu : Filtered u) (hnew : u.offers = s.offers ++ new)
    (hold : ∀ o ∈ new, o.stream = i → o.stamp ≤ (s.last i).stamp) :
    ∀ o ∈ new, o.stream = i → o.written = false := by
  rintro o ho rfl
  obtain ⟨pre, post, hsplit⟩ := List.append_of_mem ho
  by_contra hwritten
  have hlt := ((written_new hs hu hnew hsplit).mp (by simpa using hwritten)).1
  exact absurd (hold o ho rfl) (not_le.mpr hlt)

theorem emits_none (h : ∀ o ∈ new, o.stream = i → o.written = false) :
    emittedRecords i new = [] := by
  rw [emitted_filter, List.map_eq_nil_iff, List.filter_eq_nil_iff]
  intro o ho
  obtain ⟨hmem, hstream⟩ := List.mem_filter.mp ho
  simp [h o hmem (of_decide_eq_true hstream)]

/-- What a stream was offered, from the items of the call. -/
theorem offered_records {items : List (Stream × Wire.Record)} (h : new.map Offer.item = items)
    (i : Stream) :
    (new.filter (·.stream = i)).map Offer.record = (items.filter (·.1 = i)).map Prod.snd := by
  rw [← h, List.filter_map, List.map_map]
  rfl

/-- The last record of a stream is not older than anything it was offered. -/
theorem last_after (hs : Filtered s) (hu : Filtered u) (hnew : u.offers = s.offers ++ new)
    (i : Stream) : (s.last i).stamp ≤ (u.last i).stamp ∧
      ∀ o ∈ new, o.stream = i → o.stamp ≤ (u.last i).stamp := by
  have hlast := hs.last i
  rw [Globals.stream] at hlast
  rw [hu.last, Globals.stream, hnew, List.filter_append, highest_append, ← hlast]
  refine ⟨le_highest.1, fun o ho hstream => le_highest.2 o ?_⟩
  exact List.mem_filter.mpr ⟨ho, decide_eq_true hstream⟩

end New

section Reports

variable {new : List Offer} {i : Stream} {first k : Nat}

theorem mem_reports (h : k ∈ reportsOf i first new) :
    first ≤ k ∧ k < first + (new.filter (·.stream = i)).length := by
  obtain ⟨⟨o, n⟩, ho, rfl⟩ := List.mem_map.mp h
  obtain ⟨hmem, -⟩ := List.mem_filter.mp ho
  exact ⟨List.le_snd_of_mem_zipIdx hmem, List.snd_lt_add_of_mem_zipIdx hmem⟩

theorem reports_all (h : ∀ o ∈ new, o.stream = i → o.written = true) (hle : first ≤ k)
    (hlt : k < first + (new.filter (·.stream = i)).length) : k ∈ reportsOf i first new := by
  have hk : k - first < (new.filter (·.stream = i)).length := by omega
  obtain ⟨o, ho⟩ : ∃ o, (new.filter (·.stream = i))[k - first]? = some o :=
    ⟨_, List.getElem?_eq_getElem hk⟩
  have hat : (o, k) ∈ (new.filter (·.stream = i)).zipIdx first := by
    rw [List.mk_mem_zipIdx_iff_le_and_getElem?_sub]
    exact ⟨hle, ho⟩
  obtain ⟨hmem, hstream⟩ := List.mem_filter.mp (List.mem_of_getElem? ho)
  exact List.mem_map.mpr ⟨(o, k), List.mem_filter.mpr
    ⟨hat, h o hmem (of_decide_eq_true hstream)⟩, rfl⟩

end Reports

/-- A log between two calls, none of which left a packet unreported. `gone` are
the packets deleted so far. -/
structure Kept (l : Log) (last : LastSent) (gone : List DpPacket)
    (nodes : List (Addr × DpPacket)) : Prop where
  holds : Holds l.list nodes
  appended : l.appended = gone ++ nodes.map Prod.snd
  known : ∀ k ∈ l.reported, k < l.appended.length
  pending : l.list.read = true → nodes ≠ [] ∧ l.list.call = l.list.last ∧
    (∀ k, gone.length ≤ k → k < l.appended.length → k ∈ l.reported) ∧
      ∀ p ∈ nodes.map Prod.snd, p.stamp ≤ last.stamp
  fresh : l.list.read = false → ∀ k ∈ l.reported, k < gone.length

namespace Kept

variable {l : Log} {last : LastSent} {gone : List DpPacket} {nodes : List (Addr × DpPacket)}

theorem items (h : Kept l last gone nodes) :
    l.list.heap.items l.list.heap.entries.length l.list.first = .ok (nodes.map Prod.snd) :=
  h.holds.chain.items_eq _ h.holds.chain.length_le

theorem first_number (h : Kept l last gone nodes) :
    l.appended.length - (nodes.map Prod.snd).length = gone.length := by
  rw [h.appended, List.length_append, Nat.add_sub_cancel]

theorem waiting_pending (h : Kept l last gone nodes) (hread : l.list.read = true) :
    l.waiting = [] := by
  rw [Log.waiting, h.items]
  simp only [h.first_number, List.map_eq_nil_iff, List.filter_eq_nil_iff]
  rintro ⟨p, k⟩ hk
  have hlt := List.snd_lt_add_of_mem_zipIdx hk
  rw [← List.length_append, ← h.appended] at hlt
  have hreported := (h.pending hread).2.2.1 k (List.le_snd_of_mem_zipIdx hk) hlt
  simpa using hreported

theorem waiting_fresh (h : Kept l last gone nodes) (hread : l.list.read = false) :
    l.waiting = nodes.map Prod.snd := by
  rw [Log.waiting, h.items]
  simp only [h.first_number]
  rw [List.filter_eq_self.mpr, List.zipIdx_map_fst]
  rintro ⟨p, k⟩ hk
  have hle := List.le_snd_of_mem_zipIdx hk
  refine decide_eq_true fun hreported => ?_
  exact absurd (h.fresh hread k hreported) (not_lt.mpr hle)

/-- The snapshot of a log gives its packets; it is acknowledged unless it is empty. -/
theorem collect_snapshot (h : Kept l last gone nodes) {v : Variant}
    (hdpt : v.dpt l.list = snapshot l.list) : ∃ list,
      l.collect v = .ok (nodes.map Prod.snd, list) ∧ Holds list nodes ∧
        (nodes = [] ∧ list.read = l.list.read ∨
          nodes ≠ [] ∧ list.read = true ∧ list.call = list.last) := by
  have hrun : l.collect v = .ok (nodes.map Prod.snd,
      if l.list.first.isSome then acknowledge { l.list with call := l.list.last }
      else { l.list with call := l.list.last }) := by
    simp only [Log.collect, hdpt, snapshot, h.items, v.acknowledges, bind, Except.bind]
  refine ⟨_, hrun, ?_⟩
  rw [h.holds.chain.start_eq]
  cases nodes with
  | nil => exact ⟨⟨h.holds.chain, h.holds.last⟩, .inl ⟨rfl, rfl⟩⟩
  | cons n rest => exact ⟨⟨h.holds.chain, h.holds.last⟩, .inr ⟨by simp, rfl, rfl⟩⟩

theorem collect_fresh (h : Kept l last gone nodes) (v : Variant) (hread : l.list.read = false) :
    ∃ list, l.collect v = .ok (nodes.map Prod.snd, list) ∧ Holds list nodes ∧
      (nodes = [] ∧ list.read = false ∨ nodes ≠ [] ∧ list.read = true ∧ list.call = list.last) := by
  rcases v.snapshots l.list with hdpt | ⟨hset, -⟩
  · rw [← hread]
    exact h.collect_snapshot hdpt
  · rw [hread] at hset
    cases hset

/-- A log that waits for its packets to be deleted is walked again, or passed over. -/
theorem collect_pending (h : Kept l last gone nodes) (v : Variant) (hread : l.list.read = true) :
    ∃ pkts list, l.collect v = .ok (pkts, list) ∧ Holds list nodes ∧
      (pkts = [] ∨ pkts = nodes.map Prod.snd) ∧ list.read = true ∧ list.call = list.last := by
  obtain ⟨hne, hcall, -⟩ := h.pending hread
  rcases v.snapshots l.list with hdpt | ⟨-, hdpt⟩
  · obtain ⟨list, hrun, hholds, hcases⟩ := h.collect_snapshot hdpt
    rcases hcases with ⟨hnil, -⟩ | ⟨-, hset, hlast⟩
    · exact absurd hnil hne
    · exact ⟨_, list, hrun, hholds, .inr rfl, hset, hlast⟩
  · refine ⟨[], l.list, ?_, h.holds, .inl rfl, hread, hcall⟩
    simp only [Log.collect, hdpt, bind, Except.bind]
    cases hentries : l.list.heap.entries.length <;> rfl

/-- A packet is logged: the packets of an acknowledged list are deleted first. -/
theorem append_packet (h : Kept l last gone nodes) (v : Variant) {block : Addr}
    (pkt : DpPacket) (hfresh : ∀ list, dropAcknowledged v.delete l.list = .ok list →
      list.heap.lookup block = none) : ∃ list gone' nodes',
      appendPacket v.delete block pkt l.list = .ok list ∧
        Kept { l with list, appended := l.appended ++ [pkt] } last gone' nodes' := by
  cases hread : l.list.read with
  | true =>
    obtain ⟨hne, hcall, -⟩ := h.pending hread
    obtain ⟨unable, hdelete⟩ := v.deletes
    obtain ⟨pre, ⟨a, x⟩, rfl⟩ : ∃ pre n, nodes = pre ++ [n] := by
      rcases List.eq_nil_or_concat nodes with hnil | ⟨pre, n, hconcat⟩
      · exact absurd hnil hne
      · exact ⟨pre, n, hconcat.trans List.concat_eq_append⟩
    have hat : l.list.call = some a := by
      rw [hcall, h.holds.last]
      simp
    obtain ⟨rest, hrest, hempty, hclear, -⟩ := delete_before_call_holds h.holds hat unable
    have hdrop : dropAcknowledged v.delete l.list = .ok rest := by
      rw [dropAcknowledged, if_pos hread, hdelete, hrest]
    obtain ⟨list, hlink, hholds, hsame, -⟩ := link_packet_holds hempty block pkt (hfresh _ hdrop)
    refine ⟨list, l.appended, [(block, pkt)], ?_, hholds, rfl, ?_, ?_, fun _ => h.known⟩
    · rw [appendPacket, hdrop]
      exact hlink
    · intro k hk
      have hlt := h.known k hk
      simp only [List.length_append]
      omega
    · intro hset
      rw [hsame, hclear] at hset
      cases hset
  | false =>
    have hdrop : dropAcknowledged v.delete l.list = .ok l.list := by
      rw [dropAcknowledged, if_neg (by simp [hread])]
    obtain ⟨list, hlink, hholds, hsame, -⟩ := link_packet_holds h.holds block pkt (hfresh _ hdrop)
    refine ⟨list, gone, nodes ++ [(block, pkt)], ?_, hholds, ?_, ?_, ?_, fun _ => h.fresh hread⟩
    · rw [appendPacket, hdrop]
      exact hlink
    · simp [h.appended]
    · intro k hk
      have hlt := h.known k hk
      simp only [List.length_append]
      omega
    · intro hset
      rw [hsame, hread] at hset
      cases hset

end Kept

section Tick

variable {mac : Mac} {s u : Globals} {new : List Offer} {i : Stream} {l : Log}
  {gone pkts : List DpPacket} {nodes : List (Addr × DpPacket)} {list : DropList}

/-- The offers of a stream are the packets collected. -/
def Covers (mac : Mac) (i : Stream) (pkts : List DpPacket) (new : List Offer) : Prop :=
  (new.filter (·.stream = i)).map Offer.record = pkts.map (.drops mac · 0)

theorem Covers.stamps (h : Covers mac i pkts new) :
    (new.filter (·.stream = i)).map Offer.stamp = pkts.map DpPacket.stamp := by
  have hstamps := congrArg (List.map Wire.Record.stamp) h
  rwa [List.map_map, List.map_map] at hstamps

theorem Covers.length (h : Covers mac i pkts new) :
    (new.filter (·.stream = i)).length = pkts.length := by
  have hlength := congrArg List.length h
  rwa [List.length_map, List.length_map] at hlength

theorem Covers.mem (h : Covers mac i pkts new) {o : Offer} (ho : o ∈ new) (hstream : o.stream = i) :
    ∃ pkt ∈ pkts, pkt.stamp = o.stamp := by
  have hmem : o.stamp ∈ (new.filter (·.stream = i)).map Offer.stamp :=
    List.mem_map_of_mem (List.mem_filter.mpr ⟨ho, decide_eq_true hstream⟩)
  rw [h.stamps] at hmem
  exact List.mem_map.mp hmem

theorem Covers.offered (h : Covers mac i pkts new) {pkt : DpPacket} (hp : pkt ∈ pkts) :
    ∃ o ∈ new, o.stream = i ∧ o.stamp = pkt.stamp := by
  have hmem : pkt.stamp ∈ pkts.map DpPacket.stamp := List.mem_map_of_mem hp
  rw [← h.stamps] at hmem
  obtain ⟨o, ho, hstamp⟩ := List.mem_map.mp hmem
  obtain ⟨ho, hstream⟩ := List.mem_filter.mp ho
  exact ⟨o, ho, of_decide_eq_true hstream, hstamp⟩

theorem known_report (hknown : ∀ k ∈ l.reported, k < l.appended.length) (h : Covers mac i pkts new)
    (hle : pkts.length ≤ l.appended.length) :
    ∀ k ∈ (l.report i pkts list new).reported, k < l.appended.length := by
  intro k hk
  rcases List.mem_append.mp hk with hk | hk
  · exact hknown k hk
  · have hlt := (mem_reports hk).2
    rw [h.length] at hlt
    omega

theorem Kept.length_le (h : Kept l (s.last i) gone nodes) :
    (nodes.map Prod.snd).length ≤ l.appended.length := by
  rw [h.appended, List.length_append]
  exact Nat.le_add_left ..

/-- A log nothing is pending in: its packets are all waiting. -/
theorem Kept.report_fresh (h : Kept l (s.last i) gone nodes) (hread : l.list.read = false)
    (hs : Filtered s) (hu : Filtered u) (hnew : u.offers = s.offers ++ new)
    (hcovers : Covers mac i (nodes.map Prod.snd) new) (hholds : Holds list nodes)
    (hlist : nodes = [] ∧ list.read = false ∨
      nodes ≠ [] ∧ list.read = true ∧ list.call = list.last) :
    (emittedRecords i new = l.waiting.map (.drops mac · 0) ↔
        Increasing (s.last i) (l.waiting.map DpPacket.stamp)) ∧
      (Increasing (s.last i) (l.waiting.map DpPacket.stamp) →
        Kept (l.report i (nodes.map Prod.snd) list new) (u.last i) gone nodes) := by
  have hemits := emits_iff hs hu hnew hcovers
  rw [← h.waiting_fresh hread, List.map_map] at hemits
  refine ⟨hemits, fun hincreasing => ?_⟩
  have hwritten : ∀ o ∈ new, o.stream = i → o.written = true := by
    rw [all_written_iff hs hu hnew, hcovers.stamps, ← h.waiting_fresh hread]
    exact hincreasing
  refine ⟨hholds, h.appended, known_report h.known hcovers h.length_le, fun hset => ?_,
    fun hclear => ?_⟩
  · rcases hlist with ⟨-, hclear⟩ | ⟨hne, -, hcall⟩
    · exact absurd (hclear.symm.trans hset) (by simp)
    · refine ⟨hne, hcall, fun k hle hlt => List.mem_append_right _ ?_, fun p hp => ?_⟩
      · refine reports_all hwritten (h.first_number ▸ hle) ?_
        rw [hcovers.length, h.first_number, ← List.length_append, ← h.appended]
        exact hlt
      · obtain ⟨o, ho, hstream, hstamp⟩ := hcovers.offered hp
        exact hstamp ▸ (last_after hs hu hnew i).2 o ho hstream
  · rcases hlist with ⟨hnil, -⟩ | ⟨-, hset, -⟩
    · intro k hk
      rcases List.mem_append.mp hk with hk | hk
      · exact h.fresh hread k hk
      · have hbounds := mem_reports hk
        rw [hcovers.length, hnil] at hbounds
        simp at hbounds
        omega
    · exact absurd (hclear.symm.trans hset) (by simp)

/-- A log whose packets are all reported stays so. -/
theorem Kept.report_pending (h : Kept l (s.last i) gone nodes) (hread : l.list.read = true)
    (hs : Filtered s) (hu : Filtered u) (hnew : u.offers = s.offers ++ new)
    (hpkts : pkts = [] ∨ pkts = nodes.map Prod.snd) (hcovers : Covers mac i pkts new)
    (hholds : Holds list nodes) (hset : list.read = true) (hcall : list.call = list.last) :
    emittedRecords i new = [] ∧ Kept (l.report i pkts list new) (u.last i) gone nodes := by
  obtain ⟨hne, -, hreported, hold⟩ := h.pending hread
  have hin : pkts.length ≤ l.appended.length ∧ ∀ p ∈ pkts, p.stamp ≤ (s.last i).stamp := by
    rcases hpkts with rfl | rfl
    · exact ⟨Nat.zero_le _, by simp⟩
    · exact ⟨h.length_le, hold⟩
  have hnone : ∀ o ∈ new, o.stream = i → o.written = false := by
    refine none_written hs hu hnew fun o ho hstream => ?_
    obtain ⟨pkt, hp, hstamp⟩ := hcovers.mem ho hstream
    exact hstamp ▸ hin.2 pkt hp
  refine ⟨emits_none hnone, hholds, h.appended, known_report h.known hcovers hin.1, fun _ => ?_,
    fun hclear => ?_⟩
  · refine ⟨hne, hcall, fun k hle hlt => List.mem_append_left _ (hreported k hle hlt), ?_⟩
    exact fun p hp => (hold p hp).trans (last_after hs hu hnew i).1
  · exact absurd (hclear.symm.trans hset) (by simp)

/-- What a call does with one log, whatever else it offers. -/
theorem Kept.collected (h : Kept l (s.last i) gone nodes) (v : Variant) (hs : Filtered s) :
    ∃ pkts list, l.collect v = .ok (pkts, list) ∧
      ∀ u new, Filtered u → u.offers = s.offers ++ new → Covers mac i pkts new →
        (emittedRecords i new = l.waiting.map (.drops mac · 0) ↔
            Increasing (s.last i) (l.waiting.map DpPacket.stamp)) ∧
          (Increasing (s.last i) (l.waiting.map DpPacket.stamp) →
            Kept (l.report i pkts list new) (u.last i) gone nodes) := by
  cases hread : l.list.read with
  | false =>
    obtain ⟨list, hrun, hholds, hlist⟩ := h.collect_fresh v hread
    exact ⟨_, list, hrun, fun u new hu hnew hcovers =>
      h.report_fresh hread hs hu hnew hcovers hholds hlist⟩
  | true =>
    obtain ⟨pkts, list, hrun, hholds, hpkts, hset, hcall⟩ := h.collect_pending v hread
    refine ⟨pkts, list, hrun, fun u new hu hnew hcovers => ?_⟩
    obtain ⟨hnone, hkept⟩ :=
      h.report_pending hread hs hu hnew hpkts hcovers hholds hset hcall
    refine ⟨?_, fun _ => hkept⟩
    rw [h.waiting_pending hread]
    exact iff_of_true hnone (List.pairwise_singleton _ _)

end Tick

/-- What holds between two actions. -/
structure Sound (s : System) : Prop where
  filtered : Filtered s.globals
  kept : ∀ source : Source, ∃ gone nodes,
    Kept (s.logs source) (s.globals.last source.stream) gone nodes

theorem start_sound : Sound start where
  filtered := loaded_filtered
  kept _ := ⟨[], [], ⟨.nil none, rfl⟩, rfl, by simp [start], by simp [start], by simp [start]⟩

theorem items_stream (mac : Mac) (control : Nat) (t : Tick) :
    ((t.items mac control).filter (·.1 = .iw)).map Prod.snd = t.iwlist.map (.iw mac · 0) ∧
    ((t.items mac control).filter (·.1 = .dropMac)).map Prod.snd = t.dpMac.map (.drops mac · 0) ∧
    ((t.items mac control).filter (·.1 = .dropQueue)).map Prod.snd =
      t.dpQue.map (.drops mac · 0) := by
  have hdump : ∀ i, ((if t.iwlist ≠ [] then (Stream.survey, Wire.Record.survey mac t.survey) ::
        t.iwlist.map fun iw => (.iw, .iw mac iw 0) else []).filter (·.1 = i)) =
      if i = .survey ∧ t.iwlist ≠ [] then [(.survey, .survey mac t.survey)]
      else if i = .iw then t.iwlist.map fun iw => (.iw, .iw mac iw 0) else [] := by
    intro i
    cases t.iwlist <;> cases i <;> simp [List.filter_map, Function.comp_def]
  simp only [Tick.items, List.filter_append, hdump]
  simp [List.filter_map, Function.comp_def]

/-- One call. -/
theorem tick_step {s : System} (h : Sound s) (mac : Mac) (dump : Dump) :
    ∃ t, tick mac s dump = .ok t ∧ (ReportsAll mac s (.tick dump) (.ok t) ↔ Apart s (.tick dump)) ∧
      (Apart s (.tick dump) → Sound t) := by
  obtain ⟨goneQue, nodesQue, hque⟩ := h.kept .codel
  obtain ⟨goneMac, nodesMac, hmac⟩ := h.kept .mac80211
  obtain ⟨dpQue, queueList, hrunQue, hqueues⟩ := hque.collected Source.codel.variant h.filtered
  obtain ⟨dpMac, macList, hrunMac, hmacs⟩ := hmac.collected Source.mac80211.variant h.filtered
  obtain ⟨u, hrun, hoffered⟩ := get_information_step h.filtered mac
    ⟨dump.survey, dump.iwlist, dpMac, dump.beacon, dump.queueGlobal, dpQue⟩
  obtain ⟨new, hnew, hitems⟩ := hoffered.offers
  have hnew : u.offers = s.globals.offers ++ new := hnew
  obtain ⟨hiw, hcoversMac, hcoversQue⟩ := items_stream mac (nextControl s.globals.controlBeacon)
    ⟨dump.survey, dump.iwlist, dpMac, dump.beacon, dump.queueGlobal, dpQue⟩
  obtain ⟨hiffQue, hkeptQue⟩ := hqueues u new hoffered.filtered hnew
    ((offered_records hitems .dropQueue).trans hcoversQue)
  obtain ⟨hiffMac, hkeptMac⟩ := hmacs u new hoffered.filtered hnew
    ((offered_records hitems .dropMac).trans hcoversMac)
  have hiw := (offered_records hitems .iw).trans hiw
  have hiffIw : emittedRecords .iw new = dump.iwlist.map (.iw mac · 0) ↔
      Increasing (s.globals.last .iw) (dump.iwlist.map fun iw => stamp iw.sec iw.usec) := by
    rw [emits_iff h.filtered hoffered.filtered hnew hiw, List.map_map]
    rfl
  have hlast : newOffers s.globals u = new := by
    rw [newOffers, hnew, List.drop_left]
  refine ⟨⟨u, fun
    | .mac80211 => (s.logs .mac80211).report .dropMac dpMac macList new
    | .codel => (s.logs .codel).report .dropQueue dpQue queueList new⟩, ?_, ?_, ?_⟩
  · simp only [tick, hrunQue, hrunMac, hrun, hlast, bind, Except.bind]
  · constructor
    · rintro ⟨t, ht, hdump, hlogs⟩
      obtain rfl := Except.ok.inj ht
      rw [hlast] at hdump hlogs
      refine ⟨hiffIw.mp hdump, fun source => ?_⟩
      cases source with
      | mac80211 => exact hiffMac.mp (hlogs .mac80211)
      | codel => exact hiffQue.mp (hlogs .codel)
    · rintro ⟨hdump, hlogs⟩
      refine ⟨_, rfl, ?_, fun source => ?_⟩
      · rw [hlast]
        exact hiffIw.mpr hdump
      · rw [hlast]
        cases source with
        | mac80211 => exact hiffMac.mpr (hlogs .mac80211)
        | codel => exact hiffQue.mpr (hlogs .codel)
  · rintro ⟨-, hlogs⟩
    refine ⟨hoffered.filtered, fun source => ?_⟩
    cases source with
    | mac80211 => exact ⟨_, _, hkeptMac (hlogs .mac80211)⟩
    | codel => exact ⟨_, _, hkeptQue (hlogs .codel)⟩

theorem dropped_step {s : System} (h : Sound s) (mac : Mac) {source : Source} {block : Addr}
    {skb : Skb} {now : Clock} (hen : enabled s (.dropped source block skb now)) :
    ∃ t, exec mac s (.dropped source block skb now) = .ok t ∧ Sound t := by
  obtain ⟨gone, nodes, hkept⟩ := h.kept source
  obtain ⟨list, gone', nodes', hrun, hkept'⟩ := hkept.append_packet source.variant
    (droppedPacket source.variant.dpl skb now) hen.2
  let logged : Log := { s.logs source with
    list
    appended := (s.logs source).appended ++ [droppedPacket source.variant.dpl skb now] }
  refine ⟨{ s with logs := Function.update s.logs source logged }, ?_, h.filtered,
    fun other => ?_⟩
  · simp only [exec, hrun, bind, Except.bind, logged]
  by_cases hsame : other = source
  · subst hsame
    simp only [Function.update_self]
    exact ⟨gone', nodes', hkept'⟩
  · simp only [Function.update_of_ne hsame]
    exact h.kept other

/-- In every run, each call writes a record for every station and every packet
not reported yet exactly if their times go up. -/
theorem reports_all_iff (mac : Mac) (actions : List Action) :
    (machine mac).Throughout (ReportsAll mac) start actions ↔
      (machine mac).Throughout (fun s a _ => Apart s a) start actions := by
  refine Machine.throughout_iff Sound (fun s a h _ => ?_) (fun s a t h hen hapart hrun => ?_)
    start_sound actions
  · cases a with
    | dropped => exact Iff.rfl
    | tick dump =>
      obtain ⟨t, hrun, hiff, -⟩ := tick_step h mac dump
      have hrun : (machine mac).exec s (.tick dump) = .ok t := hrun
      rw [hrun]
      exact hiff
  · cases a with
    | dropped =>
      obtain ⟨u, hu, hsound⟩ := dropped_step h mac hen
      exact Except.ok.inj (hu.symm.trans hrun) ▸ hsound
    | tick dump =>
      obtain ⟨u, hu, -, hsound⟩ := tick_step h mac dump
      exact Except.ok.inj (hu.symm.trans hrun) ▸ hsound hapart

/-- A station that was dumped at second 1. -/
def dumped (station : Mac) : DataIw :=
  ⟨station, 0, 1, 0, 0, 0, 0, 0, 0, 0, 0, 0, 0, 0, 0⟩

/-- Two stations dumped in one microsecond. -/
def twoStations : Dump where
  survey := ⟨0, 1, 0, 0, 0, 0, 0, 0, 0, 0, 0, 0⟩
  iwlist := [dumped ⟨2, 0, 0, 0, 0, 1⟩, dumped ⟨2, 0, 0, 0, 0, 2⟩]
  beacon := []
  queueGlobal := []

theorem second_station_dropped : ¬ ∀ mac actions,
    (machine mac).Throughout (ReportsAll mac) start actions := by
  intro h
  have hreports := (h ⟨2, 0, 0, 0, 0, 0⟩ [.tick twoStations] trivial).1
  obtain ⟨t, hrun, hiff, -⟩ := tick_step start_sound ⟨2, 0, 0, 0, 0, 0⟩ twoStations
  have hrun : (machine ⟨2, 0, 0, 0, 0, 0⟩).exec start (.tick twoStations) = .ok t := hrun
  rw [hrun] at hreports
  obtain ⟨hpairs, -⟩ := hiff.mp hreports
  have hlt := List.rel_of_pairwise_cons (List.pairwise_cons.mp hpairs).2 (List.mem_singleton_self _)
  exact lt_irrefl _ hlt

end ApTelemetry.Sendudp.Streams
