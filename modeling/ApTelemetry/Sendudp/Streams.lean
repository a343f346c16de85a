import ApTelemetry.Sendudp.GetInformation
import ApTelemetry.Sendudp.LastSent
import ApTelemetry.Sendudp.PublicBuffer
import Mathlib.Data.List.Sort

namespace ApTelemetry.Sendudp.Streams
open Lib

/-- The streams with a pair of `last_sec`/`last_usec` globals that is looked at. -/
inductive Stream where
  | survey
  | iw
  | beacon
  | dropMac
  | dropQueue
  deriving DecidableEq

/-- A record offered to the filter of its stream, and whether it was written. -/
structure Offer where
  stream : Stream
  record : Wire.Record
  written : Bool

/-- The globals of a run of `get_information`. Nothing reads `offers` and
`written`, the records offered and the records written so far. -/
structure Globals where
  controlBeacon : Nat
  last : Stream → LastSent
  queuePrevious : List DataQueue
  buffer : PublicBuffer
  offers : List Offer
  written : List Wire.Record

/-- What one call finds. `beacon` is looked at in every tenth call only. -/
structure Tick where
  survey : DataSurvey
  iwlist : List DataIw
  dpMac : List DpPacket
  beacon : List DataBeacon
  queueGlobal : List DataQueue
  dpQue : List DpPacket

def write (s : Globals) (t : Wire.Record) : Except Fault Globals := do
  let buffer ← write2PublicBuffer s.buffer t.bytes
  .ok { s with buffer, written := s.written ++ [t] }

/-- The two branches around `write_2_public_buffer` that every stream has. -/
def offer (i : Stream) (s : Globals) (t : Wire.Record) : Except Fault Globals :=
  match (s.last i).offer t.sec t.usec with
  | some last => do
    let s ← write s t
    .ok { s with
      last := Function.update s.last i last
      offers := s.offers ++ [⟨i, t, true⟩] }
  | none => .ok { s with offers := s.offers ++ [⟨i, t, false⟩] }

def compareAndIwlist (mac : Mac) (ptr : List DataIw) (sur : DataSurvey) (s : Globals) :
    Except Fault Globals := do
  let s ← offer .survey s (.survey mac sur)
  (ptr.map (.iw mac · 0)).foldlM (offer .iw) s

def compareAndBeacon (mac : Mac) (ptr : List DataBeacon) (s : Globals) : Except Fault Globals :=
  (ptr.map (.beacon mac · 0)).foldlM (offer .beacon) s

def compareAndDrops (mac : Mac) (i : Stream) (ptr : List DpPacket) (s : Globals) :
    Except Fault Globals :=
  (ptr.map (.drops mac · 0)).foldlM (offer i) s

/-- The queue records have no filter. The sample that is filled is left out here. -/
def compareQueues (mac : Mac) (queueGlobal : List DataQueue) (s : Globals) :
    Except Fault Globals :=
  let (queuePrevious, _, records) := compareAndQueue queueGlobal s.queuePrevious zeroApstates
  (records.map (.queue mac ·)).foldlM write { s with queuePrevious }

/-- The part under `if (iwlist)`. -/
def dumpPart (mac : Mac) (tick : Tick) (s : Globals) : Except Fault Globals :=
  if tick.iwlist ≠ [] then compareAndIwlist mac tick.iwlist tick.survey s else .ok s

def nextControl (controlBeacon : Nat) : Nat := (controlBeacon + 1) % 10000000

def getInformation (mac : Mac) (s : Globals) (tick : Tick) : Except Fault Globals := do
  let s := { s with controlBeacon := nextControl s.controlBeacon }
  let beacon := if s.controlBeacon % 10 = 0 then tick.beacon else []
  let s ← dumpPart mac tick s
  let s ← compareAndDrops mac .dropMac tick.dpMac s
  let s ← compareAndBeacon mac beacon s
  let s ← compareQueues mac tick.queueGlobal s
  compareAndDrops mac .dropQueue tick.dpQue s

/-- The module as it is loaded. -/
def loaded : Globals where
  controlBeacon := 0
  last := fun _ => ⟨0, 0⟩
  queuePrevious := List.replicate 6 zeroQueue
  buffer := emptyBuffer
  offers := []
  written := []

def Offer.stamp (o : Offer) : Stamp := o.record.stamp

/-- What a stream was offered. -/
def Globals.stream (s : Globals) (i : Stream) : List Offer := s.offers.filter (·.stream = i)

/-- The items of a call, in the order they are offered in. The call is the one
after `controlBeacon` was set. -/
def Tick.items (mac : Mac) (controlBeacon : Nat) (tick : Tick) : List (Stream × Wire.Record) :=
  (if tick.iwlist ≠ [] then
    (.survey, .survey mac tick.survey) :: tick.iwlist.map fun iw => (.iw, .iw mac iw 0)
  else []) ++
  (tick.dpMac.map fun pkt => (.dropMac, .drops mac pkt 0)) ++
  ((if controlBeacon % 10 = 0 then tick.beacon else []).map fun b => (.beacon, .beacon mac b 0)) ++
  tick.dpQue.map fun pkt => (.dropQueue, .drops mac pkt 0)

/-- The items of a run. -/
def items (mac : Mac) (ticks : List Tick) : List (Stream × Wire.Record) :=
  (ticks.zipIdx 1).flatMap fun (tick, n) => tick.items mac (n % 10000000)

/-- What every offer keeps. -/
structure Filtered (s : Globals) : Prop where
  last : ∀ i, (s.last i).stamp = highest Offer.stamp (stamp 0 0) (s.stream i)
  exact : ∀ pre o post, s.offers = pre ++ o :: post →
    (o.written = true ↔
      highest Offer.stamp (stamp 0 0) (pre.filter (·.stream = o.stream)) < o.stamp)
  records : s.written.filter (·.category ≠ .queue) =
    (s.offers.filter (·.written)).map Offer.record
  batched : Batched (s.written.map sealed) s.buffer

def Offer.item (o : Offer) : Stream × Wire.Record := (o.stream, o.record)

/-- A part of a call has offered the items, and nothing else to a filter. -/
structure Offered (s u : Globals) (items : List (Stream × Wire.Record)) : Prop where
  filtered : Filtered u
  control : u.controlBeacon = s.controlBeacon
  offers : ∃ new, u.offers = s.offers ++ new ∧ new.map Offer.item = items

section Parts

variable {s u v : Globals} {i : Stream} {t : Wire.Record} {xs ys : List (Stream × Wire.Record)}

theorem Offered.refl (h : Filtered s) : Offered s s [] :=
  ⟨h, rfl, [], (List.append_nil _).symm, rfl⟩

theorem Offered.trans (h : Offered s u xs) (h' : Offered u v ys) : Offered s v (xs ++ ys) := by
  obtain ⟨new, hnew, rfl⟩ := h.offers
  obtain ⟨new', hnew', rfl⟩ := h'.offers
  refine ⟨h'.filtered, h'.control.trans h.control, new ++ new', ?_, List.map_append⟩
  rw [hnew', hnew, List.append_assoc]

theorem write_ok (h : Batched (s.written.map sealed) s.buffer) (t : Wire.Record) :
    ∃ buffer, write s t = .ok { s with buffer, written := s.written ++ [t] } ∧
      Batched ((s.written ++ [t]).map sealed) buffer := by
  obtain ⟨buffer, hrun, hbatched⟩ := write_2_public_buffer_step _ _ (sealed t) h
  have hbytes : write2PublicBuffer s.buffer t.bytes = .ok buffer := hrun
  refine ⟨buffer, ?_, by simpa using hbatched⟩
  rw [write, hbytes]
  rfl

theorem stream_concat (j : Stream) (o : Offer) (h : u.offers = s.offers ++ [o]) :
    u.stream j = s.stream j ++ if o.stream = j then [o] else [] := by
  rw [Globals.stream, h, List.filter_append]
  by_cases hj : o.stream = j <;> simp [Globals.stream, hj]

/-- One more offer: it is written exactly if it is newer than the last one written. -/
theorem Filtered.append (h : Filtered s) {w : Bool} (hcategory : t.category ≠ .queue)
    (hw : w = true ↔ (s.last i).stamp < t.stamp) (hoffers : u.offers = s.offers ++ [⟨i, t, w⟩])
    (hlast : ∀ j, (u.last j).stamp =
      if i = j then max (s.last j).stamp t.stamp else (s.last j).stamp)
    (hwritten : u.written = s.written ++ if w then [t] else [])
    (hbatched : Batched (u.written.map sealed) u.buffer) : Filtered u where
  last j := by
    rw [hlast, h.last, stream_concat j _ hoffers]
    by_cases hj : i = j
    · rw [if_pos hj, if_pos hj, highest_concat]
      rfl
    · rw [if_neg hj, if_neg hj, List.append_nil]
  exact pre o post hsplit := by
    rw [hoffers] at hsplit
    rcases List.eq_nil_or_concat post with rfl | ⟨init, last, rfl⟩
    · obtain ⟨rfl, hlast⟩ := List.append_inj' hsplit rfl
      obtain rfl := List.singleton_inj.mp hlast
      have hhighest := h.last i
      rw [Globals.stream] at hhighest
      rw [hw, hhighest]
      rfl
    · rw [List.concat_eq_append, ← List.cons_append, ← List.append_assoc] at hsplit
      exact h.exact pre o init (List.append_inj' hsplit rfl).1
  records := by
    rw [hwritten, hoffers, List.filter_append, List.filter_append, List.map_append, h.records]
    cases w <;> simp [hcategory]
  batched := hbatched

theorem offer_written (hnew : (s.last i).stamp < t.stamp)
    (h : Batched (s.written.map sealed) s.buffer) : ∃ buffer, offer i s t = .ok { s with
        last := Function.update s.last i ⟨t.sec, t.usec⟩
        buffer
        offers := s.offers ++ [⟨i, t, true⟩]
        written := s.written ++ [t] } ∧
      Batched ((s.written ++ [t]).map sealed) buffer := by
  obtain ⟨buffer, hwrite, hbatched⟩ := write_ok h t
  refine ⟨buffer, ?_, hbatched⟩
  simp only [offer, LastSent.offer_newer hnew, hwrite, bind, Except.bind]

theorem offer_suppressed (hold : ¬ (s.last i).stamp < t.stamp) :
    offer i s t = .ok { s with offers := s.offers ++ [⟨i, t, false⟩] } := by
  simp only [offer, LastSent.offer_older hold]

theorem offer_step (h : Filtered s) (i : Stream) (hcategory : t.category ≠ .queue) :
    ∃ u, offer i s t = .ok u ∧ Offered s u [(i, t)] := by
  by_cases hnew : (s.last i).stamp < t.stamp
  · obtain ⟨buffer, hrun, hbatched⟩ := offer_written hnew h.batched
    refine ⟨_, hrun, ?_, rfl, [⟨i, t, true⟩], rfl, rfl⟩
    refine h.append hcategory (iff_of_true rfl hnew) rfl (fun j => ?_) rfl hbatched
    by_cases hj : i = j
    · subst hj
      rw [if_pos rfl, max_eq_right hnew.le]
      simp only [Function.update_self]
      rfl
    · simp only [if_neg hj, Function.update_of_ne (Ne.symm hj)]
  · refine ⟨_, offer_suppressed hnew, ?_, rfl, [⟨i, t, false⟩], rfl, rfl⟩
    refine h.append hcategory (iff_of_false (by simp) hnew) rfl (fun j => ?_)
      (List.append_nil _).symm h.batched
    by_cases hj : i = j
    · subst hj
      rw [if_pos rfl, max_eq_left (not_lt.mp hnew)]
    · rw [if_neg hj]

theorem offers_run (h : Filtered s) (i : Stream) (records : List Wire.Record)
    (hcategory : ∀ t ∈ records, t.category ≠ .queue) :
    ∃ u, records.foldlM (offer i) s = .ok u ∧ Offered s u (records.map (i, ·)) := by
  induction records generalizing s with
  | nil => exact ⟨s, rfl, .refl h⟩
  | cons t rest ih =>
    obtain ⟨u, hu, hone⟩ := offer_step h i (hcategory t List.mem_cons_self)
    obtain ⟨v, hv, hrest⟩ := ih hone.filtered fun t ht => hcategory t (List.mem_cons_of_mem _ ht)
    refine ⟨v, ?_, hone.trans hrest⟩
    rw [List.foldlM_cons, hu]
    exact hv

/-- Queue records go past the filters. -/
theorem write_queue (h : Filtered s) (hcategory : t.category = .queue) :
    ∃ u, write s t = .ok u ∧ Offered s u [] := by
  obtain ⟨buffer, hwrite, hbatched⟩ := write_ok h.batched t
  refine ⟨_, hwrite, ⟨h.last, h.exact, ?_, hbatched⟩, rfl, [], (List.append_nil _).symm, rfl⟩
  rw [List.filter_append, h.records]
  simp [hcategory]

theorem queues_run (h : Filtered s) (records : List Wire.Record)
    (hcategory : ∀ t ∈ records, t.category = .queue) :
    ∃ u, records.foldlM write s = .ok u ∧ Offered s u [] := by
  induction records generalizing s with
  | nil => exact ⟨s, rfl, .refl h⟩
  | cons t rest ih =>
    obtain ⟨u, hu, hone⟩ := write_queue h (hcategory t List.mem_cons_self)
    obtain ⟨v, hv, hrest⟩ := ih hone.filtered fun t ht => hcategory t (List.mem_cons_of_mem _ ht)
    refine ⟨v, ?_, hone.trans hrest⟩
    rw [List.foldlM_cons, hu]
    exact hv

end Parts

section Run

variable {s : Globals}

theorem compare_queues_step (h : Filtered s) (mac : Mac) (queueGlobal : List DataQueue) :
    ∃ u, compareQueues mac queueGlobal s = .ok u ∧ Offered s u [] := by
  obtain ⟨queuePrevious, xx, records, hout⟩ : ∃ queuePrevious xx records,
    compareAndQueue queueGlobal s.queuePrevious zeroApstates = (queuePrevious, xx, records) :=
    ⟨_, _, _, rfl⟩
  have hstored : Filtered { s with queuePrevious } := ⟨h.last, h.exact, h.records, h.batched⟩
  obtain ⟨u, hu, hoffered⟩ := queues_run hstored (records.map (.queue mac ·)) (by
    intro t ht
    obtain ⟨q, -, rfl⟩ := List.mem_map.mp ht
    rfl)
  refine ⟨u, ?_, hoffered.filtered, hoffered.control, hoffered.offers⟩
  rw [compareQueues, hout]
  exact hu

theorem compare_drops_step (h : Filtered s) (mac : Mac) (i : Stream) (ptr : List DpPacket) :
    ∃ u, compareAndDrops mac i ptr s = .ok u ∧
      Offered s u (ptr.map fun pkt => (i, .drops mac pkt 0)) := by
  obtain ⟨u, hu, hoffered⟩ := offers_run h i (ptr.map (.drops mac · 0)) (by
    intro t ht
    obtain ⟨pkt, -, rfl⟩ := List.mem_map.mp ht
    simp [Wire.Record.category])
  refine ⟨u, hu, ?_⟩
  rwa [List.map_map] at hoffered

theorem compare_beacon_step (h : Filtered s) (mac : Mac) (ptr : List DataBeacon) :
    ∃ u, compareAndBeacon mac ptr s = .ok u ∧
      Offered s u (ptr.map fun b => (.beacon, .beacon mac b 0)) := by
  obtain ⟨u, hu, hoffered⟩ := offers_run h .beacon (ptr.map (.beacon mac · 0)) (by
    intro t ht
    obtain ⟨b, -, rfl⟩ := List.mem_map.mp ht
    simp [Wire.Record.category])
  refine ⟨u, hu, ?_⟩
  rwa [List.map_map] at hoffered

theorem compare_iwlist_step (h : Filtered s) (mac : Mac) (ptr : List DataIw) (sur : DataSurvey) :
    ∃ u, compareAndIwlist mac ptr sur s = .ok u ∧
      Offered s u ((.survey, .survey mac sur) :: ptr.map fun iw => (.iw, .iw mac iw 0)) := by
  obtain ⟨u, hu, hsurvey⟩ := offer_step (t := .survey mac sur) h .survey (by
    simp [Wire.Record.category])
  obtain ⟨v, hv, hoffered⟩ := offers_run hsurvey.filtered .iw (ptr.map (.iw mac · 0)) (by
    intro t ht
    obtain ⟨iw, -, rfl⟩ := List.mem_map.mp ht
    simp [Wire.Record.category])
  rw [List.map_map] at hoffered
  refine ⟨v, ?_, hsurvey.trans hoffered⟩
  rw [compareAndIwlist, hu]
  exact hv

theorem dump_part_step (h : Filtered s) (mac : Mac) (tick : Tick) :
    ∃ u, dumpPart mac tick s = .ok u ∧ Offered s u (if tick.iwlist ≠ [] then
      (.survey, .survey mac tick.survey) :: tick.iwlist.map fun iw => (.iw, .iw mac iw 0)
    else []) := by
  unfold dumpPart
  split
  · exact compare_iwlist_step h mac tick.iwlist tick.survey
  · exact ⟨s, rfl, .refl h⟩

theorem get_information_step (h : Filtered s) (mac : Mac) (tick : Tick) :
    ∃ u, getInformation mac s tick = .ok u ∧
      Offered { s with controlBeacon := nextControl s.controlBeacon } u
        (tick.items mac (nextControl s.controlBeacon)) := by
  have hstart : Filtered { s with controlBeacon := nextControl s.controlBeacon } :=
    ⟨h.last, h.exact, h.records, h.batched⟩
  obtain ⟨a, ha, hiw⟩ := dump_part_step hstart mac tick
  obtain ⟨b, hb, hmac⟩ := compare_drops_step hiw.filtered mac .dropMac tick.dpMac
  obtain ⟨c, hc, hbeacon⟩ := compare_beacon_step hmac.filtered mac
    (if nextControl s.controlBeacon % 10 = 0 then tick.beacon else [])
  obtain ⟨d, hd, hqueue⟩ := compare_queues_step hbeacon.filtered mac tick.queueGlobal
  obtain ⟨e, he, hdrops⟩ := compare_drops_step hqueue.filtered mac .dropQueue tick.dpQue
  refine ⟨e, ?_, ?_⟩
  · simp only [getInformation, ha, hb, hc, hd, he, bind, Except.bind]
  · have hall := (((hiw.trans hmac).trans hbeacon).trans hqueue).trans hdrops
    rwa [List.append_nil] at hall

theorem items_concat (mac : Mac) (done : List Tick) (tick : Tick) : items mac (done ++ [tick]) =
    items mac done ++ tick.items mac (nextControl (done.length % 10000000)) := by
  have hnext : nextControl (done.length % 10000000) = (1 + done.length) % 10000000 := by
    rw [nextControl, Nat.mod_add_mod, Nat.add_comm]
  rw [hnext, items, List.zipIdx_append, List.flatMap_append, List.zipIdx_singleton,
    List.flatMap_singleton]
  rfl

theorem loaded_filtered : Filtered loaded where
  last _ := rfl
  exact pre o post h := by simp [loaded] at h
  records := rfl
  batched := empty_batched

/-- A run offers the items it finds. -/
theorem get_information_run (mac : Mac) (ticks : List Tick) :
    ∃ s, ticks.foldlM (getInformation mac) loaded = .ok s ∧ Filtered s ∧
      s.offers.map Offer.item = items mac ticks := by
  obtain ⟨s, hrun, hfiltered, -, hitems⟩ := foldlM_invariant
    (fun done s => Filtered s ∧ s.controlBeacon = done.length % 10000000 ∧
      s.offers.map Offer.item = items mac done)
    (fun done s tick ⟨h, hcontrol, hitems⟩ => by
      obtain ⟨u, hu, hoffered⟩ := get_information_step h mac tick
      obtain ⟨new, hnew, hmap⟩ := hoffered.offers
      refine ⟨u, hu, hoffered.filtered, ?_, ?_⟩
      · rw [hoffered.control, List.length_append, List.length_singleton, hcontrol, nextControl,
          Nat.mod_add_mod]
      · rw [hnew, List.map_append, hitems, hmap, items_concat, hcontrol])
    [] ⟨loaded_filtered, rfl, rfl⟩ ticks
  exact ⟨s, hrun, hfiltered, hitems⟩

/-- An item is written if it is newer than every item of its stream before it. -/
theorem Filtered.written_iff (h : Filtered s) {pre post : List Offer} {o : Offer}
    (hsplit : s.offers = pre ++ o :: post) : o.written = true ↔
      stamp 0 0 < o.stamp ∧ ∀ e ∈ pre, e.stream = o.stream → e.stamp < o.stamp := by
  rw [h.exact pre o post hsplit, highest_lt_iff]
  simp only [List.mem_filter, decide_eq_true_eq, and_imp]

/-- What a stream emitted. -/
def Globals.emitted (s : Globals) (i : Stream) : List Offer :=
  s.offers.filter fun o => o.stream = i ∧ o.written = true

theorem Filtered.increasing (h : Filtered s) (i : Stream) :
    ((s.emitted i).map Offer.stamp).Pairwise (· < ·) := by
  rw [List.pairwise_map, Globals.emitted, List.pairwise_filter]
  refine pairwise_of_split fun pre o post hsplit e he hfirst hsecond => ?_
  simp only [decide_eq_true_eq] at hfirst hsecond
  exact ((h.written_iff hsplit).mp hsecond.2).2 e he (hfirst.1.trans hsecond.1.symm)

end Run

/-- In every run each stream emits exactly the items newer than all it was
offered before, so its emitted times increase. -/
theorem running_maxima (mac : Mac) (ticks : List Tick) :
    ∃ s, ticks.foldlM (getInformation mac) loaded = .ok s ∧
      s.offers.map Offer.item = items mac ticks ∧
      (∀ pre o post, s.offers = pre ++ o :: post → (o.written = true ↔
        stamp 0 0 < o.stamp ∧ ∀ e ∈ pre, e.stream = o.stream → e.stamp < o.stamp)) ∧
      (∀ i, ((s.emitted i).map Offer.stamp).Pairwise (· < ·)) ∧
      s.written.filter (·.category ≠ .queue) = (s.offers.filter (·.written)).map Offer.record ∧
      Batched (s.written.map sealed) s.buffer := by
  obtain ⟨s, hrun, h, hitems⟩ := get_information_run mac ticks
  exact ⟨s, hrun, hitems, fun _ _ _ hsplit => h.written_iff hsplit, h.increasing, h.records,
    h.batched⟩

end ApTelemetry.Sendudp.Streams
