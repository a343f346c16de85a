import ApTelemetry.Lib.Machine
import ApTelemetry.Ofproto.TcpSs

namespace ApTelemetry.Ofproto
open Lib ApTelemetry.Tree Controller

/-- What fills `info.data`. -/
abbrev Datagram := Vector U8 msgLen

/-- The datagrams of a call whose system calls succeed. The ten flow records are
the first ten of `flow`. -/
structure Received (V : Type) where
  header : Datagram
  link : Nat → Datagram
  flow : Nat → Datagram
  garbage : Nat → ItemValue V

def Received.call {V : Type} (r : Received V) : Call V where
  socket := true
  bind := true
  sendStates := 168
  header := ⟨168, some r.header.toList⟩
  link j := ⟨168, some (r.link j).toList⟩
  sendFlows _ := 168
  flow _ i := ⟨168, some (r.flow i).toList⟩
  garbage := r.garbage

/-- The globals as a call finds them: any tree, and a record list that ends. -/
structure Loaded (V : Type) extends Globals V where
  nodes : List (Addr × Rawdata V)
  chain : Chain heap node nodes

/-- The source address lies in 192.168.11.0/24. -/
def InSubnet (data : List U8) : Prop := load8 data 0 = 192 ∧ load8 data 1 = 168 ∧ load8 data 2 = 11

section Meaning

variable {V : Type} [LE V] [DecidableLE V] (ops : FloatOps V) (o : ByteOrder) (tnode : Treenode V)
  (r : Received V)

namespace Received

def apst : Apstates := readApstates o r.header.toList

/-- The links of the call. -/
def stations : List Linkstates :=
  if r.header.toList.take 8 = Linger.nonedata then []
  else (List.range (Linger.countLink (r.apst o))).map fun j => readLinkstates o (r.link j).toList

/-- The array `fstates` as the turn for a station finds it. -/
def before (j : Nat) : Nat → ItemValue V :=
  ((r.stations o).take j).foldl (fun fstates lkst =>
    destroyItemList ops (fillFstates ops (r.apst o) lkst fstates)) r.garbage

/-- The feature vector of a station reaches a leaf. -/
def found (j : Nat) : Bool :=
  match (r.stations o)[j]? with
  | none => false
  | some lkst => (fstatesVector ops (r.apst o) lkst (r.before ops o j)).reaches tnode

/-- No station before it is found. -/
def First (j : Nat) : Prop := ∀ k < j, r.found ops o tnode k = false

def record (i : Nat) : TcpFlow := readTcpFlow o (r.flow i).toList

/-- The flows to throttle for a station. -/
def Selected (j i : Nat) : Prop := i < 10 ∧ r.found ops o tnode j = true ∧
  ∃ lkst, (r.stations o)[j]? = some lkst ∧ Qualifies lkst.station (r.record o i) ∧
    InSubnet (r.flow i).toList

end Received

/-- What was asked for in the turn for a flow of a station. -/
def askedAt (requests : List Request) (j i : Nat) : List Request :=
  requests.filter fun q => q.station = j ∧ q.flow = i

/-- The call asks once for each selected flow, by its own ends, and for no other. -/
def Selects (g : Loaded V) : Prop :=
  ∃ u, mainLinger ops o r.call g.toGlobals = .ok u ∧ ∀ j i,
    (r.Selected ops o g.tnode j i →
      (askedAt u.2 j i).map (fun q => requestEnds q.message) = [flowEnds (r.flow i).toList]) ∧
    (¬ r.Selected ops o g.tnode j i → askedAt u.2 j i = [])

/-- There is a tree or no station. For the first station found, every flow that
qualifies comes from the subnet. For every later one the last record qualifies
just when each of the ten qualifies and comes from the subnet, and then they are
all of one connection. -/
structure SelectsWhen (tnode : Treenode V) : Prop where
  tree : tnode = .null → r.stations o = []
  first : ∀ j lkst, r.found ops o tnode j = true → (r.stations o)[j]? = some lkst →
    r.First ops o tnode j → ∀ i < 10, Qualifies lkst.station (r.record o i) →
      InSubnet (r.flow i).toList
  later : ∀ j lkst, r.found ops o tnode j = true → (r.stations o)[j]? = some lkst →
    ¬ r.First ops o tnode j → ∀ i < 10,
      (Qualifies lkst.station (r.record o 9) ↔
        Qualifies lkst.station (r.record o i) ∧ InSubnet (r.flow i).toList) ∧
      (Qualifies lkst.station (r.record o 9) →
        flowEnds (r.flow 9).toList = flowEnds (r.flow i).toList)

end Meaning

/-- What one turn of the loop over flows asks for. -/
def piece (o : ByteOrder) (station : Mac) (j i : Nat) (tmp : TcpFlow) : List Request :=
  if Qualifies station tmp then [⟨j, i, flowMessage o tmp⟩] else []

theorem asked_at_append (xs ys : List Request) (j i : Nat) :
    askedAt (xs ++ ys) j i = askedAt xs j i ++ askedAt ys j i := List.filter_append _ _

section Pieces

variable (o : ByteOrder) (station : Mac) (tmp : Nat → TcpFlow)

theorem asked_at_piece (j i j' i' : Nat) (t : TcpFlow) :
    askedAt (piece o station j i t) j' i' =
      if j = j' ∧ i = i' then piece o station j i t else [] := by
  unfold piece
  split
  · simp [askedAt, List.filter_cons]
  · simp [askedAt]

/-- The turns of one station ask under its own number, each under its flow's. -/
theorem asked_at_pieces (j j' i' n : Nat) :
    askedAt ((List.range n).flatMap fun i => piece o station j i (tmp i)) j' i' =
      if j = j' ∧ i' < n then piece o station j i' (tmp i') else [] := by
  induction n with
  | zero => simp [askedAt]
  | succ n ih =>
    rw [List.range_succ, List.flatMap_append, asked_at_append, ih, List.flatMap_singleton,
      asked_at_piece]
    by_cases hj : j = j'
    · rcases Nat.lt_trichotomy i' n with hlt | rfl | hgt
      · rw [if_pos ⟨hj, hlt⟩, if_neg (by omega), if_pos ⟨hj, by omega⟩, List.append_nil]
      · rw [if_neg (by omega), if_pos ⟨hj, rfl⟩, if_pos ⟨hj, by omega⟩, List.nil_append]
      · rw [if_neg (by omega), if_neg (by omega), if_neg (by omega), List.append_nil]
    · simp [hj]

end Pieces

namespace Linger

variable {V : Type} (o : ByteOrder) (station : Mac) (j : Nat)

/-- A turn asks for the flow in `info` if that qualifies. -/
theorem select_flow_eq (flow : Nat → Arrival) (s : Linger V) (i : Nat) :
    selectFlow o station j flow s i = .ok { s.recvfrom (flow i) with
      requests :=
        s.requests ++ piece o station j i (readTcpFlow o (s.recvfrom (flow i)).info) } := by
  have hrequests : (s.recvfrom (flow i)).requests = s.requests := by
    unfold recvfrom
    split <;> rfl
  unfold selectFlow piece
  simp only [choose_flow_eq]
  by_cases hq : Qualifies station (readTcpFlow o (s.recvfrom (flow i)).info)
  · simp only [if_pos hq, hrequests]
  · simp only [if_neg hq, List.append_nil, ← hrequests]

theorem recvfrom_open {s : Linger V} (hopen : s.skfd = true) (hinfo : s.info.length = msgLen)
    (ret : Int) (d : Datagram) :
    s.recvfrom ⟨ret, some d.toList⟩ = { s with ret, info := d.toList } := by
  have hdrop : s.info.drop d.toList.length = [] := by simp [hinfo]
  simp only [recvfrom, hopen, if_true, hdrop, List.append_nil]
  rw [List.take_of_length_le (by simp)]

theorem recvfrom_closed {s : Linger V} (hclosed : s.skfd = false) (a : Arrival) :
    s.recvfrom a = { s with ret := -1 } := by
  simp [recvfrom, hclosed]

variable (r : Received V)

/-- On an open socket the ten records are taken in turn. -/
theorem ask_flows_open {s : Linger V} (hopen : s.skfd = true) (hinfo : s.info.length = msgLen) :
    askFlows o r.call station j s = .ok { s with
      skfd := false
      ret := 168
      info := (r.flow 9).toList
      requests := s.requests ++
        (List.range 10).flatMap fun i => piece o station j i (r.record o i) } := by
  have hsend : s.sendto (r.call.sendFlows j) = { s with ret := 168 } := by
    simp [sendto, hopen, Received.call]
  obtain ⟨t, hrun, ht⟩ := foldlM_range (f := selectFlow o station j (r.call.flow j))
    (fun n t => t = { s with
      ret := 168
      info := if n = 0 then s.info else (r.flow (n - 1)).toList
      requests := s.requests ++
        (List.range n).flatMap fun i => piece o station j i (r.record o i) }) 10
    (s := { s with ret := 168 }) (by
      intro n t _ ht
      refine ⟨_, select_flow_eq o station j _ t n, ?_⟩
      have hrecv : t.recvfrom (r.call.flow j n) =
          { t with ret := 168, info := (r.flow n).toList } := by
        refine recvfrom_open ?_ ?_ 168 (r.flow n)
        · rw [ht]
          exact hopen
        · rw [ht]
          by_cases hn : n = 0 <;> simp [hn, hinfo]
      rw [hrecv, ht]
      simp [List.range_succ, Received.record]) (by simp)
  simp only [askFlows, hsend, bind, Except.bind, if_neg (by decide : (168 : Int) ≠ 0), hrun, ht]
  rfl

/-- On a closed one the record in `info` is taken ten times. -/
theorem ask_flows_closed {s : Linger V} (hclosed : s.skfd = false) :
    askFlows o r.call station j s = .ok { s with
      ret := -1
      requests := s.requests ++
        (List.range 10).flatMap fun i => piece o station j i (readTcpFlow o s.info) } := by
  have hsend : s.sendto (r.call.sendFlows j) = { s with ret := -1 } := by
    simp [sendto, hclosed]
  obtain ⟨t, hrun, ht⟩ := foldlM_range (f := selectFlow o station j (r.call.flow j))
    (fun n t => t = { s with
      ret := -1
      requests := s.requests ++
        (List.range n).flatMap fun i => piece o station j i (readTcpFlow o s.info) }) 10
    (s := { s with ret := -1 }) (by
      intro n t _ ht
      refine ⟨_, select_flow_eq o station j _ t n, ?_⟩
      rw [recvfrom_closed (by rw [ht]; exact hclosed), ht]
      simp [List.range_succ]) (by simp)
  simp only [askFlows, hsend, bind, Except.bind, if_neg (by decide : (-1 : Int) ≠ 0), hrun, ht,
    ← hclosed]

theorem read_links_open {s : Linger V} (hopen : s.skfd = true) (hinfo : s.info.length = msgLen)
    (count : Nat) : ∃ t, readLinks o r.call.link count s =
      (t, (List.range count).map fun j => readLinkstates o (r.link j).toList) ∧
      t.skfd = true ∧ t.info.length = msgLen ∧ t.fstates = s.fstates ∧ t.requests = s.requests := by
  induction count with
  | zero => exact ⟨s, rfl, hopen, hinfo, rfl, rfl⟩
  | succ count ih =>
    obtain ⟨t, hrun, hskfd, _, hfstates, hrequests⟩ := ih
    have hrecv : t.clearInfo.recvfrom (r.call.link count) =
        { t.clearInfo with ret := 168, info := (r.link count).toList } :=
      recvfrom_open (s := t.clearInfo) hskfd List.length_replicate 168 (r.link count)
    refine ⟨{ t.clearInfo with ret := 168, info := (r.link count).toList }, ?_, hskfd, by simp,
      hfstates, hrequests⟩
    rw [readLinks, hrun]
    simp only [hrecv, List.range_succ, List.map_append, List.map_cons, List.map_nil]

end Linger

section Stations

variable {V : Type} [LE V] [DecidableLE V] (ops : FloatOps V) (o : ByteOrder) (tnode : Treenode V)
  (r : Received V)

namespace Received

instance (j : Nat) : Decidable (r.First ops o tnode j) :=
  inferInstanceAs (Decidable (∀ k < j, r.found ops o tnode k = false))

/-- The record in `info` in the turn for a flow of a station. -/
def heard (j i : Nat) : Datagram := if r.First ops o tnode j then r.flow i else r.flow 9

def asks (j i : Nat) : List Request :=
  match (r.stations o)[j]? with
  | none => []
  | some lkst =>
    if r.found ops o tnode j = true ∧ i < 10 then
      piece o lkst.station j i (readTcpFlow o (r.heard ops o tnode j i).toList)
    else []

omit [LE V] [DecidableLE V] in
theorem before_succ {j : Nat} {lkst : Linkstates} (h : (r.stations o)[j]? = some lkst) :
    r.before ops o (j + 1) =
      destroyItemList ops (fillFstates ops (r.apst o) lkst (r.before ops o j)) := by
  simp only [before, List.take_add_one, h, Option.toList_some, List.foldl_append, List.foldl_cons,
    List.foldl_nil]

theorem first_succ {j : Nat} : r.First ops o tnode (j + 1) ↔
    r.First ops o tnode j ∧ r.found ops o tnode j = false := by
  constructor
  · intro h
    exact ⟨fun k hk => h k (Nat.lt_succ_of_lt hk), h j (Nat.lt_succ_self j)⟩
  · rintro ⟨hbefore, hj⟩ k hk
    rcases Nat.lt_succ_iff_lt_or_eq.mp hk with hlt | rfl
    · exact hbefore k hlt
    · exact hj

end Received

/-- The loop over links when it has come to station `k`. -/
structure Visited (k : Nat) (s : Linger V) : Prop where
  fstates : s.fstates = r.before ops o k
  socket : s.skfd = true ↔ r.First ops o tnode k
  full : s.info.length = msgLen
  stale : s.skfd = false → s.info = (r.flow 9).toList
  asked : ∀ j i, askedAt s.requests j i = if j < k then r.asks ops o tnode j i else []

variable {ops o tnode r} {k : Nat} {lkst : Linkstates} {s : Linger V}

/-- A station that is not found leaves all but the array as it was. -/
theorem Visited.pass (h : Visited ops o tnode r k s) (hlink : (r.stations o)[k]? = some lkst)
    (hfound : r.found ops o tnode k = false) (fstates : Nat → ItemValue V)
    (hnext : fstates = r.before ops o (k + 1)) :
    Visited ops o tnode r (k + 1) { s with fstates } := by
  refine ⟨hnext, ?_, h.full, h.stale, ?_⟩
  · rw [Received.first_succ, h.socket]
    exact (and_iff_left hfound).symm
  · intro j i
    rw [h.asked j i]
    rcases Nat.lt_trichotomy j k with hlt | rfl | hgt
    · rw [if_pos hlt, if_pos (Nat.lt_succ_of_lt hlt)]
    · rw [if_neg (Nat.lt_irrefl j), if_pos (Nat.lt_succ_self j), Received.asks, hlink]
      simp [hfound]
    · rw [if_neg (by omega), if_neg (by omega)]

/-- A station that is found adds its own requests and leaves the socket closed. -/
theorem Visited.ask (h : Visited ops o tnode r k s) (hlink : (r.stations o)[k]? = some lkst)
    (hfound : r.found ops o tnode k = true) (fstates : Nat → ItemValue V) (ret : Int)
    (hnext : fstates = r.before ops o (k + 1)) :
    Visited ops o tnode r (k + 1) { s with
      fstates, ret
      skfd := false
      info := (r.flow 9).toList
      requests := s.requests ++ (List.range 10).flatMap fun i =>
        piece o lkst.station k i (readTcpFlow o (r.heard ops o tnode k i).toList) } := by
  refine ⟨hnext, ?_, by simp, fun _ => rfl, ?_⟩
  · rw [Received.first_succ, hfound]
    simp
  · intro j i
    rw [asked_at_append, h.asked j i, asked_at_pieces o lkst.station
      (fun i => readTcpFlow o (r.heard ops o tnode k i).toList)]
    rcases Nat.lt_trichotomy j k with hlt | rfl | hgt
    · rw [if_pos hlt, if_neg (by omega), if_pos (Nat.lt_succ_of_lt hlt), List.append_nil]
    · rw [if_neg (Nat.lt_irrefl j), if_pos (Nat.lt_succ_self j), List.nil_append, Received.asks,
        hlink]
      simp [hfound]
    · rw [if_neg (by omega), if_neg (by omega), if_neg (by omega), List.append_nil]

theorem Visited.step (hne : tnode ≠ .null) (h : Visited ops o tnode r k s)
    (hlink : (r.stations o)[k]? = some lkst) :
    ∃ t, Linger.visitStation ops o tnode r.call (r.apst o) s (lkst, k) = .ok t ∧
      Visited ops o tnode r (k + 1) t := by
  obtain ⟨res, hsearch, hleaf⟩ := bst_search_reaches
    (fstatesVector ops (r.apst o) lkst (r.before ops o k)) hne
  have hnext := r.before_succ ops o hlink
  have hfound : r.found ops o tnode k = true ↔ res ≠ .null := by
    rw [hleaf, Received.found, hlink]
  have hslot : (fstatesVector ops (r.apst o) lkst (r.before ops o k)).slot =
      fillFstates ops (r.apst o) lkst (r.before ops o k) := rfl
  rw [hslot] at hsearch
  cases res with
  | null =>
    refine ⟨_, ?_, h.pass hlink (by simpa using hfound) _ hnext.symm⟩
    simp only [Linger.visitStation, h.fstates, hsearch, bind, Except.bind]
  | node =>
    have hyes : r.found ops o tnode k = true := by simpa using hfound
    cases hskfd : s.skfd with
    | true =>
      have hfirst := h.socket.mp hskfd
      have hheard (i : Nat) : r.heard ops o tnode k i = r.flow i := if_pos hfirst
      refine ⟨_, ?_, h.ask hlink hyes _ 168 hnext.symm⟩
      have hask := Linger.ask_flows_open o lkst.station k r (s := { s with
        fstates := fillFstates ops (r.apst o) lkst (r.before ops o k) }) hskfd h.full
      simp only [Linger.visitStation, h.fstates, hsearch, bind, Except.bind, hask, hheard,
        Received.record]
    | false =>
      have hlater : ¬ r.First ops o tnode k := by
        rw [← h.socket, hskfd]
        exact Bool.false_ne_true
      have hheard (i : Nat) : r.heard ops o tnode k i = r.flow 9 := if_neg hlater
      have hstale := h.stale hskfd
      obtain ⟨skfd, ret, info, fstates, requests⟩ := s
      obtain rfl : skfd = false := hskfd
      obtain rfl : info = (r.flow 9).toList := hstale
      obtain rfl : fstates = r.before ops o k := h.fstates
      have hask := Linger.ask_flows_closed o lkst.station k r (s := ⟨false, ret,
        (r.flow 9).toList, fillFstates ops (r.apst o) lkst (r.before ops o k), requests⟩) rfl
      refine ⟨_, ?_, h.ask hlink hyes _ (-1) hnext.symm⟩
      simp only [Linger.visitStation, hsearch, bind, Except.bind, hask, hheard]

end Stations

section Calls

variable {V : Type} [LE V] [DecidableLE V] (ops : FloatOps V) (o : ByteOrder) (r : Received V)

/-- The state in which the reply is looked at. -/
def Received.opened : Linger V := ⟨true, 168, r.header.toList, r.garbage, []⟩

theorem read_reply_stations (tnode : Treenode V) : ∃ s : Linger V,
    s.skfd = true ∧ s.info.length = msgLen ∧ s.fstates = r.garbage ∧ s.requests = [] ∧
    r.opened.readReply ops o tnode r.call = (r.stations o).zipIdx.foldlM
      (Linger.visitStation ops o tnode r.call (r.apst o)) s := by
  have hinfo : r.opened.info = r.header.toList := rfl
  unfold Linger.readReply Received.stations
  rw [hinfo]
  by_cases hnone : r.header.toList.take 8 = Linger.nonedata
  · refine ⟨r.opened, rfl, by simp [Received.opened], rfl, rfl, ?_⟩
    rw [if_pos hnone, if_pos hnone]
    rfl
  · obtain ⟨t, hrun, hskfd, hinfo, hfstates, hrequests⟩ := Linger.read_links_open o r
      (s := r.opened) rfl (by simp [Received.opened]) (Linger.countLink (r.apst o))
    refine ⟨t, hskfd, hinfo, hfstates, hrequests, ?_⟩
    rw [if_neg hnone, if_neg hnone]
    simp only [Received.apst] at hrun ⊢
    rw [hrun]

/-- The call opens the socket if it is not open, and gets its reply. -/
theorem main_linger_reply (g : Loaded V) : mainLinger ops o r.call g.toGlobals =
    finish g.toGlobals (r.opened.readReply ops o g.tnode r.call) := by
  have hrecv : (⟨true, 168, List.replicate msgLen 0, r.garbage, []⟩ : Linger V).recvfrom
      r.call.header = r.opened := Linger.recvfrom_open rfl List.length_replicate 168 r.header
  have hsocket : ¬ (g.skfd = false ∧ r.call.socket = false) := by simp [Received.call]
  have hbind : ¬ (g.skfd = false ∧ r.call.bind = false) := by simp [Received.call]
  have hsent : ¬ r.call.sendStates = 0 := by simp [Received.call]
  rw [← hrecv, mainLinger, if_neg hsocket, if_neg hbind, if_neg hsent]
  rfl

theorem main_linger_asks (g : Loaded V) (htree : g.tnode = .null → r.stations o = []) :
    ∃ u, mainLinger ops o r.call g.toGlobals = .ok u ∧
      ∀ j i, askedAt u.2 j i = r.asks ops o g.tnode j i := by
  obtain ⟨s, hskfd, hinfo, hfstates, hrequests, hreply⟩ := read_reply_stations ops o r g.tnode
  have hstart : Visited ops o g.tnode r 0 s := by
    refine ⟨by rw [hfstates]; rfl, ?_, hinfo, ?_, ?_⟩
    · simp [hskfd, Received.First]
    · simp [hskfd]
    · simp [hrequests, askedAt]
  obtain ⟨t, hrun, ht⟩ := foldlM_zipIdx (f := Linger.visitStation ops o g.tnode r.call (r.apst o))
    (fun k s => Visited ops o g.tnode r k s) (r.stations o) 0 (by
      intro k s lkst hlink hs
      have hne : g.tnode ≠ .null := by
        intro hnull
        rw [htree hnull] at hlink
        simp at hlink
      rw [Nat.zero_add] at hs ⊢
      exact hs.step hne hlink) hstart
  obtain ⟨heap, hfree⟩ :=
    destroy_everything_chain (g := { g.toGlobals with skfd := t.skfd }) g.chain
  refine ⟨({ g.toGlobals with heap, node := none, tnode := .null, skfd := t.skfd }, t.requests),
    ?_, ?_⟩
  · rw [main_linger_reply, hreply, hrun, finish, hfree]
    rfl
  · intro j i
    rw [ht.asked j i, Nat.zero_add]
    split
    · rfl
    · rename_i hj
      rw [Received.asks, List.getElem?_eq_none (by omega)]

/-- Without a tree the first search reads through NULL. -/
theorem main_linger_no_tree (g : Loaded V) (hnull : g.tnode = .null) (hne : r.stations o ≠ []) :
    mainLinger ops o r.call g.toGlobals = .error .null := by
  obtain ⟨s, _, _, _, _, hreply⟩ := read_reply_stations ops o r g.tnode
  obtain ⟨lkst, rest, hstations⟩ := List.exists_cons_of_ne_nil hne
  rw [main_linger_reply, hreply, hstations, List.zipIdx_cons, List.foldlM_cons,
    Linger.visitStation, hnull]
  rfl

/-- One turn is exact when the record it hears qualifies just when the flow is to
be throttled, and names the same ends. -/
theorem piece_exact (station : Mac) (j i : Nat) (heard wanted : List U8) (P : Prop) :
    ((P → (piece o station j i (readTcpFlow o heard)).map (fun q => requestEnds q.message) =
        [flowEnds wanted]) ∧
      (¬ P → piece o station j i (readTcpFlow o heard) = [])) ↔
      (Qualifies station (readTcpFlow o heard) ↔ P) ∧
        (Qualifies station (readTcpFlow o heard) → flowEnds heard = flowEnds wanted) := by
  unfold piece
  by_cases hq : Qualifies station (readTcpFlow o heard)
  · by_cases hp : P <;> simp [hq, hp, request_ends_flow]
  · by_cases hp : P <;> simp [hq, hp]

/-- The requests are right turn by turn. -/
theorem asks_exact_iff (tnode : Treenode V) (j i : Nat) :
    ((r.Selected ops o tnode j i →
        (r.asks ops o tnode j i).map (fun q => requestEnds q.message) =
          [flowEnds (r.flow i).toList]) ∧
      (¬ r.Selected ops o tnode j i → r.asks ops o tnode j i = [])) ↔
    ∀ lkst, r.found ops o tnode j = true → (r.stations o)[j]? = some lkst → i < 10 →
      (Qualifies lkst.station (readTcpFlow o (r.heard ops o tnode j i).toList) ↔
        Qualifies lkst.station (r.record o i) ∧ InSubnet (r.flow i).toList) ∧
      (Qualifies lkst.station (readTcpFlow o (r.heard ops o tnode j i).toList) →
        flowEnds (r.heard ops o tnode j i).toList = flowEnds (r.flow i).toList) := by
  cases hlink : (r.stations o)[j]? with
  | none => simp [Received.asks, Received.Selected, hlink]
  | some lkst =>
    have hselected : r.Selected ops o tnode j i ↔ i < 10 ∧ r.found ops o tnode j = true ∧
        Qualifies lkst.station (r.record o i) ∧ InSubnet (r.flow i).toList := by
      simp [Received.Selected, hlink]
    by_cases hturn : r.found ops o tnode j = true ∧ i < 10
    · have hasks : r.asks ops o tnode j i =
          piece o lkst.station j i (readTcpFlow o (r.heard ops o tnode j i).toList) := by
        rw [Received.asks, hlink]
        exact if_pos hturn
      rw [hasks, piece_exact, hselected]
      simp [hturn.1, hturn.2]
    · have hasks : r.asks ops o tnode j i = [] := by
        rw [Received.asks, hlink]
        exact if_neg hturn
      have hnot : ¬ r.Selected ops o tnode j i := fun h =>
        hturn ⟨(hselected.mp h).2.1, (hselected.mp h).1⟩
      simp only [hasks, hnot, false_implies, not_false_eq_true, forall_const, true_and]
      exact iff_of_true trivial fun _ hfound _ hi => absurd ⟨hfound, hi⟩ hturn

theorem selects_when_iff (tnode : Treenode V) : SelectsWhen ops o r tnode ↔
    (tnode = .null → r.stations o = []) ∧ ∀ j i lkst, r.found ops o tnode j = true →
      (r.stations o)[j]? = some lkst → i < 10 →
      (Qualifies lkst.station (readTcpFlow o (r.heard ops o tnode j i).toList) ↔
        Qualifies lkst.station (r.record o i) ∧ InSubnet (r.flow i).toList) ∧
      (Qualifies lkst.station (readTcpFlow o (r.heard ops o tnode j i).toList) →
        flowEnds (r.heard ops o tnode j i).toList = flowEnds (r.flow i).toList) := by
  constructor
  · intro h
    refine ⟨h.tree, ?_⟩
    intro j i lkst hfound hlink hi
    by_cases hfirst : r.First ops o tnode j
    · simp only [Received.heard, if_pos hfirst]
      exact ⟨⟨fun hq => ⟨hq, h.first j lkst hfound hlink hfirst i hi hq⟩, fun hq => hq.1⟩,
        fun _ => trivial⟩
    · simp only [Received.heard, if_neg hfirst]
      exact h.later j lkst hfound hlink hfirst i hi
  · rintro ⟨htree, h⟩
    refine ⟨htree, ?_, ?_⟩
    · intro j lkst hfound hlink hfirst i hi hq
      have hturn := (h j i lkst hfound hlink hi).1
      simp only [Received.heard, if_pos hfirst] at hturn
      exact (hturn.mp hq).2
    · intro j lkst hfound hlink hlater i hi
      have hturn := h j i lkst hfound hlink hi
      simp only [Received.heard, if_neg hlater] at hturn
      exact hturn

/-- The requests of a call that comes to its end are right just when each turn's are. -/
theorem selects_iff_when (g : Loaded V) : Selects ops o r g ↔ SelectsWhen ops o r g.tnode := by
  rw [selects_when_iff]
  by_cases htree : g.tnode = .null → r.stations o = []
  · obtain ⟨u, hrun, hasked⟩ := main_linger_asks ops o r g htree
    rw [and_iff_right htree]
    constructor
    · rintro ⟨u', hrun', hexact⟩ j i lkst hfound hlink hi
      obtain rfl := Except.ok.inj (hrun.symm.trans hrun')
      have hturn := hexact j i
      rw [hasked] at hturn
      exact (asks_exact_iff ops o r g.tnode j i).mp hturn lkst hfound hlink hi
    · intro h
      refine ⟨u, hrun, ?_⟩
      intro j i
      rw [hasked]
      exact (asks_exact_iff ops o r g.tnode j i).mpr fun lkst hfound hlink hi =>
        h j i lkst hfound hlink hi
  · obtain ⟨hnull, hne⟩ := Classical.not_imp.mp htree
    constructor
    · rintro ⟨u, hrun, _⟩
      rw [main_linger_no_tree ops o r g hnull hne] at hrun
      cases hrun
    · intro h
      exact absurd h.1 htree

/-- For every call, tree and machine. -/
theorem flow_selection_iff (g : Loaded V) :
    Selects ops o r g ↔ SelectsWhen ops o r g.tnode :=
  selects_iff_when ops o r g

end Calls

/-- A tree of one leaf. -/
def leafTree : Loaded ℚ where
  heap := ∅
  node := none
  tnode := .node 0 0 0 1 .null .null
  skfd := false
  nodes := []
  chain := .nil none

def datagram (bytes : Nat → U8) : Datagram := Vector.ofFn fun i => bytes i

/-- One station, with a flow it sends from 10.0.0.1. -/
def outsideFlow : Received ℚ where
  header := datagram fun i => if i = 60 then 1 else 0
  link _ := datagram fun i => if i = 5 then 9 else 0
  flow
    | 0 => datagram fun i =>
      if i = 0 then 10 else if i = 3 ∨ i = 24 then 1 else if i = 37 then 9 else 0
    | _ => datagram fun _ => 0
  garbage _ := ⟨0, 0⟩

theorem outside_throttled : ¬ Selects rational .little outsideFlow leafTree := by
  rw [selects_iff_when]
  intro h
  have hstation : (outsideFlow.stations .little)[0]? =
      some ⟨⟨0, 0, 0, 0, 0, 9⟩, 0, 0, 0, 0, 0, 0, 0, 0, 0, 0, 0, 0⟩ := by decide +kernel
  have hfound : outsideFlow.found rational .little leafTree.tnode 0 = true := by decide +kernel
  have hfirst : outsideFlow.First rational .little leafTree.tnode 0 := fun _ hk => by omega
  have hqualifies : Qualifies ⟨0, 0, 0, 0, 0, 9⟩ (outsideFlow.record .little 0) := by
    decide +kernel
  have hnet := h.first 0 _ hfound hstation hfirst 0 (by omega) hqualifies
  have hten : load8 (outsideFlow.flow 0).toList 0 = 10 := by decide +kernel
  rw [InSubnet, hten] at hnet
  exact absurd hnet.1 (by decide)

end ApTelemetry.Ofproto
