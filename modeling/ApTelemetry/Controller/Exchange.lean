import ApTelemetry.Lib.Words
import ApTelemetry.Sendudp.RecvCb

namespace ApTelemetry.Controller
open Lib Sendudp

/-- A request of `main_linger`: the states request of a call, or the flows
request it makes for a station. -/
structure Request where
  call : Nat
  station : Option Nat
  deriving DecidableEq

/-- A reply on the socket and the request it answers. `beyond` is the word that
stands where a header has its station count, behind a shorter record. -/
structure Datagram where
  request : Request
  reply : Reply
  beyond : U32

inductive Kind where
  | header
  | link
  | flow
  deriving DecidableEq

def kindOf : Reply → Option Kind
  | .nonedata => none
  | .state _ => some .header
  | .link _ => some .link
  | .flow _ => some .flow

/-- A moment where `main_linger` takes the contents of `info` for a record of
some kind that answers `request`. -/
structure Reading where
  request : Request
  kind : Kind
  info : Option Datagram

/-- The state of `main_linger` across its calls. `skfd` is the socket with the
datagrams waiting on it, `none` when it is -1, and `info` is the receive buffer. -/
structure Host where
  skfd : Option (List Datagram)
  info : Option Datagram
  calls : Nat
  readings : List Reading

inductive Stop where
  | kernel (fault : Fault)
  | blocked

/-- The kernel module as a request finds it. -/
structure Kernel where
  ticks : List Tick
  stack : Apstates
  tables : Tables
  beyond : U32

def Kernel.ring (k : Kernel) : ApsRing := ringAfter k.ticks

/-- What one call meets: the kernel at each request, the outcome of the tree
search for each station, and the memory `malloc` gives for the request. -/
structure Call where
  atStates : Kernel
  atFlows : Nat → Kernel
  found : Nat → Bool
  garbage : List Char

/-- `memcpy` to the start of the request buffer. -/
def overlay (src buf : List Char) : List Char := src ++ buf.drop src.length

def states : List Char := ['s', 't', 'a', 't', 'e', 's']
def flows : List Char := ['f', 'l', 'o', 'w', 's']

/-- The kernel answers while `sendto` runs. On a closed socket `sendto` returns
-1, which the test for zero lets pass. -/
def sendto (request : Request) (k : Kernel) (data : List Char) (s : Host) : Except Stop Host :=
  match s.skfd with
  | none => .ok s
  | some queue =>
    match recvCb data k.stack k.tables k.ring with
    | .error fault => .error (.kernel fault)
    | .ok replies =>
      .ok { s with skfd := some (queue ++ replies.map fun reply => ⟨request, reply, k.beyond⟩) }

/-- On a closed socket `recvfrom` fails and leaves `info` as it was; with nothing
waiting it does not return. -/
def recvfrom (s : Host) : Except Stop Host :=
  match s.skfd with
  | none => .ok s
  | some [] => .error .blocked
  | some (d :: queue) => .ok { s with skfd := some queue, info := some d }

def Host.read (request : Request) (kind : Kind) (s : Host) : Host :=
  { s with readings := s.readings ++ [⟨request, kind, s.info⟩] }

/-- `left` turns of a loop around `recvfrom`. The loop over links clears `info`
before each, the loop over flows does not. -/
def readLoop (request : Request) (kind : Kind) (clear : Bool) : Nat → Host → Except Stop Host
  | 0, s => .ok s
  | left + 1, s => do
    let s ← recvfrom (if clear then { s with info := none } else s)
    readLoop request kind clear left (s.read request kind)

/-- The first eight bytes of a reply. -/
def lead : Reply → List U8
  | .nonedata => [0x6e, 0x6f, 0x6e, 0x65, 0x64, 0x61, 0x74, 0x61]
  | .state a => [a.neibours, a.noise] ++ be16 a.pad ++ be32 a.sec
  | .link l => [l.station.b0, l.station.b1, l.station.b2, l.station.b3, l.station.b4,
      l.station.b5, l.signal, l.signalAvg]
  | .flow f => be32 f.ipSrc ++ be32 f.ipDst

/-- `strcmp (ret_none, "nonedata")` finds no difference. -/
def isNonedata (info : Option Datagram) : Bool :=
  info.any fun d => lead d.reply = lead .nonedata

/-- `apst.station_count` of the datagram in `info`. A link is sent in a cleared
buffer, a flow record in one of its own size. -/
def stationCount : Option Datagram → Nat
  | some ⟨_, .state a, _⟩ => a.stationCount.toNat
  | some ⟨_, .link _, _⟩ => 0
  | some ⟨_, _, beyond⟩ => beyond.toNat
  | none => 0

/-- The flows request for one station, ten records read, and the socket closed. -/
def askFlows (c : Call) (data : List Char) (s : Host) (j : Nat) : Except Stop Host := do
  let request := ⟨s.calls, some j⟩
  let s ← sendto request (c.atFlows j) data s
  let s ← readLoop request .flow false 10 s
  .ok { s with skfd := none }

/-- The loop body for a station: its search, and the flows if a leaf was found. -/
def visitStation (c : Call) (data : List Char) (s : Host) (j : Nat) : Except Stop Host :=
  if c.found j then askFlows c data s j else .ok s

/-- What follows a reply other than `nonedata`. Ten stations are over `TEN`. -/
def readStates (c : Call) (request : Request) (data : List Char) (s : Host) :
    Except Stop Host := do
  let count := stationCount s.info
  let countLink := if count < 10 then count else 0
  let s ← readLoop request .link true countLink (s.read request .header)
  (List.range countLink).foldlM (visitStation c data) s

/-- The test on the first reply. -/
def readReply (c : Call) (request : Request) (data : List Char) (s : Host) : Except Stop Host :=
  if isNonedata s.info then .ok s else readStates c request data s

def mainLinger (s : Host) (c : Call) : Except Stop Host := do
  let request := ⟨s.calls, none⟩
  let data := overlay states c.garbage
  let s ← sendto request c.atStates data { s with skfd := some (s.skfd.getD []), info := none }
  let s ← recvfrom s
  let s ← readReply c request (overlay flows data) s
  .ok { s with calls := s.calls + 1 }

def started : Host := ⟨none, none, 0, []⟩

/-- What was read was sent as that kind in answer to that request. -/
def Reading.Matches (r : Reading) : Prop :=
  ∃ d, r.info = some d ∧ d.request = r.request ∧ kindOf d.reply = some r.kind

/-- Nothing is left queued for a later call. -/
def Clean (s : Host) : Prop := s.skfd.getD [] = []

/-- Every call runs through, misreads nothing and leaves nothing behind. -/
def InStep : Host → List Call → Prop
  | _, [] => True
  | s, c :: calls =>
    ∃ t, mainLinger s c = .ok t ∧ (∀ r ∈ t.readings, r.Matches) ∧ Clean t ∧ InStep t calls

def liveStations (k : Kernel) : Nat := (liveLinks k.tables.iwp).length

/-- A header whose first eight bytes happen to be the text. -/
def SpellsNonedata (k : Kernel) : Prop :=
  [k.stack.neibours, (newest k.ring).noise] ++ be16 k.stack.pad ++ be32 (newest k.ring).sec =
    lead .nonedata

/-- The calls that stay in step: there is no state to report, or the header is
taken for `nonedata` and no link follows it, or fewer than ten links follow and
at most one of their stations is found by the search. -/
def Keeps (c : Call) : Prop :=
  Unmoved c.atStates.ring ∨
  SpellsNonedata c.atStates ∧ liveStations c.atStates = 0 ∨
  ¬ SpellsNonedata c.atStates ∧ liveStations c.atStates < 10 ∧
    ((List.range (liveStations c.atStates)).filter c.found).length ≤ 1

section Loops

variable (request : Request) (kind : Kind)

/-- A loop over datagrams that are there takes them off the queue in order. -/
theorem read_loop_queued (clear : Bool) (ds rest : List Datagram) (s : Host)
    (h : s.skfd = some (ds ++ rest)) :
    readLoop request kind clear ds.length s = .ok { s with
      skfd := some rest
      info := ds.getLast?.or s.info
      readings := s.readings ++ ds.map fun d => ⟨request, kind, some d⟩ } := by
  induction ds generalizing s with
  | nil =>
    obtain ⟨skfd, info, calls, readings⟩ := s
    obtain rfl : skfd = some rest := h
    simp [readLoop]
  | cons d ds ih =>
    have hrecv : recvfrom (if clear then { s with info := none } else s) =
        .ok { s with skfd := some (ds ++ rest), info := some d } := by
      cases clear <;> simp [recvfrom, h]
    rw [List.length_cons, readLoop, hrecv]
    simp only [bind, Except.bind, Host.read]
    rw [ih _ rfl]
    simp [List.getLast?_cons]

/-- A loop on a closed socket takes the old contents of `info` each time. -/
theorem read_loop_closed (left : Nat) (s : Host) (h : s.skfd = none) :
    readLoop request kind false left s = .ok { s with
      readings := s.readings ++ List.replicate left ⟨request, kind, s.info⟩ } := by
  induction left generalizing s with
  | zero => simp [readLoop]
  | succ left ih =>
    have hrecv : recvfrom s = .ok s := by rw [recvfrom, h]
    rw [readLoop]
    simp only [Bool.false_eq_true, if_false, hrecv, bind, Except.bind]
    rw [ih (s.read request kind) h]
    simp [Host.read, List.replicate_succ]

end Loops

theorem recv_cb_states (k : Kernel) (garbage : List Char) :
    recvCb (overlay states garbage) k.stack k.tables k.ring =
      statesReply k.stack k.tables k.ring := by
  simp [recvCb, strcmpN, overlay, states]

/-- The shorter text over the longer one makes the request for flows. -/
theorem recv_cb_flows (k : Kernel) (garbage : List Char) :
    recvCb (overlay flows (overlay states garbage)) k.stack k.tables k.ring =
      .ok (k.tables.flowLinger.toList.map .flow) := by
  simp [recvCb, strcmpN, overlay, states, flows]

/-- The flow records sent for one station. -/
def flowDatagrams (c : Call) (call j : Nat) : List Datagram :=
  (c.atFlows j).tables.flowLinger.toList.map fun f =>
    ⟨⟨call, some j⟩, .flow f, (c.atFlows j).beyond⟩

theorem length_flow_datagrams (c : Call) (call j : Nat) : (flowDatagrams c call j).length = 10 := by
  simp [flowDatagrams]

/-- Asking on an open socket with nothing waiting: the ten records asked for. -/
theorem ask_flows_open (c : Call) (s : Host) (j : Nat) (h : s.skfd = some []) :
    askFlows c (overlay flows (overlay states c.garbage)) s j = .ok { s with
      skfd := none
      info := (flowDatagrams c s.calls j).getLast?.or s.info
      readings := s.readings ++
        (flowDatagrams c s.calls j).map fun d => ⟨⟨s.calls, some j⟩, .flow, some d⟩ } := by
  have hsend : sendto ⟨s.calls, some j⟩ (c.atFlows j) (overlay flows (overlay states c.garbage)) s =
      .ok { s with skfd := some (flowDatagrams c s.calls j) } := by
    simp only [sendto, h, recv_cb_flows, List.nil_append, List.map_map]
    rfl
  have hloop := read_loop_queued ⟨s.calls, some j⟩ .flow false
    (flowDatagrams c s.calls j) [] { s with skfd := some (flowDatagrams c s.calls j) }
    (by rw [List.append_nil])
  rw [length_flow_datagrams] at hloop
  simp only [askFlows, hsend, bind, Except.bind, hloop]

/-- Asking after the socket was closed: the last record read before, ten times. -/
theorem ask_flows_closed (c : Call) (data : List Char) (s : Host) (j : Nat) (h : s.skfd = none) :
    askFlows c data s j = .ok { s with
      readings := s.readings ++ List.replicate 10 ⟨⟨s.calls, some j⟩, .flow, s.info⟩ } := by
  have hsend : sendto ⟨s.calls, some j⟩ (c.atFlows j) data s = .ok s := by rw [sendto, h]
  simp only [askFlows, hsend, bind, Except.bind, read_loop_closed _ _ 10 s h, h]

theorem visit_found (c : Call) (data : List Char) (js : List Nat) (s : Host) :
    js.foldlM (visitStation c data) s = (js.filter c.found).foldlM (askFlows c data) s := by
  rw [List.foldlM_filter]
  rfl

theorem ask_all_closed (c : Call) (data : List Char) (js : List Nat) (s : Host)
    (h : s.skfd = none) :
    ∃ more, js.foldlM (askFlows c data) s = .ok { s with readings := s.readings ++ more } := by
  induction js generalizing s with
  | nil => exact ⟨[], by simp [pure, Except.pure]⟩
  | cons j js ih =>
    obtain ⟨more, hmore⟩ := ih { s with
      readings := s.readings ++ List.replicate 10 ⟨⟨s.calls, some j⟩, .flow, s.info⟩ } h
    refine ⟨List.replicate 10 ⟨⟨s.calls, some j⟩, .flow, s.info⟩ ++ more, ?_⟩
    rw [List.foldlM_cons, ask_flows_closed c data s j h]
    simp only [bind, Except.bind, hmore, List.append_assoc]

/-- The link records sent for a states request. -/
def linkDatagrams (c : Call) (call : Nat) : List Datagram :=
  (liveLinks c.atStates.tables.iwp).map fun tmp4 =>
    ⟨⟨call, none⟩, .link (iw2linkstates tmp4), c.atStates.beyond⟩

theorem length_link_datagrams (c : Call) (call : Nat) :
    (linkDatagrams c call).length = liveStations c.atStates := List.length_map _

theorem live_stations_le (k : Kernel) : liveStations k ≤ 10 := by
  have hle := List.length_filter_le (fun tmp4 : DataIw => decide (0 < tmp4.sec)) k.tables.iwp.toList
  simpa [liveStations, liveLinks] using hle

/-- `main_linger` after a header: what it has received and what is queued. -/
def headed (s : Host) (c : Call) (apstat : Apstates) : Host :=
  { s with
    skfd := some (linkDatagrams c s.calls)
    info := some ⟨⟨s.calls, none⟩, .state apstat, c.atStates.beyond⟩ }

/-- From a clean state a call gets either `nonedata` or a header of its own. -/
theorem main_linger_replies (s : Host) (c : Call) (hclean : Clean s) :
    (Unmoved c.atStates.ring ∧ mainLinger s c = .ok { s with
      skfd := some []
      info := some ⟨⟨s.calls, none⟩, .nonedata, c.atStates.beyond⟩
      calls := s.calls + 1 }) ∨
    ¬ Unmoved c.atStates.ring ∧ ∃ apstat,
      Heads c.atStates.stack (newest c.atStates.ring) (liveStations c.atStates) apstat ∧
      mainLinger s c = (do
        let t ← readReply c ⟨s.calls, none⟩ (overlay flows (overlay states c.garbage))
          (headed s c apstat)
        .ok { t with calls := t.calls + 1 }) := by
  have hopen : s.skfd.getD [] = [] := hclean
  rcases states_reply_cases (ring_after_invariant c.atStates.ticks) c.atStates.stack
    c.atStates.tables with ⟨hun, hreply⟩ | ⟨hun, apstat, hheads, hreply⟩
  · refine Or.inl ⟨hun, ?_⟩
    have hcb := (recv_cb_states c.atStates c.garbage).trans hreply
    simp only [mainLinger, sendto, hopen, hcb, recvfrom, bind, Except.bind, List.nil_append,
      List.map_cons, List.map_nil]
    simp [readReply, isNonedata]
  · refine Or.inr ⟨hun, apstat, hheads, ?_⟩
    have hcb := (recv_cb_states c.atStates c.garbage).trans hreply
    simp only [mainLinger, sendto, hopen, hcb, recvfrom, bind, Except.bind, List.nil_append,
      List.map_cons, List.map_map]
    rfl

theorem headed_nonedata {s : Host} {c : Call} {apstat : Apstates} {count : Nat}
    (h : Heads c.atStates.stack (newest c.atStates.ring) count apstat) :
    isNonedata (headed s c apstat).info = true ↔ SpellsNonedata c.atStates := by
  simp only [isNonedata, headed, Option.any_some, decide_eq_true_eq, SpellsNonedata, lead,
    h.neibours, h.noise, h.pad, h.sec]

theorem headed_count {s : Host} {c : Call} {apstat : Apstates}
    (h : Heads c.atStates.stack (newest c.atStates.ring) (liveStations c.atStates) apstat) :
    stationCount (headed s c apstat).info = liveStations c.atStates := by
  have hle := live_stations_le c.atStates
  simp only [headed, stationCount, h.stationCount, BitVec.toNat_ofNat]
  exact Nat.mod_eq_of_lt (by omega)

/-- `main_linger` once it has read all links of the call. -/
def linked (s : Host) (c : Call) (apstat : Apstates) : Host :=
  { s with
    skfd := some []
    info := (linkDatagrams c s.calls).getLast?.or (headed s c apstat).info
    readings := s.readings ++ [⟨⟨s.calls, none⟩, .header, (headed s c apstat).info⟩] ++
      (linkDatagrams c s.calls).map fun d => ⟨⟨s.calls, none⟩, .link, some d⟩ }

theorem read_states_few {s : Host} {c : Call} {apstat : Apstates} (data : List Char)
    (hcount : stationCount (headed s c apstat).info = liveStations c.atStates)
    (hfew : liveStations c.atStates < 10) :
    readStates c ⟨s.calls, none⟩ data (headed s c apstat) =
      ((List.range (liveStations c.atStates)).filter c.found).foldlM (askFlows c data)
        (linked s c apstat) := by
  have hloop := read_loop_queued ⟨s.calls, none⟩ .link true
    (linkDatagrams c s.calls) [] ((headed s c apstat).read ⟨s.calls, none⟩ .header)
    (by rw [List.append_nil]; rfl)
  rw [length_link_datagrams] at hloop
  simp only [readStates, hcount, if_pos hfew, hloop, bind, Except.bind]
  exact visit_found c data _ _

/-- With ten stations no link is read. -/
theorem read_states_ten {s : Host} {c : Call} {apstat : Apstates} (data : List Char)
    (hcount : stationCount (headed s c apstat).info = liveStations c.atStates)
    (hten : ¬ liveStations c.atStates < 10) :
    readStates c ⟨s.calls, none⟩ data (headed s c apstat) =
      .ok ((headed s c apstat).read ⟨s.calls, none⟩ .header) := by
  simp only [readStates, hcount, if_neg hten, readLoop, bind, Except.bind, List.range_zero]
  rfl

theorem linked_matches {s : Host} {c : Call} {apstat : Apstates}
    (h : ∀ r ∈ s.readings, r.Matches) : ∀ r ∈ (linked s c apstat).readings, r.Matches := by
  intro r hr
  rcases List.mem_append.mp hr with hr | hr
  · rcases List.mem_append.mp hr with hr | hr
    · exact h r hr
    · rw [List.mem_singleton.mp hr]
      exact ⟨_, rfl, rfl, rfl⟩
  · obtain ⟨d, hd, rfl⟩ := List.mem_map.mp hr
    obtain ⟨tmp4, _, rfl⟩ := List.mem_map.mp hd
    exact ⟨_, rfl, rfl, rfl⟩

theorem flows_match (c : Call) (call j : Nat) :
    ∀ r ∈ (flowDatagrams c call j).map fun d => (⟨⟨call, some j⟩, .flow, some d⟩ : Reading),
      r.Matches := by
  intro r hr
  obtain ⟨d, hd, rfl⟩ := List.mem_map.mp hr
  obtain ⟨f, _, rfl⟩ := List.mem_map.mp hd
  exact ⟨_, rfl, rfl, rfl⟩

theorem flows_last (c : Call) (call j : Nat) :
    ∃ d, (flowDatagrams c call j).getLast? = some d ∧ d.request = ⟨call, some j⟩ := by
  have hne : flowDatagrams c call j ≠ [] := by
    intro he
    have := length_flow_datagrams c call j
    simp [he] at this
  have hmem := List.getLast_mem hne
  refine ⟨_, List.getLast?_eq_some_getLast hne, ?_⟩
  obtain ⟨f, _, hf⟩ := List.mem_map.mp hmem
  rw [← hf]

/-- What a call has done in the end: all in step, or not. -/
def Good (t : Host) : Prop := (∀ r ∈ t.readings, r.Matches) ∧ Clean t

/-- The stations found decide: the first closes the socket behind its flows, so
a second one reads the first one's last record again. -/
theorem ask_all_good {s : Host} {c : Call} {js : List Nat} (hnodup : js.Nodup)
    (hopen : s.skfd = some []) (hmatch : ∀ r ∈ s.readings, r.Matches) :
    ∃ t, js.foldlM (askFlows c (overlay flows (overlay states c.garbage))) s = .ok t ∧
      (Good t ↔ js.length ≤ 1) := by
  match js with
  | [] =>
    refine ⟨s, rfl, ?_⟩
    simpa [Good, Clean, hopen] using hmatch
  | j :: later =>
    have hfirst := ask_flows_open c s j hopen
    obtain ⟨d, hlast, hd⟩ := flows_last c s.calls j
    rw [hlast] at hfirst
    rw [List.foldlM_cons, hfirst]
    simp only [bind, Except.bind]
    match later with
    | [] =>
      refine ⟨_, rfl, ?_⟩
      have hall : ∀ r ∈ s.readings ++ (flowDatagrams c s.calls j).map
          fun d => (⟨⟨s.calls, some j⟩, .flow, some d⟩ : Reading), r.Matches := by
        intro r hr
        rcases List.mem_append.mp hr with hr | hr
        · exact hmatch r hr
        · exact flows_match c s.calls j r hr
      simpa [Good, Clean] using hall
    | k :: rest =>
      rw [List.foldlM_cons, ask_flows_closed _ _ _ k rfl]
      simp only [bind, Except.bind]
      obtain ⟨more, hmore⟩ := ask_all_closed c (overlay flows (overlay states c.garbage)) rest
        { s with
          skfd := none
          info := (some d).or s.info
          readings := s.readings ++ (flowDatagrams c s.calls j).map
              (fun d => ⟨⟨s.calls, some j⟩, .flow, some d⟩) ++
            List.replicate 10 ⟨⟨s.calls, some k⟩, .flow, (some d).or s.info⟩ } rfl
      refine ⟨_, hmore, ?_⟩
      have hstale : ¬ (⟨⟨s.calls, some k⟩, .flow, some d⟩ : Reading).Matches := by
        rintro ⟨d', hd', hreq, _⟩
        obtain rfl := Option.some.inj hd'
        rw [hd] at hreq
        have hjk : j = k := Option.some.inj (Request.mk.inj hreq).2
        exact (List.nodup_cons.mp hnodup).1 (hjk ▸ List.mem_cons_self)
      constructor
      · intro hgood
        refine absurd (hgood.1 _ ?_) hstale
        simp
      · intro hlen
        simp at hlen

theorem good_count (t : Host) : Good { t with calls := t.calls + 1 } ↔ Good t := Iff.rfl

/-- Each call either keeps in step or does not, by what it meets alone. -/
theorem call_good {s : Host} (c : Call) (hclean : Clean s) (hmatch : ∀ r ∈ s.readings, r.Matches) :
    ∃ t, mainLinger s c = .ok t ∧ (Good t ↔ Keeps c) := by
  rcases main_linger_replies s c hclean with ⟨hun, hrun⟩ | ⟨hun, apstat, hheads, hrun⟩
  · exact ⟨_, hrun, fun _ => Or.inl hun, fun _ => ⟨hmatch, rfl⟩⟩
  have hcount := headed_count (s := s) hheads
  have hspell := headed_nonedata (s := s) hheads
  have hkeeps : Keeps c ↔
      SpellsNonedata c.atStates ∧ liveStations c.atStates = 0 ∨
      ¬ SpellsNonedata c.atStates ∧ liveStations c.atStates < 10 ∧
        ((List.range (liveStations c.atStates)).filter c.found).length ≤ 1 := or_iff_right hun
  have hqueued : Clean (headed s c apstat) ↔ liveStations c.atStates = 0 := by
    rw [← length_link_datagrams c s.calls, List.length_eq_zero_iff]
    rfl
  rw [hrun, hkeeps]
  by_cases hs : SpellsNonedata c.atStates
  · -- the header is dropped, and its links stay
    rw [readReply, if_pos (hspell.mpr hs)]
    refine ⟨_, rfl, ?_⟩
    simp only [hs, true_and, not_true_eq_false, false_and, or_false]
    exact ⟨fun hgood => hqueued.mp hgood.2, fun hzero => ⟨hmatch, hqueued.mpr hzero⟩⟩
  rw [readReply, if_neg (mt hspell.mp hs)]
  simp only [hs, false_and, false_or, not_false_eq_true, true_and]
  by_cases hfew : liveStations c.atStates < 10
  · rw [read_states_few _ hcount hfew]
    obtain ⟨t, ht, hgood⟩ := ask_all_good (c := c) (s := linked s c apstat)
      (List.nodup_range.filter c.found) rfl (linked_matches hmatch)
    rw [ht]
    exact ⟨_, rfl, (good_count t).trans (by simpa [hfew] using hgood)⟩
  · rw [read_states_ten _ hcount hfew]
    refine ⟨_, rfl, ?_⟩
    constructor
    · intro hgood
      have hzero := hqueued.mp hgood.2
      omega
    · intro hkeep
      exact absurd hkeep.1 hfew

/-- Calls stay in step exactly when each of them is of a kind that does. -/
theorem in_step_iff {s : Host} (hclean : Clean s) (hmatch : ∀ r ∈ s.readings, r.Matches)
    (calls : List Call) : InStep s calls ↔ ∀ c ∈ calls, Keeps c := by
  induction calls generalizing s with
  | nil => simp [InStep]
  | cons c calls ih =>
    obtain ⟨t, ht, hgood⟩ := call_good c hclean hmatch
    rw [List.forall_mem_cons]
    constructor
    · rintro ⟨t', ht', hmatch', hclean', hlater⟩
      obtain rfl := Except.ok.inj (ht.symm.trans ht')
      exact ⟨hgood.mp ⟨hmatch', hclean'⟩, (ih hclean' hmatch').mp hlater⟩
    · rintro ⟨hkeeps, hlater⟩
      obtain ⟨hmatch', hclean'⟩ := hgood.mpr hkeeps
      exact ⟨t, ht, hmatch', hclean', (ih hclean' hmatch').mpr hlater⟩

/-- From the start of the module, for any number of calls. -/
theorem exchange_in_step_iff (calls : List Call) :
    InStep started calls ↔ ∀ c ∈ calls, Keeps c :=
  in_step_iff (s := started) rfl (by simp [started]) calls

/-- A tick a whole second after the clocks were zero, or two. -/
def tickAt (sec : U32) : Tick :=
  ⟨some ⟨sec.setWidth 64 * 1000, sec, 0, 0, 0, 0, 0, 0, 0, 0, 0, 0⟩, none, []⟩

def tenLinks : Tables where
  iwp := Vector.replicate 10
    ⟨⟨2, 0, 0, 0, 0, 9⟩, 0, 2, 0, 0, 0, 0, 0, 0, 0, 0, 0, 0, 0, 0⟩
  flowLinger := Vector.replicate 10
    ⟨0, 0, 0, 0, 0, 0, 0, 0, 0, ⟨0, 0, 0, 0, 0, 0⟩, 0, ⟨0, 0, 0, 0, 0, 0⟩, 0⟩

def tenStations : Call :=
  let kernel : Kernel := ⟨[tickAt 1, tickAt 2], zeroApstates, tenLinks, 0⟩
  ⟨kernel, fun _ => kernel, fun _ => false, []⟩

/-- What was taken for what, over a run of calls. -/
def taken (calls : List Call) : Option (List (Kind × Option Kind)) :=
  (calls.foldlM mainLinger started).toOption.map fun t =>
    t.readings.map fun r => (r.kind, r.info.bind fun d => kindOf d.reply)

/-- With ten stations the links of one call stay queued, and the next call takes
one of them for its header. -/
theorem links_left_queued : ¬ InStep started [tenStations, tenStations] ∧
    taken [tenStations, tenStations] =
      some [(.header, some .header), (.header, some .link)] := by
  refine ⟨?_, by decide +kernel⟩
  intro h
  have hclean : Clean started := rfl
  have hkeeps := (in_step_iff hclean (by simp [started]) _).mp h tenStations List.mem_cons_self
  have hlive : liveStations tenStations.atStates = 10 := by decide +kernel
  have hmoved : ¬ Unmoved tenStations.atStates.ring := by
    unfold Unmoved
    decide +kernel
  rcases hkeeps with hun | ⟨_, hzero⟩ | ⟨_, hfew, _⟩
  · exact hmoved hun
  · omega
  · omega

end ApTelemetry.Controller
