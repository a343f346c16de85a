import ApTelemetry.Lib.Heap
import ApTelemetry.Lib.Words
import ApTelemetry.Controller.Features

namespace ApTelemetry.Ofproto
open Lib ApTelemetry.Tree Controller

/-- The globals the tree messages go through. `skfd` tells whether it is open. -/
structure Globals (V : Type) where
  heap : Heap (Rawdata V)
  node : Option Addr
  tnode : Treenode V
  skfd : Bool

/-- What one `recvfrom` gives: its result, and the datagram it copied, if any. -/
structure Arrival where
  ret : Int
  data : Option (List U8)

/-- What a call of `main_linger` meets: the outcomes of its system calls, in the
places where it makes them, and the contents of the array it does not clear. -/
structure Call (V : Type) where
  socket : Bool
  bind : Bool
  sendStates : Int
  header : Arrival
  link : Nat → Arrival
  sendFlows : Nat → Int
  flow : Nat → Nat → Arrival
  garbage : Nat → ItemValue V

/-- The block `run_linger` sends, in the turn for this flow of this station. -/
structure Request where
  station : Nat
  flow : Nat
  message : List U8
  deriving DecidableEq

/-- What the loops of `main_linger` change. -/
structure Linger (V : Type) where
  skfd : Bool
  ret : Int
  info : List U8
  fstates : Nat → ItemValue V
  requests : List Request

/-- The ways out of the loops other than their end. -/
inductive Exit (V : Type) where
  | fault (f : Fault)
  | leave (s : Linger V)

def msgLen : Nat := 150

def readMac (data : List U8) (i : Nat) : Mac :=
  ⟨load8 data i, load8 data (i + 1), load8 data (i + 2), load8 data (i + 3), load8 data (i + 4),
    load8 data (i + 5)⟩

def readApstates (o : ByteOrder) (data : List U8) : Apstates where
  neibours := load8 data 0
  noise := load8 data 1
  pad := o.read16 data 2
  sec := o.read32 data 4
  usec := o.read32 data 8
  congestion := o.read32 data 12
  noncongestion := o.read32 data 16
  q3packets := o.read32 data 20
  q3qlen := o.read32 data 24
  q3backlog := o.read32 data 28
  q3drops := o.read32 data 32
  q3requeues := o.read32 data 36
  qfpackets := o.read32 data 40
  qfqlen := o.read32 data 44
  qfbacklog := o.read32 data 48
  qfdrops := o.read32 data 52
  qfrequeues := o.read32 data 56
  stationCount := o.read32 data 60
  time := o.read64 data 64
  timeBusy := o.read64 data 72
  timeRx := o.read64 data 80
  timeTx := o.read64 data 88
  q3bytes := o.read64 data 96
  qfbytes := o.read64 data 104

def readLinkstates (o : ByteOrder) (data : List U8) : Linkstates where
  station := readMac data 0
  signal := load8 data 6
  signalAvg := load8 data 7
  inactiveTime := o.read32 data 8
  rxBytes := o.read32 data 12
  rxPackets := o.read32 data 16
  txBytes := o.read32 data 20
  txPackets := o.read32 data 24
  txRetries := o.read32 data 28
  txFailed := o.read32 data 32
  expectedThroughput := o.read32 data 36
  sec := o.read32 data 40
  usec := o.read32 data 44

def readTcpFlow (o : ByteOrder) (data : List U8) : TcpFlow where
  ipSrc := o.read32 data 0
  ipDst := o.read32 data 4
  sourceaddr := o.read16 data 8
  destination := o.read16 data 10
  winsize := o.read16 data 12
  wscale := o.read16 data 14
  sec := o.read32 data 16
  usec := o.read32 data 20
  packets := o.read64 data 24
  ethSrc := readMac data 32
  count := o.read16 data 38
  ethDst := readMac data 40
  pad2 := o.read16 data 46

/-- Zero when all six bytes agree. -/
def strcmpLinger (s t : Mac) : Nat :=
  let condition := ([(s.b0, t.b0), (s.b1, t.b1), (s.b2, t.b2), (s.b3, t.b3), (s.b4, t.b4),
    (s.b5, t.b5)].filter fun p => p.1.toInt - p.2.toInt = 0).length
  if condition = 6 then 0 else 1

def ascii (c : Char) : U8 := BitVec.ofNat 8 c.toNat

/-- `sprintf (.., "%u.%u.%u.%u", ..)`, without the NUL. -/
def dotted (a b c d : U8) : List Char :=
  [a, b, c, d].map (fun n => Nat.toDigits 10 n.toNat) |> List.intercalate ['.']

/-- `sprintf` into a cleared array of twenty characters. -/
def sprintf20 (text : List Char) : Except Fault (List U8) :=
  blit (List.replicate 20 0) 0 (text.map ascii ++ [0])

def strpbrk (s accept : List Char) : Option (List Char) :=
  match s.dropWhile fun c => c ∉ accept with
  | [] => none
  | rest => some rest

/-- The address as the code prints it: bytes 3 to 0 of the reversed word. -/
def ipText (o : ByteOrder) (ip : U32) : List Char :=
  let ptrUc := o.bytes32 (swap32 ip)
  dotted (load8 ptrUc 3) (load8 ptrUc 2) (load8 ptrUc 1) (load8 ptrUc 0)

/-- A `struct tcp_ss` filled in. Both addresses are copied with two bytes more
than their fields have, and what stands behind them is written after them. -/
def tcpSs (o : ByteOrder) (tmp : TcpFlow) : Except Fault (List U8) := do
  let ipSrc ← sprintf20 (ipText o tmp.ipSrc)
  let ipDst ← sprintf20 (ipText o tmp.ipDst)
  let tcpinfo ← blit (List.replicate 48 0) 4 ipSrc
  let tcpinfo ← blit tcpinfo 22 ipDst
  let tcpinfo ← blit tcpinfo 40 (o.bytes16 (swap16 tmp.sourceaddr))
  blit tcpinfo 42 (o.bytes16 (swap16 tmp.destination))

def find192 : List Char := "192.168.11.".toList

/-- The `if (found == 1)`: the block for `run_linger`, unless `strpbrk` finds
nothing. -/
def chooseFlow (o : ByteOrder) (station : Mac) (tmp : TcpFlow) :
    Except Fault (Option (List U8)) :=
  if tmp.packets = 0 then .ok none
  else if strcmpLinger tmp.ethSrc station + strcmpLinger tmp.ethDst station = 1 then
    match strpbrk (ipText o tmp.ipSrc) find192 with
    | none => .ok none
    | some _ => (tcpSs o tmp).map some
  else .ok none

namespace Linger

variable {V : Type}

/-- On a closed socket both calls fail and `info` stays as it was. -/
def recvfrom (a : Arrival) (s : Linger V) : Linger V :=
  if s.skfd then
    { s with
      ret := a.ret
      info := match a.data with
        | none => s.info
        | some d => (d ++ s.info.drop d.length).take msgLen }
  else { s with ret := -1 }

def sendto (ret : Int) (s : Linger V) : Linger V := { s with ret := if s.skfd then ret else -1 }

def clearInfo (s : Linger V) : Linger V := { s with info := List.replicate msgLen 0 }

/-- One turn of the loop over `TEN` flows. -/
def selectFlow (o : ByteOrder) (station : Mac) (j : Nat) (flow : Nat → Arrival) (s : Linger V)
    (i : Nat) : Except (Exit V) (Linger V) :=
  let s := s.recvfrom (flow i)
  match chooseFlow o station (readTcpFlow o s.info) with
  | .error f => .error (.fault f)
  | .ok none => .ok s
  | .ok (some message) => .ok { s with requests := s.requests ++ [⟨j, i, message⟩] }

/-- The flows of a station that was found, and the socket closed behind them. -/
def askFlows (o : ByteOrder) (c : Call V) (station : Mac) (j : Nat) (s : Linger V) :
    Except (Exit V) (Linger V) := do
  let s := s.sendto (c.sendFlows j)
  if s.ret = 0 then .error (.leave s)
  else
    let s ← (List.range 10).foldlM (selectFlow o station j (c.flow j)) s
    .ok { s with skfd := false }

variable [LE V] [DecidableLE V] (ops : FloatOps V)

/-- The body of the loop over links. -/
def visitStation (o : ByteOrder) (tnode : Treenode V) (c : Call V) (apst : Apstates)
    (s : Linger V) (link : Linkstates × Nat) : Except (Exit V) (Linger V) := do
  let s := { s with fstates := fillFstates ops apst link.1 s.fstates }
  let s ← match bstSearch tnode s.fstates 31 with
    | none => .error (.fault .null)
    | some .null => .ok s
    | some (.node ..) => askFlows o c link.1.station link.2 s
  .ok { s with fstates := destroyItemList ops s.fstates }

/-- `count` turns of the loop that receives the links. -/
def readLinks (o : ByteOrder) (link : Nat → Arrival) : Nat → Linger V → Linger V × List Linkstates
  | 0, s => (s, [])
  | count + 1, s =>
    let (s, links) := readLinks o link count s
    let s := s.clearInfo.recvfrom (link count)
    (s, links ++ [readLinkstates o s.info])

/-- How many links are received for a header. -/
def countLink (apst : Apstates) : Nat :=
  if apst.stationCount.toNat < 10 then apst.stationCount.toNat else 0

def nonedata : List U8 := "nonedata".toList.map ascii

/-- What follows the first `recvfrom`. -/
def readReply (o : ByteOrder) (tnode : Treenode V) (c : Call V) (s : Linger V) :
    Except (Exit V) (Linger V) :=
  if s.info.take 8 = nonedata then .ok s
  else
    let apst := readApstates o s.info
    let (s, links) := readLinks o c.link (countLink apst) s
    links.zipIdx.foldlM (visitStation ops o tnode c apst) s

end Linger

variable {V : Type}

def destroyEverything (g : Globals V) : Except Fault (Globals V) := do
  let heap ← g.heap.freeAll g.heap.entries.length g.node
  .ok { g with heap, node := none, tnode := .null }

theorem destroy_everything_chain {g : Globals V} {nodes : List (Addr × Rawdata V)}
    (h : Chain g.heap g.node nodes) :
    ∃ heap, destroyEverything g = .ok { g with heap, node := none, tnode := .null } := by
  obtain ⟨heap, hfree⟩ := h.free_all _ h.length_le
  refine ⟨heap, ?_⟩
  simp only [destroyEverything, hfree, bind, Except.bind]

/-- The ends of `main_linger` behind its first request. The early one does the
same as the others. -/
def finish (g : Globals V) : Except (Exit V) (Linger V) →
    Except Fault (Globals V × List Request)
  | .error (.fault f) => .error f
  | .error (.leave s) | .ok s => do
    let g ← destroyEverything { g with skfd := s.skfd }
    .ok (g, s.requests)

variable [LE V] [DecidableLE V] (ops : FloatOps V)

/-- The globals a call leaves, and what it had `run_linger` send. Its own result
is not looked at. -/
def mainLinger (o : ByteOrder) (c : Call V) (g : Globals V) :
    Except Fault (Globals V × List Request) := do
  if g.skfd = false ∧ c.socket = false then
    let g ← destroyEverything g
    .ok (g, [])
  else if g.skfd = false ∧ c.bind = false then
    let g ← destroyEverything { g with skfd := true }
    .ok (g, [])
  else if c.sendStates = 0 then .ok ({ g with skfd := true }, [])
  else
    let s : Linger V := ⟨true, c.sendStates, List.replicate msgLen 0, c.garbage, []⟩
    finish g ((s.recvfrom c.header).readReply ops o g.tnode c)

end ApTelemetry.Ofproto
