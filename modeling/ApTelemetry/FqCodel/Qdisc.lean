import ApTelemetry.FqCodel.Dequeue
import Mathlib.Logic.Function.Basic

namespace ApTelemetry.FqCodel
open Lib

/-- `struct fq_codel_flow`. Its `flowchain` is empty where neither list of the qdisc has it.
`admitted` and `left` are its history. -/
structure Flow (H : Type) where
  queue : List (SkBuff H)
  deficit : U32
  dropped : U32
  cvars : Vars
  admitted : List (SkBuff H)
  left : List (Departure H)

/-- `struct Qdisc` with its `struct fq_codel_sched_data`, of `flows_cnt` flows. `parent` is the
number of packets a parent qdisc counts here, from what it is returned and told. -/
structure Qdisc (H : Type) (flowsCnt : Nat) where
  handle : U32
  limit : U32
  qlen : Nat
  backlog : U32
  drops : U32
  bytes : U64
  packets : U32
  flows : Fin flowsCnt → Flow H
  backlogs : Fin flowsCnt → U32
  quantum : U32
  cparams : Params
  cstats : Stats
  dropOverlimit : U32
  newFlowCount : U32
  newFlows : List (Fin flowsCnt)
  oldFlows : List (Fin flowsCnt)
  parent : U32
  logged : List DropLog.Skb

/-- Why no flow takes a packet: a filter took it, or it is bypassed. -/
inductive Refusal where
  | stolen
  | bypass
  deriving DecidableEq

inductive Xmit where
  | success
  | cn
  | refused (ret : Refusal)
  deriving DecidableEq

def tcHMaj (h : U32) : U32 := h &&& 0xFFFF0000
def tcHMin (h : U32) : U32 := h &&& 0xFFFF

def tcActShot : Int := 2
def tcActStolen : Int := 4
def tcActQueued : Int := 5

/-- The number of a flow, counted from one, or why there is none. -/
inductive Class where
  | slot (idx : U32)
  | refused (ret : Refusal)

variable {H : Type} (hd : Headers H) {flowsCnt : Nat}

def fqCodelHash (flowsCnt : Nat) (skb : SkBuff H) : U32 :=
  reciprocalScale (hd.hash skb.hdr) (BitVec.ofNat 32 flowsCnt)

/-- `tc` is the verdict of `tc_classify` and the class it found, where there are filters. -/
def fqCodelClassify (q : Qdisc H flowsCnt) (tc : Option (Int × U32)) (skb : SkBuff H) : Class :=
  let priority := hd.priority skb.hdr
  if tcHMaj priority = q.handle ∧ 0 < tcHMin priority ∧ tcHMin priority ≤ BitVec.ofNat 32 flowsCnt
  then .slot (tcHMin priority)
  else match tc with
    | none => .slot (fqCodelHash hd flowsCnt skb + 1)
    | some (result, classid) =>
      if result < 0 then .refused .bypass
      else if result = tcActStolen ∨ result = tcActQueued then .refused .stolen
      else if result = tcActShot then .refused .bypass
      else if 0 < tcHMin classid ∧ tcHMin classid ≤ BitVec.ofNat 32 flowsCnt then
        .slot (tcHMin classid)
      else .refused .bypass

/-- `qdisc_tree_reduce_backlog` -/
def treeReduceBacklog (n : U32) (q : Qdisc H flowsCnt) : Qdisc H flowsCnt :=
  { q with parent := q.parent - n }

section Drop

variable [NeZero flowsCnt]

/-- The scan for the fat flow. -/
def fatFlow (q : Qdisc H flowsCnt) : U32 × Fin flowsCnt :=
  (List.finRange flowsCnt).foldl
    (fun best i => if q.backlogs i > best.1 then (q.backlogs i, i) else best) (0, 0)

/-- The first packet of a flow is freed. -/
def dropHead (idx : Fin flowsCnt) (skb : SkBuff H) (rest : List (SkBuff H))
    (q : Qdisc H flowsCnt) : Qdisc H flowsCnt :=
  { q with
    flows := Function.update q.flows idx { q.flows idx with
      queue := rest
      dropped := (q.flows idx).dropped + 1
      left := (q.flows idx).left ++ [⟨skb, .overlimit⟩] }
    backlogs := Function.update q.backlogs idx (q.backlogs idx - skb.pktLen)
    qlen := q.qlen - 1
    drops := q.drops + 1
    backlog := q.backlog - skb.pktLen }

def fqCodelDrop (q : Qdisc H flowsCnt) : Except Fault (Fin flowsCnt × Qdisc H flowsCnt) :=
  let idx := (fatFlow q).2
  match (q.flows idx).queue with
  | [] => .error .null
  | skb :: rest => .ok (idx, dropHead idx skb rest q)

/-- The bytes dropped, as a difference of backlogs. -/
def fqCodelQdiscDrop (q : Qdisc H flowsCnt) : Except Fault (U32 × Qdisc H flowsCnt) := do
  let (_, t) ← fqCodelDrop q
  .ok (q.backlog - t.backlog, t)

/-- The packet goes to the tail of its flow. -/
def accept (i : Fin flowsCnt) (skb : SkBuff H) (q : Qdisc H flowsCnt) : Qdisc H flowsCnt :=
  { q with
    flows := Function.update q.flows i { q.flows i with
      queue := (q.flows i).queue ++ [skb], admitted := (q.flows i).admitted ++ [skb] }
    backlogs := Function.update q.backlogs i (q.backlogs i + skb.pktLen)
    backlog := q.backlog + skb.pktLen
    qlen := q.qlen + 1 }

/-- A flow on no list goes to the new ones. One of the versions also clears its count of drops. -/
def wake (clears : Bool) (i : Fin flowsCnt) (q : Qdisc H flowsCnt) : Qdisc H flowsCnt :=
  if i ∈ q.newFlows ∨ i ∈ q.oldFlows then q
  else { q with
    newFlows := q.newFlows ++ [i]
    newFlowCount := q.newFlowCount + 1
    flows := Function.update q.flows i { q.flows i with
      deficit := q.quantum, dropped := if clears then 0 else (q.flows i).dropped } }

def fqCodelEnqueue (tc : Option (Int × U32)) (now : CodelTime) (skb : SkBuff H)
    (q : Qdisc H flowsCnt) : Except Fault (Xmit × Qdisc H flowsCnt) :=
  match fqCodelClassify hd q tc skb with
  | .refused .bypass => .ok (.refused .bypass, { q with drops := q.drops + 1 })
  | .refused .stolen => .ok (.refused .stolen, q)
  | .slot idx =>
    if h : (idx - 1).toNat < flowsCnt then do
      let i : Fin flowsCnt := ⟨(idx - 1).toNat, h⟩
      let q := wake true i (accept i { skb with enqueueTime := now } q)
      if q.qlen ≤ q.limit.toNat then .ok (.success, q)
      else
        let (fat, q) ← fqCodelDrop { q with dropOverlimit := q.dropOverlimit + 1 }
        if fat = i then .ok (.cn, q) else .ok (.success, treeReduceBacklog 1 q)
    else .error .outside

end Drop

/-- The part of the qdisc that `codel_dequeue` works on for a flow. -/
def Qdisc.codel (q : Qdisc H flowsCnt) (i : Fin flowsCnt) : Codel H where
  flowBacklog := q.backlogs i
  qlen := q.qlen
  backlog := q.backlog
  drops := q.drops
  vars := (q.flows i).cvars
  stats := q.cstats
  left := (q.flows i).left
  logged := q.logged

def Qdisc.store (q : Qdisc H flowsCnt) (i : Fin flowsCnt) (queue : List (SkBuff H)) (c : Codel H) :
    Qdisc H flowsCnt :=
  { q with
    flows := Function.update q.flows i { q.flows i with
      queue
      cvars := c.vars
      left := c.left
      dropped := (q.flows i).dropped + (c.stats.dropCount - q.cstats.dropCount) +
        (c.stats.ecnMark - q.cstats.ecnMark) }
    backlogs := Function.update q.backlogs i c.flowBacklog
    qlen := c.qlen
    backlog := c.backlog
    drops := c.drops
    cstats := c.stats
    logged := c.logged }

/-- The call of `codel_dequeue` for a flow. -/
def serve (now : CodelTime) (i : Fin flowsCnt) (q : Qdisc H flowsCnt) :
    Option (SkBuff H) × Qdisc H flowsCnt :=
  let r := codelDequeue hd q.cparams now (q.codel i) (q.flows i).queue
  (r.skb, q.store i r.queue r.codel)

/-- `list_move_tail(&flow->flowchain, &q->old_flows)` -/
def moveToOld (i : Fin flowsCnt) (q : Qdisc H flowsCnt) : Qdisc H flowsCnt :=
  { q with newFlows := q.newFlows.erase i, oldFlows := q.oldFlows.erase i ++ [i] }

/-- `list_del_init(&flow->flowchain)` -/
def unlist (i : Fin flowsCnt) (q : Qdisc H flowsCnt) : Qdisc H flowsCnt :=
  { q with newFlows := q.newFlows.erase i, oldFlows := q.oldFlows.erase i }

def credit (i : Fin flowsCnt) (amount : U32) (q : Qdisc H flowsCnt) : Qdisc H flowsCnt :=
  { q with
    flows := Function.update q.flows i { q.flows i with
      deficit := (q.flows i).deficit + amount } }

/-- The codel drops are reported to the parent. -/
def reportAll (q : Qdisc H flowsCnt) : Qdisc H flowsCnt :=
  { treeReduceBacklog q.cstats.dropCount q with
    cstats := { q.cstats with dropCount := 0, dropLen := 0 } }

/-- In an empty qdisc they wait for the next round. -/
def report (q : Qdisc H flowsCnt) : Qdisc H flowsCnt :=
  if q.cstats.dropCount ≠ 0 ∧ q.qlen ≠ 0 then reportAll q else q

/-- The packet is accounted for and returned. -/
def send (i : Fin flowsCnt) (skb : SkBuff H) (q : Qdisc H flowsCnt) : Qdisc H flowsCnt :=
  report (credit i (-skb.pktLen) { q with
    bytes := q.bytes + skb.pktLen.setWidth 64
    packets := q.packets + hd.segs skb.hdr })

inductive Pass (H : Type) (flowsCnt : Nat) where
  | empty
  | again (q : Qdisc H flowsCnt)
  | packet (skb : SkBuff H) (q : Qdisc H flowsCnt)

/-- A flow's turn. `isNew` says whether it is the first of the new flows or, these being
none, of the old. -/
def turn (now : CodelTime) (isNew : Bool) (i : Fin flowsCnt) (q : Qdisc H flowsCnt) :
    Pass H flowsCnt :=
  if (q.flows i).deficit.toInt ≤ 0 then .again (moveToOld i (credit i q.quantum q))
  else match serve hd now i q with
    | (none, q) => .again (if isNew ∧ q.oldFlows ≠ [] then moveToOld i q else unlist i q)
    | (some skb, q) => .packet skb (send hd i skb q)

/-- From the label `begin` to the next jump there, or to the return. -/
def pass (now : CodelTime) (q : Qdisc H flowsCnt) : Pass H flowsCnt :=
  match q.newFlows with
  | i :: _ => turn hd now true i q
  | [] =>
    match q.oldFlows with
    | i :: _ => turn hd now false i q
    | [] => .empty

/-- At most so many passes. The clock is read in each. -/
def passes : Nat → (Nat → CodelTime) → Qdisc H flowsCnt →
    Except Fault (Option (SkBuff H) × Qdisc H flowsCnt)
  | 0, _, _ => .error .endless
  | fuel + 1, clock, q =>
    match pass hd (clock 0) q with
    | .empty => .ok (none, q)
    | .again q => passes fuel (fun k => clock (k + 1)) q
    | .packet skb q => .ok (some skb, q)

/-- How often a quantum must be added until a deficit is positive. -/
def rounds (quantum deficit : U32) : Nat :=
  if 0 < deficit.toInt then 0 else (-deficit.toInt).toNat / quantum.toNat + 1

/-- A bound on the passes before the lists are empty. -/
def Qdisc.passes (q : Qdisc H flowsCnt) : Nat :=
  ((q.newFlows ++ q.oldFlows).map fun i => rounds q.quantum (q.flows i).deficit).sum +
    (2 * q.newFlows.length + q.oldFlows.length)

def fqCodelDequeue (clock : Nat → CodelTime) (q : Qdisc H flowsCnt) :
    Except Fault (Option (SkBuff H) × Qdisc H flowsCnt) :=
  passes hd (q.passes + 1) clock q

def fqCodelReset (q : Qdisc H flowsCnt) : Qdisc H flowsCnt :=
  { q with
    newFlows := []
    oldFlows := []
    flows := fun i => { q.flows i with
      queue := []
      cvars := .init
      left := (q.flows i).left ++ (q.flows i).queue.map fun skb => ⟨skb, .reset⟩ }
    backlogs := fun _ => 0
    backlog := (List.finRange flowsCnt).foldl (fun backlog i =>
      (q.flows i).queue.foldl (fun backlog skb => backlog - skb.pktLen) backlog) q.backlog
    qlen := 0 }

/-- The attributes of `fq_codel_policy`. -/
structure Options where
  target : Option U32
  limit : Option U32
  interval : Option U32
  ecn : Option U32
  flows : Option U32
  quantum : Option U32
  ceThreshold : Option U32

/-- Microseconds in units of 1024 ns. -/
def usToTime (us : U32) : CodelTime := ((us.setWidth 64 * 1000) >>> 10).setWidth 32

def configure (opt : Options) (q : Qdisc H flowsCnt) : Qdisc H flowsCnt :=
  { q with
    cparams := { q.cparams with
      target := (opt.target.map usToTime).getD q.cparams.target
      ceThreshold := (opt.ceThreshold.map usToTime).getD q.cparams.ceThreshold
      interval := (opt.interval.map usToTime).getD q.cparams.interval
      ecn := (opt.ecn.map (· != 0)).getD q.cparams.ecn }
    limit := opt.limit.getD q.limit
    quantum := (opt.quantum.map fun quantum => if 256 < quantum then quantum else 256).getD
      q.quantum }

/-- A packet over the limit is freed and counted as dropped. -/
def freeOver (skb : SkBuff H) (q : Qdisc H flowsCnt) : Qdisc H flowsCnt :=
  { q with
    cstats := { q.cstats with
      dropLen := q.cstats.dropLen + skb.pktLen, dropCount := q.cstats.dropCount + 1 } }

/-- `while (sch->q.qlen > sch->limit)` -/
def trim : Nat → (Nat → Nat → CodelTime) → Qdisc H flowsCnt → Except Fault (Qdisc H flowsCnt)
  | 0, _, q => if q.limit.toNat < q.qlen then .error .endless else .ok q
  | fuel + 1, clock, q =>
    if q.limit.toNat < q.qlen then do
      match ← fqCodelDequeue hd (clock 0) q with
      | (none, _) => .error .null
      | (some skb, q) => trim fuel (fun k => clock (k + 1)) (freeOver skb q)
    else .ok q

inductive Answer where
  | done
  | einval
  deriving DecidableEq

/-- The number of flows can no longer be changed. -/
def fqCodelChange (opt : Option Options) (clock : Nat → Nat → CodelTime) (q : Qdisc H flowsCnt) :
    Except Fault (Answer × Qdisc H flowsCnt) :=
  match opt with
  | none => .ok (.einval, q)
  | some opt =>
    if opt.flows.isSome then .ok (.einval, q)
    else do
      let q ← trim hd q.qlen clock (configure opt q)
      .ok (.done, reportAll q)

def ms2Time (ms : Nat) : CodelTime := BitVec.ofNat 32 (ms * 1000000 / 1024)

def codelDisabledThreshold : CodelTime := 0x7FFFFFFF

/-- `fq_codel_init` with the number of flows already set. `limit` is the one to start from,
`mtu` is `psched_mtu` of the device. -/
def fqCodelInit (limit handle mtu : U32) (opt : Options) (flowsCnt : Nat) : Qdisc H flowsCnt :=
  configure opt
    { handle
      limit
      qlen := 0
      backlog := 0
      drops := 0
      bytes := 0
      packets := 0
      flows := fun _ => ⟨[], 0, 0, .init, [], []⟩
      backlogs := fun _ => 0
      quantum := mtu
      cparams := ⟨ms2Time 5, codelDisabledThreshold, ms2Time 100, mtu, true⟩
      cstats := ⟨0, 0, 0, 0, 0⟩
      dropOverlimit := 0
      newFlowCount := 0
      newFlows := []
      oldFlows := []
      parent := 0
      logged := [] }

inductive Action (H : Type) where
  | enqueue (tc : Option (Int × U32)) (now : CodelTime) (skb : SkBuff H)
  | dequeue (clock : Nat → CodelTime)
  | drop
  | reset
  | change (opt : Option Options) (clock : Nat → Nat → CodelTime)

def sentHere (q : Qdisc H flowsCnt) : Qdisc H flowsCnt := { q with parent := q.parent + 1 }
def gotBack (q : Qdisc H flowsCnt) : Qdisc H flowsCnt := { q with parent := q.parent - 1 }

/-- The calls of `struct Qdisc_ops`, and what a parent that counts packets makes of them. It
is reset together with the qdisc. -/
def exec [NeZero flowsCnt] (q : Qdisc H flowsCnt) :
    Action H → Except Fault (Qdisc H flowsCnt)
  | .enqueue tc now skb => do
    let (ret, q) ← fqCodelEnqueue hd tc now skb q
    .ok (if ret = .success then sentHere q else q)
  | .dequeue clock => do
    let (skb, q) ← fqCodelDequeue hd clock q
    .ok (if skb.isSome then gotBack q else q)
  | .drop => do
    let (len, q) ← fqCodelQdiscDrop q
    .ok (if len = 0 then q else gotBack q)
  | .reset => .ok { fqCodelReset q with parent := 0 }
  | .change opt clock => do
    let (_, q) ← fqCodelChange hd opt clock q
    .ok q

/-- How long the packets of a device can be, and how large a quantum is set. As many of
these packets as the limit allows have less than `2 ^ 32` bytes. -/
structure Bounds where
  maxLen : Nat
  maxQuantum : Nat
  len_le : (10 * 1024 + 1) * maxLen < 4294967296
  quantum_ge : 256 ≤ maxQuantum
  quantum_lt : maxQuantum < 2147483648

def Bounds.Fits (bounds : Bounds) (len : U32) : Prop := 0 < len.toNat ∧ len.toNat ≤ bounds.maxLen

structure Bounds.Admits (bounds : Bounds) (opt : Options) : Prop where
  limit : ∀ limit ∈ opt.limit, (limit.toNat + 1) * bounds.maxLen < 4294967296
  quantum : ∀ quantum ∈ opt.quantum, quantum.toNat ≤ bounds.maxQuantum

instance (bounds : Bounds) (len : U32) : Decidable (bounds.Fits len) :=
  inferInstanceAs (Decidable (_ ∧ _))

instance (bounds : Bounds) (opt : Options) : Decidable (bounds.Admits opt) :=
  decidable_of_iff ((∀ limit ∈ opt.limit, (limit.toNat + 1) * bounds.maxLen < 4294967296) ∧
      ∀ quantum ∈ opt.quantum, quantum.toNat ≤ bounds.maxQuantum)
    ⟨fun h => ⟨h.1, h.2⟩, fun h => ⟨h.limit, h.quantum⟩⟩

/-- What the kernel does. Nothing is to be dropped from a qdisc without packets. -/
def Bounds.Allowed (bounds : Bounds) (q : Qdisc H flowsCnt) : Action H → Prop
  | .enqueue _ _ skb => bounds.Fits skb.pktLen
  | .dequeue _ => True
  | .drop => 0 < q.qlen
  | .reset => True
  | .change opt _ => ∀ o ∈ opt, bounds.Admits o

instance (bounds : Bounds) (q : Qdisc H flowsCnt) (a : Action H) :
    Decidable (bounds.Allowed q a) :=
  match a with
  | .enqueue _ _ skb => inferInstanceAs (Decidable (bounds.Fits skb.pktLen))
  | .dequeue _ => inferInstanceAs (Decidable True)
  | .drop => inferInstanceAs (Decidable (0 < q.qlen))
  | .reset => inferInstanceAs (Decidable True)
  | .change opt _ => inferInstanceAs (Decidable (∀ o ∈ opt, bounds.Admits o))

/-- A qdisc as it is set up. -/
structure Setup (flowsCnt : Nat) extends Bounds where
  handle : U32
  mtu : U32
  opt : Options
  flows_le : flowsCnt ≤ 65536
  mtu_pos : 0 < mtu.toNat
  mtu_le : mtu.toNat ≤ maxQuantum
  admits : toBounds.Admits opt

def machine [NeZero flowsCnt] (setup : Setup flowsCnt) :
    Machine (Qdisc H flowsCnt) (Action H) Fault where
  start := fqCodelInit (10 * 1024) setup.handle setup.mtu setup.opt flowsCnt
  enabled := setup.Allowed
  exec := exec hd

instance [NeZero flowsCnt] (setup : Setup flowsCnt) (q : Qdisc H flowsCnt) (a : Action H) :
    Decidable ((machine hd setup).enabled q a) :=
  inferInstanceAs (Decidable (setup.Allowed q a))

end ApTelemetry.FqCodel
