import ApTelemetry.Lib.Machine
import ApTelemetry.SchGeneric.PfifoFast
import ApTelemetry.Sendudp.Queues

namespace ApTelemetry.SchGeneric
open Lib

/-- What the rest of the kernel sets: how long the queue may get, the packets that
`validate_xmit_skb_list` makes of one, none where it drops it, and `weight_p`. -/
structure Device (H : Type) where
  txQueueLen : Nat
  validate : SkBuff H → List (SkBuff H)
  weight : Int
  txQueueLen_lt : txQueueLen + 1 < 4294967296

inductive Fate where
  | sent
  | deadLoop
  | reset

/-- A packet that the driver has taken, or that was freed on its way there. -/
structure Gone (H : Type) where
  skb : SkBuff H
  fate : Fate

/-- Where `__qdisc_run` is: before `qdisc_restart`, with the root lock held, or in
`sch_direct_xmit`, without it and with the packets valid. -/
inductive Phase (H : Type) where
  | idle
  | ready (quota : Int)
  | sending (quota : Int) (packets : Nat) (skb : List (SkBuff H))

def Phase.inFlight {H : Type} : Phase H → List (SkBuff H)
  | idle => []
  | ready _ => []
  | sending _ _ skb => skb

/-- The history is what is gone, how often `__netif_schedule` was called, the turns of the loop
so far, and whether this queue has been reported. -/
structure Sched (H : Type) where
  qdisc : Qdisc H
  phase : Phase H
  queueGlobal : List DataQueue
  gone : List (Gone H)
  schedules : Nat
  restarts : Nat
  reported : Bool

/-- What `sch_direct_xmit` and the loop find. Of the packets the driver takes the first `taken`
ones, all of them where it returns a code that `dev_xmit_complete` accepts; `locked` is
`NETDEV_TX_LOCKED`, and `owner` that this CPU has the lock. -/
structure Outcome where
  frozen : Bool
  taken : Nat
  locked : Bool
  owner : Bool
  frozenAfter : Bool
  needResched : Bool

inductive Action (H : Type) where
  | enqueue (skb : SkBuff H)
  | reset
  | run
  | restart (frozen : Bool) (bulkLimit : U32) (sec usec : U32)
  | xmit (outcome : Outcome)
  | other (item : DataQueue)

variable {H : Type}

/-- `while (bytelimit > 0)` -/
def tryBulkDequeueSkb : Nat → U32 → Qdisc H → Except Fault (List (SkBuff H) × Qdisc H)
  | 0, _, _ => .error .endless
  | turns + 1, bytelimit, q =>
    if 0 < bytelimit.toInt then do
      match ← pfifoFastDequeue q with
      | (none, q) => .ok ([], q)
      | (some nskb, q) =>
        let (rest, q) ← tryBulkDequeueSkb turns (bytelimit - nskb.len) q
        .ok (nskb :: rest, q)
    else .ok ([], q)

/-- What `dequeue_skb` returns. No packets are `NULL`. -/
structure Taken (H : Type) where
  skb : List (SkBuff H)
  validate : Bool
  packets : Nat
  qdisc : Qdisc H

def dequeueSkb (frozen : Bool) (bulkLimit : U32) (q : Qdisc H) : Except Fault (Taken H) :=
  if q.gsoSkb.isEmpty then
    if q.oneTxQueue ∧ frozen then .ok ⟨[], true, 1, q⟩
    else do
      match ← pfifoFastDequeue q with
      | (none, q) => .ok ⟨[], true, 1, q⟩
      | (some skb, q) =>
        if q.oneTxQueue then do
          let (rest, q) ← tryBulkDequeueSkb (q.queued + 1) (bulkLimit - skb.len) q
          .ok ⟨skb :: rest, true, 1 + rest.length, q⟩
        else .ok ⟨[skb], true, 1, q⟩
  else if frozen then .ok ⟨[], false, 1, q⟩
  else .ok ⟨q.gsoSkb, false, 1, { q with gsoSkb := [], qlen := q.qlen - 1 }⟩

/-- The queue as it is put into `queue_global`. -/
def queueItem (sec usec : U32) (q : Qdisc H) : DataQueue where
  queueId := q.parent
  packets := q.packets
  bytes := q.bytes
  sec := sec
  usec := usec
  qlen := q.qlen
  backlog := q.backlog
  drops := q.drops
  requeues := q.requeues
  overlimits := q.overlimits
  pad := 0

def devRequeueSkb (skb : List (SkBuff H)) (s : Sched H) : Sched H :=
  { s with
    qdisc := { s.qdisc with
      gsoSkb := skb, requeues := s.qdisc.requeues + 1, qlen := s.qdisc.qlen + 1 }
    schedules := s.schedules + 1 }

def Sched.lose (skb : List (SkBuff H)) (fate : Fate) (s : Sched H) : Sched H :=
  { s with gone := s.gone ++ skb.map fun skb => ⟨skb, fate⟩ }

/-- With the value returned as a truth value, here and in `directXmit`. -/
def handleDevCpuCollision (owner : Bool) (skb : List (SkBuff H)) (s : Sched H) : Bool × Sched H :=
  if owner then (s.qdisc.qlen != 0, s.lose skb .deadLoop)
  else (false, devRequeueSkb skb s)

/-- `sch_direct_xmit` from `HARD_TX_LOCK` on. -/
def directXmit (o : Outcome) (skb : List (SkBuff H)) (s : Sched H) : Bool × Sched H :=
  if skb.isEmpty then (s.qdisc.qlen != 0, s)
  else
    let taken := if o.frozen then 0 else o.taken
    let s := s.lose (skb.take taken) .sent
    let rest := skb.drop taken
    let (ret, s) :=
      if rest.isEmpty then (s.qdisc.qlen != 0, s)
      else if o.locked ∧ ¬ o.frozen then handleDevCpuCollision o.owner rest s
      else (false, devRequeueSkb rest s)
    (ret && !o.frozenAfter, s)

def exec (dev : Device H) (s : Sched H) : Action H → Except Fault (Sched H)
  | .enqueue skb => .ok { s with qdisc := (pfifoFastEnqueue dev.txQueueLen skb s.qdisc).2 }
  | .reset => .ok { s.lose s.qdisc.gsoSkb .reset with qdisc := qdiscReset s.qdisc }
  | .run => .ok { s with phase := .ready dev.weight, restarts := 0 }
  | .restart frozen bulkLimit sec usec =>
    match s.phase with
    | .ready quota => do
      let t ← dequeueSkb frozen bulkLimit s.qdisc
      if t.skb.isEmpty then .ok { s with qdisc := t.qdisc, phase := .idle }
      else
        .ok { s with
          qdisc := t.qdisc
          queueGlobal := Sendudp.schDirectXmit (queueItem sec usec t.qdisc) s.queueGlobal
          phase := .sending quota t.packets
            (if t.validate then t.skb.flatMap dev.validate else t.skb)
          restarts := s.restarts + 1
          reported := true }
    | _ => .ok s
  | .xmit o =>
    match s.phase with
    | .sending quota packets skb =>
      let (more, s) := directXmit o skb s
      if more then
        if quota - packets ≤ 0 ∨ o.needResched then
          .ok { s with schedules := s.schedules + 1, phase := .idle }
        else .ok { s with phase := .ready (quota - packets) }
      else .ok { s with phase := .idle }
    | _ => .ok s
  | .other item => .ok { s with queueGlobal := Sendudp.schDirectXmit item s.queueGlobal }

/-- The place of a queue in `queue_global`. -/
def place (queueId : U32) : Nat := if queueId < 6 then queueId.toNat else 5

/-- Only one CPU is in `__qdisc_run`, and no one else has the root lock between its turns. No
other queue has the place of this one. -/
def enabled (s : Sched H) : Action H → Prop
  | .enqueue _ => ∀ quota, s.phase ≠ .ready quota
  | .reset => ∀ quota, s.phase ≠ .ready quota
  | .run => s.phase = .idle
  | .restart .. => ∃ quota, s.phase = .ready quota
  | .xmit _ => ∃ quota packets skb, s.phase = .sending quota packets skb
  | .other item => place item.queueId ≠ place s.qdisc.parent

def initial (parent : U32) (oneTxQueue : Bool) : Sched H where
  qdisc := ⟨parent, oneTxQueue, 0, fun _ => [], 0, 0, 0, 0, 0, 0, 0, [], [], []⟩
  phase := .idle
  queueGlobal := List.replicate 6 Sendudp.zeroQueue
  gone := []
  schedules := 0
  restarts := 0
  reported := false

def machine (dev : Device H) (parent : U32) (oneTxQueue : Bool) :
    Machine (Sched H) (Action H) Fault :=
  ⟨initial parent oneTxQueue, enabled, exec dev⟩

section Dequeue

variable {q : Qdisc H}

/-- `taken` was dequeued, and nothing else has happened. -/
structure Drained (q : Qdisc H) (taken : List (SkBuff H)) (t : Qdisc H) : Prop where
  exact : t.Exact
  queued : t.queued + taken.length = q.queued
  qlen : t.qlen.toNat + taken.length = q.qlen.toNat
  left : t.left = q.left ++ taken.map fun skb => ⟨skb, true⟩
  gso : t.gsoSkb = q.gsoSkb
  parent : t.parent = q.parent

theorem Drained.none (h : q.Exact) : Drained q [] q :=
  ⟨h, rfl, rfl, (List.append_nil _).symm, rfl, rfl⟩

theorem Dequeued.drained {skb : SkBuff H} {t : Qdisc H} (h : Dequeued q skb t)
    (hqlen : q.queued ≤ q.qlen.toNat) : Drained q [skb] t := by
  have hqueued := h.queued
  obtain ⟨hgso, -, hparent, -⟩ := h.kept
  refine ⟨h.exact, hqueued, ?_, h.left, hgso, hparent⟩
  rw [h.qlen, BitVec.toNat_sub_of_le (BitVec.le_def.mpr (by change 1 ≤ _; omega))]
  change q.qlen.toNat - 1 + 1 = _
  omega

theorem Drained.append {taken taken' : List (SkBuff H)} {t u : Qdisc H} (h : Drained q taken t)
    (h' : Drained t taken' u) : Drained q (taken ++ taken') u := by
  have hqueued := h.queued
  have hqlen := h.qlen
  have hqueued' := h'.queued
  have hqlen' := h'.qlen
  refine ⟨h'.exact, ?_, ?_, ?_, h'.gso.trans h.gso, h'.parent.trans h.parent⟩
  · rw [List.length_append]
    omega
  · rw [List.length_append]
    omega
  · rw [h'.left, h.left, List.map_append, List.append_assoc]

/-- The loop ends, as each of its turns takes a packet. -/
theorem try_bulk_runs (h : q.Exact) (hqlen : q.queued ≤ q.qlen.toNat) (bytelimit : U32)
    {turns : Nat} (hturns : q.queued < turns) : ∃ taken t,
    tryBulkDequeueSkb turns bytelimit q = .ok (taken, t) ∧ Drained q taken t := by
  induction turns generalizing q bytelimit with
  | zero => omega
  | succ turns ih =>
    rw [tryBulkDequeueSkb]
    split
    · cases dequeue_runs h with
      | inl hnone =>
        refine ⟨[], q, ?_, .none h⟩
        rw [hnone.1]
        rfl
      | inr hsome =>
        obtain ⟨skb, t, hrun, hdequeued⟩ := hsome
        have hdrained := hdequeued.drained hqlen
        have hqueued := hdrained.queued
        have hlen := hdrained.qlen
        rw [List.length_singleton] at hqueued hlen
        obtain ⟨rest, u, hrest, hdone⟩ :=
          ih hdequeued.exact (by omega) (bytelimit - skb.len) (by omega)
        refine ⟨skb :: rest, u, ?_, hdrained.append hdone⟩
        simp only [hrun, bind, Except.bind, hrest]
    · exact ⟨[], q, rfl, .none h⟩

/-- What `dequeue_skb` takes: the packets of `gso_skb`, valid already, or the next packets of the
qdisc. It takes none only where the qdisc is empty, or the device queue is frozen or stopped. -/
inductive DequeuedSkb (frozen : Bool) (q : Qdisc H) : Taken H → Prop
  | requeued (t : Qdisc H) (some : q.gsoSkb ≠ [])
    (same : t = { q with gsoSkb := [], qlen := q.qlen - 1 }) :
    DequeuedSkb frozen q ⟨q.gsoSkb, false, 1, t⟩
  | fresh (skb : SkBuff H) (rest : List (SkBuff H)) (t : Qdisc H) (none : q.gsoSkb = [])
    (drained : Drained q (skb :: rest) t) :
    DequeuedSkb frozen q ⟨skb :: rest, true, 1 + rest.length, t⟩
  | empty (none : q.gsoSkb = []) (empty : q.queued = 0) : DequeuedSkb frozen q ⟨[], true, 1, q⟩
  | held (validate : Bool) (hfrozen : frozen = true) : DequeuedSkb frozen q ⟨[], validate, 1, q⟩

theorem dequeue_skb_runs (h : q.Exact) (hqlen : q.queued ≤ q.qlen.toNat) (frozen : Bool)
    (bulkLimit : U32) :
    ∃ t, dequeueSkb frozen bulkLimit q = .ok t ∧ DequeuedSkb frozen q t := by
  rw [dequeueSkb]
  split
  · rename_i hgso
    have hgso := List.isEmpty_iff.mp hgso
    split
    · rename_i hheld
      exact ⟨_, rfl, .held true hheld.2⟩
    · cases dequeue_runs h with
      | inl hnone =>
        refine ⟨⟨[], true, 1, q⟩, ?_, .empty hgso ?_⟩
        · rw [hnone.1]
          rfl
        · simp only [Qdisc.queued, hnone.2, List.length_nil, Finset.sum_const_zero]
      | inr hsome =>
        obtain ⟨skb, t, hrun, hdequeued⟩ := hsome
        have hdrained := hdequeued.drained hqlen
        have hqueued := hdrained.queued
        have hlen := hdrained.qlen
        rw [List.length_singleton] at hqueued hlen
        simp only [hrun, bind, Except.bind]
        split
        · obtain ⟨rest, u, hrest, hdone⟩ := try_bulk_runs hdequeued.exact (by omega)
            (bulkLimit - skb.len) (Nat.lt_succ_self t.queued)
          simp only [hrest]
          exact ⟨_, rfl, .fresh skb rest u hgso (hdrained.append hdone)⟩
        · exact ⟨_, rfl, .fresh skb [] t hgso hdrained⟩
  · rename_i hgso
    have hgso : q.gsoSkb ≠ [] := fun hnil => hgso (List.isEmpty_iff.mpr hnil)
    split
    · rename_i hheld
      exact ⟨_, rfl, .held false hheld⟩
    · exact ⟨_, rfl, .requeued _ hgso rfl⟩

end Dequeue

end ApTelemetry.SchGeneric
