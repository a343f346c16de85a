import ApTelemetry.FqCodel.Safety

namespace ApTelemetry.FqCodel
open Lib

variable {H : Type} {hd : Headers H} {flowsCnt : Nat} [NeZero flowsCnt] {setup : Setup flowsCnt}
  {q : Qdisc H flowsCnt}

/-- Header `id` goes to the flow of its last bit. All are of TCP packets, which cannot be
marked. -/
def plain : Headers Nat where
  ect _ := false
  tcp id := some ⟨BitVec.ofNat 32 id, 2, 3, 4, 5, 6⟩
  segs _ := 1
  hash id := BitVec.ofNat 32 id <<< 31
  priority _ := 0

def ethernet : Setup 2 where
  maxLen := 1514
  maxQuantum := 1514
  len_le := by decide
  quantum_ge := by decide
  quantum_lt := by decide
  handle := 1
  mtu := 1514
  opt := ⟨none, none, none, none, none, none, none⟩
  flows_le := by decide
  mtu_pos := by decide
  mtu_le := by decide
  admits := ⟨by simp, by simp⟩

/-- Four packets of one flow and one of the other. The flow is found slow at the first dequeue,
and a packet is dropped at the second, 195 ms later. -/
def slowFlow : List (Action Nat) :=
  [.enqueue none 0 ⟨2, 1500, 0, false⟩, .enqueue none 1 ⟨4, 1500, 0, false⟩,
    .enqueue none 2 ⟨6, 1500, 0, false⟩, .enqueue none 3 ⟨8, 1500, 0, false⟩,
    .enqueue none 4 ⟨1, 1500, 0, false⟩, .dequeue fun _ => 10000, .dequeue fun _ => 200000]

def Departure.dropped (d : Departure H) : Bool :=
  match d.fate with
  | .codel _ => true
  | _ => false

theorem slow_flow_reachable : ∃ q, (machine plain ethernet).Reachable q ∧
    ((q.flows 0).left.map fun d => (d.skb.hdr, d.dropped), q.qlen) =
      ([(2, false), (4, true), (6, false)], 2) := by
  have hfollow : ((machine plain ethernet).follow (machine plain ethernet).start slowFlow).map
      (fun q => ((q.flows 0).left.map fun d => (d.skb.hdr, d.dropped), q.qlen)) =
      some ([(2, false), (4, true), (6, false)], 2) := by decide
  exact Machine.follow_map_reachable hfollow

/-- The estimate of the control law is never above `1 / √count`, no Newton step wraps around,
and the drops of a flow are never further apart than the interval divided by `√count`. -/
theorem control_law_sound (hr : (machine hd setup).Reachable q) (i : Fin flowsCnt) :
    (q.flows i).cvars.count.toNat * (q.flows i).cvars.recInvSqrt.toNat ^ 2 ≤ 65536 ^ 2 ∧
    (q.flows i).cvars.Steps ((q.flows i).cvars.count + 1) ∧
    (q.flows i).cvars.Steps ((q.flows i).cvars.count - (q.flows i).cvars.lastcount) ∧
    ∀ t interval, (q.flows i).cvars.count.toNat *
      ((q.flows i).cvars.next t interval - t).toNat ^ 2 ≤ interval.toNat ^ 2 := by
  have hsound := (((sane_inductive hd setup).reachable hr).inv.kept i).sound
  exact ⟨hsound.below, hsound.steps_up, hsound.steps_back, hsound.spacing⟩

theorem control_law_sound_slow_flow : ∃ q : Qdisc Nat 2, (q.flows 0).left.length = 3 ∧
    ∀ t interval, (q.flows 0).cvars.count.toNat *
      ((q.flows 0).cvars.next t interval - t).toNat ^ 2 ≤ interval.toNat ^ 2 := by
  obtain ⟨q, hr, hfacts⟩ := slow_flow_reachable
  have hlength := congrArg (List.length ∘ Prod.fst) hfacts
  exact ⟨q, by simpa using hlength, (control_law_sound hr 0).2.2.2⟩

def loadOf (queue : List (SkBuff H)) : Nat := (queue.map fun skb => skb.pktLen.toNat).sum

omit [NeZero flowsCnt] in
/-- No counter of bytes has wrapped around. -/
theorem Qdisc.Sane.loads {bounds : Bounds} (h : q.Sane hd bounds) :
    (∀ i, (queueBytes (q.flows i).queue).toNat = loadOf (q.flows i).queue) ∧
    q.backlog.toNat = ∑ i, loadOf (q.flows i).queue := by
  have hall : q.qlen * bounds.maxLen < 4294967296 :=
    Nat.lt_of_le_of_lt (Nat.mul_le_mul_right _ (Nat.le_succ_of_le h.qlen_le)) h.capacity
  have hflow : ∀ i, (queueBytes (q.flows i).queue).toNat = loadOf (q.flows i).queue ∧
      (queueBytes (q.flows i).queue).toNat ≤ (q.flows i).queue.length * bounds.maxLen := by
    intro i
    refine queue_bytes_to_nat (fun skb hskb => ((h.inv.kept i).fits skb hskb).2) ?_
    exact Nat.lt_of_le_of_lt (Nat.mul_le_mul_right _ (h.inv.accounts.length_le i)) hall
  have htotal : ∑ i, (queueBytes (q.flows i).queue).toNat < 2 ^ 32 :=
    calc ∑ i, (queueBytes (q.flows i).queue).toNat
        ≤ ∑ i, (q.flows i).queue.length * bounds.maxLen :=
          Finset.sum_le_sum fun i _ => (hflow i).2
      _ = q.qlen * bounds.maxLen := by rw [← Finset.sum_mul, h.inv.accounts.qlen]
      _ < 2 ^ 32 := hall
  refine ⟨fun i => (hflow i).1, ?_⟩
  rw [h.inv.accounts.backlog, to_nat_sum _ _ htotal]
  exact Finset.sum_congr rfl fun i _ => (hflow i).1

/-- Between calls all counters are those of the queues, no list has a flow twice, each flow
with packets is on one, and no deficit is out of bounds. -/
theorem counters_exact (hr : (machine hd setup).Reachable q) :
    q.qlen = ∑ i, (q.flows i).queue.length ∧ q.qlen ≤ q.limit.toNat ∧
    (∀ i, (q.backlogs i).toNat = loadOf (q.flows i).queue) ∧
    q.backlog.toNat = ∑ i, loadOf (q.flows i).queue ∧
    (q.newFlows ++ q.oldFlows).Nodup ∧
    (∀ i, (q.flows i).queue ≠ [] → i ∈ q.newFlows ++ q.oldFlows) ∧
    ∀ i ∈ q.newFlows ++ q.oldFlows, -(setup.maxLen : Int) < (q.flows i).deficit.toInt ∧
      (q.flows i).deficit.toInt ≤ setup.maxQuantum := by
  have hsane := (sane_inductive hd setup).reachable hr
  have hinv := hsane.inv
  obtain ⟨hflow, hall⟩ := hsane.loads
  refine ⟨hinv.accounts.qlen, hsane.qlen_le, ?_, hall, hinv.listed.nodup, hinv.listed.queued, ?_⟩
  · intro i
    rw [hinv.accounts.backlogs, hflow]
  · exact fun i hi => ⟨hinv.funded.deficit_gt i hi, hinv.funded.deficit_le i hi⟩

theorem counters_exact_slow_flow : ∃ q : Qdisc Nat 2, q.qlen = 2 ∧
    q.backlog.toNat = ∑ i, loadOf (q.flows i).queue := by
  obtain ⟨q, hr, hfacts⟩ := slow_flow_reachable
  exact ⟨q, congrArg Prod.snd hfacts, (counters_exact hr).2.2.2.1⟩

/-- A packet that codel drops ends a series of departures at whose first one the interval began
that is over when the packet is dropped. All of them that codel looked at had waited for the
target time, with more than an `mtu` in the qdisc behind them. -/
theorem codel_patient (hr : (machine hd setup).Reachable q) (i : Fin flowsCnt)
    {before after : List (Departure H)} {d : Departure H} {sight : Sight}
    (hleft : (q.flows i).left = before ++ d :: after) (hdropped : d.fate = .codel sight) :
    ∃ pre first series, before ++ [d] = pre ++ first :: series ∧
      (∀ e ∈ first :: series, e.Slow) ∧
      ∃ since ∈ first.fate.sight, timeAfter sight.now (since.now + since.params.interval) := by
  have hpatient := (((sane_inductive hd setup).reachable hr).inv.kept i).patient
  have hpart : before ++ [d] <+: (q.flows i).left :=
    ⟨after, by rw [hleft, List.append_assoc]; rfl⟩
  obtain ⟨_, hafter, pre, first, series, hsplit, hslow, since, hsince, rfl⟩ :=
    hpatient before d sight hpart hdropped
  exact ⟨pre, first, series, hsplit, hslow, since, hsince, hafter⟩

theorem Departure.dropped_sight {d : Departure H} (h : d.dropped = true) :
    ∃ sight, d.fate = .codel sight := by
  cases hfate : d.fate with
  | codel sight => exact ⟨sight, rfl⟩
  | returned => simp [dropped, hfate] at h
  | overlimit => simp [dropped, hfate] at h
  | reset => simp [dropped, hfate] at h

theorem codel_patient_slow_flow : ∃ (q : Qdisc Nat 2) (before after : List (Departure Nat))
    (d : Departure Nat) (sight : Sight), (q.flows 0).left = before ++ d :: after ∧
    d.fate = .codel sight ∧
    ∃ pre first series, before ++ [d] = pre ++ first :: series ∧
      (∀ e ∈ first :: series, e.Slow) ∧
      ∃ since ∈ first.fate.sight, timeAfter sight.now (since.now + since.params.interval) := by
  obtain ⟨q, hr, hfacts⟩ := slow_flow_reachable
  obtain ⟨first, rest, hleft, -, hrest⟩ := List.map_eq_cons_iff.mp (congrArg Prod.fst hfacts)
  obtain ⟨second, after, hrest, hsecond, -⟩ := List.map_eq_cons_iff.mp hrest
  obtain ⟨sight, hfate⟩ := Departure.dropped_sight (congrArg Prod.snd hsecond)
  have hsplit : (q.flows 0).left = [first] ++ second :: after := by rw [hleft, hrest]; rfl
  exact ⟨q, [first], after, second, sight, hsplit, hfate, codel_patient hr 0 hsplit hfate⟩

/-- A qdisc with packets always returns one, after boundedly many passes, and an empty one never
does. Codel does not drop the last packet of the qdisc, which may be behind the last one of a
flow. No call faults, nor the loop of `fq_codel_change`, which relies on this. -/
theorem dequeue_work_conserving (hr : (machine hd setup).Reachable q) (clock : Nat → CodelTime) :
    (∃ skb t, fqCodelDequeue hd clock q = .ok (skb, t) ∧ (skb = none ↔ q.qlen = 0) ∧
      ∀ fuel, q.passes < fuel → passes hd fuel clock q = .ok (skb, t)) ∧
    ∀ a, setup.Allowed q a → ∃ t, exec hd q a = .ok t := by
  have hsane := (sane_inductive hd setup).reachable hr
  constructor
  · obtain ⟨skb, t, hrun, hdone⟩ := dequeue_runs hsane.inv clock
    refine ⟨skb, t, hrun, hdone.returns, fun fuel hfuel => ?_⟩
    obtain ⟨more, rfl⟩ := Nat.exists_eq_add_of_le (Nat.succ_le_of_lt hfuel)
    exact passes_more hrun more
  · exact (sane_inductive hd setup).runs hr

theorem dequeue_work_conserving_slow_flow : ∃ q : Qdisc Nat 2, q.qlen = 2 ∧
    ∃ skb t, fqCodelDequeue plain (fun _ => 200001) q = .ok (some skb, t) := by
  obtain ⟨q, hr, hfacts⟩ := slow_flow_reachable
  have hqlen : q.qlen = 2 := congrArg Prod.snd hfacts
  obtain ⟨⟨skb, t, hrun, hreturns, -⟩, -⟩ := dequeue_work_conserving hr fun _ => 200001
  cases skb with
  | none => exact absurd (hreturns.mp rfl) (by omega)
  | some skb => exact ⟨q, hqlen, skb, t, hrun⟩

/-- No packet of a flow is lost, made up or overtaken: those admitted are those that have left
and those queued, in this order, and only packets that can be marked have changed. The
packet that a dequeue returns is the last one that has left its flow. -/
theorem flow_order_kept (hr : (machine hd setup).Reachable q) :
    (∀ i, ∃ done, (q.flows i).admitted = done ++ (q.flows i).queue ∧
      List.Forall₂ (Forwarded hd) done ((q.flows i).left.map Departure.skb)) ∧
    ∀ clock skb t, fqCodelDequeue hd clock q = .ok (some skb, t) →
      ∃ i sight, (t.flows i).left.getLast? = some ⟨skb, .returned sight⟩ := by
  have hsane := (sane_inductive hd setup).reachable hr
  refine ⟨fun i => (hsane.inv.kept i).conserved, fun clock skb t hskb => ?_⟩
  obtain ⟨out, u, hrun, hdone⟩ := dequeue_runs hsane.inv clock
  obtain ⟨rfl, rfl⟩ := Prod.mk.inj (Except.ok.inj (hrun.symm.trans hskb))
  exact hdone.recorded skb rfl

theorem flow_order_kept_slow_flow : ∃ q : Qdisc Nat 2, ∃ done,
    (q.flows 0).admitted = done ++ (q.flows 0).queue ∧
    List.Forall₂ (Forwarded plain) done ((q.flows 0).left.map Departure.skb) ∧
    (q.flows 0).left.length = 3 := by
  obtain ⟨q, hr, hfacts⟩ := slow_flow_reachable
  have hlength := congrArg (List.length ∘ Prod.fst) hfacts
  obtain ⟨done, hadmitted, hdone⟩ := (flow_order_kept hr).1 0
  exact ⟨q, done, hadmitted, hdone, by simpa using hlength⟩

end ApTelemetry.FqCodel
