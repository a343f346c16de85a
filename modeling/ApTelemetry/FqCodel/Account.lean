import ApTelemetry.FqCodel.Flows
import ApTelemetry.Lib.Table
import Mathlib.Data.BitVec
import Mathlib.Tactic.Abel

namespace ApTelemetry.FqCodel
open Lib

variable {H : Type} {hd : Headers H} {flowsCnt : Nat}

def queueBytes (queue : List (SkBuff H)) : U32 := (queue.map SkBuff.pktLen).sum

@[simp] theorem queue_bytes_cons (skb : SkBuff H) (queue : List (SkBuff H)) :
    queueBytes (skb :: queue) = skb.pktLen + queueBytes queue := List.sum_cons

@[simp] theorem queue_bytes_concat (queue : List (SkBuff H)) (skb : SkBuff H) :
    queueBytes (queue ++ [skb]) = queueBytes queue + skb.pktLen := by
  simp [queueBytes]

/-- The counters of the qdisc are those of its queues. -/
structure Qdisc.Accounts (q : Qdisc H flowsCnt) : Prop where
  qlen : q.qlen = ∑ i, (q.flows i).queue.length
  backlogs : ∀ i, q.backlogs i = queueBytes (q.flows i).queue
  backlog : q.backlog = ∑ i, queueBytes (q.flows i).queue

/-- The same inside `codel_dequeue`, with the packets and the bytes of the other flows. -/
structure Stage.Accounts (packets : Nat) (others : U32) (s : Stage H) : Prop where
  qlen : s.codel.qlen = packets + s.queue.length
  flowBacklog : s.codel.flowBacklog = queueBytes s.queue
  backlog : s.codel.backlog = others + queueBytes s.queue

theorem Step.accounts {params : Params} {now : CodelTime} {packets : Nat} {others : U32}
    {s t : Stage H} (h : Step hd params now s t) (hs : s.Accounts packets others) :
    t.Accounts packets others := by
  obtain ⟨hqlen, hflow, hbacklog⟩ := hs
  cases h with
  | take skb queue c =>
    obtain ⟨firstAboveTime, hlooked, _⟩ := should_drop_looked params now (taken skb c) skb
    rw [hlooked]
    refine ⟨?_, ?_, ?_⟩
    · change c.qlen - 1 = packets + queue.length
      rw [hqlen, List.length_cons, ← Nat.add_assoc, Nat.add_sub_cancel]
    · change c.flowBacklog - skb.pktLen = queueBytes queue
      rw [hflow, queue_bytes_cons, add_sub_cancel_left]
    · change c.backlog - skb.pktLen = others + queueBytes queue
      rw [hbacklog, queue_bytes_cons]
      abel
  | empty => exact ⟨hqlen, hflow, hbacklog⟩
  | drop => exact ⟨hqlen, hflow, hbacklog⟩
  | mark => exact ⟨hqlen, hflow, hbacklog⟩
  | ceMark => exact ⟨hqlen, hflow, hbacklog⟩
  | control => exact ⟨hqlen, hflow, hbacklog⟩
  | leave => exact ⟨hqlen, hflow, hbacklog⟩

namespace Qdisc.Accounts

variable {q t : Qdisc H flowsCnt} {i : Fin flowsCnt}

/-- The counters follow one flow. -/
theorem update {f : Flow H} (h : q.Accounts) (flows : t.flows = Function.update q.flows i f)
    (backlogs : t.backlogs = Function.update q.backlogs i (queueBytes f.queue))
    (qlen : t.qlen + (q.flows i).queue.length = q.qlen + f.queue.length)
    (backlog : t.backlog + queueBytes (q.flows i).queue = q.backlog + queueBytes f.queue) :
    t.Accounts := by
  refine ⟨?_, ?_, ?_⟩
  · rw [flows]
    have hsum := sum_update q.flows i f fun f => f.queue.length
    have hqlen := h.qlen
    omega
  · intro j
    rw [flows, backlogs]
    cases decEq j i with
    | isTrue hj =>
      subst hj
      rw [Function.update_self, Function.update_self]
    | isFalse hj =>
      rw [Function.update_of_ne hj, Function.update_of_ne hj]
      exact h.backlogs j
  · rw [flows]
    apply add_right_cancel (b := queueBytes (q.flows i).queue)
    rw [backlog, h.backlog]
    exact (sum_update q.flows i f fun f => queueBytes f.queue).symm

theorem length_le (h : q.Accounts) (i : Fin flowsCnt) : (q.flows i).queue.length ≤ q.qlen := by
  rw [h.qlen]
  exact Finset.single_le_sum (f := fun j => (q.flows j).queue.length) (fun _ _ => Nat.zero_le _)
    (Finset.mem_univ i)

theorem accept (h : q.Accounts) (i : Fin flowsCnt) (skb : SkBuff H) :
    (accept i skb q).Accounts := by
  apply h.update (i := i) rfl
  · simp [FqCodel.accept, h.backlogs i]
  · simp [FqCodel.accept]
    omega
  · simp only [FqCodel.accept, queue_bytes_concat]
    abel

/-- Nothing in the queues has changed. -/
theorem same (h : q.Accounts) (queues : ∀ j, (t.flows j).queue = (q.flows j).queue)
    (backlogs : t.backlogs = q.backlogs) (qlen : t.qlen = q.qlen)
    (backlog : t.backlog = q.backlog) : t.Accounts := by
  refine ⟨?_, ?_, ?_⟩
  · rw [qlen, h.qlen]
    exact Finset.sum_congr rfl fun j _ => congrArg List.length (queues j).symm
  · intro j
    rw [backlogs, h.backlogs, queues]
  · rw [backlog, h.backlog]
    exact Finset.sum_congr rfl fun j _ => congrArg queueBytes (queues j).symm

theorem credit (h : q.Accounts) (i : Fin flowsCnt) (amount : U32) :
    (credit i amount q).Accounts :=
  h.same (update_forall (P := fun j (f : Flow H) => f.queue = (q.flows j).queue) rfl
    fun _ => rfl) rfl rfl rfl

theorem wake (h : q.Accounts) (clears : Bool) (i : Fin flowsCnt) :
    (wake clears i q).Accounts := by
  rw [FqCodel.wake]
  split
  · exact h
  · exact h.same (update_forall (P := fun j (f : Flow H) => f.queue = (q.flows j).queue) rfl
      fun _ => rfl) rfl rfl rfl

theorem serve (h : q.Accounts) (hd : Headers H) (now : CodelTime) (i : Fin flowsCnt) :
    (serve hd now i q).2.Accounts := by
  have hlen := h.length_le i
  have hcodel := (codel_dequeue_steps hd q.cparams now (q.codel i) (q.flows i).queue).keep
    (P := Stage.Accounts (q.qlen - (q.flows i).queue.length)
      (q.backlog - queueBytes (q.flows i).queue)) (fun _ _ => Step.accounts)
    ⟨(Nat.sub_add_cancel hlen).symm, h.backlogs i, (sub_add_cancel ..).symm⟩
  obtain ⟨hqlen, hflow, hbacklog⟩ := hcodel
  apply h.update (i := i) rfl
  · exact congrArg (Function.update q.backlogs i) hflow
  · simp only [FqCodel.serve, Qdisc.store]
    simp only at hqlen
    omega
  · simp only [FqCodel.serve, Qdisc.store]
    rw [hbacklog]
    abel

theorem reset (h : q.Accounts) : (fqCodelReset q).Accounts := by
  refine ⟨Finset.sum_const_zero.symm, fun _ => rfl, ?_⟩
  have hqueue : ∀ (backlog : U32) (i : Fin flowsCnt),
      (q.flows i).queue.foldl (fun backlog skb => backlog - skb.pktLen) backlog =
        backlog - queueBytes (q.flows i).queue := fun backlog i => foldl_sub ..
  simp only [fqCodelReset, hqueue, foldl_sub, ← Fin.sum_univ_def, h.backlog, sub_self]
  exact Finset.sum_const_zero.symm

theorem init [NeZero flowsCnt] (setup : Setup flowsCnt) :
    (machine hd setup).start.Accounts :=
  ⟨Finset.sum_const_zero.symm, fun _ => rfl, Finset.sum_const_zero.symm⟩

theorem drop_head {skb : SkBuff H} {rest : List (SkBuff H)} (h : q.Accounts)
    (hqueue : (q.flows i).queue = skb :: rest) : (dropHead i skb rest q).Accounts := by
  have hlen := h.length_le i
  rw [hqueue, List.length_cons] at hlen
  apply h.update (i := i) rfl
  · simp only [dropHead, h.backlogs, hqueue, queue_bytes_cons, add_sub_cancel_left]
  · simp only [dropHead, hqueue, List.length_cons]
    omega
  · simp only [dropHead, hqueue, queue_bytes_cons]
    abel

end Qdisc.Accounts

end ApTelemetry.FqCodel
