import ApTelemetry.FqCodel.Guarantees

namespace ApTelemetry.FqCodel
open Lib

variable {H : Type} {hd : Headers H} {flowsCnt : Nat} {bounds : Bounds} {q t : Qdisc H flowsCnt}

/-- The packets queued and the drops not yet reported, less what the parent counts. -/
def Qdisc.owed (q : Qdisc H flowsCnt) : U32 :=
  BitVec.ofNat 32 q.qlen + q.cstats.dropCount - q.parent

def Stage.owed (s : Stage H) : U32 := BitVec.ofNat 32 s.size + s.codel.stats.dropCount

theorem of_nat_succ (n : Nat) : BitVec.ofNat 32 (n + 1) = BitVec.ofNat 32 n + 1 :=
  BitVec.ofNat_add ..

/-- Inside `codel_dequeue` a packet is queued, at hand, returned, or counted as dropped. -/
theorem Step.owed_eq {params : Params} {now : CodelTime} {packets : Nat} {others : U32}
    {s t : Stage H} (h : Step hd params now s t) (hs : s.Accounts packets others) :
    t.owed = s.owed := by
  cases h with
  | take skb queue c =>
    obtain ⟨_, hlooked, _⟩ := should_drop_looked params now (taken skb c) skb
    have hqlen : c.qlen = packets + (queue.length + 1) := hs.qlen
    have hsize : c.qlen - 1 + 1 = c.qlen := by omega
    rw [hlooked, Stage.owed, looked_drop_count]
    exact congrArg (BitVec.ofNat 32 · + c.stats.dropCount) hsize
  | empty => rfl
  | drop skb queue c due =>
    change BitVec.ofNat 32 (c.qlen + 0 + 0) + (c.stats.dropCount + 1) =
      BitVec.ofNat 32 (c.qlen + 1 + 0) + c.stats.dropCount
    rw [Nat.add_zero, Nat.add_zero, of_nat_succ]
    abel
  | mark => rfl
  | ceMark => rfl
  | control => rfl
  | leave => rfl

section Passes

variable {now : CodelTime}

theorem serve_owed (h : q.Accounts) (hd : Headers H) (now : CodelTime) (i : Fin flowsCnt) :
    (serve hd now i q).2.owed + BitVec.ofNat 32 (serve hd now i q).1.toList.length = q.owed := by
  have hlen := h.length_le i
  have hkeep := (codel_dequeue_steps hd q.cparams now (q.codel i) (q.flows i).queue).keep
    (P := fun s => s.Accounts (q.qlen - (q.flows i).queue.length)
      (q.backlog - queueBytes (q.flows i).queue) ∧
      s.owed = BitVec.ofNat 32 q.qlen + q.cstats.dropCount)
    (fun _ _ step hs => ⟨step.accounts hs.1, (step.owed_eq hs.1).trans hs.2⟩)
    ⟨⟨(Nat.sub_add_cancel hlen).symm, h.backlogs i, (sub_add_cancel ..).symm⟩, rfl⟩
  have howed := hkeep.2
  simp only [Stage.owed, Stage.size, Option.toList_none, List.length_nil, Nat.add_zero,
    BitVec.ofNat_add] at howed
  simp only [Qdisc.owed, ← howed]
  simp only [serve, Qdisc.store]
  abel

theorem report_all_owed (q : Qdisc H flowsCnt) : (reportAll q).owed = q.owed := by
  simp only [Qdisc.owed, reportAll, treeReduceBacklog]
  abel

theorem report_owed (q : Qdisc H flowsCnt) : (report q).owed = q.owed := by
  rw [report]
  split
  · exact report_all_owed q
  · rfl

theorem pass_again_owed (h : q.Inv hd bounds) (hpass : pass hd now q = .again t) :
    t.owed = q.owed := by
  have hpassed := pass_passed hd now q
  rw [hpass] at hpassed
  cases hpassed with
  | refill => rfl
  | rotate i first funded none =>
    have hserve := serve_owed h.accounts hd now i
    rw [none] at hserve
    exact (add_zero _).symm.trans hserve
  | retire isNew i first funded none =>
    have hserve := serve_owed h.accounts hd now i
    rw [none] at hserve
    exact (add_zero _).symm.trans hserve

theorem pass_packet_owed {skb : SkBuff H} (h : q.Inv hd bounds)
    (hpass : pass hd now q = .packet skb t) : t.owed + 1 = q.owed := by
  have hpassed := pass_passed hd now q
  rw [hpass] at hpassed
  cases hpassed with
  | packet isNew i first funded _ some =>
    have hserve := serve_owed h.accounts hd now i
    rw [some] at hserve
    rw [send, report_owed]
    exact hserve

theorem dequeue_owed (h : q.Inv hd bounds) {clock : Nat → CodelTime} {fuel : Nat}
    {skb : Option (SkBuff H)} (hrun : passes hd fuel clock q = .ok (skb, t)) :
    t.owed + BitVec.ofNat 32 skb.toList.length = q.owed := by
  induction fuel generalizing q clock with
  | zero => cases hrun
  | succ fuel ih =>
    rw [passes] at hrun
    cases hpass : pass hd (clock 0) q with
    | empty =>
      rw [hpass] at hrun
      cases hrun
      exact add_zero _
    | again u =>
      rw [hpass] at hrun
      rw [ih (pass_again h hpass).1 hrun, pass_again_owed h hpass]
    | packet skb u =>
      rw [hpass] at hrun
      cases hrun
      exact pass_packet_owed h hpass

end Passes

section Calls

theorem drop_owed [NeZero flowsCnt] {idx : Fin flowsCnt} (hpos : 0 < q.qlen)
    (hdrop : fqCodelDrop q = .ok (idx, t)) : t.owed + 1 = q.owed := by
  simp only [fqCodelDrop] at hdrop
  split at hdrop
  · cases hdrop
  · cases hdrop
    have hqlen : q.qlen - 1 + 1 = q.qlen := Nat.sub_add_cancel hpos
    have hof := of_nat_succ (q.qlen - 1)
    rw [hqlen] at hof
    simp only [Qdisc.owed, dropHead, hof]
    abel

theorem sent_here_owed (q : Qdisc H flowsCnt) : (sentHere q).owed = q.owed - 1 := by
  simp only [Qdisc.owed, sentHere]
  abel

theorem got_back_owed (q : Qdisc H flowsCnt) : (gotBack q).owed = q.owed + 1 := by
  simp only [Qdisc.owed, gotBack]
  abel

theorem wake_owed (clears : Bool) (i : Fin flowsCnt) (skb : SkBuff H) (q : Qdisc H flowsCnt) :
    (wake clears i (accept i skb q)).owed = q.owed + 1 := by
  have haccept : (accept i skb q).owed = q.owed + 1 := by
    simp only [Qdisc.owed, accept, of_nat_succ]
    abel
  rw [wake]
  split <;> exact haccept

/-- `while (sch->q.qlen > sch->limit)` counts what it frees as dropped. -/
theorem trim_owed (h : q.Inv hd bounds) {clock : Nat → Nat → CodelTime} {fuel : Nat}
    (hrun : trim hd fuel clock q = .ok t) : t.owed = q.owed := by
  induction fuel generalizing q clock with
  | zero =>
    rw [trim] at hrun
    split at hrun
    · cases hrun
    · cases hrun
      rfl
  | succ fuel ih =>
    rw [trim] at hrun
    split at hrun
    · obtain ⟨⟨skb, u⟩, hdequeue, hrun⟩ := bind_ok hrun
      cases skb with
      | none => cases hrun
      | some skb =>
        have howed := dequeue_owed h hdequeue
        obtain ⟨skb', u', hdequeue', hdone⟩ := dequeue_runs h (clock 0)
        obtain ⟨rfl, rfl⟩ := Prod.mk.inj (Except.ok.inj (hdequeue.symm.trans hdequeue'))
        have hfreed : (freeOver skb u).Inv hd bounds :=
          hdone.inv.same rfl rfl rfl rfl rfl rfl rfl
        change trim hd fuel _ (freeOver skb u) = .ok t at hrun
        rw [ih hfreed hrun, ← howed]
        simp only [Qdisc.owed, freeOver, Option.toList_some, List.length_singleton]
        change _ = _ + 1
        abel
    · cases hrun
      rfl

variable [NeZero flowsCnt]

theorem enqueue_owed (hcnt : flowsCnt ≤ 65536) {tc : Option (Int × U32)} {now : CodelTime}
    {skb : SkBuff H} {ret : Xmit} (hrun : fqCodelEnqueue hd tc now skb q = .ok (ret, t)) :
    t.owed = if ret = .success then q.owed + 1 else q.owed := by
  simp only [fqCodelEnqueue] at hrun
  split at hrun
  · cases hrun
    rfl
  · cases hrun
    rfl
  · rename_i idx hclass
    rw [dif_pos (classify_slot hcnt hclass)] at hrun
    generalize (⟨(idx - 1).toNat, classify_slot hcnt hclass⟩ : Fin flowsCnt) = i at hrun
    have howed := wake_owed true i { skb with enqueueTime := now } q
    obtain ⟨hqlen, -⟩ := wake_qlen true i (accept i { skb with enqueueTime := now } q)
    change _ = q.qlen + 1 at hqlen
    generalize wake true i (accept i { skb with enqueueTime := now } q) = u at hrun howed hqlen
    split at hrun
    · cases hrun
      exact howed
    · obtain ⟨⟨fat, v⟩, hdrop, hrun⟩ := bind_ok hrun
      have hdropped : v.owed + 1 = q.owed + 1 :=
        (drop_owed (by change 0 < u.qlen; omega) hdrop).trans howed
      split at hrun
      · cases hrun
        exact add_right_cancel hdropped
      · cases hrun
        rw [if_pos rfl, ← hdropped]
        simp only [Qdisc.owed, treeReduceBacklog]
        abel

/-- The bytes that `fq_codel_qdisc_drop` returns are those of a packet. -/
theorem drop_len {idx : Fin flowsCnt} (h : q.Inv hd bounds) (hdrop : fqCodelDrop q = .ok (idx, t)) :
    q.backlog - t.backlog ≠ 0 := by
  simp only [fqCodelDrop] at hdrop
  split at hdrop
  · cases hdrop
  · rename_i skb rest hqueue
    cases hdrop
    have hfits := ((h.kept (fatFlow q).2).fits skb (hqueue ▸ List.mem_cons_self ..)).1
    simp only [dropHead, sub_sub_cancel]
    intro hzero
    rw [hzero] at hfits
    exact absurd hfits (by decide)

def Action.isReset : Action H → Bool
  | .reset => true
  | _ => false

/-- What a call does to the difference. A reset forgets drops that were not reported. -/
theorem exec_owed {setup : Setup flowsCnt} (h : q.Sane hd setup.toBounds) {a : Action H}
    (allowed : setup.Allowed q a) (hrun : exec hd q a = .ok t) :
    t.owed = if a.isReset then q.cstats.dropCount else q.owed := by
  cases a with
  | enqueue tc now skb =>
    obtain ⟨⟨ret, u⟩, henqueue, hrun⟩ := bind_ok hrun
    have howed := enqueue_owed setup.flows_le henqueue
    change Except.ok (if ret = .success then sentHere u else u) = .ok t at hrun
    split at hrun
    · rename_i hret
      cases hrun
      rw [if_pos hret] at howed
      exact (sent_here_owed u).trans (sub_eq_iff_eq_add.mpr howed)
    · rename_i hret
      cases hrun
      rwa [if_neg hret] at howed
  | dequeue clock =>
    obtain ⟨⟨skb, u⟩, hdequeue, hrun⟩ := bind_ok hrun
    have howed := dequeue_owed h.inv hdequeue
    cases skb with
    | none =>
      cases hrun
      exact (add_zero _).symm.trans howed
    | some skb =>
      cases hrun
      exact (got_back_owed u).trans howed
  | drop =>
    obtain ⟨⟨len, u⟩, hlen, hrun⟩ := bind_ok hrun
    obtain ⟨⟨idx, v⟩, hdrop, hlen⟩ := bind_ok hlen
    cases hlen
    have howed := drop_owed allowed hdrop
    change Except.ok (if q.backlog - u.backlog = 0 then u else gotBack u) = .ok t at hrun
    rw [if_neg (drop_len h.inv hdrop)] at hrun
    cases hrun
    exact (got_back_owed u).trans howed
  | reset =>
    cases hrun
    simp [Qdisc.owed, fqCodelReset, Action.isReset]
  | change opt clock =>
    obtain ⟨⟨answer, u⟩, hchange, hrun⟩ := bind_ok hrun
    cases hrun
    cases opt with
    | none =>
      cases hchange
      rfl
    | some opt =>
      simp only [fqCodelChange] at hchange
      split at hchange
      · cases hchange
        rfl
      · obtain ⟨v, htrim, hreport⟩ := bind_ok hchange
        cases hreport
        have howed := trim_owed (h.inv.configure (allowed opt rfl)) htrim
        rw [report_all_owed]
        exact howed

/-- A parent that counts the packets it has sent here and not got back, and subtracts the drops
reported, has counted the packets queued and the drops not yet reported after each call of
a run, exactly if every reset comes when no report is due. -/
theorem parent_count_exact (hd : Headers H) (setup : Setup flowsCnt) (actions : List (Action H)) :
    (machine hd setup).Throughout (fun _ _ r => ∀ t, r = .ok t →
      t.parent = BitVec.ofNat 32 t.qlen + t.cstats.dropCount) (machine hd setup).start actions ↔
    (machine hd setup).Throughout (fun q a _ => a.isReset = true → q.cstats.dropCount = 0)
      (machine hd setup).start actions := by
  have hexact : ∀ q : Qdisc H flowsCnt, q.owed = 0 ↔
      q.parent = BitVec.ofNat 32 q.qlen + q.cstats.dropCount :=
    fun q => sub_eq_zero.trans eq_comm
  refine Machine.throughout_iff (fun q => q.Sane hd setup.toBounds ∧ q.owed = 0) ?_ ?_
    ⟨init_sane setup (by decide), sub_self 0⟩ actions
  · intro q a hq allowed
    obtain ⟨t, hrun, -⟩ := (sane_inductive hd setup).step q a hq.1 allowed
    have howed := exec_owed hq.1 allowed hrun
    rw [hrun]
    constructor
    · intro h hreset
      rw [if_pos hreset, (hexact t).mpr (h t rfl)] at howed
      exact howed.symm
    · intro hguard u hu
      obtain rfl := Except.ok.inj hu
      apply (hexact t).mp
      rw [howed]
      split
      · exact hguard (by assumption)
      · exact hq.2
  · intro q a t hq allowed hguard hrun
    obtain ⟨u, hu, hsane⟩ := (sane_inductive hd setup).step q a hq.1 allowed
    obtain rfl := Except.ok.inj (hu.symm.trans hrun)
    refine ⟨hsane, ?_⟩
    rw [exec_owed hq.1 allowed hrun]
    split
    · exact hguard (by assumption)
    · exact hq.2

theorem parent_count_exact_slow_flow :
    (machine plain ethernet).Throughout (fun _ _ r => ∀ t, r = .ok t →
      t.parent = BitVec.ofNat 32 t.qlen + t.cstats.dropCount) (machine plain ethernet).start
      slowFlow := by
  apply (parent_count_exact plain ethernet slowFlow).mpr
  simp [slowFlow, Machine.Throughout, Action.isReset]

end Calls

end ApTelemetry.FqCodel
