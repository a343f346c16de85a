import ApTelemetry.FqCodel.Passes

namespace ApTelemetry.FqCodel
open Lib

variable {H : Type} {hd : Headers H} {now : CodelTime} {flowsCnt : Nat} {bounds : Bounds}
  {q t : Qdisc H flowsCnt} {i : Fin flowsCnt}

namespace Qdisc.Funded

/-- On the lists stay flows that were there, with deficits within the bounds. -/
theorem of_lists (h : q.Funded bounds) (quantum : t.quantum = q.quantum)
    (lists : ∀ j ∈ t.newFlows ++ t.oldFlows, j ∈ q.newFlows ++ q.oldFlows)
    (deficits : ∀ j ∈ q.newFlows ++ q.oldFlows, (t.flows j).deficit = (q.flows j).deficit ∨
      -(bounds.maxLen : Int) < (t.flows j).deficit.toInt ∧
        (t.flows j).deficit.toInt ≤ bounds.maxQuantum) : t.Funded bounds := by
  refine ⟨quantum ▸ h.quantum_pos, quantum ▸ h.quantum_le, fun j hj => ?_, fun j hj => ?_⟩
  · rcases deficits j (lists j hj) with heq | hnew
    · rw [heq]
      exact h.deficit_gt j (lists j hj)
    · exact hnew.1
  · rcases deficits j (lists j hj) with heq | hnew
    · rw [heq]
      exact h.deficit_le j (lists j hj)
    · exact hnew.2

theorem serve (h : q.Funded bounds) : (serve hd now i q).2.Funded bounds :=
  h.of_lists rfl (fun _ => id) fun j _ => Or.inl (serve_deficit q i j)

theorem move_to_old (h : q.Funded bounds) (listed : q.Listed)
    (hi : i ∈ q.newFlows ++ q.oldFlows) : (moveToOld i q).Funded bounds :=
  h.of_lists rfl (fun _ => (perm_move_last listed.nodup hi).mem_iff.mp) fun _ _ => Or.inl rfl

theorem unlist (h : q.Funded bounds) : (unlist i q).Funded bounds := by
  refine h.of_lists rfl (fun j hj => ?_) fun _ _ => Or.inl rfl
  exact (List.Sublist.append List.erase_sublist List.erase_sublist).mem hj

/-- Where the amount keeps the deficit within the bounds, so does the whole step. -/
theorem credit (h : q.Funded bounds) {amount : U32} {x : Int} (hamount : amount.toInt = x)
    (lo : -(bounds.maxLen : Int) < (q.flows i).deficit.toInt + x)
    (hi : (q.flows i).deficit.toInt + x ≤ bounds.maxQuantum) :
    (credit i amount q).Funded bounds := by
  refine h.of_lists rfl (fun _ => id) fun j _ => ?_
  rw [credit_deficit]
  split
  · have hlen := bounds.max_len_lt
    have hquantum := bounds.quantum_lt
    rw [add_to_int hamount (by omega) (by omega)]
    exact Or.inr ⟨lo, hi⟩
  · exact Or.inl rfl

end Qdisc.Funded

namespace Qdisc.Inv

theorem quantum_lt (h : q.Inv hd bounds) : q.quantum.toNat < 2147483648 :=
  Nat.lt_of_le_of_lt h.funded.quantum_le bounds.quantum_lt

/-- Fields that the invariant does not speak of. -/
theorem same (h : q.Inv hd bounds) (flows : t.flows = q.flows)
    (backlogs : t.backlogs = q.backlogs) (qlen : t.qlen = q.qlen) (backlog : t.backlog = q.backlog)
    (new : t.newFlows = q.newFlows) (old : t.oldFlows = q.oldFlows)
    (quantum : t.quantum = q.quantum) : t.Inv hd bounds := by
  refine ⟨flows ▸ h.kept, h.accounts.same (fun j => by rw [flows]) backlogs qlen backlog, ?_, ?_⟩
  · exact h.listed.perm (by rw [new, old]) fun j => by rw [flows]; exact id
  · exact h.funded.of_lists quantum (by rw [new, old]; exact fun _ => id)
      fun j _ => Or.inl (by rw [flows])

theorem move_to_old (h : q.Inv hd bounds) (hi : i ∈ q.newFlows ++ q.oldFlows) :
    (moveToOld i q).Inv hd bounds :=
  ⟨h.kept, h.accounts.same (fun _ => rfl) rfl rfl rfl, h.listed.move_to_old hi,
    h.funded.move_to_old h.listed hi⟩

theorem unlist (h : q.Inv hd bounds) (empty : (q.flows i).queue = []) :
    (unlist i q).Inv hd bounds :=
  ⟨h.kept, h.accounts.same (fun _ => rfl) rfl rfl rfl, h.listed.unlist empty, h.funded.unlist⟩

theorem credit (h : q.Inv hd bounds) {amount : U32} {x : Int} (hamount : amount.toInt = x)
    (lo : -(bounds.maxLen : Int) < (q.flows i).deficit.toInt + x)
    (hi : (q.flows i).deficit.toInt + x ≤ bounds.maxQuantum) : (credit i amount q).Inv hd bounds :=
  ⟨update_forall (P := fun _ f => Flow.Kept hd bounds.Fits f) ((h.kept i).account _ _) h.kept,
    h.accounts.credit i amount, h.listed.credit amount, h.funded.credit hamount lo hi⟩

theorem serve (h : q.Inv hd bounds) (now : CodelTime) (i : Fin flowsCnt) :
    (serve hd now i q).2.Inv hd bounds :=
  ⟨serve_kept h.kept i, h.accounts.serve hd now i, serve_listed h.listed i, h.funded.serve⟩

theorem report (h : q.Inv hd bounds) : (report q).Inv hd bounds := by
  rw [FqCodel.report]
  split
  · exact h.same rfl rfl rfl rfl rfl rfl rfl
  · exact h

theorem send (h : q.Inv hd bounds) {skb : SkBuff H} (fits : bounds.Fits skb.pktLen)
    (listed : i ∈ q.newFlows ++ q.oldFlows) (funded : 0 < (q.flows i).deficit.toInt) :
    (send hd i skb q).Inv hd bounds := by
  have hlen := bounds.max_len_lt
  have hle := h.funded.deficit_le i listed
  obtain ⟨hpos, hmax⟩ := fits
  apply report
  refine credit (x := -(skb.pktLen.toNat : Int)) ?_ (neg_to_int (by omega)) ?_ ?_
  · exact h.same rfl rfl rfl rfl rfl rfl rfl
  · change -(bounds.maxLen : Int) < (q.flows i).deficit.toInt + -(skb.pktLen.toNat : Int)
    omega
  · change (q.flows i).deficit.toInt + -(skb.pktLen.toNat : Int) ≤ bounds.maxQuantum
    omega

end Qdisc.Inv

section Measure

theorem passes_eq (q : Qdisc H flowsCnt) : q.passes =
    ((q.newFlows ++ q.oldFlows).map fun j => rounds q.quantum (q.flows j).deficit).sum +
      weight q.newFlows q.oldFlows := rfl

theorem refill_passes (h : q.Inv hd bounds) (listed : i ∈ q.newFlows ++ q.oldFlows)
    (spent : (q.flows i).deficit.toInt ≤ 0) :
    (moveToOld i (credit i q.quantum q)).passes < q.passes := by
  have hnodup := h.listed.nodup
  have hless := rounds_add h.funded.quantum_pos h.quantum_lt spent
  have hmoved := sum_move_last hnodup listed fun j =>
    rounds q.quantum ((credit i q.quantum q).flows j).deficit
  have hothers := sum_erase_congr hnodup (a := i) (f := fun j =>
    rounds q.quantum ((credit i q.quantum q).flows j).deficit)
    (g := fun j => rounds q.quantum (q.flows j).deficit)
    fun j hj => by rw [credit_deficit, if_neg hj]
  have hsum := sum_erase_both hnodup listed fun j => rounds q.quantum (q.flows j).deficit
  have hlast : rounds q.quantum ((credit i q.quantum q).flows i).deficit + 1 =
      rounds q.quantum (q.flows i).deficit := by rw [credit_deficit, if_pos rfl, hless]
  refine Nat.add_lt_add_of_lt_of_le ?_ (weight_move_last_le listed)
  calc _ = _ := hmoved
    _ < ((q.newFlows ++ q.oldFlows).map fun j => rounds q.quantum (q.flows j).deficit).sum := by
      rw [hsum, hothers]
      omega

theorem serve_passes (hd : Headers H) (now : CodelTime) (i : Fin flowsCnt) (q : Qdisc H flowsCnt) :
    (serve hd now i q).2.passes = q.passes := by
  rw [passes_eq, passes_eq]
  simp only [serve_deficit]
  rfl

theorem rotate_passes (listed : q.Listed) (hi : i ∈ q.newFlows) :
    (moveToOld i q).passes < q.passes := by
  have hmem : i ∈ q.newFlows ++ q.oldFlows := List.mem_append_left _ hi
  have hmoved := sum_move_last listed.nodup hmem fun j => rounds q.quantum (q.flows j).deficit
  have hsum := sum_erase_both listed.nodup hmem fun j => rounds q.quantum (q.flows j).deficit
  exact Nat.add_lt_add_of_le_of_lt (hmoved.trans hsum.symm).le (weight_move_last_lt hi)

theorem retire_passes (listed : q.Listed) (hi : i ∈ q.newFlows ++ q.oldFlows) :
    (unlist i q).passes < q.passes := by
  have hsum := sum_erase_both listed.nodup hi fun j => rounds q.quantum (q.flows j).deficit
  refine Nat.add_lt_add_of_le_of_lt ?_ (weight_erase_lt hi)
  rw [hsum]
  exact Nat.le_add_left ..

end Measure

/-- What a pass that goes on keeps. -/
theorem pass_again (h : q.Inv hd bounds) (hpass : pass hd now q = .again t) :
    t.Inv hd bounds ∧ t.passes < q.passes ∧ t.qlen ≤ q.qlen ∧ (0 < q.qlen → 0 < t.qlen) ∧
      t.limit = q.limit := by
  have hpassed := pass_passed hd now q
  rw [hpass] at hpassed
  cases hpassed with
  | refill isNew i first spent =>
    have hlow := h.funded.deficit_gt i first.mem
    have hle := h.funded.quantum_le
    have hcredit := h.credit (small_to_int h.quantum_lt) (i := i) (by omega) (by omega)
    exact ⟨hcredit.move_to_old first.mem, refill_passes h first.mem spent, le_refl _, id, rfl⟩
  | rotate i first funded none others =>
    obtain ⟨hle, hlive⟩ := serve_qlen h.accounts hd now i
    have hserve := h.serve now i
    refine ⟨hserve.move_to_old first.mem, ?_, le_trans (Nat.le_add_right ..) hle,
      fun hq => hlive hq none, rfl⟩
    rw [← serve_passes hd now i q]
    apply rotate_passes hserve.listed
    cases first with
    | new _ rest hnew => exact hnew ▸ List.mem_cons_self ..
  | retire isNew i first funded none =>
    obtain ⟨hle, hlive⟩ := serve_qlen h.accounts hd now i
    have hserve := h.serve now i
    refine ⟨hserve.unlist (serve_queue none), ?_, le_trans (Nat.le_add_right ..) hle,
      fun hq => hlive hq none, rfl⟩
    rw [← serve_passes hd now i q]
    exact retire_passes hserve.listed first.mem

theorem report_qlen (q : Qdisc H flowsCnt) : (report q).qlen = q.qlen := by
  rw [report]
  split <;> rfl

theorem report_limit (q : Qdisc H flowsCnt) : (report q).limit = q.limit := by
  rw [report]
  split <;> rfl

theorem pass_packet {skb : SkBuff H} (h : q.Inv hd bounds) (hpass : pass hd now q = .packet skb t) :
    t.Inv hd bounds ∧ t.qlen < q.qlen ∧ t.limit = q.limit ∧
      ∃ i sight, (t.flows i).left.getLast? = some ⟨skb, .returned sight⟩ := by
  have hpassed := pass_passed hd now q
  rw [hpass] at hpassed
  cases hpassed with
  | packet isNew i first funded _ some =>
    have hle := (serve_qlen h.accounts hd now i).1
    rw [some] at hle
    obtain ⟨sight, hlast⟩ := serve_recorded some
    refine ⟨(h.serve now i).send (serve_fits h.kept some) first.mem ?_, ?_, report_limit _, i,
      sight, ?_⟩
    · rw [serve_deficit]
      exact funded
    · change (report _).qlen < q.qlen
      rw [report_qlen]
      exact hle
    · simp only [send, report_flows, credit, Function.update_self]
      exact hlast

theorem pass_empty (h : q.Inv hd bounds) (hpass : pass hd now q = .empty) : q.qlen = 0 := by
  have hpassed := pass_passed hd now q
  rw [hpass] at hpassed
  cases hpassed with
  | empty new old =>
    rw [h.accounts.qlen]
    apply Finset.sum_eq_zero
    intro j _
    apply List.length_eq_zero_iff.mpr
    by_contra hqueue
    have hmem := h.listed.queued j hqueue
    rw [new, old] at hmem
    exact List.not_mem_nil hmem

/-- What `fq_codel_dequeue` does. It returns a packet exactly if there is one. -/
structure Dequeued (hd : Headers H) (bounds : Bounds) (q : Qdisc H flowsCnt)
    (skb : Option (SkBuff H)) (t : Qdisc H flowsCnt) : Prop where
  inv : t.Inv hd bounds
  returns : skb = none ↔ q.qlen = 0
  qlen : t.qlen + skb.toList.length ≤ q.qlen
  limit : t.limit = q.limit
  recorded : ∀ out ∈ skb, ∃ i sight, (t.flows i).left.getLast? = some ⟨out, .returned sight⟩

theorem passes_dequeued (h : q.Inv hd bounds) (clock : Nat → CodelTime) {fuel : Nat}
    (hfuel : q.passes < fuel) :
    ∃ skb t, passes hd fuel clock q = .ok (skb, t) ∧ Dequeued hd bounds q skb t := by
  induction fuel generalizing q clock with
  | zero => exact absurd hfuel (Nat.not_lt_zero _)
  | succ fuel ih =>
    rw [passes]
    cases hpass : pass hd (clock 0) q with
    | empty =>
      have hzero := pass_empty h hpass
      exact ⟨none, q, rfl, h, ⟨fun _ => hzero, fun _ => rfl⟩, le_refl _, rfl,
        fun _ h => absurd h (Option.not_mem_none _)⟩
    | again u =>
      obtain ⟨hinv, hless, hqlen, hlive, hlimit⟩ := pass_again h hpass
      obtain ⟨skb, t, hrun, hdone⟩ := ih hinv (fun k => clock (k + 1)) (by omega)
      refine ⟨skb, t, hrun, hdone.inv, ?_, le_trans hdone.qlen hqlen, hdone.limit.trans hlimit,
        hdone.recorded⟩
      rw [hdone.returns]
      omega
    | packet skb u =>
      obtain ⟨hinv, hless, hlimit, hlast⟩ := pass_packet h hpass
      refine ⟨some skb, u, rfl, hinv, ?_, hless, hlimit,
        fun _ hout => Option.some.inj hout ▸ hlast⟩
      exact ⟨fun hnone => absurd hnone (Option.some_ne_none _),
        fun hzero => absurd hless (by omega)⟩

/-- More passes than are needed change nothing. -/
theorem passes_more {fuel : Nat} {clock : Nat → CodelTime}
    {r : Option (SkBuff H) × Qdisc H flowsCnt} (h : passes hd fuel clock q = .ok r) (more : Nat) :
    passes hd (fuel + more) clock q = .ok r := by
  induction fuel generalizing q clock with
  | zero => cases h
  | succ fuel ih =>
    rw [Nat.add_right_comm, passes]
    rw [passes] at h
    cases hpass : pass hd (clock 0) q with
    | empty =>
      rw [hpass] at h
      exact h
    | again u =>
      rw [hpass] at h
      exact ih h
    | packet skb u =>
      rw [hpass] at h
      exact h

theorem dequeue_runs (h : q.Inv hd bounds) (clock : Nat → CodelTime) :
    ∃ skb t, fqCodelDequeue hd clock q = .ok (skb, t) ∧ Dequeued hd bounds q skb t :=
  passes_dequeued h clock (Nat.lt_succ_self _)

end ApTelemetry.FqCodel
