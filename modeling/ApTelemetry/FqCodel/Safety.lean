import ApTelemetry.FqCodel.Progress

namespace ApTelemetry.FqCodel
open Lib

variable {H : Type} {hd : Headers H} {flowsCnt : Nat} {bounds : Bounds} {q t : Qdisc H flowsCnt}

section Bytes

variable {m : Nat} {queue : List (SkBuff H)}

/-- The bytes of a queue do not wrap around. -/
theorem queue_bytes_to_nat (hlen : ∀ skb ∈ queue, skb.pktLen.toNat ≤ m)
    (hall : queue.length * m < 4294967296) :
    (queueBytes queue).toNat = (queue.map fun skb => skb.pktLen.toNat).sum ∧
      (queueBytes queue).toNat ≤ queue.length * m := by
  induction queue with
  | nil => exact ⟨rfl, Nat.zero_le _⟩
  | cons skb rest ih =>
    obtain ⟨hskb, hrest⟩ := List.forall_mem_cons.mp hlen
    rw [List.length_cons, Nat.add_mul, Nat.one_mul] at hall ⊢
    obtain ⟨hsum, hle⟩ := ih hrest (by omega)
    have hadd : (queueBytes (skb :: rest)).toNat = skb.pktLen.toNat + (queueBytes rest).toNat := by
      rw [queue_bytes_cons, BitVec.toNat_add]
      exact Nat.mod_eq_of_lt (by omega)
    rw [hadd]
    exact ⟨by rw [hsum, List.map_cons, List.sum_cons], by omega⟩

theorem queue_bytes_pos (hfits : ∀ skb ∈ queue, bounds.Fits skb.pktLen)
    (hall : queue.length * bounds.maxLen < 4294967296) (hne : queue ≠ []) :
    0 < (queueBytes queue).toNat := by
  rw [(queue_bytes_to_nat (fun skb hskb => (hfits skb hskb).2) hall).1]
  cases queue with
  | nil => exact absurd rfl hne
  | cons skb rest =>
    have hskb := (hfits skb (List.mem_cons_self ..)).1
    rw [List.map_cons, List.sum_cons]
    omega

end Bytes

theorem Qdisc.Inv.drop_head {i : Fin flowsCnt} {skb : SkBuff H} {rest : List (SkBuff H)}
    (h : q.Inv hd bounds) (hqueue : (q.flows i).queue = skb :: rest) :
    (dropHead i skb rest q).Inv hd bounds := by
  refine ⟨?_, h.accounts.drop_head hqueue, ?_, ?_⟩
  · exact update_forall (P := fun _ f => Flow.Kept hd bounds.Fits f)
      ((h.kept i).overlimit (List.singleton_append ▸ hqueue) _) h.kept
  · refine h.listed.perm (.refl _) (update_forall
      (P := fun j (f : Flow H) => (q.flows j).queue = [] → f.queue = []) ?_ fun _ => id)
    intro hempty
    rw [hqueue] at hempty
    cases hempty
  · have hdeficit : ∀ j, ((dropHead i skb rest q).flows j).deficit = (q.flows j).deficit :=
      update_forall (P := fun j (f : Flow H) => f.deficit = (q.flows j).deficit) rfl fun _ => rfl
    exact h.funded.of_lists rfl (fun _ => id) fun j _ => Or.inl (hdeficit j)

section Drop

variable [NeZero flowsCnt]

/-- The scan finds a flow with a largest backlog. -/
theorem fat_flow_largest (q : Qdisc H flowsCnt) (j : Fin flowsCnt) :
    q.backlogs j ≤ q.backlogs (fatFlow q).2 := by
  obtain ⟨hfound, -, hall⟩ := foldl_largest q.backlogs (0, 0) (List.finRange flowsCnt)
  have hj := hall j (List.mem_finRange j)
  rcases hfound with hnone | ⟨-, hkey⟩
  · rw [hnone] at hj
    exact BitVec.le_trans hj (BitVec.le_def.mpr (Nat.zero_le _))
  · rw [fatFlow, hkey]
    exact hj

/-- With a packet in the qdisc the fat flow has one. -/
theorem fat_flow_queue (h : q.Inv hd bounds) (hpos : 0 < q.qlen)
    (hall : q.qlen * bounds.maxLen < 4294967296) : (q.flows (fatFlow q).2).queue ≠ [] := by
  intro hempty
  have hzero : ∀ j, (q.flows j).queue = [] := by
    intro j
    by_contra hne
    have hlen : (q.flows j).queue.length * bounds.maxLen < 4294967296 :=
      Nat.lt_of_le_of_lt (Nat.mul_le_mul_right _ (h.accounts.length_le j)) hall
    have hbytes := queue_bytes_pos (h.kept j).fits hlen hne
    have hle := fat_flow_largest q j
    rw [h.accounts.backlogs, h.accounts.backlogs, hempty, BitVec.le_def] at hle
    exact absurd hle (Nat.not_le.mpr hbytes)
  have hqlen := h.accounts.qlen
  simp only [hzero, List.length_nil, Finset.sum_const_zero] at hqlen
  omega

theorem drop_runs (h : q.Inv hd bounds) (hpos : 0 < q.qlen)
    (hall : q.qlen * bounds.maxLen < 4294967296) :
    ∃ idx t, fqCodelDrop q = .ok (idx, t) ∧ t.Inv hd bounds ∧ t.qlen + 1 = q.qlen ∧
      t.limit = q.limit := by
  simp only [fqCodelDrop]
  split
  · rename_i hqueue
    exact absurd hqueue (fat_flow_queue h hpos hall)
  · rename_i skb rest hqueue
    exact ⟨_, _, rfl, h.drop_head hqueue, Nat.sub_add_cancel hpos, rfl⟩

end Drop

section Enqueue

variable {clears : Bool} {i : Fin flowsCnt} {skb : SkBuff H}

/-- Only the flow that is put on the list may have packets without being on one. -/
theorem Qdisc.Inv.woken (kept : ∀ j, (q.flows j).Kept hd bounds.Fits) (accounts : q.Accounts)
    (nodup : (q.newFlows ++ q.oldFlows).Nodup) (funded : q.Funded bounds)
    (queued : ∀ j, j ≠ i → (q.flows j).queue ≠ [] → j ∈ q.newFlows ++ q.oldFlows) :
    (wake clears i q).Inv hd bounds := by
  have hkept : ∀ j, ((wake clears i q).flows j).Kept hd bounds.Fits := by
    rw [wake]
    split
    · exact kept
    · exact update_forall (P := fun _ f => Flow.Kept hd bounds.Fits f) ((kept i).account _ _) kept
  refine ⟨hkept, accounts.wake clears i, ?_, ?_⟩
  · rw [wake]
    split
    · rename_i hlisted
      refine ⟨nodup, fun j hj => ?_⟩
      cases decEq j i with
      | isTrue heq => exact heq ▸ List.mem_append.mpr hlisted
      | isFalse hne => exact queued j hne hj
    · rename_i hfree
      have hi : i ∉ q.newFlows ++ q.oldFlows := fun h => hfree (List.mem_append.mp h)
      have hperm : ((q.newFlows ++ [i]) ++ q.oldFlows).Perm (i :: (q.newFlows ++ q.oldFlows)) := by
        rw [List.append_assoc]
        exact List.perm_middle
      refine ⟨hperm.nodup_iff.mpr (List.nodup_cons.mpr ⟨hi, nodup⟩), fun j hj => ?_⟩
      apply hperm.mem_iff.mpr
      cases decEq j i with
      | isTrue heq => exact heq ▸ List.mem_cons_self ..
      | isFalse hne =>
        simp only [Function.update_of_ne hne] at hj
        exact List.mem_cons_of_mem i (queued j hne hj)
  · rw [wake]
    split
    · exact funded
    · have hpos := funded.quantum_pos
      have hquantum := funded.quantum_le
      have hlarge := bounds.quantum_lt
      have hnew : q.quantum.toInt = q.quantum.toNat := small_to_int (by omega)
      have hdeficits : ∀ f : Flow H, f.deficit = q.quantum → ∀ j ∈ q.newFlows ++ [i] ++ q.oldFlows,
          -(bounds.maxLen : Int) < (Function.update q.flows i f j).deficit.toInt ∧
            (Function.update q.flows i f j).deficit.toInt ≤ bounds.maxQuantum := by
        intro f hf j hj
        cases decEq j i with
        | isTrue heq =>
          subst heq
          rw [Function.update_self, hf, hnew]
          omega
        | isFalse hne =>
          have hold : j ∈ q.newFlows ++ q.oldFlows := by simpa [hne] using hj
          rw [Function.update_of_ne hne]
          exact ⟨funded.deficit_gt j hold, funded.deficit_le j hold⟩
      exact ⟨funded.quantum_pos, funded.quantum_le, fun j hj => (hdeficits _ rfl j hj).1,
        fun j hj => (hdeficits _ rfl j hj).2⟩

theorem Qdisc.Inv.accept (h : q.Inv hd bounds) (clears : Bool) (i : Fin flowsCnt)
    (skb : SkBuff H) (fits : bounds.Fits skb.pktLen) :
    (wake clears i (accept i skb q)).Inv hd bounds := by
  apply Qdisc.Inv.woken
  · exact update_forall (P := fun _ f => Flow.Kept hd bounds.Fits f) ((h.kept i).accept fits) h.kept
  · exact h.accounts.accept i skb
  · exact h.listed.nodup
  · have hdeficit : ∀ j, ((FqCodel.accept i skb q).flows j).deficit = (q.flows j).deficit :=
      update_forall (P := fun j (f : Flow H) => f.deficit = (q.flows j).deficit) rfl fun _ => rfl
    exact h.funded.of_lists rfl (fun _ => id) fun j _ => Or.inl (hdeficit j)
  · intro j hne hj
    simp only [FqCodel.accept, Function.update_of_ne hne] at hj
    exact h.listed.queued j hj

/-- The number of a flow is in range. -/
theorem classify_slot [NeZero flowsCnt] (hcnt : flowsCnt ≤ 65536) {tc : Option (Int × U32)}
    {idx : U32} (h : fqCodelClassify hd q tc skb = .slot idx) : (idx - 1).toNat < flowsCnt := by
  have hpos := NeZero.pos flowsCnt
  have hsmall : (BitVec.ofNat 32 flowsCnt).toNat = flowsCnt :=
    BitVec.toNat_ofNat .. |>.trans (Nat.mod_eq_of_lt (by omega))
  have hminor : ∀ minor : U32, 0 < minor → minor ≤ BitVec.ofNat 32 flowsCnt →
      (minor - 1).toNat < flowsCnt := by
    intro minor hone hle
    rw [BitVec.lt_def] at hone
    rw [BitVec.le_def, hsmall] at hle
    change 0 < minor.toNat at hone
    have hfirst : (1 : U32) ≤ minor := BitVec.le_def.mpr hone
    rw [sub_to_nat_of_le hfirst]
    change minor.toNat - 1 < flowsCnt
    omega
  have hhash : (fqCodelHash hd flowsCnt skb).toNat < flowsCnt := by
    have hlt := reciprocal_scale_lt (hd.hash skb.hdr) (BitVec.ofNat 32 flowsCnt)
    rw [hsmall] at hlt
    exact hlt hpos
  simp only [fqCodelClassify] at h
  split at h
  · rename_i hpriority
    cases h
    exact hminor _ hpriority.2.1 hpriority.2.2
  · split at h
    · cases h
      rw [add_sub_cancel_right]
      exact hhash
    · split at h
      · cases h
      · split at h
        · cases h
        · split at h
          · cases h
          · split at h
            · rename_i hclass
              cases h
              exact hminor _ hclass.1 hclass.2
            · cases h

end Enqueue

/-- The invariant between two calls. As many packets as the limit allows fit 32 bits. -/
structure Qdisc.Sane (hd : Headers H) (bounds : Bounds) (q : Qdisc H flowsCnt) : Prop where
  inv : q.Inv hd bounds
  qlen_le : q.qlen ≤ q.limit.toNat
  capacity : (q.limit.toNat + 1) * bounds.maxLen < 4294967296

section Calls

theorem wake_qlen (clears : Bool) (i : Fin flowsCnt) (q : Qdisc H flowsCnt) :
    (wake clears i q).qlen = q.qlen ∧ (wake clears i q).limit = q.limit := by
  rw [wake]
  split <;> exact ⟨rfl, rfl⟩

theorem Qdisc.Inv.reset (h : q.Inv hd bounds) : (fqCodelReset q).Inv hd bounds :=
  ⟨fun j => (h.kept j).reset, h.accounts.reset, ⟨List.nodup_nil, fun _ hj => absurd rfl hj⟩,
    h.funded.of_lists rfl (fun _ hj => absurd hj List.not_mem_nil) fun _ _ => Or.inl rfl⟩

theorem Qdisc.Inv.configure {opt : Options} (h : q.Inv hd bounds) (admits : bounds.Admits opt) :
    (configure opt q).Inv hd bounds := by
  have hquantum : 0 < (FqCodel.configure opt q).quantum.toNat ∧
      (FqCodel.configure opt q).quantum.toNat ≤ bounds.maxQuantum := by
    cases hopt : opt.quantum with
    | none => simpa [FqCodel.configure, hopt] using ⟨h.funded.quantum_pos, h.funded.quantum_le⟩
    | some quantum =>
      have hadmits := admits.quantum quantum hopt
      simp only [FqCodel.configure, hopt, Option.map_some, Option.getD_some]
      split
      · rename_i hlarge
        have hlarge := BitVec.lt_def.mp hlarge
        exact ⟨Nat.lt_of_le_of_lt (Nat.zero_le _) hlarge, hadmits⟩
      · exact ⟨by decide, bounds.quantum_ge⟩
  exact ⟨h.kept, h.accounts.same (fun _ => rfl) rfl rfl rfl, ⟨h.listed.nodup, h.listed.queued⟩,
    hquantum.1, hquantum.2, h.funded.deficit_gt, h.funded.deficit_le⟩

theorem configure_capacity {opt : Options} (admits : bounds.Admits opt)
    (h : (q.limit.toNat + 1) * bounds.maxLen < 4294967296) :
    ((configure opt q).limit.toNat + 1) * bounds.maxLen < 4294967296 := by
  cases hlimit : opt.limit with
  | none => simpa [configure, hlimit] using h
  | some limit => simpa [configure, hlimit] using admits.limit limit hlimit

/-- The loop ends with at most as many packets as the limit allows. -/
theorem trim_runs (h : q.Inv hd bounds) (clock : Nat → Nat → CodelTime) {fuel : Nat}
    (hfuel : q.qlen ≤ fuel) : ∃ t, trim hd fuel clock q = .ok t ∧ t.Inv hd bounds ∧
      t.qlen ≤ t.limit.toNat ∧ t.limit = q.limit := by
  induction fuel generalizing q clock with
  | zero =>
    rw [trim, if_neg (by omega)]
    exact ⟨q, rfl, h, by omega, rfl⟩
  | succ fuel ih =>
    rw [trim]
    split
    · rename_i hover
      obtain ⟨skb, u, hrun, hdone⟩ := dequeue_runs h (clock 0)
      have hless := hdone.qlen
      simp only [hrun]
      cases skb with
      | none =>
        have hzero := hdone.returns.mp rfl
        omega
      | some skb =>
        change u.qlen + 1 ≤ q.qlen at hless
        have hfreed : (freeOver skb u).qlen ≤ fuel := by
          change u.qlen ≤ fuel
          omega
        obtain ⟨t, htrim, hinv, hle, hlimit⟩ :=
          ih (q := freeOver skb u) (hdone.inv.same rfl rfl rfl rfl rfl rfl rfl)
            (fun k => clock (k + 1)) hfreed
        exact ⟨t, htrim, hinv, hle, hlimit.trans hdone.limit⟩
    · exact ⟨q, rfl, h, by omega, rfl⟩

theorem init_sane (setup : Setup flowsCnt) {limit : U32} (hlimit : limit.toNat ≤ 10 * 1024) :
    (fqCodelInit limit setup.handle setup.mtu setup.opt flowsCnt).Sane hd setup.toBounds := by
  have hcapacity : (limit.toNat + 1) * setup.maxLen < 4294967296 :=
    Nat.lt_of_le_of_lt (Nat.mul_le_mul_right _ (Nat.succ_le_succ hlimit)) setup.len_le
  refine ⟨Qdisc.Inv.configure ⟨fun j => ?_, ?_, ?_, ?_⟩ setup.admits, Nat.zero_le _,
    configure_capacity setup.admits hcapacity⟩
  · exact ⟨⟨[], rfl, .nil⟩, .init, fun _ _ _ hpart => by simp at hpart,
      fun hne => absurd rfl hne, fun _ h => absurd h List.not_mem_nil⟩
  · exact ⟨Finset.sum_const_zero.symm, fun _ => rfl, Finset.sum_const_zero.symm⟩
  · exact ⟨List.nodup_nil, fun _ hj => absurd rfl hj⟩
  · exact ⟨setup.mtu_pos, setup.mtu_le, fun _ hj => absurd hj List.not_mem_nil,
      fun _ hj => absurd hj List.not_mem_nil⟩

theorem Qdisc.Sane.same (h : q.Sane hd bounds) (parent : U32) :
    Qdisc.Sane hd bounds { q with parent } :=
  ⟨h.inv.same rfl rfl rfl rfl rfl rfl rfl, h.qlen_le, h.capacity⟩

theorem change_runs (h : q.Sane hd bounds) {opt : Option Options}
    (admits : ∀ o ∈ opt, bounds.Admits o) (clock : Nat → Nat → CodelTime) :
    ∃ answer t, fqCodelChange hd opt clock q = .ok (answer, t) ∧ t.Sane hd bounds := by
  cases opt with
  | none => exact ⟨_, q, rfl, h⟩
  | some opt =>
    simp only [fqCodelChange]
    split
    · exact ⟨_, q, rfl, h⟩
    · obtain ⟨t, htrim, hinv, hle, hlimit⟩ :=
        trim_runs (h.inv.configure (admits opt rfl)) clock (le_refl _)
      have hcapacity := configure_capacity (admits opt rfl) h.capacity
      rw [← hlimit] at hcapacity
      change trim hd q.qlen clock _ = _ at htrim
      refine ⟨.done, reportAll t, ?_, hinv.same rfl rfl rfl rfl rfl rfl rfl, hle, hcapacity⟩
      rw [htrim]
      rfl

variable [NeZero flowsCnt]

theorem enqueue_runs (hcnt : flowsCnt ≤ 65536) (h : q.Sane hd bounds) (tc : Option (Int × U32))
    (now : CodelTime) {skb : SkBuff H} (fits : bounds.Fits skb.pktLen) :
    ∃ ret t, fqCodelEnqueue hd tc now skb q = .ok (ret, t) ∧ t.Sane hd bounds := by
  simp only [fqCodelEnqueue]
  split
  · exact ⟨_, _, rfl, h.inv.same rfl rfl rfl rfl rfl rfl rfl, h.qlen_le, h.capacity⟩
  · exact ⟨_, _, rfl, h⟩
  · rename_i idx hclass
    rw [dif_pos (classify_slot hcnt hclass)]
    generalize (⟨(idx - 1).toNat, classify_slot hcnt hclass⟩ : Fin flowsCnt) = i
    have hinv := h.inv.accept true i { skb with enqueueTime := now } fits
    obtain ⟨hqlen, hlimit⟩ := wake_qlen true i (accept i { skb with enqueueTime := now } q)
    change _ = q.qlen + 1 at hqlen
    change _ = q.limit at hlimit
    generalize wake true i (accept i { skb with enqueueTime := now } q) = u at hinv hqlen hlimit ⊢
    have hold := h.qlen_le
    have hcapacity : (u.limit.toNat + 1) * bounds.maxLen < 4294967296 := hlimit ▸ h.capacity
    split
    · rename_i hle
      exact ⟨_, _, rfl, hinv, hle, hcapacity⟩
    · rename_i hfull
      have hall : u.qlen * bounds.maxLen < 4294967296 :=
        Nat.lt_of_le_of_lt (Nat.mul_le_mul_right _ (by rw [hlimit]; omega)) hcapacity
      obtain ⟨idx, t, hdrop, hdropped, hless, hsame⟩ :=
        drop_runs (q := { u with dropOverlimit := u.dropOverlimit + 1 })
          (hinv.same rfl rfl rfl rfl rfl rfl rfl) (by change 0 < u.qlen; omega) hall
      change t.qlen + 1 = u.qlen at hless
      change t.limit = u.limit at hsame
      have hsane : t.Sane hd bounds := ⟨hdropped, by rw [hsame, hlimit]; omega, hsame ▸ hcapacity⟩
      simp only [hdrop]
      change ∃ ret t', (if idx = i then Except.ok (Xmit.cn, t)
        else .ok (.success, treeReduceBacklog 1 t)) = .ok (ret, t') ∧ t'.Sane hd bounds
      split
      · exact ⟨_, t, rfl, hsane⟩
      · exact ⟨_, _, rfl, hsane.inv.same rfl rfl rfl rfl rfl rfl rfl, hsane.qlen_le, hsane.capacity⟩

/-- No call faults or runs forever, and all keep the invariant. -/
theorem sane_inductive (hd : Headers H) (setup : Setup flowsCnt) :
    (machine hd setup).Inductive (Qdisc.Sane hd setup.toBounds) := by
  refine ⟨init_sane setup (by decide), fun q a h allowed => ?_⟩
  cases a with
  | enqueue tc now skb =>
    obtain ⟨ret, t, hrun, hsane⟩ := enqueue_runs setup.flows_le h tc now allowed
    refine ⟨if ret = .success then sentHere t else t, ?_, ?_⟩
    · simp only [machine, exec, hrun]
      rfl
    · split
      · exact hsane.same _
      · exact hsane
  | dequeue clock =>
    obtain ⟨skb, t, hrun, hdone⟩ := dequeue_runs h.inv clock
    have hsane : t.Sane hd setup.toBounds :=
      ⟨hdone.inv, by rw [hdone.limit]; exact le_trans (Nat.le_of_add_right_le hdone.qlen) h.qlen_le,
        hdone.limit ▸ h.capacity⟩
    refine ⟨if skb.isSome then gotBack t else t, ?_, ?_⟩
    · simp only [machine, exec, hrun]
      rfl
    · split
      · exact hsane.same _
      · exact hsane
  | drop =>
    have hall : q.qlen * setup.maxLen < 4294967296 := by
      refine Nat.lt_of_le_of_lt (Nat.mul_le_mul_right _ ?_) h.capacity
      exact Nat.le_succ_of_le h.qlen_le
    obtain ⟨idx, t, hrun, hinv, hless, hlimit⟩ := drop_runs h.inv allowed hall
    have hsane : t.Sane hd setup.toBounds :=
      ⟨hinv, by rw [hlimit]; exact le_trans (by omega) h.qlen_le, hlimit ▸ h.capacity⟩
    refine ⟨if q.backlog - t.backlog = 0 then t else gotBack t, ?_, ?_⟩
    · simp only [machine, exec, fqCodelQdiscDrop, hrun]
      rfl
    · split
      · exact hsane
      · exact hsane.same _
  | reset => exact ⟨_, rfl, h.inv.reset.same rfl rfl rfl rfl rfl rfl rfl, Nat.zero_le _, h.capacity⟩
  | change opt clock =>
    obtain ⟨answer, t, hrun, hsane⟩ := change_runs h allowed clock
    refine ⟨t, ?_, hsane⟩
    change (fqCodelChange hd opt clock q >>= fun r => Except.ok r.2) = .ok t
    rw [hrun]
    rfl

end Calls

end ApTelemetry.FqCodel
