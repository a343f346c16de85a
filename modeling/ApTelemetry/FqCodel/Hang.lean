import ApTelemetry.FqCodel.Guarantees

namespace ApTelemetry.FqCodel
open Lib

variable {H : Type} {hd : Headers H} {flowsCnt : Nat}

/-- `flow->deficit += q->quantum` leads from one of these deficits to the other, and neither is
above 0. -/
structure Qdisc.Spinning (q : Qdisc H flowsCnt) : Prop where
  quantum : q.quantum = 0x80000000
  deficit : ∀ i ∈ q.newFlows ++ q.oldFlows,
    (q.flows i).deficit = 0 ∨ (q.flows i).deficit = 0x80000000

namespace Qdisc.Spinning

variable {q t : Qdisc H flowsCnt}

theorem spent (h : q.Spinning) {i : Fin flowsCnt} (hi : i ∈ q.newFlows ++ q.oldFlows) :
    (q.flows i).deficit.toInt ≤ 0 := by
  cases h.deficit i hi with
  | inl hzero => rw [hzero]; decide
  | inr hlow => rw [hlow]; decide

theorem refill (h : q.Spinning) {i : Fin flowsCnt} (hi : i ∈ q.newFlows ++ q.oldFlows) :
    (moveToOld i (credit i q.quantum q)).Spinning := by
  refine ⟨h.quantum, fun j hj => ?_⟩
  have hsame : ∀ k, ((moveToOld i (FqCodel.credit i q.quantum q)).flows k).deficit =
      if k = i then (q.flows i).deficit + q.quantum else (q.flows k).deficit :=
    credit_deficit q i q.quantum
  rw [hsame]
  split
  · rename_i hij
    subst hij
    rw [h.quantum]
    cases h.deficit j hi with
    | inl hzero => rw [hzero]; exact Or.inr rfl
    | inr hlow => rw [hlow]; exact Or.inl rfl
  · rename_i hij
    apply h.deficit
    change j ∈ q.newFlows.erase i ++ (q.oldFlows.erase i ++ [i]) at hj
    rw [List.mem_append, List.mem_append, List.mem_singleton] at hj
    rw [List.mem_append]
    cases hj with
    | inl hnew => exact Or.inl (List.mem_of_mem_erase hnew)
    | inr hold => exact Or.inr (List.mem_of_mem_erase (hold.resolve_right hij))

variable (hd) in
/-- A pass only moves a flow to the end. -/
theorem pass (h : q.Spinning) (hlisted : q.newFlows ++ q.oldFlows ≠ []) (now : CodelTime) :
    ∃ t, FqCodel.pass hd now q = .again t ∧ t.Spinning ∧ t.newFlows ++ t.oldFlows ≠ [] := by
  have hpass := pass_passed hd now q
  generalize FqCodel.pass hd now q = p at hpass
  cases hpass with
  | empty hnew hold => exact absurd (by rw [hnew, hold]; rfl) hlisted
  | refill isNew i first _ => exact ⟨_, rfl, h.refill first.mem, by simp [moveToOld]⟩
  | rotate i first funded => exact absurd (h.spent first.mem) (Int.not_le.mpr funded)
  | retire isNew i first funded => exact absurd (h.spent first.mem) (Int.not_le.mpr funded)
  | packet isNew i first funded => exact absurd (h.spent first.mem) (Int.not_le.mpr funded)

theorem passes (h : q.Spinning) (hlisted : q.newFlows ++ q.oldFlows ≠ []) (fuel : Nat)
    (clock : Nat → CodelTime) : FqCodel.passes hd fuel clock q = .error .endless := by
  induction fuel generalizing q clock with
  | zero => rfl
  | succ fuel ih =>
    obtain ⟨t, hpass, hspin, hmore⟩ := h.pass hd hlisted (clock 0)
    simp only [FqCodel.passes, hpass]
    exact ih hspin hmore _

variable [NeZero flowsCnt]

omit [NeZero flowsCnt] in
theorem same (h : q.Spinning) (quantum : t.quantum = q.quantum)
    (lists : t.newFlows ++ t.oldFlows = q.newFlows ++ q.oldFlows)
    (deficits : ∀ j, (t.flows j).deficit = (q.flows j).deficit) : t.Spinning := by
  refine ⟨quantum.trans h.quantum, fun j hj => ?_⟩
  rw [deficits]
  exact h.deficit j (lists ▸ hj)

theorem drop {idx : Fin flowsCnt} (h : q.Spinning) (hdrop : fqCodelDrop q = .ok (idx, t)) :
    t.Spinning := by
  simp only [fqCodelDrop] at hdrop
  split at hdrop
  · cases hdrop
  · cases hdrop
    exact h.same rfl rfl (update_forall (P := fun j (f : Flow H) =>
      f.deficit = (q.flows j).deficit) rfl fun _ => rfl)

omit [NeZero flowsCnt] in
/-- A flow that becomes active starts with the whole quantum. -/
theorem wake (h : q.Spinning) (clears : Bool) (i : Fin flowsCnt) :
    (FqCodel.wake clears i q).Spinning := by
  rw [FqCodel.wake]
  split
  · exact h
  · have hdeficits : ∀ f : Flow H, f.deficit = q.quantum → ∀ j ∈ q.newFlows ++ [i] ++ q.oldFlows,
        (Function.update q.flows i f j).deficit = 0 ∨
          (Function.update q.flows i f j).deficit = 0x80000000 := by
      intro f hf j hj
      cases decEq j i with
      | isTrue hij =>
        subst hij
        rw [Function.update_self]
        exact Or.inr (hf.trans h.quantum)
      | isFalse hij =>
        rw [Function.update_of_ne hij]
        apply h.deficit
        rw [List.mem_append, List.mem_append, List.mem_singleton] at hj
        exact List.mem_append.mpr (hj.imp_left fun hnew => hnew.resolve_right hij)
    exact ⟨h.quantum, hdeficits _ rfl⟩

theorem enqueue (h : q.Spinning) {tc : Option (Int × U32)} {now : CodelTime} {skb : SkBuff H}
    {ret : Xmit} (hrun : fqCodelEnqueue hd tc now skb q = .ok (ret, t)) : t.Spinning := by
  simp only [fqCodelEnqueue] at hrun
  split at hrun
  · cases hrun
    exact h.same rfl rfl fun _ => rfl
  · cases hrun
    exact h
  · split at hrun
    · rename_i idx _ hidx
      have hwoken : (FqCodel.wake true ⟨(idx - 1).toNat, hidx⟩
          (accept ⟨(idx - 1).toNat, hidx⟩ { skb with enqueueTime := now } q)).Spinning := by
        apply wake
        exact h.same rfl rfl (update_forall (P := fun j (f : Flow H) =>
          f.deficit = (q.flows j).deficit) rfl fun _ => rfl)
      generalize FqCodel.wake true _ _ = u at hrun hwoken
      split at hrun
      · cases hrun
        exact hwoken
      · obtain ⟨⟨fat, v⟩, hdrop, hrun⟩ := bind_ok hrun
        have hdropped := (hwoken.same (t := { u with dropOverlimit := u.dropOverlimit + 1 })
          rfl rfl fun _ => rfl).drop hdrop
        change (if fat = _ then _ else _) = _ at hrun
        split at hrun
        · cases hrun
          exact hdropped
        · cases hrun
          exact hdropped.same rfl rfl fun _ => rfl
    · cases hrun

/-- Packets arrive, and none is fetched. -/
theorem arrivals (h : q.Spinning) {packets : List (Option (Int × U32) × CodelTime × SkBuff H)}
    (hrun : packets.foldlM (fun q p => exec hd q (.enqueue p.1 p.2.1 p.2.2)) q = .ok t) :
    t.Spinning := by
  induction packets generalizing q with
  | nil =>
    cases hrun
    exact h
  | cons p packets ih =>
    rw [List.foldlM_cons] at hrun
    obtain ⟨u, hstep, hrest⟩ := bind_ok hrun
    obtain ⟨⟨ret, v⟩, henqueue, hsent⟩ := bind_ok hstep
    have hv := h.enqueue henqueue
    change Except.ok (if ret = .success then sentHere v else v) = .ok u at hsent
    refine ih ?_ hrest
    cases hsent
    split
    · exact hv.same rfl rfl fun _ => rfl
    · exact hv

end Qdisc.Spinning

/-- Nothing can be trimmed from a qdisc whose lists are empty. -/
theorem trim_idle {q t : Qdisc H flowsCnt} (hempty : q.newFlows ++ q.oldFlows = []) {fuel : Nat}
    {clock : Nat → Nat → CodelTime} (hrun : trim hd fuel clock q = .ok t) : t = q := by
  obtain ⟨hnew, hold⟩ := List.append_eq_nil_iff.mp hempty
  have hpass : pass hd (clock 0 0) q = .empty := by simp only [pass, hnew, hold]
  cases fuel with
  | zero =>
    rw [trim] at hrun
    split at hrun
    · cases hrun
    · exact (Except.ok.inj hrun).symm
  | succ fuel =>
    rw [trim] at hrun
    split at hrun
    · simp only [fqCodelDequeue, passes, hpass] at hrun
      cases hrun
    · exact (Except.ok.inj hrun).symm

/-- Only the number of flows is refused. -/
theorem change_accepted {q : Qdisc H flowsCnt} {opt : Options} {clock : Nat → Nat → CodelTime}
    (hflows : opt.flows = none) (hqlen : q.qlen = 0) :
    fqCodelChange hd (some opt) clock q = .ok (.done, reportAll (configure opt q)) := by
  have htrim : trim hd q.qlen clock (configure opt q) = .ok (configure opt q) := by
    have hfits : ¬ (configure opt q).limit.toNat < (configure opt q).qlen := by
      change ¬ _ < q.qlen
      omega
    rw [hqlen, trim, if_neg hfits]
  simp only [fqCodelChange, hflows, Option.isSome_none, Bool.false_eq_true, if_false, htrim, bind,
    Except.bind]

theorem spinning_of_change {q t : Qdisc H flowsCnt} {opt : Options}
    {clock : Nat → Nat → CodelTime} (hquantum : opt.quantum = some 0x80000000)
    (hempty : q.newFlows ++ q.oldFlows = [])
    (hchange : fqCodelChange hd (some opt) clock q = .ok (.done, t)) : t.Spinning := by
  simp only [fqCodelChange] at hchange
  split at hchange
  · cases hchange
  · obtain ⟨v, htrim, hreport⟩ := bind_ok hchange
    cases hreport
    cases trim_idle (q := configure opt q) hempty htrim
    refine ⟨?_, fun i hi => absurd hi (hempty ▸ List.not_mem_nil)⟩
    change ((opt.quantum.map _).getD q.quantum) = _
    rw [hquantum]
    rfl

/-- A quantum of `0x80000000` is accepted by an empty qdisc. Once it is set on a qdisc whose
lists are empty, as they are when a dequeue has found nothing, no dequeue returns again as soon
as a flow has a packet, whatever arrives: each pass adds the quantum to a deficit that is `0` or
`0x80000000`, and is so again. -/
theorem huge_quantum_hangs [NeZero flowsCnt] {q : Qdisc H flowsCnt} {opt : Options}
    {clock : Nat → Nat → CodelTime} (hquantum : opt.quantum = some 0x80000000)
    (hempty : q.newFlows ++ q.oldFlows = []) :
    (opt.flows = none → q.qlen = 0 →
      ∃ t, fqCodelChange hd (some opt) clock q = .ok (.done, t)) ∧
    ∀ t, fqCodelChange hd (some opt) clock q = .ok (.done, t) →
      ∀ (packets : List (Option (Int × U32) × CodelTime × SkBuff H)) (u : Qdisc H flowsCnt),
        packets.foldlM (fun q p => exec hd q (.enqueue p.1 p.2.1 p.2.2)) t = .ok u →
        u.newFlows ++ u.oldFlows ≠ [] →
          (∀ i ∈ u.newFlows ++ u.oldFlows,
            (u.flows i).deficit = 0 ∨ (u.flows i).deficit = 0x80000000) ∧
          (∀ now, ∃ v, pass hd now u = .again v ∧ ∀ i ∈ v.newFlows ++ v.oldFlows,
            (v.flows i).deficit = 0 ∨ (v.flows i).deficit = 0x80000000) ∧
          ∀ fuel clock, passes hd fuel clock u = .error .endless := by
  refine ⟨fun hflows hqlen => ⟨_, change_accepted hflows hqlen⟩, ?_⟩
  intro t hchange packets u hrun hlisted
  have hspin : u.Spinning := (spinning_of_change hquantum hempty hchange).arrivals hrun
  refine ⟨hspin.deficit, fun now => ?_, hspin.passes hlisted⟩
  obtain ⟨v, hpass, hnext, -⟩ := hspin.pass hd hlisted now
  exact ⟨v, hpass, hnext.deficit⟩

/-- The quantum is accepted, and the first packet hangs the qdisc. -/
theorem huge_quantum_hangs_first_packet : ∃ t u : Qdisc Nat 2,
    fqCodelChange plain (some ⟨none, none, none, none, none, some 0x80000000, none⟩)
      (fun _ _ => 0) (machine plain ethernet).start = .ok (.done, t) ∧ u.qlen = 1 ∧
    ∀ fuel clock, passes plain fuel clock u = .error .endless := by
  obtain ⟨haccepts, hhangs⟩ := @huge_quantum_hangs Nat plain 2 _
    (machine plain ethernet).start ⟨none, none, none, none, none, some 0x80000000, none⟩
    (fun _ _ => 0) rfl rfl
  obtain ⟨t, hchange⟩ := haccepts rfl rfl
  have ht : t = reportAll (configure ⟨none, none, none, none, none, some 0x80000000, none⟩
      (machine plain ethernet).start) := by
    cases hchange
    rfl
  have hrun : [((none : Option (Int × U32)), (0 : CodelTime), (⟨2, 1500, 0, false⟩ : SkBuff Nat))
      ].foldlM (fun q p => exec plain q (.enqueue p.1 p.2.1 p.2.2)) t =
      .ok (sentHere (wake true 0 (accept 0 ⟨2, 1500, 0, false⟩ t))) := by
    subst ht
    rfl
  obtain ⟨-, -, hendless⟩ := hhangs t hchange _ _ hrun (by subst ht; exact List.cons_ne_nil _ _)
  refine ⟨t, _, hchange, ?_, hendless⟩
  subst ht
  rfl

end ApTelemetry.FqCodel
