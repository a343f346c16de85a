import ApTelemetry.FqCodel.Guarantees

namespace ApTelemetry.FqCodel
open Lib

variable {H : Type} {hd : Headers H} {now : CodelTime} {flowsCnt : Nat} {bounds : Bounds}
  {q t u : Qdisc H flowsCnt} {i j : Fin flowsCnt}

/-- The bytes of a departure that are sent. -/
def Departure.sent (d : Departure H) : Nat :=
  match d.fate with
  | .returned _ => d.skb.pktLen.toNat
  | _ => 0

def sentOf (left : List (Departure H)) : Nat := (left.map Departure.sent).sum

@[simp] theorem sent_of_append (left more : List (Departure H)) :
    sentOf (left ++ more) = sentOf left + sentOf more := by
  simp [sentOf]

/-- What a flow has sent, and may still send before its next quantum. -/
def Qdisc.balance (q : Qdisc H flowsCnt) (i : Fin flowsCnt) : Int :=
  sentOf (q.flows i).left + (q.flows i).deficit.toInt

/-- What a packet at hand is worth once it is returned. -/
def Stage.sent (s : Stage H) : Int :=
  sentOf s.codel.left - (s.out.elim 0 fun skb => skb.pktLen.toNat : Nat)

theorem Step.sent_eq {params : Params} {s t : Stage H} (h : Step hd params now s t) :
    t.sent = s.sent := by
  cases h with
  | take skb queue c =>
    obtain ⟨_, hlooked, _⟩ := should_drop_looked params now (taken skb c) skb
    rw [hlooked]
    rfl
  | empty => rfl
  | drop skb queue c due =>
    simp [Stage.sent, FqCodel.drop, sentOf, Departure.sent]
  | mark => rfl
  | ceMark => rfl
  | control => rfl
  | leave skb queue c => simp [Stage.sent, FqCodel.leave, sentOf, Departure.sent]

section Balance

theorem serve_sent (hd : Headers H) (now : CodelTime) (i : Fin flowsCnt) (q : Qdisc H flowsCnt) :
    sentOf ((serve hd now i q).2.flows i).left = sentOf (q.flows i).left +
      (serve hd now i q).1.elim 0 fun skb => skb.pktLen.toNat := by
  have hsent := (codel_dequeue_steps hd q.cparams now (q.codel i) (q.flows i).queue).keep
    (P := fun s => s.sent = (sentOf (q.flows i).left : Int))
    (fun _ _ step hs => step.sent_eq.trans hs) (sub_zero _)
  simp only [Stage.sent] at hsent
  simp only [serve, Qdisc.store, Function.update_self]
  omega

theorem serve_other (hd : Headers H) (now : CodelTime) (q : Qdisc H flowsCnt) (h : j ≠ i) :
    (serve hd now i q).2.flows j = q.flows j := by
  simp only [serve, Qdisc.store, Function.update_of_ne h]

theorem serve_balance (hd : Headers H) (now : CodelTime) (i : Fin flowsCnt) (q : Qdisc H flowsCnt)
    (j : Fin flowsCnt) : (serve hd now i q).2.balance j = q.balance j +
      if j = i then ((serve hd now i q).1.elim 0 fun skb => skb.pktLen.toNat : Nat) else 0 := by
  rw [Qdisc.balance, serve_deficit, Qdisc.balance]
  split
  · rename_i hj
    subst hj
    rw [serve_sent]
    omega
  · rename_i hj
    rw [serve_other hd now q hj, Nat.cast_zero, add_zero]

theorem credit_balance {amount : U32} {x : Int} (hamount : amount.toInt = x)
    (lo : -2147483648 ≤ (q.flows i).deficit.toInt + x)
    (hi : (q.flows i).deficit.toInt + x < 2147483648) (j : Fin flowsCnt) :
    (credit i amount q).balance j = q.balance j + if j = i then x else 0 := by
  rw [Qdisc.balance, credit_left, credit_deficit, Qdisc.balance]
  split
  · rename_i hj
    subst hj
    rw [add_to_int hamount lo hi, add_assoc]
  · rw [add_zero]

theorem refill_balance (h : q.Inv hd bounds) (listed : i ∈ q.newFlows ++ q.oldFlows)
    (spent : (q.flows i).deficit.toInt ≤ 0) (j : Fin flowsCnt) :
    (moveToOld i (credit i q.quantum q)).balance j =
      q.balance j + if j = i then (q.quantum.toNat : Int) else 0 := by
  have hlow := h.funded.deficit_gt i listed
  have hlen := bounds.max_len_lt
  have hquantum := h.quantum_lt
  exact credit_balance (small_to_int hquantum) (by omega) (by omega) j

theorem send_balance {skb : SkBuff H} (h : q.Inv hd bounds) (first : i ∈ q.newFlows ++ q.oldFlows)
    (funded : 0 < (q.flows i).deficit.toInt) (some : (serve hd now i q).1 = some skb)
    (j : Fin flowsCnt) : (send hd i skb (serve hd now i q).2).balance j = q.balance j := by
  have hlen := bounds.max_len_lt
  have hquantum := bounds.quantum_lt
  have hle := h.funded.deficit_le i first
  obtain ⟨hpos, hmax⟩ := serve_fits h.kept some
  have hbalance := serve_balance hd now i q j
  rw [some] at hbalance
  have hflows : ∀ v : Qdisc H flowsCnt, (report v).balance j = v.balance j := by
    intro v
    rw [Qdisc.balance, report_flows, Qdisc.balance]
  rw [send, hflows, credit_balance (x := -(skb.pktLen.toNat : Int)) (neg_to_int (by omega))]
  · change (serve hd now i q).2.balance j + _ = _
    rw [hbalance]
    split
    · simp
    · rw [Nat.cast_zero, add_zero, add_zero]
  · change -2147483648 ≤ ((serve hd now i q).2.flows i).deficit.toInt + _
    rw [serve_deficit]
    omega
  · change ((serve hd now i q).2.flows i).deficit.toInt + _ < 2147483648
    rw [serve_deficit]
    omega

end Balance

/-- Between two states two flows had turns to their quantum as the list of old flows has it:
the one that leads has one more when it no longer does. -/
structure Fair (i j : Fin flowsCnt) (q t : Qdisc H flowsCnt) : Prop where
  quantum : t.quantum = q.quantum
  turns : ∃ ri rj : Int, t.balance i = q.balance i + q.quantum.toNat * ri ∧
    t.balance j = q.balance j + q.quantum.toNat * rj ∧
    ri - rj = lead i j q.oldFlows - lead i j t.oldFlows

namespace Fair

theorem refl (q : Qdisc H flowsCnt) : Fair i j q q :=
  ⟨rfl, 0, 0, by simp, by simp, by simp⟩

theorem trans (hq : Fair i j q t) (ht : Fair i j t u) : Fair i j q u := by
  obtain ⟨hquantum, ri, rj, hi, hj, hlead⟩ := hq
  obtain ⟨hquantum', ri', rj', hi', hj', hlead'⟩ := ht
  refine ⟨hquantum'.trans hquantum, ri + ri', rj + rj', ?_, ?_, by omega⟩
  · rw [hi', hi, hquantum, mul_add, add_assoc]
  · rw [hj', hj, hquantum, mul_add, add_assoc]

/-- Nobody has a turn. -/
theorem of_same (quantum : t.quantum = q.quantum) (hi : t.balance i = q.balance i)
    (hj : t.balance j = q.balance j) (lead : lead i j t.oldFlows = lead i j q.oldFlows) :
    Fair i j q t :=
  ⟨quantum, 0, 0, by simp [hi], by simp [hj], by simp [lead]⟩

end Fair

/-- Flows have only left the lists or become old. -/
structure Dwindled (q t : Qdisc H flowsCnt) : Prop where
  new : t.newFlows ⊆ q.newFlows
  old : ∀ k ∈ t.oldFlows, k ∈ q.newFlows ++ q.oldFlows

theorem Dwindled.of_same (new : t.newFlows = q.newFlows) (old : t.oldFlows = q.oldFlows) :
    Dwindled q t :=
  ⟨new ▸ List.Subset.refl _, fun _ hk => List.mem_append_right _ (old ▸ hk)⟩

theorem Dwindled.trans (hq : Dwindled q t) (ht : Dwindled t u) : Dwindled q u := by
  refine ⟨fun k hk => hq.new (ht.new hk), fun k hk => ?_⟩
  rcases List.mem_append.mp (ht.old k hk) with hk | hk
  · exact List.mem_append_left _ (hq.new hk)
  · exact hq.old k hk

/-- Flows that were old before and are old after were old in between. -/
theorem Dwindled.stays {k : Fin flowsCnt} (hq : Dwindled q t) (ht : Dwindled t u) (h : q.Listed)
    (hk : k ∈ q.oldFlows) (hk' : k ∈ u.oldFlows) : k ∈ t.oldFlows :=
  (List.mem_append.mp (ht.old k hk')).resolve_left fun hmem =>
    List.disjoint_of_nodup_append h.nodup (hq.new hmem) hk

theorem pass_dwindled (hpass : pass hd now q = .again t) : Dwindled q t := by
  have hpassed := pass_passed hd now q
  rw [hpass] at hpassed
  have hmove : ∀ k l, k ∈ q.newFlows ++ q.oldFlows → l ∈ q.oldFlows.erase k ++ [k] →
      l ∈ q.newFlows ++ q.oldFlows := by
    intro k l hk hl
    rcases List.mem_append.mp hl with hold | hlast
    · exact List.mem_append_right _ (List.mem_of_mem_erase hold)
    · exact List.mem_singleton.mp hlast ▸ hk
  cases hpassed with
  | refill isNew k first spent => exact ⟨List.erase_subset, fun l hl => hmove k l first.mem hl⟩
  | rotate k first funded none => exact ⟨List.erase_subset, fun l hl => hmove k l first.mem hl⟩
  | retire isNew k first funded none =>
    exact ⟨List.erase_subset, fun l hl => List.mem_append_right _ (List.mem_of_mem_erase hl)⟩

section Passes

theorem serve_none_balance {k : Fin flowsCnt} (none : (serve hd now k q).1 = none)
    (j : Fin flowsCnt) : (serve hd now k q).2.balance j = q.balance j := by
  rw [serve_balance, none]
  simp

theorem pass_again_fair (h : q.Inv hd bounds) (hij : i ≠ j) (hi : i ∈ q.oldFlows)
    (hj : j ∈ q.oldFlows) (hi' : i ∈ t.oldFlows) (hj' : j ∈ t.oldFlows)
    (hpass : pass hd now q = .again t) : Fair i j q t := by
  have hpassed := pass_passed hd now q
  rw [hpass] at hpassed
  have hdisjoint : ∀ k ∈ q.newFlows, k ∉ q.oldFlows :=
    fun k hk => List.disjoint_of_nodup_append h.listed.nodup hk
  cases hpassed with
  | refill isNew k first spent =>
    have hbalance := refill_balance h first.mem spent
    have hold : ∀ l, l ∈ q.oldFlows → l = k → ∃ rest, q.oldFlows = l :: rest := by
      rintro l hl rfl
      cases first with
      | new _ rest hnew => exact absurd hl (hdisjoint l (hnew ▸ List.mem_cons_self ..))
      | old _ rest hnew hold => exact ⟨rest, hold⟩
    have hnodup := (List.nodup_append'.mp h.listed.nodup).2.1
    cases decEq i k with
    | isTrue hik =>
      obtain ⟨rest, hrest⟩ := hold i hi hik
      subst hik
      rw [hrest] at hnodup
      have hmem : j ∈ rest := (List.mem_cons.mp (hrest ▸ hj)).resolve_left (Ne.symm hij)
      obtain ⟨hfirst, hlast⟩ := lead_rotate_first hnodup hmem
      have hmoved : (moveToOld i (credit i q.quantum q)).oldFlows = rest ++ [i] := by
        change q.oldFlows.erase i ++ [i] = rest ++ [i]
        rw [hrest, List.erase_cons_head]
      refine ⟨rfl, 1, 0, ?_, ?_, ?_⟩
      · rw [hbalance, if_pos rfl, mul_one]
      · rw [hbalance, if_neg (Ne.symm hij), mul_zero]
      · rw [hmoved, hrest, hfirst, hlast]
    | isFalse hik =>
      cases decEq j k with
      | isTrue hjk =>
        obtain ⟨rest, hrest⟩ := hold j hj hjk
        subst hjk
        rw [hrest] at hnodup
        have hmem : i ∈ rest := (List.mem_cons.mp (hrest ▸ hi)).resolve_left hij
        obtain ⟨hfirst, hlast⟩ := lead_rotate_second hnodup hmem hij
        have hmoved : (moveToOld j (credit j q.quantum q)).oldFlows = rest ++ [j] := by
          change q.oldFlows.erase j ++ [j] = rest ++ [j]
          rw [hrest, List.erase_cons_head]
        refine ⟨rfl, 0, 1, ?_, ?_, ?_⟩
        · rw [hbalance, if_neg hij, mul_zero]
        · rw [hbalance, if_pos rfl, mul_one]
        · rw [hmoved, hrest, hfirst, hlast]
      | isFalse hjk =>
        refine Fair.of_same rfl ?_ ?_ ?_
        · rw [hbalance, if_neg hik, add_zero]
        · rw [hbalance, if_neg hjk, add_zero]
        · exact lead_move_last (Ne.symm hik) (Ne.symm hjk) hi
  | rotate k first funded none others =>
    have hnew : k ∈ q.newFlows := by
      cases first with
      | new _ rest hnew => exact hnew ▸ List.mem_cons_self ..
    have hik : k ≠ i := fun heq => hdisjoint k hnew (heq ▸ hi)
    have hjk : k ≠ j := fun heq => hdisjoint k hnew (heq ▸ hj)
    exact Fair.of_same rfl (serve_none_balance none i) (serve_none_balance none j)
      (lead_move_last hik hjk hi)
  | retire isNew k first funded none =>
    have hnodup := (List.nodup_append'.mp h.listed.nodup).2.1
    have hkept : ∀ l, l ∈ q.oldFlows.erase k → k ≠ l := fun l hl heq =>
      hnodup.not_mem_erase (heq ▸ hl)
    exact Fair.of_same rfl (serve_none_balance none i) (serve_none_balance none j)
      (lead_erase (hkept i hi') (hkept j hj'))

theorem report_old_flows (q : Qdisc H flowsCnt) :
    (report q).oldFlows = q.oldFlows ∧ (report q).newFlows = q.newFlows ∧
      (report q).quantum = q.quantum := by
  rw [report]
  split <;> exact ⟨rfl, rfl, rfl⟩

theorem pass_packet_lists {skb : SkBuff H} (hpass : pass hd now q = .packet skb t) :
    t.newFlows = q.newFlows ∧ t.oldFlows = q.oldFlows ∧ t.quantum = q.quantum := by
  have hpassed := pass_passed hd now q
  rw [hpass] at hpassed
  cases hpassed with
  | packet isNew k first funded _ some =>
    obtain ⟨hold, hnew, hquantum⟩ := report_old_flows (credit k (-skb.pktLen)
      { (serve hd now k q).2 with
        bytes := (serve hd now k q).2.bytes + skb.pktLen.setWidth 64
        packets := (serve hd now k q).2.packets + hd.segs skb.hdr })
    exact ⟨hnew, hold, hquantum⟩

theorem pass_packet_fair {skb : SkBuff H} (h : q.Inv hd bounds)
    (hpass : pass hd now q = .packet skb t) : Fair i j q t := by
  obtain ⟨-, hold, hquantum⟩ := pass_packet_lists hpass
  have hpassed := pass_passed hd now q
  rw [hpass] at hpassed
  cases hpassed with
  | packet isNew k first funded _ some =>
    exact Fair.of_same hquantum (send_balance h first.mem funded some i)
      (send_balance h first.mem funded some j) (congrArg (lead i j) hold)

theorem passes_dwindled {clock : Nat → CodelTime} {fuel : Nat} {skb : Option (SkBuff H)}
    (hrun : passes hd fuel clock q = .ok (skb, t)) : Dwindled q t := by
  induction fuel generalizing q clock with
  | zero => cases hrun
  | succ fuel ih =>
    rw [passes] at hrun
    cases hpass : pass hd (clock 0) q with
    | empty =>
      rw [hpass] at hrun
      cases hrun
      exact .of_same rfl rfl
    | again u =>
      rw [hpass] at hrun
      exact (pass_dwindled hpass).trans (ih hrun)
    | packet skb u =>
      rw [hpass] at hrun
      cases hrun
      obtain ⟨hnew, hold, -⟩ := pass_packet_lists hpass
      exact .of_same hnew hold

theorem passes_fair (h : q.Inv hd bounds) (hij : i ≠ j) (hi : i ∈ q.oldFlows) (hj : j ∈ q.oldFlows)
    (hi' : i ∈ t.oldFlows) (hj' : j ∈ t.oldFlows) {clock : Nat → CodelTime} {fuel : Nat}
    {skb : Option (SkBuff H)} (hrun : passes hd fuel clock q = .ok (skb, t)) : Fair i j q t := by
  induction fuel generalizing q clock with
  | zero => cases hrun
  | succ fuel ih =>
    rw [passes] at hrun
    cases hpass : pass hd (clock 0) q with
    | empty =>
      rw [hpass] at hrun
      cases hrun
      exact .refl _
    | again u =>
      rw [hpass] at hrun
      have hinv := (pass_again h hpass).1
      have hq := pass_dwindled hpass
      have hu := passes_dwindled hrun
      have hiu := hq.stays hu h.listed hi hi'
      have hju := hq.stays hu h.listed hj hj'
      exact (pass_again_fair h hij hi hj hiu hju hpass).trans (ih hinv hiu hju hrun)
    | packet skb u =>
      rw [hpass] at hrun
      cases hrun
      exact pass_packet_fair h hpass

end Passes

section Calls

theorem wake_old_flows (clears : Bool) (i : Fin flowsCnt) (q : Qdisc H flowsCnt) :
    (wake clears i q).oldFlows = q.oldFlows ∧ (wake clears i q).quantum = q.quantum := by
  rw [wake]
  split <;> exact ⟨rfl, rfl⟩

/-- A flow on a list does not notice that a packet is admitted. -/
theorem accept_balance {clears : Bool} {k : Fin flowsCnt} {skb : SkBuff H} (hi : i ∈ q.oldFlows) :
    (wake clears k (accept k skb q)).balance i = q.balance i := by
  have haccept : (accept k skb q).balance i = q.balance i := by
    simp only [Qdisc.balance, accept, Function.update_apply]
    split
    · rename_i hik
      rw [hik]
    · rfl
  rw [wake]
  split
  · exact haccept
  · rename_i hfree
    have hik : i ≠ k := fun heq => hfree (Or.inr (heq ▸ hi))
    simp only [Qdisc.balance, Function.update_of_ne hik] at haccept ⊢
    exact haccept

theorem drop_head_balance {k : Fin flowsCnt} {skb : SkBuff H} {rest : List (SkBuff H)} :
    (dropHead k skb rest q).balance i = q.balance i := by
  simp only [Qdisc.balance, dropHead, Function.update_apply]
  split
  · rename_i hik
    rw [hik]
    simp [sentOf, Departure.sent]
  · rfl

theorem drop_fair [NeZero flowsCnt] {idx : Fin flowsCnt} (hdrop : fqCodelDrop q = .ok (idx, t)) :
    Fair i j q t := by
  simp only [fqCodelDrop] at hdrop
  split at hdrop
  · cases hdrop
  · cases hdrop
    exact Fair.of_same rfl drop_head_balance drop_head_balance rfl

theorem trim_dwindled {clock : Nat → Nat → CodelTime} {fuel : Nat}
    (hrun : trim hd fuel clock q = .ok t) : Dwindled q t := by
  induction fuel generalizing q clock with
  | zero =>
    rw [trim] at hrun
    split at hrun
    · cases hrun
    · cases hrun
      exact .of_same rfl rfl
  | succ fuel ih =>
    rw [trim] at hrun
    split at hrun
    · obtain ⟨⟨skb, u⟩, hdequeue, hrun⟩ := bind_ok hrun
      cases skb with
      | none => cases hrun
      | some skb =>
        change trim hd fuel _ (freeOver skb u) = .ok t at hrun
        have hfreed : Dwindled u (freeOver skb u) := .of_same rfl rfl
        exact (passes_dwindled hdequeue).trans (hfreed.trans (ih hrun))
    · cases hrun
      exact .of_same rfl rfl

theorem trim_step (h : q.Inv hd bounds) {clock : Nat → CodelTime} {skb : SkBuff H}
    (hdequeue : fqCodelDequeue hd clock q = .ok (some skb, t)) :
    (freeOver skb t).Inv hd bounds := by
  obtain ⟨skb', t', hrun, hdone⟩ := dequeue_runs h clock
  obtain ⟨rfl, rfl⟩ := Prod.mk.inj (Except.ok.inj (hdequeue.symm.trans hrun))
  exact hdone.inv.same rfl rfl rfl rfl rfl rfl rfl

theorem trim_fair (h : q.Inv hd bounds) (hij : i ≠ j) (hi : i ∈ q.oldFlows) (hj : j ∈ q.oldFlows)
    (hi' : i ∈ t.oldFlows) (hj' : j ∈ t.oldFlows) {clock : Nat → Nat → CodelTime} {fuel : Nat}
    (hrun : trim hd fuel clock q = .ok t) : Fair i j q t := by
  induction fuel generalizing q clock with
  | zero =>
    rw [trim] at hrun
    split at hrun
    · cases hrun
    · cases hrun
      exact .refl _
  | succ fuel ih =>
    rw [trim] at hrun
    split at hrun
    · obtain ⟨⟨skb, u⟩, hdequeue, hrun⟩ := bind_ok hrun
      cases skb with
      | none => cases hrun
      | some skb =>
        change trim hd fuel _ (freeOver skb u) = .ok t at hrun
        have hq := passes_dwindled hdequeue
        have hu : Dwindled u t :=
          (Dwindled.of_same rfl rfl : Dwindled u (freeOver skb u)).trans (trim_dwindled hrun)
        have hiu : i ∈ u.oldFlows := hq.stays hu h.listed hi hi'
        have hju : j ∈ u.oldFlows := hq.stays hu h.listed hj hj'
        have hfreed : Fair i j u (freeOver skb u) := Fair.of_same rfl rfl rfl rfl
        have hinv : (freeOver skb u).Inv hd bounds := trim_step h hdequeue
        exact ((passes_fair h hij hi hj hiu hju hdequeue).trans hfreed).trans (ih hinv hiu hju hrun)
    · cases hrun
      exact .refl _

variable [NeZero flowsCnt]

theorem enqueue_fair {tc : Option (Int × U32)} {skb : SkBuff H} {ret : Xmit}
    (hi : i ∈ q.oldFlows) (hj : j ∈ q.oldFlows)
    (hrun : fqCodelEnqueue hd tc now skb q = .ok (ret, t)) : Fair i j q t := by
  simp only [fqCodelEnqueue] at hrun
  split at hrun
  · cases hrun
    exact Fair.of_same rfl rfl rfl rfl
  · cases hrun
    exact .refl q
  · split at hrun
    · rename_i idx hclass hidx
      generalize (⟨(idx - 1).toNat, hidx⟩ : Fin flowsCnt) = k at hrun
      obtain ⟨hold, hquantum⟩ := wake_old_flows true k (accept k { skb with enqueueTime := now } q)
      have haccept : Fair i j q (wake true k (accept k { skb with enqueueTime := now } q)) :=
        Fair.of_same hquantum (accept_balance hi) (accept_balance hj) (congrArg (lead i j) hold)
      generalize wake true k (accept k { skb with enqueueTime := now } q) = u at hrun haccept
      split at hrun
      · cases hrun
        exact haccept
      · obtain ⟨⟨fat, v⟩, hdrop, hrun⟩ := bind_ok hrun
        have hcount : Fair i j u { u with dropOverlimit := u.dropOverlimit + 1 } :=
          Fair.of_same rfl rfl rfl rfl
        have hdropped : Fair i j q v := haccept.trans (hcount.trans (drop_fair hdrop))
        split at hrun
        · cases hrun
          exact hdropped
        · cases hrun
          exact hdropped.trans (Fair.of_same rfl rfl rfl rfl)
    · cases hrun

/-- A call that leaves two flows on the list of old flows and the quantum as it was. -/
theorem exec_fair {setup : Setup flowsCnt} (h : q.Sane hd setup.toBounds) {a : Action H}
    (allowed : setup.Allowed q a) (hij : i ≠ j) (hi : i ∈ q.oldFlows) (hj : j ∈ q.oldFlows)
    (hi' : i ∈ t.oldFlows) (hj' : j ∈ t.oldFlows) (hquantum : t.quantum = q.quantum)
    (hrun : exec hd q a = .ok t) : Fair i j q t := by
  cases a with
  | enqueue tc now skb =>
    obtain ⟨⟨ret, u⟩, henqueue, hrun⟩ := bind_ok hrun
    have hfair := enqueue_fair hi hj henqueue
    change Except.ok (if ret = .success then sentHere u else u) = .ok t at hrun
    split at hrun
    · cases hrun
      exact hfair.trans (Fair.of_same rfl rfl rfl rfl)
    · cases hrun
      exact hfair
  | dequeue clock =>
    obtain ⟨⟨skb, u⟩, hdequeue, hrun⟩ := bind_ok hrun
    cases skb with
    | none =>
      cases hrun
      exact passes_fair h.inv hij hi hj hi' hj' hdequeue
    | some skb =>
      cases hrun
      have hfair : Fair i j q u := passes_fair h.inv hij hi hj hi' hj' hdequeue
      have hback : Fair i j u (gotBack u) := Fair.of_same rfl rfl rfl rfl
      exact hfair.trans hback
  | drop =>
    obtain ⟨⟨len, u⟩, hlen, hrun⟩ := bind_ok hrun
    obtain ⟨⟨idx, v⟩, hdrop, hlen⟩ := bind_ok hlen
    cases hlen
    change Except.ok (if q.backlog - u.backlog = 0 then u else gotBack u) = .ok t at hrun
    split at hrun
    · cases hrun
      exact drop_fair hdrop
    · cases hrun
      have hback : Fair i j u (gotBack u) := Fair.of_same rfl rfl rfl rfl
      exact (drop_fair hdrop).trans hback
  | reset =>
    cases hrun
    exact absurd hi' List.not_mem_nil
  | change opt clock =>
    obtain ⟨⟨answer, u⟩, hchange, hrun⟩ := bind_ok hrun
    cases hrun
    cases opt with
    | none =>
      cases hchange
      exact .refl _
    | some opt =>
      simp only [fqCodelChange] at hchange
      split at hchange
      · cases hchange
        exact .refl _
      · obtain ⟨v, htrim, hreport⟩ := bind_ok hchange
        cases hreport
        have hinv := h.inv.configure (allowed opt rfl)
        have htrimmed : Fair i j (configure opt q) v := trim_fair hinv hij hi hj hi' hj' htrim
        have hset : (configure opt q).quantum = q.quantum := htrimmed.quantum.symm.trans hquantum
        have hconfigured : Fair i j q (configure opt q) := Fair.of_same hset rfl rfl rfl
        have hreported : Fair i j v (reportAll v) := Fair.of_same rfl rfl rfl rfl
        exact (hconfigured.trans htrimmed).trans hreported

/-- Runs from one state to another through states in which two flows are old and the quantum
is the same. -/
inductive Period (hd : Headers H) (setup : Setup flowsCnt) (i j : Fin flowsCnt)
    (q : Qdisc H flowsCnt) : Qdisc H flowsCnt → Prop
  | start (hi : i ∈ q.oldFlows) (hj : j ∈ q.oldFlows) : Period hd setup i j q q
  | step {t u : Qdisc H flowsCnt} (a : Action H) (before : Period hd setup i j q t)
    (allowed : setup.Allowed t a) (runs : exec hd t a = .ok u) (hi : i ∈ u.oldFlows)
    (hj : j ∈ u.oldFlows) (quantum : u.quantum = t.quantum) : Period hd setup i j q u

variable {setup : Setup flowsCnt}

theorem Period.stays (h : Period hd setup i j q t) : i ∈ t.oldFlows ∧ j ∈ t.oldFlows := by
  cases h with
  | start hi hj => exact ⟨hi, hj⟩
  | step _ _ _ _ hi hj => exact ⟨hi, hj⟩

theorem Period.starts (h : Period hd setup i j q t) : i ∈ q.oldFlows ∧ j ∈ q.oldFlows := by
  induction h with
  | start hi hj => exact ⟨hi, hj⟩
  | step _ _ _ _ _ _ _ ih => exact ih

theorem Period.fair (hr : (machine hd setup).Reachable q) (hij : i ≠ j)
    (h : Period hd setup i j q t) : Fair i j q t ∧ (machine hd setup).Reachable t := by
  induction h with
  | start hi hj => exact ⟨.refl q, hr⟩
  | step a before allowed runs hi hj quantum ih =>
    obtain ⟨hfair, hreach⟩ := ih
    obtain ⟨hi', hj'⟩ := before.stays
    have hsane := (sane_inductive hd setup).reachable hreach
    exact ⟨hfair.trans (exec_fair hsane allowed hij hi' hj' hi hj quantum runs),
      hreach.step a allowed runs⟩

/-- While two flows stay old, neither sends more bytes than the other by more than a quantum and
what their deficits can differ by, however long this is and whatever else is sent, dropped
or admitted. -/
theorem round_robin_fair (hr : (machine hd setup).Reachable q) (hij : i ≠ j)
    (period : Period hd setup i j q t) :
    (sentOf (t.flows i).left : Int) - sentOf (q.flows i).left ≤
      sentOf (t.flows j).left - sentOf (q.flows j).left +
        q.quantum.toNat + 2 * (setup.maxQuantum + setup.maxLen - 1) := by
  obtain ⟨⟨-, ri, rj, hi, hj, hturns⟩, hreach⟩ := period.fair hr hij
  obtain ⟨hiold, hjold⟩ := period.starts
  obtain ⟨hiold', hjold'⟩ := period.stays
  have hfunded := ((sane_inductive hd setup).reachable hr).inv.funded
  have hfunded' := ((sane_inductive hd setup).reachable hreach).inv.funded
  have hstart := hfunded.deficit_le i (List.mem_append_right _ hiold)
  have hstart' := hfunded.deficit_gt j (List.mem_append_right _ hjold)
  have hend := hfunded'.deficit_gt i (List.mem_append_right _ hiold')
  have hend' := hfunded'.deficit_le j (List.mem_append_right _ hjold')
  have hlead := (lead_range i j q.oldFlows).2
  have hlead' := (lead_range i j t.oldFlows).1
  have hmore : (q.quantum.toNat : Int) * (ri - rj) ≤ q.quantum.toNat * 1 :=
    Int.mul_le_mul_of_nonneg_left (by omega) (Int.natCast_nonneg _)
  rw [Int.mul_sub, Int.mul_one] at hmore
  simp only [Qdisc.balance] at hi hj
  omega

end Calls

/-- Two flows of three packets, five of which are sent. Both flows are old then. -/
def busy : List (Action Nat) :=
  [2, 4, 6, 1, 3, 5].map (fun id => .enqueue none 0 ⟨id, 1500, 0, false⟩) ++
    List.replicate 5 (.dequeue fun _ => 0)

theorem round_robin_fair_busy : ∃ q t : Qdisc Nat 2, (machine plain ethernet).Reachable q ∧
    Period plain ethernet 0 1 q t ∧
    (sentOf (t.flows 0).left : Int) - sentOf (q.flows 0).left ≤
      sentOf (t.flows 1).left - sentOf (q.flows 1).left +
        q.quantum.toNat + 2 * (1514 + 1514 - 1) := by
  have hfollow : ((machine plain ethernet).follow (machine plain ethernet).start busy).map
      (fun q => (q.oldFlows, q.quantum, ((machine plain ethernet).follow q
        [.dequeue fun _ => 0]).map fun t => (t.oldFlows, t.quantum))) =
      some ([0, 1], 1514, some ([1, 0], 1514)) := by decide
  obtain ⟨q, hr, hfacts⟩ := Machine.follow_map_reachable hfollow
  obtain ⟨hold, hquantum, hnext⟩ : q.oldFlows = [0, 1] ∧ q.quantum = 1514 ∧ _ = _ := by
    simpa only [Prod.mk.injEq] using hfacts
  obtain ⟨t, hfollow, ht⟩ := Option.map_eq_some_iff.mp hnext
  obtain ⟨hold', hquantum'⟩ := Prod.mk.inj ht
  have hperiod : Period plain ethernet 0 1 q t :=
    .step (.dequeue fun _ => 0) (.start (by simp [hold]) (by simp [hold])) trivial
      (Machine.follow_one hfollow)
      (by simp [hold']) (by simp [hold']) (hquantum'.trans hquantum.symm)
  exact ⟨q, t, hr, hperiod, round_robin_fair hr (by decide) hperiod⟩

end ApTelemetry.FqCodel
