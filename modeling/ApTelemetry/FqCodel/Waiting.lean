import ApTelemetry.FqCodel.Fairness

namespace ApTelemetry.FqCodel
open Lib

variable {H : Type} {hd : Headers H} {now : CodelTime} {flowsCnt : Nat} {bounds : Bounds}
  {q t u : Qdisc H flowsCnt} {i j k : Fin flowsCnt}

/-- A flow sends while its deficit is positive, a packet too much at the end. -/
def spend (deficit extra : Int) : Int := if 0 < deficit then deficit + extra else 0

/-- What flow `j` may still send before flow `i`, which is old, has its turn. A flow that
becomes new again has a quantum more. -/
def Qdisc.allowance (bounds : Bounds) (q : Qdisc H flowsCnt) (i j : Fin flowsCnt) : Int :=
  if q.newFlows.contains j then spend (q.flows j).deficit.toInt (bounds.maxLen - 1)
  else if q.oldFlows.contains j then
    if lead i j q.oldFlows = 1 then 0
    else spend (q.flows j).deficit.toInt (bounds.maxQuantum + bounds.maxLen - 1)
  else bounds.maxQuantum + bounds.maxLen - 1

def Qdisc.ceiling (bounds : Bounds) (q : Qdisc H flowsCnt) (i j : Fin flowsCnt) : Int :=
  sentOf (q.flows j).left + q.allowance bounds i j

section Allowance

theorem allowance_new (new : j ∈ q.newFlows) :
    q.allowance bounds i j = spend (q.flows j).deficit.toInt (bounds.maxLen - 1) :=
  if_pos (List.contains_iff_mem.mpr new)

theorem allowance_off (new : j ∉ q.newFlows) (old : j ∉ q.oldFlows) :
    q.allowance bounds i j = bounds.maxQuantum + bounds.maxLen - 1 :=
  (if_neg (mt List.contains_iff_mem.mp new)).trans (if_neg (mt List.contains_iff_mem.mp old))

theorem allowance_old (new : j ∉ q.newFlows) (old : j ∈ q.oldFlows) :
    q.allowance bounds i j = if lead i j q.oldFlows = 1 then 0
      else spend (q.flows j).deficit.toInt (bounds.maxQuantum + bounds.maxLen - 1) :=
  (if_neg (mt List.contains_iff_mem.mp new)).trans (if_pos (List.contains_iff_mem.mpr old))

theorem spend_nonneg {deficit extra : Int} (h : -1 ≤ extra) : 0 ≤ spend deficit extra := by
  rw [spend]
  split <;> omega

theorem allowance_nonneg (bounds : Bounds) (q : Qdisc H flowsCnt) (i j : Fin flowsCnt) :
    0 ≤ q.allowance bounds i j := by
  have hquantum := bounds.quantum_ge
  rw [Qdisc.allowance]
  split
  · exact spend_nonneg (by omega)
  · split
    · split
      · exact le_refl 0
      · exact spend_nonneg (by omega)
    · omega

theorem allowance_le (h : q.Funded bounds) (i j : Fin flowsCnt) :
    q.allowance bounds i j ≤ 2 * bounds.maxQuantum + bounds.maxLen - 1 := by
  have hquantum := bounds.quantum_ge
  rw [Qdisc.allowance]
  split
  · rename_i hnew
    have hle := h.deficit_le j (List.mem_append_left _ (List.contains_iff_mem.mp hnew))
    rw [spend]
    split <;> omega
  · split
    · rename_i hold
      have hle := h.deficit_le j (List.mem_append_right _ (List.contains_iff_mem.mp hold))
      rw [spend]
      split
      · omega
      · split <;> omega
    · omega

/-- Flow `j` is where it was, and has what it had. -/
structure Stays (i j : Fin flowsCnt) (q t : Qdisc H flowsCnt) : Prop where
  sent : sentOf (t.flows j).left = sentOf (q.flows j).left
  deficit : (t.flows j).deficit = (q.flows j).deficit
  new : j ∈ t.newFlows ↔ j ∈ q.newFlows
  old : j ∈ t.oldFlows ↔ j ∈ q.oldFlows
  lead : lead i j t.oldFlows = lead i j q.oldFlows

theorem Stays.ceiling_eq (h : Stays i j q t) : t.ceiling bounds i j = q.ceiling bounds i j := by
  simp only [Qdisc.ceiling, Qdisc.allowance, List.contains_iff_mem, h.sent, h.deficit, h.new,
    h.old, h.lead]

theorem Stays.of_lists (flows : t.flows j = q.flows j) (new : t.newFlows = q.newFlows)
    (old : t.oldFlows = q.oldFlows) : Stays i j q t :=
  ⟨by rw [flows], by rw [flows], by rw [new], by rw [old], by rw [old]⟩

end Allowance

/-- A flow has sent and may send at least as much as before. -/
structure Grown (i : Fin flowsCnt) (q t : Qdisc H flowsCnt) : Prop where
  sent : sentOf (q.flows i).left ≤ sentOf (t.flows i).left
  balance : q.balance i ≤ t.balance i

theorem Grown.refl (i : Fin flowsCnt) (q : Qdisc H flowsCnt) : Grown i q q := ⟨le_refl _, le_refl _⟩

theorem Grown.trans (hq : Grown i q t) (ht : Grown i t u) : Grown i q u :=
  ⟨hq.sent.trans ht.sent, hq.balance.trans ht.balance⟩

section Passes

theorem serve_sent_other (hd : Headers H) (now : CodelTime) (q : Qdisc H flowsCnt) (hjk : j ≠ k) :
    sentOf ((serve hd now k q).2.flows j).left = sentOf (q.flows j).left := by
  rw [serve_other hd now q hjk]

theorem serve_sent_none (none : (serve hd now k q).1 = none) (j : Fin flowsCnt) :
    sentOf ((serve hd now k q).2.flows j).left = sentOf (q.flows j).left := by
  cases decEq j k with
  | isTrue hjk =>
    subst hjk
    rw [serve_sent, none]
    rfl
  | isFalse hjk => exact serve_sent_other hd now q hjk

theorem pass_again_grown (h : q.Inv hd bounds) (hpass : pass hd now q = .again t) :
    Grown i q t := by
  have hpassed := pass_passed hd now q
  rw [hpass] at hpassed
  cases hpassed with
  | refill isNew k first spent =>
    refine ⟨(congrArg sentOf (credit_left q k q.quantum i)).ge, ?_⟩
    rw [refill_balance h first.mem spent i]
    split <;> omega
  | rotate k first funded none others =>
    exact ⟨(serve_sent_none none i).ge, (serve_none_balance none i).ge⟩
  | retire isNew k first funded none =>
    exact ⟨(serve_sent_none none i).ge, (serve_none_balance none i).ge⟩

theorem send_sent {skb : SkBuff H} (some : (serve hd now k q).1 = some skb) (j : Fin flowsCnt) :
    sentOf ((send hd k skb (serve hd now k q).2).flows j).left =
      sentOf (q.flows j).left + if j = k then skb.pktLen.toNat else 0 := by
  rw [send, report_flows, credit_left]
  change sentOf ((serve hd now k q).2.flows j).left = _
  split
  · rename_i hjk
    subst hjk
    rw [serve_sent, some]
    rfl
  · rename_i hjk
    exact serve_sent_other hd now q hjk

theorem pass_packet_grown {skb : SkBuff H} (h : q.Inv hd bounds)
    (hpass : pass hd now q = .packet skb t) : Grown i q t := by
  have hpassed := pass_passed hd now q
  rw [hpass] at hpassed
  cases hpassed with
  | packet isNew k first funded _ some =>
    refine ⟨?_, (send_balance h first.mem funded some i).ge⟩
    rw [send_sent some i]
    exact Nat.le_add_right ..

/-- A flow that goes to the end of the old flows is behind the one that waits. -/
theorem moved_ceiling (h : q.Listed) (hij : i ≠ j) (hi : i ∈ q.oldFlows)
    (sent : sentOf (t.flows j).left = sentOf (q.flows j).left)
    (new : t.newFlows = q.newFlows.erase j) (old : t.oldFlows = q.oldFlows.erase j ++ [j]) :
    t.ceiling bounds i j ≤ q.ceiling bounds i j := by
  have hnew : j ∉ t.newFlows := new ▸ h.nodup.of_append_left.not_mem_erase
  have hold : j ∈ t.oldFlows := old ▸ List.mem_append_right _ (List.mem_singleton_self j)
  have hlead : lead i j t.oldFlows = 1 := old ▸ lead_of_last h.nodup.of_append_right hi hij
  have hnonneg := allowance_nonneg bounds q i j
  rw [Qdisc.ceiling, allowance_old hnew hold, if_pos hlead, Qdisc.ceiling, sent]
  omega

/-- The others are where they were. -/
theorem moved_stays (hi : i ∈ q.oldFlows) (hik : i ≠ k) (hjk : j ≠ k)
    (sent : sentOf (t.flows j).left = sentOf (q.flows j).left)
    (deficit : (t.flows j).deficit = (q.flows j).deficit)
    (new : t.newFlows = q.newFlows.erase k) (old : t.oldFlows = q.oldFlows.erase k ++ [k]) :
    Stays i j q t := by
  refine ⟨sent, deficit, ?_, ?_, ?_⟩
  · rw [new, List.mem_erase_of_ne hjk]
  · rw [old, List.mem_append, List.mem_erase_of_ne hjk, List.mem_singleton]
    exact or_iff_left hjk
  · rw [old]
    exact lead_move_last (Ne.symm hik) (Ne.symm hjk) hi

theorem retire_ceiling (h : q.Inv hd bounds) (hij : i ≠ j) (hi : i ∈ q.oldFlows) (hik : i ≠ k)
    (first : q.First false k) (funded : 0 < (q.flows k).deficit.toInt)
    (none : (serve hd now k q).1 = none) :
    (unlist k (serve hd now k q).2).ceiling bounds i j ≤ q.ceiling bounds i j := by
  have hsent : sentOf ((unlist k (serve hd now k q).2).flows j).left = sentOf (q.flows j).left :=
    serve_sent_none none j
  cases decEq j k with
  | isTrue hjk =>
    subst hjk
    have hgone := not_mem_erase_both (a := j) h.listed.nodup
    rw [List.mem_append, not_or] at hgone
    cases first with
    | old _ rest hnew hold =>
      have hnodup := h.listed.nodup.of_append_right
      rw [hold] at hi hnodup
      have hbehind := (lead_rotate_second hnodup ((List.mem_cons.mp hi).resolve_left hij) hij).1
      have hlead : lead i j q.oldFlows ≠ 1 := by
        rw [hold, hbehind]
        exact Int.zero_ne_one
      have hfresh : j ∉ q.newFlows := hnew ▸ List.not_mem_nil
      have hmem : j ∈ q.oldFlows := hold ▸ List.mem_cons_self ..
      have hbefore : q.allowance bounds i j =
          (q.flows j).deficit.toInt + (bounds.maxQuantum + bounds.maxLen - 1) := by
        rw [allowance_old hfresh hmem, if_neg hlead, spend, if_pos funded]
      have hafter : (unlist j (serve hd now j q).2).allowance bounds i j =
          bounds.maxQuantum + bounds.maxLen - 1 := allowance_off hgone.1 hgone.2
      rw [Qdisc.ceiling, Qdisc.ceiling, hsent, hbefore, hafter]
      omega
  | isFalse hjk =>
    refine (Stays.ceiling_eq (q := q) ⟨hsent, serve_deficit q k j, ?_, ?_, ?_⟩).le
    · exact List.mem_erase_of_ne hjk
    · exact List.mem_erase_of_ne hjk
    · exact lead_erase (Ne.symm hik) (Ne.symm hjk)

/-- A pass that is not the turn of the flow that waits. -/
theorem pass_again_ceiling (h : q.Inv hd bounds) (hij : i ≠ j) (hi : i ∈ q.oldFlows)
    (hi' : i ∈ t.oldFlows) (waits : Grown i t q) (hpass : pass hd now q = .again t) :
    t.ceiling bounds i j ≤ q.ceiling bounds i j := by
  have hpassed := pass_passed hd now q
  rw [hpass] at hpassed
  have hdisjoint : ∀ l ∈ q.newFlows, l ∉ q.oldFlows :=
    fun l hl => List.disjoint_of_nodup_append h.listed.nodup hl
  cases hpassed with
  | refill isNew k first spent =>
    have hik : i ≠ k := by
      rintro rfl
      have hpos := h.funded.quantum_pos
      have hbalance := waits.balance
      rw [refill_balance h first.mem spent i, if_pos rfl] at hbalance
      omega
    have hsent := congrArg sentOf (credit_left q k q.quantum j)
    cases decEq j k with
    | isTrue hjk =>
      subst hjk
      exact moved_ceiling h.listed hij hi hsent rfl rfl
    | isFalse hjk =>
      have hdeficit := (credit_deficit q k q.quantum j).trans (if_neg hjk)
      have hstays : Stays i j q (moveToOld k (credit k q.quantum q)) :=
        moved_stays hi hik hjk hsent hdeficit rfl rfl
      exact hstays.ceiling_eq.le
  | rotate k first funded none others =>
    have hik : i ≠ k := by
      rintro rfl
      cases first with
      | new _ rest hnew => exact hdisjoint i (hnew ▸ List.mem_cons_self ..) hi
    have hsent := serve_sent_none none j
    cases decEq j k with
    | isTrue hjk =>
      subst hjk
      exact moved_ceiling h.listed hij hi hsent rfl rfl
    | isFalse hjk =>
      have hstays : Stays i j q (moveToOld k (serve hd now k q).2) :=
        moved_stays hi hik hjk hsent (serve_deficit q k j) rfl rfl
      exact hstays.ceiling_eq.le
  | retire isNew k first funded none last =>
    have hik : i ≠ k := by
      rintro rfl
      exact h.listed.nodup.of_append_right.not_mem_erase hi'
    obtain rfl := last.resolve_right (List.ne_nil_of_mem hi)
    exact retire_ceiling h hij hi hik first funded none

theorem pass_packet_ceiling {skb : SkBuff H} (h : q.Inv hd bounds) (hij : i ≠ j)
    (hi : i ∈ q.oldFlows) (waits : Grown i t q) (hpass : pass hd now q = .packet skb t) :
    t.ceiling bounds i j ≤ q.ceiling bounds i j := by
  obtain ⟨hnew, hold, -⟩ := pass_packet_lists hpass
  have hpassed := pass_passed hd now q
  rw [hpass] at hpassed
  cases hpassed with
  | packet isNew k first funded _ some =>
    obtain ⟨hpos, hmax⟩ := serve_fits h.kept some
    have hsent := send_sent some
    have hbalance := send_balance h first.mem funded some j
    have hik : i ≠ k := by
      rintro rfl
      have hwaits := waits.sent
      rw [hsent, if_pos rfl] at hwaits
      omega
    have hsent := hsent j
    simp only [Qdisc.ceiling, Qdisc.allowance, List.contains_iff_mem, Qdisc.balance, hnew,
      hold] at hbalance ⊢
    cases decEq j k with
    | isTrue hjk =>
      subst hjk
      rw [if_pos rfl] at hsent
      have hspend : ∀ extra : Int, bounds.maxLen - 1 ≤ extra →
          spend ((send hd j skb (serve hd now j q).2).flows j).deficit.toInt extra +
            skb.pktLen.toNat ≤ spend (q.flows j).deficit.toInt extra := by
        intro extra hextra
        rw [spend, spend, if_pos funded]
        split <;> omega
      cases first with
      | new _ rest hnew =>
        have hmem : j ∈ q.newFlows := hnew ▸ List.mem_cons_self ..
        have hless := hspend (bounds.maxLen - 1) (le_refl _)
        rw [if_pos hmem, if_pos hmem]
        omega
      | old _ rest hnew hold =>
        have hnodup := h.listed.nodup.of_append_right
        rw [hold] at hi hnodup
        have hbehind := (lead_rotate_second hnodup ((List.mem_cons.mp hi).resolve_left hij) hij).1
        have hless := hspend (bounds.maxQuantum + bounds.maxLen - 1) (by omega)
        rw [hnew, hold, hbehind]
        simp only [List.not_mem_nil, if_false, List.mem_cons_self, if_true, Int.zero_ne_one]
        omega
    | isFalse hjk =>
      rw [if_neg hjk, add_zero] at hsent
      have hdeficit : ((send hd k skb (serve hd now k q).2).flows j).deficit.toInt =
          (q.flows j).deficit.toInt := by omega
      rw [hsent, hdeficit]

theorem passes_grown (h : q.Inv hd bounds) {clock : Nat → CodelTime} {fuel : Nat}
    {skb : Option (SkBuff H)} (hrun : passes hd fuel clock q = .ok (skb, t)) : Grown i q t := by
  induction fuel generalizing q clock with
  | zero => cases hrun
  | succ fuel ih =>
    rw [passes] at hrun
    cases hpass : pass hd (clock 0) q with
    | empty =>
      rw [hpass] at hrun
      cases hrun
      exact .refl i _
    | again u =>
      rw [hpass] at hrun
      exact (pass_again_grown h hpass).trans (ih (pass_again h hpass).1 hrun)
    | packet skb u =>
      rw [hpass] at hrun
      cases hrun
      exact pass_packet_grown h hpass

theorem passes_ceiling (h : q.Inv hd bounds) (hij : i ≠ j) (hi : i ∈ q.oldFlows)
    (hi' : i ∈ t.oldFlows) (waits : Grown i t q) {clock : Nat → CodelTime} {fuel : Nat}
    {skb : Option (SkBuff H)} (hrun : passes hd fuel clock q = .ok (skb, t)) :
    t.ceiling bounds i j ≤ q.ceiling bounds i j := by
  induction fuel generalizing q clock with
  | zero => cases hrun
  | succ fuel ih =>
    rw [passes] at hrun
    cases hpass : pass hd (clock 0) q with
    | empty =>
      rw [hpass] at hrun
      cases hrun
      exact le_refl _
    | again u =>
      rw [hpass] at hrun
      have hinv := (pass_again h hpass).1
      have hiu := (pass_dwindled hpass).stays (passes_dwindled hrun) h.listed hi hi'
      have hbefore : Grown i u q := (passes_grown hinv hrun).trans waits
      have hafter : Grown i t u := waits.trans (pass_again_grown h hpass)
      exact (ih hinv hiu hafter hrun).trans (pass_again_ceiling h hij hi hiu hbefore hpass)
    | packet skb u =>
      rw [hpass] at hrun
      cases hrun
      exact pass_packet_ceiling h hij hi waits hpass

end Passes

section Calls

theorem trim_grown (h : q.Inv hd bounds) {clock : Nat → Nat → CodelTime} {fuel : Nat}
    (hrun : trim hd fuel clock q = .ok t) : Grown i q t := by
  induction fuel generalizing q clock with
  | zero =>
    rw [trim] at hrun
    split at hrun
    · cases hrun
    · cases hrun
      exact .refl i _
  | succ fuel ih =>
    rw [trim] at hrun
    split at hrun
    · obtain ⟨⟨skb, u⟩, hdequeue, hrun⟩ := bind_ok hrun
      cases skb with
      | none => cases hrun
      | some skb =>
        change trim hd fuel _ (freeOver skb u) = .ok t at hrun
        have hfreed : Grown i u (freeOver skb u) := ⟨le_refl _, le_refl _⟩
        exact (passes_grown h hdequeue).trans (hfreed.trans (ih (trim_step h hdequeue) hrun))
    · cases hrun
      exact .refl i _

theorem trim_ceiling (h : q.Inv hd bounds) (hij : i ≠ j) (hi : i ∈ q.oldFlows)
    (hi' : i ∈ t.oldFlows) (waits : Grown i t q) {clock : Nat → Nat → CodelTime} {fuel : Nat}
    (hrun : trim hd fuel clock q = .ok t) : t.ceiling bounds i j ≤ q.ceiling bounds i j := by
  induction fuel generalizing q clock with
  | zero =>
    rw [trim] at hrun
    split at hrun
    · cases hrun
    · cases hrun
      exact le_refl _
  | succ fuel ih =>
    rw [trim] at hrun
    split at hrun
    · obtain ⟨⟨skb, u⟩, hdequeue, hrun⟩ := bind_ok hrun
      cases skb with
      | none => cases hrun
      | some skb =>
        change trim hd fuel _ (freeOver skb u) = .ok t at hrun
        have hinv : (freeOver skb u).Inv hd bounds := trim_step h hdequeue
        have hu : Dwindled u t :=
          (Dwindled.of_same rfl rfl : Dwindled u (freeOver skb u)).trans (trim_dwindled hrun)
        have hiu : i ∈ u.oldFlows := (passes_dwindled hdequeue).stays hu h.listed hi hi'
        have hfreed : Grown i (freeOver skb u) u := ⟨le_refl _, le_refl _⟩
        have hfreed' : Grown i u (freeOver skb u) := ⟨le_refl _, le_refl _⟩
        have hbefore : Grown i u q := (hfreed'.trans (trim_grown hinv hrun)).trans waits
        have hafter : Grown i t (freeOver skb u) :=
          (waits.trans (passes_grown h hdequeue)).trans hfreed'
        calc t.ceiling bounds i j ≤ (freeOver skb u).ceiling bounds i j := ih hinv hiu hafter hrun
          _ = u.ceiling bounds i j := (Stays.of_lists rfl rfl rfl).ceiling_eq
          _ ≤ q.ceiling bounds i j := passes_ceiling h hij hi hiu hbefore hdequeue
    · cases hrun
      exact le_refl _

theorem accept_stays {skb : SkBuff H} : Stays i j q (accept k skb q) := by
  have hsent : ∀ l, sentOf ((accept k skb q).flows l).left = sentOf (q.flows l).left :=
    update_forall (P := fun l (f : Flow H) => sentOf f.left = sentOf (q.flows l).left)
      rfl fun _ => rfl
  have hdeficit : ∀ l, ((accept k skb q).flows l).deficit = (q.flows l).deficit :=
    update_forall (P := fun l (f : Flow H) => f.deficit = (q.flows l).deficit) rfl fun _ => rfl
  exact ⟨hsent j, hdeficit j, Iff.rfl, Iff.rfl, rfl⟩

/-- A flow that becomes new has its quantum to spend. -/
theorem wake_ceiling (h : q.Funded bounds) {clears : Bool} :
    (wake clears k q).ceiling bounds i j ≤ q.ceiling bounds i j := by
  rw [wake]
  split
  · exact le_refl _
  · rename_i hfree
    obtain ⟨hnew, hold⟩ := not_or.mp hfree
    cases decEq j k with
    | isTrue hjk =>
      subst hjk
      have hle := h.quantum_le
      have hpos := h.quantum_pos
      have hlarge := bounds.quantum_lt
      have hdeficit : q.quantum.toInt = q.quantum.toNat := small_to_int (by omega)
      rw [Qdisc.ceiling, allowance_new (by simp), Qdisc.ceiling, allowance_off hnew hold]
      simp only [Function.update_self, spend, hdeficit]
      split <;> omega
    | isFalse hjk =>
      apply le_of_eq
      apply Stays.ceiling_eq
      refine ⟨?_, ?_, ?_, Iff.rfl, rfl⟩
      · simp only [Function.update_of_ne hjk]
      · simp only [Function.update_of_ne hjk]
      · rw [List.mem_append, List.mem_singleton]
        exact or_iff_left hjk

variable [NeZero flowsCnt]

theorem drop_stays {idx : Fin flowsCnt} (hdrop : fqCodelDrop q = .ok (idx, t)) :
    Stays i j q t := by
  simp only [fqCodelDrop] at hdrop
  split at hdrop
  · cases hdrop
  · rename_i skb rest hqueue
    cases hdrop
    have hsent : ∀ l, sentOf ((dropHead (fatFlow q).2 skb rest q).flows l).left =
        sentOf (q.flows l).left :=
      update_forall (P := fun l (f : Flow H) => sentOf f.left = sentOf (q.flows l).left)
        (by simp [sentOf, Departure.sent]) fun _ => rfl
    have hdeficit : ∀ l, ((dropHead (fatFlow q).2 skb rest q).flows l).deficit =
        (q.flows l).deficit :=
      update_forall (P := fun l (f : Flow H) => f.deficit = (q.flows l).deficit) rfl fun _ => rfl
    exact ⟨hsent j, hdeficit j, Iff.rfl, Iff.rfl, rfl⟩

theorem enqueue_ceiling (h : q.Funded bounds) {tc : Option (Int × U32)} {skb : SkBuff H}
    {ret : Xmit} (hrun : fqCodelEnqueue hd tc now skb q = .ok (ret, t)) :
    t.ceiling bounds i j ≤ q.ceiling bounds i j := by
  simp only [fqCodelEnqueue] at hrun
  split at hrun
  · cases hrun
    exact (Stays.of_lists rfl rfl rfl).ceiling_eq.le
  · cases hrun
    exact le_refl _
  · split at hrun
    · rename_i idx hclass hidx
      generalize (⟨(idx - 1).toNat, hidx⟩ : Fin flowsCnt) = k at hrun
      generalize ({ skb with enqueueTime := now } : SkBuff H) = skb' at hrun
      have haccept : (accept k skb' q).ceiling bounds i j = q.ceiling bounds i j :=
        accept_stays.ceiling_eq
      have hfunded : (accept k skb' q).Funded bounds :=
        h.of_lists rfl (fun _ => id) fun l _ => Or.inl (accept_stays (i := l)).deficit
      have hwoken : (wake true k (accept k skb' q)).ceiling bounds i j ≤ q.ceiling bounds i j :=
        (wake_ceiling hfunded).trans haccept.le
      generalize wake true k (accept k skb' q) = u at hrun hwoken
      split at hrun
      · cases hrun
        exact hwoken
      · obtain ⟨⟨fat, v⟩, hdrop, hrun⟩ := bind_ok hrun
        have hdropped : v.ceiling bounds i j ≤ q.ceiling bounds i j := by
          have hstays : Stays i j { u with dropOverlimit := u.dropOverlimit + 1 } v :=
            drop_stays hdrop
          exact hstays.ceiling_eq.le.trans hwoken
        split at hrun
        · cases hrun
          exact hdropped
        · cases hrun
          exact hdropped
    · cases hrun

/-- A call in which an old flow has no turn. -/
theorem exec_ceiling {setup : Setup flowsCnt} (h : q.Sane hd setup.toBounds) {a : Action H}
    (allowed : setup.Allowed q a) (hij : i ≠ j) (hi : i ∈ q.oldFlows) (hi' : i ∈ t.oldFlows)
    (waits : Grown i t q) (hrun : exec hd q a = .ok t) :
    t.ceiling setup.toBounds i j ≤ q.ceiling setup.toBounds i j := by
  cases a with
  | enqueue tc now skb =>
    obtain ⟨⟨ret, u⟩, henqueue, hrun⟩ := bind_ok hrun
    have hle := enqueue_ceiling (i := i) (j := j) h.inv.funded henqueue
    change Except.ok (if ret = .success then sentHere u else u) = .ok t at hrun
    split at hrun
    · cases hrun
      exact hle
    · cases hrun
      exact hle
  | dequeue clock =>
    obtain ⟨⟨skb, u⟩, hdequeue, hrun⟩ := bind_ok hrun
    cases skb with
    | none =>
      cases hrun
      exact passes_ceiling h.inv hij hi hi' waits hdequeue
    | some skb =>
      cases hrun
      have hback : Grown i u (gotBack u) := ⟨le_refl _, le_refl _⟩
      have hle : u.ceiling setup.toBounds i j ≤ q.ceiling setup.toBounds i j :=
        passes_ceiling h.inv hij hi hi' (hback.trans waits) hdequeue
      exact hle
  | drop =>
    obtain ⟨⟨len, u⟩, hlen, hrun⟩ := bind_ok hrun
    obtain ⟨⟨idx, v⟩, hdrop, hlen⟩ := bind_ok hlen
    cases hlen
    have hle : u.ceiling setup.toBounds i j ≤ q.ceiling setup.toBounds i j :=
      (drop_stays hdrop).ceiling_eq.le
    change Except.ok (if q.backlog - u.backlog = 0 then u else gotBack u) = .ok t at hrun
    split at hrun
    · cases hrun
      exact hle
    · cases hrun
      exact hle
  | reset =>
    cases hrun
    exact absurd hi' List.not_mem_nil
  | change opt clock =>
    obtain ⟨⟨answer, u⟩, hchange, hrun⟩ := bind_ok hrun
    cases hrun
    cases opt with
    | none =>
      cases hchange
      exact le_refl _
    | some opt =>
      simp only [fqCodelChange] at hchange
      split at hchange
      · cases hchange
        exact le_refl _
      · obtain ⟨v, htrim, hreport⟩ := bind_ok hchange
        cases hreport
        have hinv := h.inv.configure (allowed opt rfl)
        have hreported : Grown i v (reportAll v) := ⟨le_refl _, le_refl _⟩
        have hconfigured : Grown i q (configure opt q) := ⟨le_refl _, le_refl _⟩
        have hle : v.ceiling setup.toBounds i j ≤ (configure opt q).ceiling setup.toBounds i j :=
          trim_ceiling hinv hij hi hi' ((hreported.trans waits).trans hconfigured) htrim
        exact hle

/-- Runs from one state to another in which an old flow waits for its turn: it sends nothing
and gets no quantum. -/
inductive Waiting (hd : Headers H) (setup : Setup flowsCnt) (i : Fin flowsCnt)
    (q : Qdisc H flowsCnt) : Qdisc H flowsCnt → Prop
  | start (hi : i ∈ q.oldFlows) : Waiting hd setup i q q
  | step {t u : Qdisc H flowsCnt} (a : Action H) (before : Waiting hd setup i q t)
    (allowed : setup.Allowed t a) (runs : exec hd t a = .ok u) (hi : i ∈ u.oldFlows)
    (sent : sentOf (u.flows i).left = sentOf (t.flows i).left)
    (deficit : (u.flows i).deficit = (t.flows i).deficit) : Waiting hd setup i q u

variable {setup : Setup flowsCnt}

theorem Waiting.old (h : Waiting hd setup i q t) : i ∈ t.oldFlows := by
  cases h with
  | start hi => exact hi
  | step _ _ _ _ hi => exact hi

theorem Waiting.ceiling (hr : (machine hd setup).Reachable q) (hij : i ≠ j)
    (h : Waiting hd setup i q t) : t.ceiling setup.toBounds i j ≤ q.ceiling setup.toBounds i j ∧
      (machine hd setup).Reachable t := by
  induction h with
  | start hi => exact ⟨le_refl _, hr⟩
  | @step t u a before allowed runs hi sent deficit ih =>
    obtain ⟨hle, hreach⟩ := ih
    have hsane := (sane_inductive hd setup).reachable hreach
    have hwaits : Grown i u t := ⟨sent.le, by rw [Qdisc.balance, Qdisc.balance, sent, deficit]⟩
    exact ⟨(exec_ceiling hsane allowed hij before.old hi hwaits runs).trans hle,
      hreach.step a allowed runs⟩

/-- While an old flow waits for its turn no other flow sends two quanta and a packet, whatever
arrives for it and however often it becomes new: a flow that is empty passes through the old
flows before. -/
theorem no_flow_starves (hr : (machine hd setup).Reachable q) (hij : i ≠ j)
    (waiting : Waiting hd setup i q t) : sentOf (t.flows j).left <
      sentOf (q.flows j).left + 2 * setup.maxQuantum + setup.maxLen := by
  have hceiling := (waiting.ceiling hr hij).1
  have hfunded := ((sane_inductive hd setup).reachable hr).inv.funded
  have hstart := allowance_le hfunded i j
  have hend := allowance_nonneg setup.toBounds t i j
  simp only [Qdisc.ceiling] at hceiling
  omega

end Calls

/-- Two flows of three packets, three of which are sent. One flow is still new then. -/
def overtaking : List (Action Nat) :=
  [2, 4, 6, 1, 3, 5].map (fun id => .enqueue none 0 ⟨id, 1000, 0, false⟩) ++
    List.replicate 3 (.dequeue fun _ => 0)

/-- The old flows, what one of two flows may still send, and what each has sent. -/
def sums (q : Qdisc Nat 2) : List (Fin 2) × U32 × List Nat :=
  (q.oldFlows, (q.flows 0).deficit, [sentOf (q.flows 0).left, sentOf (q.flows 1).left])

theorem no_flow_starves_overtaken : ∃ q t : Qdisc Nat 2, (machine plain ethernet).Reachable q ∧
    Waiting plain ethernet 0 q t ∧ sentOf (q.flows 1).left < sentOf (t.flows 1).left ∧
    sentOf (t.flows 1).left < sentOf (q.flows 1).left + 2 * 1514 + 1514 := by
  have hfollow : ((machine plain ethernet).follow (machine plain ethernet).start overtaking).map
      (fun q => (sums q, ((machine plain ethernet).follow q [.dequeue fun _ => 0]).map sums)) =
      some (([0], 1028, [2000, 1000]), some ([0], 1028, [2000, 2000])) := by decide
  obtain ⟨q, hr, hfacts⟩ := Machine.follow_map_reachable hfollow
  obtain ⟨hq, hnext⟩ := Prod.mk.inj hfacts
  obtain ⟨t, hfollow, ht⟩ := Option.map_eq_some_iff.mp hnext
  simp only [sums, Prod.mk.injEq, List.cons.injEq, and_true] at hq ht
  obtain ⟨hold, hdeficit, hsent, hother⟩ := hq
  obtain ⟨hold', hdeficit', hsent', hother'⟩ := ht
  have hwaiting : Waiting plain ethernet 0 q t :=
    .step (.dequeue fun _ => 0) (.start (by simp [hold])) trivial (Machine.follow_one hfollow)
      (by simp [hold']) (hsent'.trans hsent.symm) (hdeficit'.trans hdeficit.symm)
  exact ⟨q, t, hr, hwaiting, by omega, no_flow_starves hr (by decide) hwaiting⟩

end ApTelemetry.FqCodel
