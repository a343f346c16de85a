import ApTelemetry.FqCodel.Account
import ApTelemetry.Lib.RoundRobin

namespace ApTelemetry.FqCodel
open Lib

variable {H : Type} {hd : Headers H} {now : CodelTime} {flowsCnt : Nat}

/-- Every flow with packets is on a list, and no flow is on the lists twice. -/
structure Qdisc.Listed (q : Qdisc H flowsCnt) : Prop where
  nodup : (q.newFlows ++ q.oldFlows).Nodup
  queued : ∀ i, (q.flows i).queue ≠ [] → i ∈ q.newFlows ++ q.oldFlows

/-- What the quantum and the deficits are at most. -/
structure Qdisc.Funded (bounds : Bounds) (q : Qdisc H flowsCnt) : Prop where
  quantum_pos : 0 < q.quantum.toNat
  quantum_le : q.quantum.toNat ≤ bounds.maxQuantum
  deficit_gt : ∀ i ∈ q.newFlows ++ q.oldFlows, -(bounds.maxLen : Int) < (q.flows i).deficit.toInt
  deficit_le : ∀ i ∈ q.newFlows ++ q.oldFlows, (q.flows i).deficit.toInt ≤ bounds.maxQuantum

structure Qdisc.Inv (hd : Headers H) (bounds : Bounds) (q : Qdisc H flowsCnt) : Prop where
  kept : ∀ i, (q.flows i).Kept hd bounds.Fits
  accounts : q.Accounts
  listed : q.Listed
  funded : q.Funded bounds

/-- The flow whose turn it is. -/
inductive Qdisc.First (q : Qdisc H flowsCnt) : Bool → Fin flowsCnt → Prop
  | new (i : Fin flowsCnt) (rest : List (Fin flowsCnt)) (h : q.newFlows = i :: rest) :
    First q true i
  | old (i : Fin flowsCnt) (rest : List (Fin flowsCnt)) (none : q.newFlows = [])
    (h : q.oldFlows = i :: rest) : First q false i

/-- Everything a pass can do. -/
inductive Passed (hd : Headers H) (now : CodelTime) (q : Qdisc H flowsCnt) :
    Pass H flowsCnt → Prop
  | empty (new : q.newFlows = []) (old : q.oldFlows = []) : Passed hd now q .empty
  | refill (isNew : Bool) (i : Fin flowsCnt) (first : q.First isNew i)
    (spent : (q.flows i).deficit.toInt ≤ 0) :
    Passed hd now q (.again (moveToOld i (credit i q.quantum q)))
  | rotate (i : Fin flowsCnt) (first : q.First true i) (funded : 0 < (q.flows i).deficit.toInt)
    (none : (serve hd now i q).1 = none) (others : q.oldFlows ≠ []) :
    Passed hd now q (.again (moveToOld i (serve hd now i q).2))
  | retire (isNew : Bool) (i : Fin flowsCnt) (first : q.First isNew i)
    (funded : 0 < (q.flows i).deficit.toInt) (none : (serve hd now i q).1 = none)
    (last : isNew = false ∨ q.oldFlows = []) :
    Passed hd now q (.again (unlist i (serve hd now i q).2))
  | packet (isNew : Bool) (i : Fin flowsCnt) (first : q.First isNew i)
    (funded : 0 < (q.flows i).deficit.toInt) (skb : SkBuff H)
    (some : (serve hd now i q).1 = some skb) :
    Passed hd now q (.packet skb (send hd i skb (serve hd now i q).2))

section Inversion

variable {q : Qdisc H flowsCnt}

theorem turn_passed {isNew : Bool} {i : Fin flowsCnt} (first : q.First isNew i) :
    Passed hd now q (turn hd now isNew i q) := by
  rw [turn]
  split
  · rename_i hspent
    exact .refill isNew i first hspent
  · rename_i hfunded
    have hfunded := Int.not_le.mp hfunded
    cases hserve : serve hd now i q with
    | mk skb t =>
      have ht : t = (serve hd now i q).2 := (congrArg Prod.snd hserve).symm
      cases skb with
      | none =>
        simp only
        split
        · rename_i hothers
          obtain ⟨rfl, hold⟩ := hothers
          subst ht
          exact .rotate i first hfunded (congrArg Prod.fst hserve) hold
        · rename_i hlast
          subst ht
          refine .retire isNew i first hfunded (congrArg Prod.fst hserve) ?_
          rw [not_and_or, Bool.not_eq_true, not_not] at hlast
          exact hlast
      | some skb =>
        subst ht
        exact .packet isNew i first hfunded skb (congrArg Prod.fst hserve)

variable (hd now q) in
theorem pass_passed : Passed hd now q (pass hd now q) := by
  rw [pass]
  split
  · rename_i i rest hnew
    exact turn_passed (.new i rest hnew)
  · rename_i hnew
    split
    · rename_i i rest hold
      exact turn_passed (.old i rest hnew hold)
    · rename_i hold
      exact .empty hnew hold

theorem Qdisc.First.mem {isNew : Bool} {i : Fin flowsCnt} (h : q.First isNew i) :
    i ∈ q.newFlows ++ q.oldFlows := by
  cases h with
  | new _ rest h => simp [h]
  | old _ rest hnew h => simp [h]

end Inversion

section Arithmetic

theorem Bounds.max_len_lt (bounds : Bounds) : bounds.maxLen < 2147483648 := by
  have := bounds.len_le
  omega

theorem add_to_int {a b : U32} {x : Int} (hb : b.toInt = x) (lo : -2147483648 ≤ a.toInt + x)
    (hi : a.toInt + x < 2147483648) : (a + b).toInt = a.toInt + x := by
  rw [BitVec.toInt_add, hb]
  exact Int.bmod_eq_of_le lo hi

theorem small_to_int {a : U32} (h : a.toNat < 2147483648) : a.toInt = a.toNat :=
  BitVec.toInt_eq_toNat_of_lt (by omega)

theorem neg_to_int {a : U32} (h : a.toNat < 2147483648) : (-a).toInt = -(a.toNat : Int) := by
  rw [BitVec.toInt_neg, small_to_int h]
  exact Int.bmod_eq_of_le (by omega) (by omega)

/-- A quantum more is one round less. -/
theorem rounds_add {quantum deficit : U32} (hpos : 0 < quantum.toNat)
    (hquantum : quantum.toNat < 2147483648) (hspent : deficit.toInt ≤ 0) :
    rounds quantum (deficit + quantum) + 1 = rounds quantum deficit := by
  have hlow := deficit.le_toInt
  have hsum := add_to_int (a := deficit) (small_to_int hquantum) (by omega) (by omega)
  have hrounds : rounds quantum deficit = (-deficit.toInt).toNat / quantum.toNat + 1 :=
    if_neg (by omega)
  rw [hrounds, rounds, hsum]
  split
  · rename_i hfunded
    rw [Nat.div_eq_of_lt (by omega)]
  · rename_i hspent
    have hback : (-deficit.toInt).toNat =
        (-(deficit.toInt + quantum.toNat)).toNat + quantum.toNat := by omega
    rw [hback, Nat.add_div_right _ hpos]

end Arithmetic

section Fields

variable (q : Qdisc H flowsCnt) (i : Fin flowsCnt)

theorem credit_deficit (amount : U32) (j : Fin flowsCnt) :
    ((credit i amount q).flows j).deficit =
      if j = i then (q.flows i).deficit + amount else (q.flows j).deficit := by
  simp only [credit, Function.update_apply]
  split <;> rfl

theorem credit_left (amount : U32) (j : Fin flowsCnt) :
    ((credit i amount q).flows j).left = (q.flows j).left := by
  simp only [credit, Function.update_apply]
  split
  · rename_i hj
    rw [hj]
  · rfl

theorem serve_deficit (j : Fin flowsCnt) :
    ((serve hd now i q).2.flows j).deficit = (q.flows j).deficit := by
  simp only [serve, Qdisc.store, Function.update_apply]
  split
  · rename_i hj
    rw [hj]
  · rfl

theorem report_flows : (report q).flows = q.flows := by
  rw [report]
  split <;> rfl

end Fields

namespace Qdisc.Listed

variable {q t : Qdisc H flowsCnt} {i : Fin flowsCnt}

/-- The queues are no longer than before, and the lists hold the same flows. -/
theorem perm (h : q.Listed) (lists : (t.newFlows ++ t.oldFlows).Perm (q.newFlows ++ q.oldFlows))
    (queues : ∀ j, (q.flows j).queue = [] → (t.flows j).queue = []) : t.Listed :=
  ⟨lists.nodup_iff.mpr h.nodup,
    fun j hj => lists.mem_iff.mpr (h.queued j fun hq => hj (queues j hq))⟩

theorem move_to_old (h : q.Listed) (hi : i ∈ q.newFlows ++ q.oldFlows) : (moveToOld i q).Listed :=
  h.perm (perm_move_last h.nodup hi) fun _ => id

theorem unlist (h : q.Listed) (empty : (q.flows i).queue = []) : (unlist i q).Listed := by
  refine ⟨nodup_erase_both h.nodup, fun j hj => mem_erase_both (h.queued j hj) ?_⟩
  rintro rfl
  exact hj empty

theorem credit (h : q.Listed) (amount : U32) : (credit i amount q).Listed :=
  h.perm (.refl _) (update_forall (P := fun j (f : Flow H) => (q.flows j).queue = [] → f.queue = [])
    id fun _ => id)

end Qdisc.Listed

/-- A packet is at hand, or was returned, or is still queued. -/
def Stage.Live (s : Stage H) : Prop := s.hand ≠ none ∨ s.out ≠ none ∨ 0 < s.codel.qlen

/-- Codel does not drop the last packet of the qdisc: nothing would be behind it. -/
theorem Step.live {params : Params} {packets : Nat} {others : U32} {s t : Stage H}
    (h : Step hd params now s t) (hothers : packets = 0 → others = 0)
    (hs : s.Accounts packets others) (hlive : s.Live) : t.Live := by
  cases h with
  | take => exact Or.inl (Option.some_ne_none _)
  | empty => exact hlive
  | drop skb queue c due =>
    refine Or.inr (Or.inr (Nat.pos_of_ne_zero fun hzero => ?_))
    obtain ⟨hqlen, -, hbacklog⟩ := hs
    obtain ⟨hpackets, hlen⟩ := Nat.add_eq_zero_iff.mp (hqlen.symm.trans hzero)
    have hqueue : queue = [] := List.length_eq_zero_iff.mp hlen
    subst hqueue
    have hbehind : params.mtu < others + queueBytes ([] : List (SkBuff H)) := hbacklog ▸ due.behind
    rw [hothers hpackets] at hbehind
    exact absurd hbehind (BitVec.not_lt_zero)
  | mark => exact Or.inl (Option.some_ne_none _)
  | ceMark => exact Or.inl (Option.some_ne_none _)
  | control => exact hlive
  | leave => exact Or.inr (Or.inl (Option.some_ne_none _))

/-- The packets queued, at hand, or returned. -/
def Stage.size (s : Stage H) : Nat :=
  s.codel.qlen + s.hand.toList.length + s.out.toList.length

theorem Step.size_le {params : Params} {packets : Nat} {others : U32} {s t : Stage H}
    (h : Step hd params now s t) (hs : s.Accounts packets others) : t.size ≤ s.size := by
  cases h with
  | take skb queue c =>
    obtain ⟨_, hlooked, _⟩ := should_drop_looked params now (taken skb c) skb
    have hqlen : c.qlen = packets + (queue.length + 1) := hs.qlen
    rw [hlooked]
    change c.qlen - 1 + 1 + 0 ≤ c.qlen + 0 + 0
    omega
  | empty => exact le_refl _
  | drop => exact Nat.add_le_add_right (Nat.add_le_add_left (Nat.zero_le _) _) _
  | mark => exact le_refl _
  | ceMark => exact le_refl _
  | control => exact le_refl _
  | leave => exact le_refl _

section Serve

variable {q : Qdisc H flowsCnt} {bounds : Bounds}

theorem serve_kept (h : ∀ j, (q.flows j).Kept hd bounds.Fits) (i : Fin flowsCnt)
    (j : Fin flowsCnt) : ((serve hd now i q).2.flows j).Kept hd bounds.Fits :=
  update_forall (P := fun _ f => Flow.Kept hd bounds.Fits f)
    ((h i).codel rfl rfl (codel_dequeue_steps hd q.cparams now (q.codel i) (q.flows i).queue) _) h j

theorem serve_fits (h : ∀ j, (q.flows j).Kept hd bounds.Fits) {i : Fin flowsCnt} {skb : SkBuff H}
    (hskb : (serve hd now i q).1 = some skb) : bounds.Fits skb.pktLen := by
  have hnone : ∀ skb ∈ (none : Option (SkBuff H)), bounds.Fits skb.pktLen :=
    fun _ h => absurd h (Option.not_mem_none _)
  have hfits := (codel_dequeue_steps hd q.cparams now (q.codel i) (q.flows i).queue).keep
    (P := Stage.Fits bounds.Fits) (fun _ _ => Step.fits) ⟨(h i).fits, hnone, hnone⟩
  exact hfits.out skb hskb

theorem serve_recorded {i : Fin flowsCnt} {skb : SkBuff H}
    (hskb : (serve hd now i q).1 = some skb) :
    ∃ sight, ((serve hd now i q).2.flows i).left.getLast? = some ⟨skb, .returned sight⟩ := by
  have hrecorded := (codel_dequeue_steps hd q.cparams now (q.codel i) (q.flows i).queue).keep
    (P := Stage.Recorded) (fun _ _ step _ => step.recorded)
    fun _ h => absurd h (Option.not_mem_none _)
  simp only [serve, Qdisc.store, Function.update_self]
  exact hrecorded skb hskb

theorem serve_queue {i : Fin flowsCnt} (hnone : (serve hd now i q).1 = none) :
    ((serve hd now i q).2.flows i).queue = [] := by
  simp only [serve, Qdisc.store, Function.update_self]
  exact codel_dequeue_exhausts hd q.cparams now (q.codel i) (q.flows i).queue hnone

theorem serve_listed (h : q.Listed) (i : Fin flowsCnt) : (serve hd now i q).2.Listed := by
  refine h.perm (.refl _)
    (update_forall (P := fun j (f : Flow H) => (q.flows j).queue = [] → f.queue = []) ?_
      fun _ => id)
  intro hempty
  simp only [hempty]
  rfl

/-- A flow that has all the packets has all the bytes. -/
theorem Qdisc.Accounts.alone (h : q.Accounts) {i : Fin flowsCnt}
    (hlen : q.qlen ≤ (q.flows i).queue.length) : q.backlog = queueBytes (q.flows i).queue := by
  have hsum : (q.flows i).queue.length + ∑ j ∈ Finset.univ.erase i, (q.flows j).queue.length =
      q.qlen := by
    rw [Finset.add_sum_erase _ (fun j => (q.flows j).queue.length) (Finset.mem_univ i), h.qlen]
  have hzero : ∑ j ∈ Finset.univ.erase i, (q.flows j).queue.length = 0 := by omega
  rw [h.backlog]
  apply Finset.sum_eq_single i
  · intro j _ hj
    have hlen := Finset.sum_eq_zero_iff.mp hzero j (Finset.mem_erase.mpr ⟨hj, Finset.mem_univ j⟩)
    rw [List.length_eq_zero_iff.mp hlen]
    rfl
  · exact fun hi => absurd (Finset.mem_univ i) hi

/-- A turn that returns no packet leaves one, if there was one. -/
theorem serve_qlen (h : q.Accounts) (hd : Headers H) (now : CodelTime) (i : Fin flowsCnt) :
    (serve hd now i q).2.qlen + (serve hd now i q).1.toList.length ≤ q.qlen ∧
      (0 < q.qlen → (serve hd now i q).1 = none → 0 < (serve hd now i q).2.qlen) := by
  have hlen := h.length_le i
  have hothers : q.qlen - (q.flows i).queue.length = 0 →
      q.backlog - queueBytes (q.flows i).queue = 0 := by
    intro hall
    rw [h.alone (Nat.le_of_sub_eq_zero hall), sub_self]
  have hkeep := (codel_dequeue_steps hd q.cparams now (q.codel i) (q.flows i).queue).keep
    (P := fun s => s.Accounts (q.qlen - (q.flows i).queue.length)
      (q.backlog - queueBytes (q.flows i).queue) ∧ s.size ≤ q.qlen ∧ (0 < q.qlen → s.Live))
    (fun _ _ step hs => ⟨step.accounts hs.1, le_trans (step.size_le hs.1) hs.2.1,
      fun hq => step.live hothers hs.1 (hs.2.2 hq)⟩)
    ⟨⟨(Nat.sub_add_cancel hlen).symm, h.backlogs i, (sub_add_cancel ..).symm⟩, le_refl _,
      fun hq => Or.inr (Or.inr hq)⟩
  obtain ⟨-, hsize, hlive⟩ := hkeep
  refine ⟨hsize, fun hq hnone => ?_⟩
  rcases hlive hq with hhand | hout | hqlen
  · exact absurd rfl hhand
  · exact absurd hnone hout
  · exact hqlen

end Serve

end ApTelemetry.FqCodel
