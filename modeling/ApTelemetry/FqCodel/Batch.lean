import ApTelemetry.FqCodel.Guarantees
import ApTelemetry.FqCodel.Parent
import Mathlib.Algebra.Order.BigOperators.Group.List

namespace ApTelemetry.FqCodel.Batch
open Lib

variable {H : Type} (hd : Headers H) {flowsCnt : Nat}

/-- `congested` is the number of packets answered with `NET_XMIT_CN` since the last reset. -/
structure Sched (H : Type) (flowsCnt : Nat) where
  qdisc : Qdisc H flowsCnt
  dropBatchSize : U32
  congested : U32

/-- What the loop of `fq_codel_drop` has taken from the queue. -/
structure Taken (H : Type) where
  count : U32
  len : U32
  dropped : List (SkBuff H)
  rest : List (SkBuff H)

/-- `do { … } while (++i < max_packets && len < threshold)` -/
def take (maxPackets threshold : U32) (i len : U32) : List (SkBuff H) → Except Fault (Taken H)
  | [] => .error .null
  | skb :: rest =>
    let len := len + skb.pktLen
    let i := i + 1
    if i < maxPackets ∧ len < threshold then do
      let t ← take maxPackets threshold i len rest
      .ok { t with dropped := skb :: t.dropped }
    else .ok ⟨i, len, [skb], rest⟩

section Drop

variable [NeZero flowsCnt]

/-- The packets taken are freed. -/
def dropTaken (idx : Fin flowsCnt) (t : Taken H) (q : Qdisc H flowsCnt) : Qdisc H flowsCnt :=
  { q with
    flows := Function.update q.flows idx { q.flows idx with
      queue := t.rest
      dropped := (q.flows idx).dropped + t.count
      left := (q.flows idx).left ++ t.dropped.map fun skb => ⟨skb, .overlimit⟩ }
    backlogs := Function.update q.backlogs idx (q.backlogs idx - t.len)
    drops := q.drops + t.count
    backlog := q.backlog - t.len
    qlen := q.qlen - t.count.toNat }

def fqCodelDrop (maxPackets : U32) (q : Qdisc H flowsCnt) :
    Except Fault (Fin flowsCnt × Qdisc H flowsCnt) := do
  let (maxbacklog, idx) := fatFlow q
  let threshold := maxbacklog >>> 1
  let t ← take maxPackets threshold 0 0 (q.flows idx).queue
  .ok (idx, dropTaken idx t q)

def fqCodelQdiscDrop (q : Qdisc H flowsCnt) : Except Fault (U32 × Qdisc H flowsCnt) := do
  let (_, t) ← fqCodelDrop 1 q
  .ok (q.backlog - t.backlog, t)

/-- The packets dropped are counted, and the parent is told. -/
def tellDropped (gone : U32) (q : Qdisc H flowsCnt) : Qdisc H flowsCnt :=
  treeReduceBacklog gone { q with dropOverlimit := q.dropOverlimit + gone }

def fqCodelEnqueue (dropBatchSize : U32) (tc : Option (Int × U32)) (now : CodelTime)
    (skb : SkBuff H) (q : Qdisc H flowsCnt) : Except Fault (Xmit × Qdisc H flowsCnt) :=
  match fqCodelClassify hd q tc skb with
  | .refused .bypass => .ok (.refused .bypass, { q with drops := q.drops + 1 })
  | .refused .stolen => .ok (.refused .stolen, q)
  | .slot idx =>
    if h : (idx - 1).toNat < flowsCnt then do
      let i : Fin flowsCnt := ⟨(idx - 1).toNat, h⟩
      let q := wake false i (accept i { skb with enqueueTime := now } q)
      if q.qlen ≤ q.limit.toNat then .ok (.success, q)
      else
        let (fat, t) ← fqCodelDrop dropBatchSize q
        .ok (if fat = i then .cn else .success, tellDropped (BitVec.ofNat 32 (q.qlen - t.qlen)) t)
    else .error .outside

end Drop

inductive Action (H : Type) where
  | enqueue (tc : Option (Int × U32)) (now : CodelTime) (skb : SkBuff H)
  | dequeue (clock : Nat → CodelTime)
  | drop
  | reset
  | change (opt : Option Options) (dropBatchSize : Option U32) (clock : Nat → Nat → CodelTime)

def Action.isReset : Action H → Bool
  | .reset => true
  | _ => false

/-- As many as were asked for, but at most one. -/
def batchSize (n : U32) : U32 := if n < 1 then n else 1

def exec [NeZero flowsCnt] (s : Sched H flowsCnt) : Action H → Except Fault (Sched H flowsCnt)
  | .enqueue tc now skb => do
    let (ret, q) ← fqCodelEnqueue hd s.dropBatchSize tc now skb s.qdisc
    .ok { s with
      qdisc := if ret = .success then sentHere q else q
      congested := if ret = .cn then s.congested + 1 else s.congested }
  | .dequeue clock => do
    let (skb, q) ← fqCodelDequeue hd clock s.qdisc
    .ok { s with qdisc := if skb.isSome then gotBack q else q }
  | .drop => do
    let (len, q) ← fqCodelQdiscDrop s.qdisc
    .ok { s with qdisc := if len = 0 then q else gotBack q }
  | .reset => .ok { s with qdisc := { fqCodelReset s.qdisc with parent := 0 }, congested := 0 }
  | .change opt dropBatchSize clock => do
    let (answer, q) ← fqCodelChange hd opt clock s.qdisc
    .ok { s with
      qdisc := q
      dropBatchSize :=
        if answer = .done then (dropBatchSize.map batchSize).getD s.dropBatchSize
        else s.dropBatchSize }

def Allowed (bounds : Bounds) (s : Sched H flowsCnt) : Action H → Prop
  | .enqueue _ _ skb => bounds.Fits skb.pktLen
  | .dequeue _ => True
  | .drop => 0 < s.qdisc.qlen
  | .reset => True
  | .change opt _ _ => ∀ o ∈ opt, bounds.Admits o

instance (bounds : Bounds) (s : Sched H flowsCnt) (a : Action H) : Decidable (Allowed bounds s a) :=
  match a with
  | .enqueue _ _ skb => inferInstanceAs (Decidable (bounds.Fits skb.pktLen))
  | .dequeue _ => inferInstanceAs (Decidable True)
  | .drop => inferInstanceAs (Decidable (0 < s.qdisc.qlen))
  | .reset => inferInstanceAs (Decidable True)
  | .change opt _ _ => inferInstanceAs (Decidable (∀ o ∈ opt, bounds.Admits o))

/-- The default limit is smaller here. -/
def initial (setup : Setup flowsCnt) : Sched H flowsCnt where
  qdisc := fqCodelInit 1024 setup.handle setup.mtu setup.opt flowsCnt
  dropBatchSize := 64
  congested := 0

def machine [NeZero flowsCnt] (setup : Setup flowsCnt) :
    Machine (Sched H flowsCnt) (Action H) Fault where
  start := initial setup
  enabled := Allowed setup.toBounds
  exec := exec hd

instance [NeZero flowsCnt] (setup : Setup flowsCnt) (s : Sched H flowsCnt) (a : Action H) :
    Decidable ((machine hd setup).enabled s a) :=
  inferInstanceAs (Decidable (Allowed setup.toBounds s a))

section Loop

variable (maxPackets : U32) {threshold : U32} {queue : List (SkBuff H)}

/-- The packets taken are the first ones. With the last of them, and not before, they are as
many as were to be dropped, or have as many bytes. -/
structure Taken.Spec (maxPackets threshold i len : U32) (queue : List (SkBuff H))
    (t : Taken H) : Prop where
  queue : queue = t.dropped ++ t.rest
  some : t.dropped ≠ []
  count : t.count = i + BitVec.ofNat 32 t.dropped.length
  bytes : t.len = len + queueBytes t.dropped
  enough : maxPackets ≤ t.count ∨ threshold ≤ t.len
  needed : t.dropped.dropLast ≠ [] →
    i + BitVec.ofNat 32 t.dropped.dropLast.length < maxPackets ∧
      len + queueBytes t.dropped.dropLast < threshold

/-- The loop does not run past the queue, as long as the threshold is not above its bytes. -/
theorem take_runs (i len : U32) (hpos : ∀ skb ∈ queue, 0 < skb.pktLen.toNat)
    (hload : threshold.toNat ≤ len.toNat + loadOf queue)
    (hfits : len.toNat + loadOf queue < 4294967296) (hne : queue ≠ []) :
    ∃ t, take maxPackets threshold i len queue = .ok t ∧
      t.Spec maxPackets threshold i len queue := by
  induction queue generalizing i len with
  | nil => exact absurd rfl hne
  | cons skb rest ih =>
    obtain ⟨hskb, hrest⟩ := List.forall_mem_cons.mp hpos
    have hsum : loadOf (skb :: rest) = skb.pktLen.toNat + loadOf rest := List.sum_cons
    rw [hsum] at hload hfits
    have hlen : (len + skb.pktLen).toNat = len.toNat + skb.pktLen.toNat := by
      rw [BitVec.toNat_add]
      exact Nat.mod_eq_of_lt (by omega)
    rw [take]
    split
    · rename_i hgo
      have hless := BitVec.lt_def.mp hgo.2
      rw [hlen] at hless
      have hmore : rest ≠ [] := by
        rintro rfl
        change _ ≤ len.toNat + (skb.pktLen.toNat + 0) at hload
        omega
      obtain ⟨t, hrun, hqueue, hsome, hcount, hbytes, henough, hneeded⟩ :=
        ih (i + 1) (len + skb.pktLen) hrest (by omega) (by omega) hmore
      refine ⟨{ t with dropped := skb :: t.dropped }, by rw [hrun]; rfl, ?_, ?_, ?_, ?_, henough,
        ?_⟩
      · rw [List.cons_append, ← hqueue]
      · exact List.cons_ne_nil _ _
      · rw [hcount, List.length_cons, of_nat_succ]
        abel
      · rw [hbytes, queue_bytes_cons]
        abel
      · intro _
        change i + BitVec.ofNat 32 (skb :: t.dropped).dropLast.length < maxPackets ∧
          len + queueBytes (skb :: t.dropped).dropLast < threshold
        rw [List.dropLast_cons_of_ne_nil hsome, List.length_cons, of_nat_succ, queue_bytes_cons,
          ← add_assoc len, add_comm (BitVec.ofNat 32 _) 1, ← add_assoc i]
        cases hlast : t.dropped.dropLast with
        | nil =>
          change i + 1 + 0 < maxPackets ∧ len + skb.pktLen + 0 < threshold
          rwa [add_zero, add_zero]
        | cons =>
          rw [← hlast]
          exact hneeded (by simp [hlast])
    · rename_i hstop
      refine ⟨_, rfl, rfl, List.cons_ne_nil _ _, rfl, ?_, ?_, fun hlast => absurd rfl hlast⟩
      · simp [queueBytes]
      · rcases not_and_or.mp hstop with hcount | hbytes
        · exact Or.inl (BitVec.not_lt.mp hcount)
        · exact Or.inr (BitVec.not_lt.mp hbytes)

end Loop

section Drop

variable {hd} {bounds : Bounds} {q t : Qdisc H flowsCnt}

theorem drop_taken_inv {idx : Fin flowsCnt} {u : Taken H} (h : q.Inv hd bounds)
    (hqueue : (q.flows idx).queue = u.dropped ++ u.rest) (hbytes : u.len = queueBytes u.dropped)
    (hcount : u.count.toNat = u.dropped.length) : (dropTaken idx u q).Inv hd bounds := by
  have hlen := h.accounts.length_le idx
  have hall : queueBytes (u.dropped ++ u.rest) = queueBytes u.dropped + queueBytes u.rest := by
    simp [queueBytes]
  rw [hqueue, List.length_append] at hlen
  refine ⟨?_, ?_, ?_, ?_⟩
  · exact update_forall (P := fun _ f => Flow.Kept hd bounds.Fits f)
      ((h.kept idx).overlimit hqueue _) h.kept
  · apply h.accounts.update (i := idx) rfl
    · simp only [dropTaken, h.accounts.backlogs, hqueue, hall, hbytes, add_sub_cancel_left]
    · simp only [dropTaken, hqueue, hcount, List.length_append]
      omega
    · simp only [dropTaken, hqueue, hall, hbytes]
      abel
  · refine h.listed.perm (.refl _) (update_forall
      (P := fun j (f : Flow H) => (q.flows j).queue = [] → f.queue = []) ?_ fun _ => id)
    intro hempty
    rw [hqueue] at hempty
    exact (List.append_eq_nil_iff.mp hempty).2
  · have hdeficit : ∀ j, ((dropTaken idx u q).flows j).deficit = (q.flows j).deficit :=
      update_forall (P := fun j (f : Flow H) => f.deficit = (q.flows j).deficit) rfl fun _ => rfl
    exact h.funded.of_lists rfl (fun _ => id) fun j _ => Or.inl (hdeficit j)

theorem drop_taken_owed {idx : Fin flowsCnt} {u : Taken H} (h : q.Accounts)
    (hqueue : (q.flows idx).queue = u.dropped ++ u.rest)
    (hcount : u.count.toNat = u.dropped.length) :
    (dropTaken idx u q).owed + BitVec.ofNat 32 (q.qlen - (dropTaken idx u q).qlen) = q.owed := by
  have hlen := h.length_le idx
  rw [hqueue, List.length_append] at hlen
  have hqlen : q.qlen = (q.qlen - u.count.toNat) + u.count.toNat := by omega
  have hgone : q.qlen - (q.qlen - u.count.toNat) = u.count.toNat := by omega
  have hof : BitVec.ofNat 32 q.qlen =
      BitVec.ofNat 32 (q.qlen - u.count.toNat) + BitVec.ofNat 32 u.count.toNat := by
    rw [← BitVec.ofNat_add, ← hqlen]
  simp only [Qdisc.owed, dropTaken, hgone, hof]
  abel

variable [NeZero flowsCnt]

/-- The scan returns the largest backlog itself. -/
theorem fat_flow_backlog (q : Qdisc H flowsCnt) :
    (fatFlow q).1 = q.backlogs (fatFlow q).2 := by
  obtain ⟨hfound, -, hall⟩ := foldl_largest q.backlogs (0, 0) (List.finRange flowsCnt)
  rcases hfound with hnone | ⟨-, hkey⟩
  · have hzero := hall 0 (List.mem_finRange 0)
    rw [hnone] at hzero
    rw [fatFlow, hnone]
    exact (BitVec.le_antisymm hzero (BitVec.le_def.mpr (Nat.zero_le _))).symm
  · exact hkey.symm

/-- What a batch does: the fat flow loses the packets taken. -/
theorem drop_runs (h : q.Inv hd bounds) (hpos : 0 < q.qlen)
    (hall : q.qlen * bounds.maxLen < 4294967296) (maxPackets : U32) :
    ∃ u : Taken H, fqCodelDrop maxPackets q = .ok ((fatFlow q).2, dropTaken (fatFlow q).2 u q) ∧
      u.Spec maxPackets (queueBytes (q.flows (fatFlow q).2).queue >>> 1) 0 0
        (q.flows (fatFlow q).2).queue ∧ u.count.toNat = u.dropped.length := by
  have hfits := (h.kept (fatFlow q).2).fits
  have hne := fat_flow_queue h hpos hall
  have hlen : (q.flows (fatFlow q).2).queue.length * bounds.maxLen < 4294967296 :=
    Nat.lt_of_le_of_lt (Nat.mul_le_mul_right _ (h.accounts.length_le _)) hall
  obtain ⟨hload, hle⟩ := queue_bytes_to_nat (fun skb hskb => (hfits skb hskb).2) hlen
  have hbacklog : (fatFlow q).1 = queueBytes (q.flows (fatFlow q).2).queue := by
    rw [fat_flow_backlog, h.accounts.backlogs]
  have hhalf : (queueBytes (q.flows (fatFlow q).2).queue >>> 1).toNat ≤
      loadOf (q.flows (fatFlow q).2).queue := by
    rw [BitVec.toNat_ushiftRight, Nat.shiftRight_eq_div_pow, hload]
    exact Nat.div_le_self ..
  have hwraps : (0 : U32).toNat + loadOf (q.flows (fatFlow q).2).queue < 4294967296 := by
    change 0 + _ < _
    rw [Nat.zero_add, loadOf, ← hload]
    omega
  obtain ⟨u, hrun, hspec⟩ := take_runs maxPackets 0 0 (fun skb hskb => (hfits skb hskb).1)
    (by change _ ≤ 0 + _; rwa [Nat.zero_add]) hwraps hne
  refine ⟨u, ?_, hspec, ?_⟩
  · simp only [fqCodelDrop, hbacklog]
    rw [hrun]
    rfl
  · have hlength : (q.flows (fatFlow q).2).queue.length ≤ loadOf (q.flows (fatFlow q).2).queue := by
      have hone := List.length_le_sum_of_one_le
        ((q.flows (fatFlow q).2).queue.map fun skb => skb.pktLen.toNat)
        (List.forall_mem_map.mpr fun skb hskb => (hfits skb hskb).1)
      rwa [List.length_map] at hone
    have hdropped : u.dropped.length ≤ (q.flows (fatFlow q).2).queue.length := by
      rw [hspec.queue, List.length_append]
      exact Nat.le_add_right ..
    have hcount := hspec.count
    rw [zero_add] at hcount
    rw [hcount, BitVec.toNat_ofNat]
    apply Nat.mod_eq_of_lt
    change 0 + _ < _ at hwraps
    omega

/-- A batch of one is one packet. -/
theorem batch_of_one {threshold : U32} {queue : List (SkBuff H)} {u : Taken H}
    (h : u.Spec 1 threshold 0 0 queue) (hcount : u.count.toNat = u.dropped.length) :
    u.dropped.length = 1 := by
  have hsome := List.length_pos_of_ne_nil h.some
  have hlast := u.dropped.length_dropLast
  cases hdrop : u.dropped.dropLast with
  | nil =>
    rw [hdrop, List.length_nil] at hlast
    omega
  | cons skb rest =>
    have hless := BitVec.lt_def.mp (h.needed (hdrop ▸ List.cons_ne_nil skb rest)).1
    have hbound := u.count.isLt
    rw [zero_add, BitVec.toNat_ofNat, Nat.mod_eq_of_lt (by omega)] at hless
    change _ < 1 at hless
    omega

/-- The qdisc after a batch. -/
theorem drop_sane (h : q.Inv hd bounds) (hpos : 0 < q.qlen)
    (hall : q.qlen * bounds.maxLen < 4294967296) (maxPackets : U32) :
    ∃ idx t, fqCodelDrop maxPackets q = .ok (idx, t) ∧ t.Inv hd bounds ∧ t.qlen < q.qlen ∧
      t.limit = q.limit ∧ t.owed + BitVec.ofNat 32 (q.qlen - t.qlen) = q.owed := by
  obtain ⟨u, hrun, hspec, hcount⟩ := drop_runs h hpos hall maxPackets
  have hbytes : u.len = queueBytes u.dropped := hspec.bytes.trans (zero_add _)
  refine ⟨_, _, hrun, drop_taken_inv h hspec.queue hbytes hcount, ?_, rfl,
    drop_taken_owed h.accounts hspec.queue hcount⟩
  have hsome := List.length_pos_of_ne_nil hspec.some
  change q.qlen - u.count.toNat < q.qlen
  omega

theorem enqueue_sane (hcnt : flowsCnt ≤ 65536) (h : q.Sane hd bounds) (dropBatchSize : U32)
    (tc : Option (Int × U32)) (now : CodelTime) {skb : SkBuff H} (fits : bounds.Fits skb.pktLen) :
    ∃ ret t, fqCodelEnqueue hd dropBatchSize tc now skb q = .ok (ret, t) ∧ t.Sane hd bounds ∧
      t.owed = match ret with
        | .refused _ => q.owed
        | _ => q.owed + 1 := by
  simp only [fqCodelEnqueue]
  split
  · exact ⟨_, _, rfl, ⟨h.inv.same rfl rfl rfl rfl rfl rfl rfl, h.qlen_le, h.capacity⟩, rfl⟩
  · exact ⟨_, _, rfl, h, rfl⟩
  · rename_i idx hclass
    rw [dif_pos (classify_slot hcnt hclass)]
    generalize (⟨(idx - 1).toNat, classify_slot hcnt hclass⟩ : Fin flowsCnt) = i
    have hinv := h.inv.accept false i { skb with enqueueTime := now } fits
    obtain ⟨hqlen, hlimit⟩ := wake_qlen false i (accept i { skb with enqueueTime := now } q)
    have howed := wake_owed false i { skb with enqueueTime := now } q
    change _ = q.qlen + 1 at hqlen
    change _ = q.limit at hlimit
    generalize wake false i (accept i { skb with enqueueTime := now } q) = u
      at hinv hqlen hlimit howed ⊢
    have hold := h.qlen_le
    have hcapacity : (u.limit.toNat + 1) * bounds.maxLen < 4294967296 := hlimit ▸ h.capacity
    split
    · rename_i hle
      exact ⟨_, _, rfl, ⟨hinv, hle, hcapacity⟩, howed⟩
    · rename_i hfull
      have hall : u.qlen * bounds.maxLen < 4294967296 :=
        Nat.lt_of_le_of_lt (Nat.mul_le_mul_right _ (by rw [hlimit]; omega)) hcapacity
      obtain ⟨idx, t, hdrop, hdropped, hless, hsame, hgone⟩ :=
        drop_sane hinv (by omega) hall dropBatchSize
      refine ⟨if idx = i then .cn else .success,
        tellDropped (BitVec.ofNat 32 (u.qlen - t.qlen)) t, by rw [hdrop]; rfl,
        ⟨hdropped.same rfl rfl rfl rfl rfl rfl rfl, ?_, ?_⟩, ?_⟩
      · change t.qlen ≤ t.limit.toNat
        rw [hsame, hlimit]
        omega
      · change (t.limit.toNat + 1) * _ < _
        rw [hsame]
        exact hcapacity
      · have htold : (tellDropped (BitVec.ofNat 32 (u.qlen - t.qlen)) t).owed = q.owed + 1 := by
          rw [← howed, ← hgone]
          simp only [Qdisc.owed, tellDropped, treeReduceBacklog]
          abel
        split
        · rename_i hret
          split at hret <;> cases hret
        · exact htold

end Drop

section Runs

variable {hd} {setup : Setup flowsCnt} [NeZero flowsCnt] {s t : Sched H flowsCnt}

/-- What a call does to the packets owed. A packet answered with `NET_XMIT_CN` is told to the
parent as dropped, which has never counted it. -/
theorem exec_runs (h : s.qdisc.Sane hd setup.toBounds) {a : Action H}
    (allowed : Allowed setup.toBounds s a) : ∃ t, exec hd s a = .ok t ∧
      t.qdisc.Sane hd setup.toBounds ∧ t.qdisc.owed - t.congested =
        if a.isReset then s.qdisc.cstats.dropCount else s.qdisc.owed - s.congested := by
  cases a with
  | enqueue tc now skb =>
    obtain ⟨ret, q, hrun, hsane, howed⟩ :=
      enqueue_sane setup.flows_le h s.dropBatchSize tc now allowed
    refine ⟨{ s with
      qdisc := if ret = .success then sentHere q else q
      congested := if ret = .cn then s.congested + 1 else s.congested },
      by simp only [exec, hrun]; rfl, ?_, ?_⟩
    · change (if ret = .success then sentHere q else q).Sane hd setup.toBounds
      split
      · exact hsane.same _
      · exact hsane
    · cases ret with
      | success =>
        change (sentHere q).owed - s.congested = s.qdisc.owed - s.congested
        rw [sent_here_owed, howed, add_sub_cancel_right]
      | cn =>
        change q.owed - (s.congested + 1) = s.qdisc.owed - s.congested
        rw [howed, add_sub_add_right_eq_sub]
      | refused why =>
        change q.owed - s.congested = s.qdisc.owed - s.congested
        rw [howed]
  | dequeue clock =>
    obtain ⟨q, hrun, hsane⟩ := (sane_inductive hd setup).step s.qdisc (.dequeue clock) h trivial
    have howed := exec_owed h (a := .dequeue clock) trivial hrun
    obtain ⟨⟨skb, u⟩, hdequeue, hq⟩ := bind_ok hrun
    cases hq
    exact ⟨{ s with qdisc := if skb.isSome then gotBack u else u },
      by simp only [exec, hdequeue]; rfl, hsane, congrArg (· - s.congested) howed⟩
  | drop =>
    have hall : s.qdisc.qlen * setup.maxLen < 4294967296 := by
      refine Nat.lt_of_le_of_lt (Nat.mul_le_mul_right _ ?_) h.capacity
      exact Nat.le_succ_of_le h.qlen_le
    obtain ⟨u, hrun, hspec, hcount⟩ := drop_runs h.inv allowed hall 1
    have hone := batch_of_one hspec hcount
    have hbytes : u.len = queueBytes u.dropped := hspec.bytes.trans (zero_add _)
    have hfits := (h.inv.kept (fatFlow s.qdisc).2).fits
    rw [hspec.queue] at hfits
    have hlen : u.len ≠ 0 := by
      have hpos := queue_bytes_pos (fun skb hskb => hfits skb (List.mem_append_left _ hskb))
        (by rw [hone]; exact Nat.lt_of_le_of_lt (Nat.mul_le_mul_right _ allowed) hall) hspec.some
      rw [hbytes]
      intro hzero
      rw [hzero] at hpos
      exact absurd hpos (Nat.lt_irrefl 0)
    have howed := drop_taken_owed h.inv.accounts hspec.queue hcount
    have hgone : s.qdisc.qlen - (dropTaken (fatFlow s.qdisc).2 u s.qdisc).qlen = 1 := by
      change s.qdisc.qlen - (s.qdisc.qlen - u.count.toNat) = 1
      change 0 < s.qdisc.qlen at allowed
      omega
    rw [hgone] at howed
    refine ⟨{ s with qdisc := gotBack (dropTaken (fatFlow s.qdisc).2 u s.qdisc) }, ?_, ?_, ?_⟩
    · have hback : s.qdisc.backlog - (dropTaken (fatFlow s.qdisc).2 u s.qdisc).backlog = u.len :=
        sub_sub_cancel ..
      have hcall : fqCodelQdiscDrop s.qdisc =
          .ok (u.len, dropTaken (fatFlow s.qdisc).2 u s.qdisc) := by
        rw [fqCodelQdiscDrop, hrun, ← hback]
        rfl
      simp only [exec, hcall, bind, Except.bind, if_neg hlen]
    · refine ⟨(drop_taken_inv h.inv hspec.queue hbytes hcount).same rfl rfl rfl rfl rfl rfl rfl, ?_,
        h.capacity⟩
      exact Nat.le_trans (Nat.sub_le ..) h.qlen_le
    · change (gotBack _).owed - _ = _
      rw [got_back_owed]
      exact congrArg (· - s.congested) howed
  | reset =>
    refine ⟨_, rfl, ⟨h.inv.reset.same rfl rfl rfl rfl rfl rfl rfl, Nat.zero_le _, h.capacity⟩,
      ?_⟩
    simp [Qdisc.owed, fqCodelReset, Action.isReset]
  | change opt dropBatchSize clock =>
    obtain ⟨q, hrun, hsane⟩ := (sane_inductive hd setup).step s.qdisc (.change opt clock) h allowed
    have howed := exec_owed h (a := .change opt clock) allowed hrun
    obtain ⟨⟨answer, u⟩, hchange, hq⟩ := bind_ok hrun
    cases hq
    exact ⟨{ s with
      qdisc := q
      dropBatchSize :=
        if answer = .done then (dropBatchSize.map batchSize).getD s.dropBatchSize
        else s.dropBatchSize },
      by simp only [exec, hchange]; rfl, hsane, congrArg (· - s.congested) howed⟩

variable (hd setup) in
theorem sane_inductive :
    (machine hd setup).Inductive fun s => s.qdisc.Sane hd setup.toBounds where
  start := init_sane setup (by decide)
  step _ _ hs allowed := by
    obtain ⟨t, hrun, hsane, -⟩ := exec_runs hs allowed
    exact ⟨t, hrun, hsane⟩

/-- A batch is taken from the front of a flow with the most bytes. It is as large as was asked
for, or has half of the bytes of the flow, and it would not without its last packet. All
counters are again what is queued. -/
theorem batch_drop_exact (hr : (machine hd setup).Reachable s) (hpos : 0 < s.qdisc.qlen)
    (maxPackets : U32) :
    ∃ (idx : Fin flowsCnt) (q : Qdisc H flowsCnt) (dropped : List (SkBuff H)),
      fqCodelDrop maxPackets s.qdisc = .ok (idx, q) ∧ dropped ≠ [] ∧
      (s.qdisc.flows idx).queue = dropped ++ (q.flows idx).queue ∧
      (∀ j, loadOf (s.qdisc.flows j).queue ≤ loadOf (s.qdisc.flows idx).queue) ∧
      (∀ j ≠ idx, q.flows j = s.qdisc.flows j) ∧
      q.qlen + dropped.length = s.qdisc.qlen ∧
      q.backlog.toNat + loadOf dropped = s.qdisc.backlog.toNat ∧
      q.qlen = ∑ j, (q.flows j).queue.length ∧
      (∀ j, (q.backlogs j).toNat = loadOf (q.flows j).queue) ∧
      q.backlog.toNat = ∑ j, loadOf (q.flows j).queue ∧
      (maxPackets.toNat ≤ dropped.length ∨
        loadOf (s.qdisc.flows idx).queue / 2 ≤ loadOf dropped) ∧
      (1 < dropped.length → dropped.length - 1 < maxPackets.toNat ∧
        loadOf dropped.dropLast < loadOf (s.qdisc.flows idx).queue / 2) := by
  have hsane := (sane_inductive hd setup).reachable hr
  have hinv := hsane.inv
  have hall : s.qdisc.qlen * setup.maxLen < 4294967296 := by
    refine Nat.lt_of_le_of_lt (Nat.mul_le_mul_right _ ?_) hsane.capacity
    exact Nat.le_succ_of_le hsane.qlen_le
  obtain ⟨hloads, hbacklog⟩ := hsane.loads
  obtain ⟨u, hrun, hspec, hcount⟩ := drop_runs hinv hpos hall maxPackets
  have hbytes : u.len = queueBytes u.dropped := hspec.bytes.trans (zero_add _)
  have hleft : (dropTaken (fatFlow s.qdisc).2 u s.qdisc).Sane hd setup.toBounds := by
    refine ⟨drop_taken_inv hinv hspec.queue hbytes hcount, ?_, hsane.capacity⟩
    exact Nat.le_trans (Nat.sub_le ..) hsane.qlen_le
  obtain ⟨hflows, hrest⟩ := hleft.loads
  have hbacklogs : ∀ j, ((dropTaken (fatFlow s.qdisc).2 u s.qdisc).backlogs j).toNat =
      loadOf ((dropTaken (fatFlow s.qdisc).2 u s.qdisc).flows j).queue := by
    intro j
    rw [hleft.inv.accounts.backlogs, hflows]
  have hlength := hleft.inv.accounts.qlen
  clear hflows hleft
  have hlargest : ∀ j, loadOf (s.qdisc.flows j).queue ≤
      loadOf (s.qdisc.flows (fatFlow s.qdisc).2).queue := by
    intro j
    have hj := BitVec.le_def.mp (fat_flow_largest s.qdisc j)
    rwa [hinv.accounts.backlogs, hinv.accounts.backlogs, hloads, hloads] at hj
  have hqlen := hinv.accounts.length_le (fatFlow s.qdisc).2
  generalize (fatFlow s.qdisc).2 = idx at hrun hspec hrest hbacklogs hlength hlargest hqlen
  have hqueue : ((dropTaken idx u s.qdisc).flows idx).queue = u.rest := by
    simp only [dropTaken, Function.update_self]
  have hflows : (dropTaken idx u s.qdisc).flows =
      Function.update s.qdisc.flows idx ((dropTaken idx u s.qdisc).flows idx) := by
    simp only [dropTaken, Function.update_self]
  have hsum := sum_update s.qdisc.flows idx ((dropTaken idx u s.qdisc).flows idx)
    fun f => loadOf f.queue
  have hload : loadOf (s.qdisc.flows idx).queue = loadOf u.dropped + loadOf u.rest := by
    rw [hspec.queue]
    simp [loadOf]
  have hpart : ∀ part, part <+: u.dropped → (queueBytes part).toNat = loadOf part := by
    intro part hdropped
    have hqueued : part <+: (s.qdisc.flows idx).queue :=
      hdropped.trans ⟨u.rest, hspec.queue.symm⟩
    refine (queue_bytes_to_nat
      (fun skb hskb => ((hinv.kept idx).fits skb (hqueued.subset hskb)).2) ?_).1
    exact Nat.lt_of_le_of_lt (Nat.mul_le_mul_right _ (hqueued.length_le.trans hqlen)) hall
  have hlen : u.len.toNat = loadOf u.dropped := by
    rw [hbytes, hpart u.dropped (List.prefix_refl _)]
  have hhalf : (queueBytes (s.qdisc.flows idx).queue >>> 1).toNat =
      loadOf (s.qdisc.flows idx).queue / 2 := by
    rw [BitVec.toNat_ushiftRight, hloads, Nat.shiftRight_eq_div_pow]
  refine ⟨idx, _, u.dropped, hrun, hspec.some, ?_, hlargest, ?_, ?_, ?_, hlength, hbacklogs, hrest,
    ?_, ?_⟩
  · rw [hqueue, hspec.queue]
  · exact fun j hj => Function.update_of_ne hj ..
  · change s.qdisc.qlen - u.count.toNat + u.dropped.length = s.qdisc.qlen
    rw [hspec.queue, List.length_append] at hqlen
    omega
  · rw [hrest, hbacklog]
    rw [← hflows, hqueue] at hsum
    omega
  · rw [← hcount, ← hlen, ← hhalf]
    exact hspec.enough
  · intro hmore
    have hlast := u.dropped.length_dropLast
    obtain ⟨hless, hbelow⟩ := hspec.needed (List.ne_nil_of_length_pos (by omega))
    have hcounted := u.count.isLt
    rw [zero_add, hlast, BitVec.lt_def, BitVec.toNat_ofNat, Nat.mod_eq_of_lt (by omega)] at hless
    rw [zero_add, BitVec.lt_def, hhalf, hpart _ (List.dropLast_prefix _)] at hbelow
    exact ⟨hless, hbelow⟩

/-- The same with room for `limit` packets. -/
def limited (setup : Setup flowsCnt) (limit : U32)
    (h : (limit.toNat + 1) * setup.maxLen < 4294967296) : Setup flowsCnt :=
  { setup with
    opt := { setup.opt with limit := some limit }
    admits := ⟨fun n hn => by cases hn; exact h, setup.admits.quantum⟩ }

/-- A limit of one packet. -/
def narrow : Setup 2 := limited ethernet 1 (by decide)

/-- The second packet is one too many. -/
def burst : List (Action Nat) :=
  [.enqueue none 0 ⟨2, 1500, 0, false⟩, .enqueue none 1 ⟨4, 1500, 0, false⟩]

theorem burst_reachable : ∃ s, (machine plain narrow).Reachable s ∧
    (s.qdisc.qlen, s.congested) = (1, 1) := by
  have hfollow : ((machine plain narrow).follow (machine plain narrow).start burst).map
      (fun s => (s.qdisc.qlen, s.congested)) = some (1, 1) := by decide
  exact Machine.follow_map_reachable hfollow

theorem batch_drop_exact_burst : ∃ s : Sched Nat 2, s.qdisc.qlen = 1 ∧
    ∃ idx q dropped, fqCodelDrop 64 s.qdisc = .ok (idx, q) ∧ dropped ≠ [] ∧
      (s.qdisc.flows idx).queue = dropped ++ (q.flows idx).queue := by
  obtain ⟨s, hr, hfacts⟩ := burst_reachable
  have hqlen : s.qdisc.qlen = 1 := congrArg Prod.fst hfacts
  obtain ⟨idx, q, dropped, hdrop, hsome, hqueue, -⟩ := batch_drop_exact hr (by omega) 64
  exact ⟨s, hqlen, idx, q, dropped, hdrop, hsome, hqueue⟩

/-- The parent has counted fewer packets than there are, by one for each answer `NET_XMIT_CN`
since the last reset, after each call of a run, exactly if every reset comes when no report is
due. -/
theorem parent_short_by_congested (hd : Headers H) (setup : Setup flowsCnt)
    (actions : List (Action H)) :
    (machine hd setup).Throughout (fun _ _ r => ∀ t, r = .ok t →
      t.qdisc.parent + t.congested = BitVec.ofNat 32 t.qdisc.qlen + t.qdisc.cstats.dropCount)
      (machine hd setup).start actions ↔
    (machine hd setup).Throughout (fun s a _ => a.isReset = true → s.qdisc.cstats.dropCount = 0)
      (machine hd setup).start actions := by
  have hexact : ∀ s : Sched H flowsCnt, s.qdisc.owed - s.congested = 0 ↔
      s.qdisc.parent + s.congested = BitVec.ofNat 32 s.qdisc.qlen + s.qdisc.cstats.dropCount := by
    intro s
    rw [Qdisc.owed, sub_sub, sub_eq_zero, eq_comm]
  refine Machine.throughout_iff
    (fun s => s.qdisc.Sane hd setup.toBounds ∧ s.qdisc.owed - s.congested = 0) ?_ ?_
    ⟨init_sane setup (by decide), sub_self (0 - 0 : U32)⟩ actions
  · intro s a hs allowed
    obtain ⟨t, hrun, -, howed⟩ := exec_runs hs.1 allowed
    change (∀ u, exec hd s a = .ok u → _) ↔ _
    rw [hrun]
    constructor
    · intro h hreset
      rw [if_pos hreset, (hexact t).mpr (h t rfl)] at howed
      exact howed.symm
    · intro hguard u hu
      cases hu
      apply (hexact t).mp
      rw [howed]
      split
      · exact hguard (by assumption)
      · exact hs.2
  · intro s a t hs allowed hguard hrun
    obtain ⟨u, hu, hsane, howed⟩ := exec_runs hs.1 allowed
    cases hu.symm.trans hrun
    refine ⟨hsane, ?_⟩
    rw [howed]
    split
    · exact hguard (by assumption)
    · exact hs.2

theorem parent_short_by_congested_burst :
    (machine plain narrow).Throughout (fun _ _ r => ∀ t, r = .ok t →
      t.qdisc.parent + t.congested = BitVec.ofNat 32 t.qdisc.qlen + t.qdisc.cstats.dropCount)
      (machine plain narrow).start burst := by
  apply (parent_short_by_congested plain narrow burst).mpr
  simp [burst, Machine.Throughout, Action.isReset]

end Runs

end ApTelemetry.FqCodel.Batch
