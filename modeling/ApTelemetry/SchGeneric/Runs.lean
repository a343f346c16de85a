import ApTelemetry.SchGeneric.Transmit

namespace ApTelemetry.SchGeneric
open Lib

variable {H : Type} {dev : Device H} {s t : Sched H}

/-- The packets dequeued so far, made valid. -/
def Qdisc.validated (dev : Device H) (q : Qdisc H) : List (SkBuff H) :=
  (q.left.filter Leaving.taken).flatMap fun l => dev.validate l.skb

theorem Drained.validated {q t : Qdisc H} {taken : List (SkBuff H)} (h : Drained q taken t) :
    t.validated dev = q.validated dev ++ taken.flatMap dev.validate := by
  have hfilter : (taken.map fun skb => (⟨skb, true⟩ : Leaving H)).filter Leaving.taken =
      taken.map fun skb => ⟨skb, true⟩ :=
    List.filter_eq_self.mpr (List.forall_mem_map.mpr fun _ _ => rfl)
  rw [Qdisc.validated, h.left, List.filter_append, hfilter, List.flatMap_append, List.flatMap_map]
  rfl

/-- The counters are right, the queue has not grown over its length, and what was dequeued is
gone, in flight, or requeued, in this order. The list of `gso_skb` counts as one packet. -/
structure Conserved (dev : Device H) (inFlight : List (SkBuff H)) (s : Sched H) : Prop where
  exact : s.qdisc.Exact
  qlen : s.qdisc.qlen.toNat = s.qdisc.queued + if s.qdisc.gsoSkb.isEmpty then 0 else 1
  room : s.qdisc.queued ≤ dev.txQueueLen
  order : s.gone.map Gone.skb ++ (inFlight ++ s.qdisc.gsoSkb) = s.qdisc.validated dev

/-- The loop has made at most `weight_p` turns, or one if this is not positive. -/
def Phase.Within (weight : Int) (restarts : Nat) : Phase H → Prop
  | idle => restarts ≤ max 1 weight
  | ready quota => quota + restarts ≤ weight ∧ (0 < quota ∨ restarts = 0)
  | sending quota packets _ =>
    quota + restarts ≤ weight + 1 ∧ (0 < quota ∨ restarts = 1) ∧ 0 < packets

theorem Phase.Within.le {phase : Phase H} {weight : Int} {restarts : Nat}
    (h : phase.Within weight restarts) : restarts ≤ max 1 weight := by
  cases phase with
  | idle => exact h
  | ready quota =>
    obtain ⟨hle, hquota⟩ := h
    omega
  | sending quota packets skb =>
    obtain ⟨hle, hquota, -⟩ := h
    omega

/-- The entry of the queue in `queue_global` has its counters of bytes and packets. -/
structure Fresh (s : Sched H) : Prop where
  length : s.queueGlobal.length = 6
  item : s.reported = true → ∃ item, s.queueGlobal[place s.qdisc.parent]? = some item ∧
    item.queueId = s.qdisc.parent ∧ item.bytes = s.qdisc.bytes ∧ item.packets = s.qdisc.packets

structure Inv (dev : Device H) (s : Sched H) : Prop where
  conserved : Conserved dev s.phase.inFlight s
  single : ∀ quota packets skb, s.phase = .sending quota packets skb → s.qdisc.gsoSkb = []
  quota : s.phase.Within dev.weight s.restarts
  fresh : Fresh s

section Xmit

variable {skb rest : List (SkBuff H)}

theorem Conserved.lose (h : Conserved dev (skb ++ rest) s) (fate : Fate) :
    Conserved dev rest (s.lose skb fate) := by
  refine ⟨h.exact, h.qlen, h.room, ?_⟩
  have horder := h.order
  rw [List.append_assoc, ← List.append_assoc] at horder
  change (s.gone ++ skb.map _).map Gone.skb ++ _ = s.qdisc.validated dev
  rw [← horder, List.map_append, List.map_map]
  congr 2
  exact List.map_id skb

theorem Conserved.requeue (h : Conserved dev skb s) (hgso : s.qdisc.gsoSkb = [])
    (hsome : skb ≠ []) : Conserved dev [] (devRequeueSkb skb s) := by
  have hexact := h.exact
  have hqlen := h.qlen
  have hroom := h.room
  have hlt := dev.txQueueLen_lt
  rw [hgso] at hqlen
  refine ⟨⟨hexact.bitmap, hexact.backlog, hexact.bytes, hexact.home, hexact.order⟩, ?_, h.room, ?_⟩
  · change (s.qdisc.qlen + 1).toNat = s.qdisc.queued + if skb.isEmpty then 0 else 1
    rw [if_neg (by simpa using hsome), BitVec.toNat_add, hqlen]
    change (_ + 0 + 1) % 4294967296 = _
    omega
  · have horder := h.order
    rw [hgso, List.append_nil] at horder
    exact horder

/-- What `sch_direct_xmit` leaves alone. -/
structure Untouched (s t : Sched H) : Prop where
  phase : t.phase = s.phase
  queueGlobal : t.queueGlobal = s.queueGlobal
  restarts : t.restarts = s.restarts
  reported : t.reported = s.reported
  parent : t.qdisc.parent = s.qdisc.parent
  bytes : t.qdisc.bytes = s.qdisc.bytes
  packets : t.qdisc.packets = s.qdisc.packets

/-- Packets are left only where another round is due or the device queue cannot go on. -/
def Settled (frozen : Bool) (s t : Sched H) : Prop :=
  (t.qdisc.queued = 0 ∧ t.qdisc.gsoSkb = []) ∨ s.schedules < t.schedules ∨ frozen = true

theorem Conserved.settled (h : Conserved dev skb t) (frozen : Bool)
    (hqlen : (t.qdisc.qlen != 0) = false) : Settled frozen s t := by
  have hzero : t.qdisc.qlen = 0 := by simpa using hqlen
  have hcount := h.qlen
  rw [hzero] at hcount
  refine Or.inl ⟨?_, ?_⟩
  · change 0 = _ at hcount
    omega
  · change 0 = _ at hcount
    split at hcount
    · rename_i hempty
      exact List.isEmpty_iff.mp hempty
    · omega

variable (dev) in
/-- What `sch_direct_xmit` has done when it returns. -/
structure Returned (inFlight : List (SkBuff H)) (frozen : Bool) (s : Sched H)
    (r : Bool × Sched H) : Prop where
  conserved : Conserved dev inFlight r.2
  untouched : Untouched s r.2
  schedules : s.schedules ≤ r.2.schedules
  settled : r.1 = false → Settled frozen s r.2

theorem requeue_returned (h : Conserved dev skb s) (hgso : s.qdisc.gsoSkb = []) (hsome : skb ≠ [])
    (frozen : Bool) : Returned dev [] frozen s (false, devRequeueSkb skb s) :=
  ⟨h.requeue hgso hsome, ⟨rfl, rfl, rfl, rfl, rfl, rfl, rfl⟩, Nat.le_succ _,
    fun _ => Or.inr (Or.inl (Nat.lt_succ_self _))⟩

theorem collision_returned (h : Conserved dev skb s) (hgso : s.qdisc.gsoSkb = []) (hsome : skb ≠ [])
    (owner frozen : Bool) :
    Returned dev [] frozen s (handleDevCpuCollision owner skb s) := by
  rw [handleDevCpuCollision]
  split
  · have hlost : Conserved dev [] (s.lose skb .deadLoop) :=
      Conserved.lose ((List.append_nil skb).symm ▸ h) .deadLoop
    exact ⟨hlost, ⟨rfl, rfl, rfl, rfl, rfl, rfl, rfl⟩, Nat.le_refl _, hlost.settled frozen⟩
  · exact requeue_returned h hgso hsome frozen

theorem direct_xmit_returned (h : Conserved dev skb s) (hgso : s.qdisc.gsoSkb = []) (o : Outcome) :
    Returned dev [] o.frozenAfter s (directXmit o skb s) := by
  simp only [directXmit]
  split
  · rename_i hempty
    have hnil : Conserved dev [] s := List.isEmpty_iff.mp hempty ▸ h
    exact ⟨hnil, ⟨rfl, rfl, rfl, rfl, rfl, rfl, rfl⟩, Nat.le_refl _, hnil.settled o.frozenAfter⟩
  · generalize (if o.frozen = true then 0 else o.taken) = taken
    have hsent : Conserved dev (skb.drop taken) (s.lose (skb.take taken) .sent) :=
      Conserved.lose ((List.take_append_drop taken skb).symm ▸ h) .sent
    have hreturned : Returned dev [] o.frozenAfter (s.lose (skb.take taken) .sent)
        (if (skb.drop taken).isEmpty then
          (s.qdisc.qlen != 0, s.lose (skb.take taken) .sent)
        else if o.locked ∧ ¬ o.frozen then
          handleDevCpuCollision o.owner (skb.drop taken) (s.lose (skb.take taken) .sent)
        else (false, devRequeueSkb (skb.drop taken) (s.lose (skb.take taken) .sent))) := by
      split
      · rename_i hempty
        have hall : Conserved dev [] (s.lose (skb.take taken) .sent) :=
          List.isEmpty_iff.mp hempty ▸ hsent
        exact ⟨hall, ⟨rfl, rfl, rfl, rfl, rfl, rfl, rfl⟩, Nat.le_refl _,
          hall.settled o.frozenAfter⟩
      · rename_i hsome
        have hsome : skb.drop taken ≠ [] := fun hnil => hsome (List.isEmpty_iff.mpr hnil)
        split
        · exact collision_returned hsent hgso hsome o.owner o.frozenAfter
        · exact requeue_returned hsent hgso hsome o.frozenAfter
    obtain ⟨hconserved, huntouched, hschedules, hsettled⟩ := hreturned
    refine ⟨hconserved, ?_, hschedules, fun hfalse => ?_⟩
    · obtain ⟨hphase, hglobal, hrestarts, hreported, hparent, hbytes, hpackets⟩ := huntouched
      exact ⟨hphase, hglobal, hrestarts, hreported, hparent, hbytes, hpackets⟩
    · change (_ && !o.frozenAfter) = false at hfalse
      rcases Bool.and_eq_false_iff.mp hfalse with hret | hfrozen
      · exact hsettled hret
      · exact Or.inr (Or.inr (by simpa using hfrozen))

end Xmit

section Calls

variable {inFlight : List (SkBuff H)}

theorem Conserved.enqueue (h : Conserved dev inFlight s) (skb : SkBuff H) :
    Conserved dev inFlight
      { s with qdisc := (pfifoFastEnqueue dev.txQueueLen skb s.qdisc).2 } := by
  have hexact := h.exact.enqueue dev.txQueueLen skb
  have hqlen := h.qlen
  have hlt := dev.txQueueLen_lt
  refine ⟨hexact, ?_, ?_, ?_⟩
  all_goals simp only [pfifoFastEnqueue]
  all_goals split
  · rename_i hroom
    have hsum := sum_update s.qdisc.bands skb.band (s.qdisc.bands skb.band ++ [skb]) List.length
    rw [List.length_append, List.length_singleton] at hsum
    change (s.qdisc.qlen + 1).toNat = (∑ b, (Function.update s.qdisc.bands skb.band
      (s.qdisc.bands skb.band ++ [skb]) b).length) + _
    rw [BitVec.toNat_add]
    change (s.qdisc.qlen.toNat + 1) % 4294967296 = _ + if s.qdisc.gsoSkb.isEmpty then 0 else 1
    rw [Nat.mod_eq_of_lt (by omega), hqlen, Qdisc.queued]
    omega
  · exact hqlen
  · rename_i hroom
    have hsum := sum_update s.qdisc.bands skb.band (s.qdisc.bands skb.band ++ [skb]) List.length
    rw [List.length_append, List.length_singleton] at hsum
    change (∑ b, (Function.update s.qdisc.bands skb.band
      (s.qdisc.bands skb.band ++ [skb]) b).length) ≤ dev.txQueueLen
    rw [Qdisc.queued] at hqlen
    omega
  · exact h.room
  · exact h.order
  · exact h.order

theorem reset_validated (q : Qdisc H) : (qdiscReset q).validated dev = q.validated dev := by
  have hreset : (pfifoFastReset q).validated dev = q.validated dev := by
    rw [Qdisc.validated, Qdisc.validated, pfifoFastReset, List.filter_append]
    simp
  rw [qdiscReset]
  split
  · exact hreset
  · exact hreset

theorem reset_empty (q : Qdisc H) :
    (qdiscReset q).qlen = 0 ∧ (qdiscReset q).queued = 0 ∧ (qdiscReset q).gsoSkb = [] := by
  have hqueued : (pfifoFastReset q).queued = 0 := Finset.sum_const_zero
  rw [qdiscReset]
  split
  · rename_i hempty
    exact ⟨rfl, hqueued, List.isEmpty_iff.mp hempty⟩
  · exact ⟨rfl, hqueued, rfl⟩

theorem Conserved.reset (h : Conserved dev inFlight s)
    (hone : inFlight = [] ∨ s.qdisc.gsoSkb = []) :
    Conserved dev inFlight { s.lose s.qdisc.gsoSkb .reset with qdisc := qdiscReset s.qdisc } := by
  obtain ⟨hqlen, hqueued, hgso⟩ := reset_empty s.qdisc
  refine ⟨h.exact.reset, ?_, ?_, ?_⟩
  · change (qdiscReset s.qdisc).qlen.toNat = (qdiscReset s.qdisc).queued +
      if (qdiscReset s.qdisc).gsoSkb.isEmpty then 0 else 1
    rw [hqlen, hqueued, hgso]
    rfl
  · change (qdiscReset s.qdisc).queued ≤ _
    rw [hqueued]
    exact Nat.zero_le _
  · change (s.gone ++ s.qdisc.gsoSkb.map _).map Gone.skb ++
      (inFlight ++ (qdiscReset s.qdisc).gsoSkb) =
      (qdiscReset s.qdisc).validated dev
    have hgone : (s.qdisc.gsoSkb.map fun skb => (⟨skb, .reset⟩ : Gone H)).map Gone.skb =
        s.qdisc.gsoSkb := by
      rw [List.map_map]
      exact List.map_id _
    rw [reset_validated, ← h.order, hgso, List.append_nil, List.map_append, hgone,
      List.append_assoc]
    congr 1
    cases hone with
    | inl hnone => rw [hnone, List.append_nil, List.nil_append]
    | inr hnone => rw [hnone, List.append_nil, List.nil_append]

theorem place_lt (queueId : U32) : place queueId < 6 := by
  rw [place]
  split
  · rename_i h
    exact BitVec.lt_def.mp h
  · decide

theorem sch_direct_xmit_place (item : DataQueue) (queueGlobal : List DataQueue) :
    Sendudp.schDirectXmit item queueGlobal = queueGlobal.set (place item.queueId) item := by
  rw [Sendudp.schDirectXmit, place]
  split <;> rfl

theorem Fresh.other (h : Fresh s) {item : DataQueue}
    (hother : place item.queueId ≠ place s.qdisc.parent) :
    Fresh { s with queueGlobal := Sendudp.schDirectXmit item s.queueGlobal } := by
  simp only [sch_direct_xmit_place]
  refine ⟨by simpa using h.length, fun hreported => ?_⟩
  obtain ⟨mine, hmine, hsame⟩ := h.item hreported
  refine ⟨mine, ?_, hsame⟩
  change (s.queueGlobal.set _ _)[place s.qdisc.parent]? = some mine
  rw [List.getElem?_set_ne hother, hmine]

/-- The queue has the same counters of bytes and packets. -/
theorem Fresh.same (h : Fresh s) (global : t.queueGlobal = s.queueGlobal)
    (reported : t.reported = s.reported) (parent : t.qdisc.parent = s.qdisc.parent)
    (bytes : t.qdisc.bytes = s.qdisc.bytes) (packets : t.qdisc.packets = s.qdisc.packets) :
    Fresh t := by
  refine ⟨global ▸ h.length, ?_⟩
  rw [global, reported, parent, bytes, packets]
  exact h.item

end Calls

section Runs

variable (dev) in
/-- A transmission is begun: the queue is reported, and the lock released. -/
def begin (quota : Int) (packets : Nat) (skb : List (SkBuff H)) (sec usec : U32) (q : Qdisc H)
    (s : Sched H) : Sched H :=
  { s with
    qdisc := q
    queueGlobal := Sendudp.schDirectXmit (queueItem sec usec q) s.queueGlobal
    phase := .sending quota packets skb
    restarts := s.restarts + 1
    reported := true }

theorem begin_inv {quota : Int} {packets : Nat} {skb : List (SkBuff H)} {q : Qdisc H}
    (h : Inv dev s) (hphase : s.phase = .ready quota) (hpackets : 0 < packets)
    (hgso : q.gsoSkb = [])
    (conserved : Conserved dev skb { s with qdisc := q }) (sec usec : U32) :
    Inv dev (begin quota packets skb sec usec q s) := by
  have hquota := h.quota
  rw [hphase] at hquota
  obtain ⟨hle, hfirst⟩ := hquota
  refine ⟨⟨conserved.exact, conserved.qlen, conserved.room, conserved.order⟩, fun _ _ _ _ => hgso,
    ⟨?_, ?_, hpackets⟩, ?_⟩
  · change quota + ((s.restarts + 1 : Nat) : Int) ≤ dev.weight + 1
    omega
  · change 0 < quota ∨ s.restarts + 1 = 1
    omega
  · have hlength := h.fresh.length
    have hplace := place_lt q.parent
    simp only [begin, sch_direct_xmit_place]
    refine ⟨by simpa using hlength, fun _ => ⟨queueItem sec usec q, ?_, rfl, rfl, rfl⟩⟩
    change (s.queueGlobal.set (place q.parent) _)[place q.parent]? = _
    rw [List.getElem?_set_self (by omega)]

theorem restart_runs (h : Inv dev s) {quota : Int} (hphase : s.phase = .ready quota)
    (frozen : Bool) (bulkLimit sec usec : U32) :
    ∃ t, exec dev s (.restart frozen bulkLimit sec usec) = .ok t ∧ Inv dev t ∧
      (t.phase = .idle → Settled frozen s t) := by
  have hconserved := h.conserved
  rw [hphase] at hconserved
  have hqlen := hconserved.qlen
  obtain ⟨u, hrun, htaken⟩ := dequeue_skb_runs hconserved.exact (by omega) frozen bulkLimit
  have hidle : ∀ empty : Settled frozen s { s with phase := .idle },
      ∃ t, Except.ok { s with phase := .idle } = (.ok t : Except Fault (Sched H)) ∧ Inv dev t ∧
        (t.phase = .idle → Settled frozen s t) := by
    intro hempty
    refine ⟨{ s with phase := .idle }, rfl, ⟨?_, ?_, h.quota.le, ?_⟩, fun _ => hempty⟩
    · exact ⟨hconserved.exact, hconserved.qlen, hconserved.room, hconserved.order⟩
    · intro _ _ _ hsending
      cases hsending
    · exact h.fresh.same rfl rfl rfl rfl rfl
  simp only [exec, hphase, hrun, bind, Except.bind]
  cases htaken with
  | requeued t some same =>
    subst same
    have hbegun : Conserved dev s.qdisc.gsoSkb
        { s with qdisc := { s.qdisc with gsoSkb := [], qlen := s.qdisc.qlen - 1 } } := by
      have hexact := hconserved.exact
      rw [if_neg (by simpa using some)] at hqlen
      refine ⟨⟨hexact.bitmap, hexact.backlog, hexact.bytes, hexact.home, hexact.order⟩, ?_,
        hconserved.room, ?_⟩
      · change (s.qdisc.qlen - 1).toNat = s.qdisc.queued + 0
        rw [BitVec.toNat_sub_of_le (BitVec.le_def.mpr (by change 1 ≤ _; omega))]
        change s.qdisc.qlen.toNat - 1 = _
        omega
      · have horder := hconserved.order
        change s.gone.map Gone.skb ++ (s.qdisc.gsoSkb ++ []) = s.qdisc.validated dev
        rw [List.append_nil]
        exact horder
    rw [if_neg (by simpa using some)]
    refine ⟨_, rfl, ?_, fun hidle => by cases hidle⟩
    exact begin_inv (q := { s.qdisc with gsoSkb := [], qlen := s.qdisc.qlen - 1 }) h hphase
      Nat.one_pos rfl hbegun sec usec
  | fresh skb rest t none drained =>
    have hbegun : Conserved dev ((skb :: rest).flatMap dev.validate) { s with qdisc := t } := by
      have hqueued := drained.queued
      have hlen := drained.qlen
      have hroom := hconserved.room
      have horder := hconserved.order
      rw [none] at hqlen horder
      refine ⟨drained.exact, ?_, by change t.queued ≤ _; omega, ?_⟩
      · change t.qlen.toNat = t.queued + if t.gsoSkb.isEmpty then 0 else 1
        rw [drained.gso, none]
        change _ = _ + 0 at hqlen
        change _ = _ + 0
        omega
      · change s.gone.map Gone.skb ++ (_ ++ t.gsoSkb) = t.validated dev
        rw [drained.validated, drained.gso, none, ← horder, List.append_nil]
        change _ = s.gone.map Gone.skb ++ ([] ++ []) ++ _
        rw [List.append_nil, List.append_nil]
    refine ⟨_, rfl, ?_, fun hidle => by cases hidle⟩
    exact begin_inv h hphase (Nat.add_pos_left Nat.one_pos _)
      (drained.gso.trans none) hbegun sec usec
  | empty none empty => exact hidle (Or.inl ⟨empty, none⟩)
  | held validate hfrozen => exact hidle (Or.inr (Or.inr hfrozen))

theorem xmit_runs (h : Inv dev s) {quota : Int} {packets : Nat} {skb : List (SkBuff H)}
    (hphase : s.phase = .sending quota packets skb) (o : Outcome) :
    ∃ t, exec dev s (.xmit o) = .ok t ∧ Inv dev t ∧
      (t.phase = .idle → Settled o.frozenAfter s t) := by
  have hconserved : Conserved dev skb s := by
    have hflight := h.conserved
    rwa [hphase] at hflight
  have hquota := h.quota
  rw [hphase] at hquota
  obtain ⟨hle, hfirst, hpackets⟩ := hquota
  have hreturned := direct_xmit_returned hconserved (h.single _ _ _ hphase) o
  simp only [exec, hphase]
  generalize directXmit o skb s = r at hreturned
  obtain ⟨hkept, huntouched, hschedules, hsettled⟩ := hreturned
  have hfresh : Fresh r.2 := h.fresh.same huntouched.queueGlobal huntouched.reported
    huntouched.parent huntouched.bytes huntouched.packets
  have hrestarts := huntouched.restarts
  cases hmore : r.1 with
  | false =>
    refine ⟨_, rfl, ⟨?_, ?_, ?_, ?_⟩, fun _ => hsettled hmore⟩
    · exact ⟨hkept.exact, hkept.qlen, hkept.room, hkept.order⟩
    · intro _ _ _ hsending
      cases hsending
    · change (r.2.restarts : Int) ≤ max 1 dev.weight
      omega
    · exact hfresh.same rfl rfl rfl rfl rfl
  | true =>
    simp only [if_true]
    split
    · refine ⟨_, rfl, ⟨?_, ?_, ?_, ?_⟩, fun _ => Or.inr (Or.inl (Nat.lt_succ_of_le hschedules))⟩
      · exact ⟨hkept.exact, hkept.qlen, hkept.room, hkept.order⟩
      · intro _ _ _ hsending
        cases hsending
      · change (r.2.restarts : Int) ≤ max 1 dev.weight
        omega
      · exact hfresh.same rfl rfl rfl rfl rfl
    · rename_i hgoes
      have hgoes := (not_or.mp hgoes).1
      refine ⟨_, rfl, ⟨?_, ?_, ⟨?_, ?_⟩, ?_⟩, fun hidle => ?_⟩
      · exact ⟨hkept.exact, hkept.qlen, hkept.room, hkept.order⟩
      · intro _ _ _ hsending
        cases hsending
      · change quota - packets + (r.2.restarts : Int) ≤ dev.weight
        omega
      · exact Or.inl (Int.not_le.mp hgoes)
      · exact hfresh.same rfl rfl rfl rfl rfl
      · cases hidle

/-- Whether the device queue was found frozen or stopped when the call would have gone on. -/
def Action.frozen : Action H → Bool
  | .restart frozen _ _ _ => frozen
  | .xmit o => o.frozenAfter
  | _ => false

theorem exec_runs (h : Inv dev s) {a : Action H} (allowed : enabled s a) :
    ∃ t, exec dev s a = .ok t ∧ Inv dev t ∧
      (s.phase ≠ .idle → t.phase = .idle → Settled a.frozen s t) := by
  cases a with
  | enqueue skb =>
    refine ⟨_, rfl, ⟨h.conserved.enqueue skb, ?_, h.quota, ?_⟩,
      fun hbusy hidle => absurd hidle hbusy⟩
    · intro quota packets inFlight hsending
      change (pfifoFastEnqueue dev.txQueueLen skb s.qdisc).2.gsoSkb = []
      have hgso := h.single quota packets inFlight hsending
      rw [pfifoFastEnqueue]
      split
      · exact hgso
      · exact hgso
    · have hsame : ∀ q : Qdisc H, (pfifoFastEnqueue dev.txQueueLen skb q).2.parent = q.parent ∧
          (pfifoFastEnqueue dev.txQueueLen skb q).2.bytes = q.bytes ∧
          (pfifoFastEnqueue dev.txQueueLen skb q).2.packets = q.packets := by
        intro q
        rw [pfifoFastEnqueue]
        split <;> exact ⟨rfl, rfl, rfl⟩
      obtain ⟨hparent, hbytes, hpackets⟩ := hsame s.qdisc
      exact h.fresh.same rfl rfl hparent hbytes hpackets
  | reset =>
    have hempty := (reset_empty s.qdisc).2.2
    refine ⟨_, rfl, ⟨h.conserved.reset ?_, fun _ _ _ _ => hempty, h.quota, ?_⟩,
      fun hbusy hidle => absurd hidle hbusy⟩
    · cases hphase : s.phase with
      | idle => exact Or.inl rfl
      | ready quota => exact Or.inl rfl
      | sending quota packets skb => exact Or.inr (h.single quota packets skb hphase)
    · have hsame : ∀ q : Qdisc H, (qdiscReset q).parent = q.parent ∧
          (qdiscReset q).bytes = q.bytes ∧ (qdiscReset q).packets = q.packets := by
        intro q
        rw [qdiscReset]
        split <;> exact ⟨rfl, rfl, rfl⟩
      obtain ⟨hparent, hbytes, hpackets⟩ := hsame s.qdisc
      exact h.fresh.same rfl rfl hparent hbytes hpackets
  | run =>
    have hconserved := h.conserved
    have hphase : s.phase = .idle := allowed
    rw [hphase] at hconserved
    refine ⟨_, rfl, ⟨?_, ?_, ⟨?_, Or.inr rfl⟩, ?_⟩, fun hbusy => absurd hphase hbusy⟩
    · exact ⟨hconserved.exact, hconserved.qlen, hconserved.room, hconserved.order⟩
    · intro _ _ _ hsending
      cases hsending
    · change dev.weight + 0 ≤ dev.weight
      omega
    · exact h.fresh.same rfl rfl rfl rfl rfl
  | restart frozen bulkLimit sec usec =>
    obtain ⟨quota, hphase⟩ := allowed
    obtain ⟨t, hrun, hinv, hsettled⟩ := restart_runs h hphase frozen bulkLimit sec usec
    exact ⟨t, hrun, hinv, fun _ => hsettled⟩
  | xmit o =>
    obtain ⟨quota, packets, skb, hphase⟩ := allowed
    obtain ⟨t, hrun, hinv, hsettled⟩ := xmit_runs h hphase o
    exact ⟨t, hrun, hinv, fun _ => hsettled⟩
  | other item =>
    have hconserved := h.conserved
    refine ⟨_, rfl, ⟨?_, h.single, h.quota, h.fresh.other allowed⟩,
      fun hbusy hidle => absurd hidle hbusy⟩
    exact ⟨hconserved.exact, hconserved.qlen, hconserved.room, hconserved.order⟩

variable (dev) in
theorem inv_inductive (parent : U32) (oneTxQueue : Bool) :
    (machine dev parent oneTxQueue).Inductive (Inv dev) where
  start := by
    refine ⟨⟨⟨?_, ?_, rfl, fun _ _ hskb => absurd hskb List.not_mem_nil, fun _ => rfl⟩, ?_,
      ?_, rfl⟩, fun _ _ _ _ => rfl, ?_, ⟨rfl, fun hreported => absurd hreported Bool.false_ne_true⟩⟩
    · change 0 = bitmapOf fun _ => false
      decide
    · exact Finset.sum_const_zero.symm
    · change 0 = (∑ _ : Band, 0) + 0
      rw [Finset.sum_const_zero]
    · change (∑ _ : Band, 0) ≤ _
      rw [Finset.sum_const_zero]
      exact Nat.zero_le _
    · change ((0 : Nat) : Int) ≤ max 1 dev.weight
      omega
  step s a hs allowed := by
    obtain ⟨t, hrun, hinv, -⟩ := exec_runs hs allowed
    exact ⟨t, hrun, hinv⟩

variable {parent : U32} {oneTxQueue : Bool}

/-- With others coming in between while the lock is released, no packet is lost, doubled or
overtaken in its band: those admitted are those that have left the band and those in it, and
those dequeued are those gone, those with the driver and those requeued. The counters follow,
a requeued list counting as one packet, and no step faults. -/
theorem tx_path_conserves (hr : (machine dev parent oneTxQueue).Reachable s) :
    s.qdisc.qlen.toNat = s.qdisc.queued + (if s.qdisc.gsoSkb.isEmpty then 0 else 1) ∧
    s.qdisc.queued ≤ dev.txQueueLen ∧ s.qdisc.backlog = ∑ b, bytesOf (s.qdisc.bands b) ∧
    (∀ b, ofBand b s.qdisc.admitted =
      ofBand b (s.qdisc.left.map Leaving.skb) ++ s.qdisc.bands b) ∧
    s.gone.map Gone.skb ++ (s.phase.inFlight ++ s.qdisc.gsoSkb) = s.qdisc.validated dev ∧
    ((pfifoFastDequeue s.qdisc = .ok (none, s.qdisc) ∧ ∀ b, s.qdisc.bands b = []) ∨
      ∃ skb q, pfifoFastDequeue s.qdisc = .ok (some skb, q) ∧
        s.qdisc.bands skb.band = skb :: q.bands skb.band ∧
        ∀ b < skb.band, s.qdisc.bands b = []) ∧
    ∀ a, enabled s a → ∃ t, exec dev s a = .ok t := by
  have hinv := (inv_inductive dev parent oneTxQueue).reachable hr
  obtain ⟨hexact, hqlen, hroom, horder⟩ := hinv.conserved
  refine ⟨hqlen, hroom, hexact.backlog, hexact.order, horder, ?_,
    (inv_inductive dev parent oneTxQueue).runs hr⟩
  exact (dequeue_runs hexact).imp_right fun ⟨skb, q, hrun, hdequeued⟩ =>
    ⟨skb, q, hrun, hdequeued.head, hdequeued.first⟩

/-- A device whose queue is two packets long. -/
def small : Device Nat where
  txQueueLen := 2
  validate skb := [skb]
  weight := 64
  txQueueLen_lt := by decide

/-- A packet the driver does not take at first. -/
def refused : Outcome := ⟨false, 0, false, false, false, false⟩

theorem sending_reachable : ∃ s, (machine small 3 true).Reachable s ∧
    s.phase = .sending 64 1 [⟨7, 60, 74, 1, 6⟩] ∧ s.reported = true := by
  refine ⟨_, .step (.restart false 1000 1 2) (.step .run (.step (.enqueue ⟨7, 60, 74, 1, 6⟩)
    .start ?_ rfl) rfl rfl) ⟨64, rfl⟩ rfl, rfl, rfl⟩
  intro quota hready
  cases hready

theorem tx_path_conserves_refused : ∃ s : Sched Nat, s.qdisc.gsoSkb = [⟨7, 60, 74, 1, 6⟩] ∧
    s.qdisc.qlen.toNat = s.qdisc.queued + 1 := by
  obtain ⟨s, hr, hphase, -⟩ := sending_reachable
  obtain ⟨t, hrun⟩ := (tx_path_conserves hr).2.2.2.2.2.2 (.xmit refused) ⟨_, _, _, hphase⟩
  have hgso : t.qdisc.gsoSkb = [⟨7, 60, 74, 1, 6⟩] := by
    simp only [exec, hphase] at hrun
    cases hrun
    rfl
  have hqlen := (tx_path_conserves (hr.step (.xmit refused) ⟨_, _, _, hphase⟩ hrun)).1
  rw [hgso] at hqlen
  exact ⟨t, hgso, hqlen⟩

/-- A run of the queue makes at most `weight_p` turns, or one. Where it ends with packets left,
it has called for another one, or the device queue was frozen or stopped. -/
theorem tx_run_settles (hr : (machine dev parent oneTxQueue).Reachable s) :
    s.restarts ≤ max 1 dev.weight ∧
    ∀ a t, enabled s a → exec dev s a = .ok t → s.phase ≠ .idle → t.phase = .idle →
      (t.qdisc.queued = 0 ∧ t.qdisc.gsoSkb = []) ∨ s.schedules < t.schedules ∨
        a.frozen = true := by
  have hinv := (inv_inductive dev parent oneTxQueue).reachable hr
  refine ⟨hinv.quota.le, fun a t allowed hrun hbusy hidle => ?_⟩
  obtain ⟨u, hu, -, hsettled⟩ := exec_runs hinv allowed
  cases hu.symm.trans hrun
  exact hsettled hbusy hidle

theorem tx_run_settles_refused : ∃ s t : Sched Nat, s.schedules < t.schedules ∧
    t.phase = .idle := by
  obtain ⟨s, hr, hphase, -⟩ := sending_reachable
  have hrun : ∃ t, exec small s (.xmit refused) = .ok t ∧ t.phase = .idle ∧
      t.qdisc.gsoSkb ≠ [] := by
    simp only [exec, hphase]
    exact ⟨_, rfl, rfl, List.cons_ne_nil _ _⟩
  obtain ⟨t, hrun, hidle, hgso⟩ := hrun
  have hbusy : s.phase ≠ .idle := by
    rw [hphase]
    intro hidle
    cases hidle
  refine ⟨s, t, ?_, hidle⟩
  cases (tx_run_settles hr).2 (.xmit refused) t ⟨_, _, _, hphase⟩ hrun hbusy hidle with
  | inl hempty => exact absurd hempty.2 hgso
  | inr hsettled => exact hsettled.resolve_right Bool.false_ne_true

/-- From its first transmission on, the entry of a queue that has its place in `queue_global`
for itself has the bytes and packets that the queue has now, whatever is enqueued, requeued or
reset. -/
theorem queue_report_fresh (hr : (machine dev parent oneTxQueue).Reachable s)
    (hreported : s.reported = true) :
    ∃ item, s.queueGlobal[place s.qdisc.parent]? = some item ∧
      item.queueId = s.qdisc.parent ∧ item.bytes = s.qdisc.bytes ∧
      item.packets = s.qdisc.packets ∧
      s.qdisc.bytes = (s.qdisc.left.map Leaving.bytes).sum := by
  have hinv := (inv_inductive dev parent oneTxQueue).reachable hr
  obtain ⟨item, hitem, hid, hbytes, hpackets⟩ := hinv.fresh.item hreported
  exact ⟨item, hitem, hid, hbytes, hpackets, hinv.conserved.exact.bytes⟩

theorem queue_report_fresh_sending : ∃ (s : Sched Nat) (item : DataQueue),
    s.queueGlobal[place s.qdisc.parent]? = some item ∧ item.bytes = s.qdisc.bytes := by
  obtain ⟨s, hr, -, hreported⟩ := sending_reachable
  obtain ⟨item, hitem, -, hbytes, -⟩ := queue_report_fresh hr hreported
  exact ⟨s, item, hitem, hbytes⟩

end Runs

end ApTelemetry.SchGeneric
