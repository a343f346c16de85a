import ApTelemetry.Sendudp.Peaks

namespace ApTelemetry

/-- The six values a sample has of a queue. -/
structure QueueFields where
  packets : U32
  bytes : U64
  qlen : U32
  backlog : U32
  drops : U32
  requeues : U32

def DataQueue.fields (tmp : DataQueue) : QueueFields :=
  ⟨tmp.packets, tmp.bytes, tmp.qlen, tmp.backlog, tmp.drops, tmp.requeues⟩

def Apstates.q3 (xx : Apstates) : QueueFields :=
  ⟨xx.q3packets, xx.q3bytes, xx.q3qlen, xx.q3backlog, xx.q3drops, xx.q3requeues⟩

def Apstates.qf (xx : Apstates) : QueueFields :=
  ⟨xx.qfpackets, xx.qfbytes, xx.qfqlen, xx.qfbacklog, xx.qfdrops, xx.qfrequeues⟩

structure QueueFields.CountersLE (x y : QueueFields) : Prop where
  packets : x.packets ≤ y.packets
  bytes : x.bytes ≤ y.bytes
  drops : x.drops ≤ y.drops
  requeues : x.requeues ≤ y.requeues

namespace Sendudp
open Lib

/-- What `sch_direct_xmit` does to `queue_global`: every queue but the first six
shares the last place. -/
def schDirectXmit (queueItem : DataQueue) (queueGlobal : List DataQueue) : List DataQueue :=
  if queueItem.queueId < 6 then queueGlobal.set queueItem.queueId.toNat queueItem
  else queueGlobal.set 5 queueItem

/-- A queue that has fields of its own in a sample. -/
structure Kept where
  queueId : U32
  fields : Apstates → QueueFields
  place : Nat

def keptQueue3 : Kept := ⟨3, Apstates.q3, 3⟩
def keptRoot : Kept := ⟨4294967295, Apstates.qf, 5⟩

/-- Writing a queue into a sample changes the fields of that queue alone. -/
structure Kept.Recorded (k : Kept) : Prop where
  own : ∀ tmp xx, tmp.queueId = k.queueId → k.fields (recordQueue tmp xx) = tmp.fields
  other : ∀ tmp xx, tmp.queueId ≠ k.queueId → k.fields (recordQueue tmp xx) = k.fields xx
  survey : ∀ survey xx, k.fields (recordSurvey survey xx) = k.fields xx
  neibours : ∀ count xx, k.fields (recordNeibours count xx) = k.fields xx

theorem kept_queue3_recorded : keptQueue3.Recorded where
  own tmp xx h := by
    have hid : tmp.queueId = 3 := h
    rw [recordQueue, if_neg (by rw [hid]; decide), if_pos hid]
    rfl
  other tmp xx h := by
    unfold recordQueue
    split
    · rfl
    · have hid : tmp.queueId ≠ 3 := h
      rw [if_neg hid]
  survey survey xx := by cases survey <;> rfl
  neibours count xx := by cases count <;> rfl

theorem kept_root_recorded : keptRoot.Recorded where
  own tmp xx h := by
    have hid : tmp.queueId = 4294967295 := h
    rw [recordQueue, if_pos hid]
    rfl
  other tmp xx h := by
    have hid : tmp.queueId ≠ 4294967295 := h
    rw [recordQueue, if_neg hid]
    split <;> rfl
  survey survey xx := by cases survey <;> rfl
  neibours count xx := by cases count <;> rfl

section CompareAndQueue

variable {k : Kept} (hk : k.Recorded)
include hk

theorem compare_and_queue_none {queues previous : List DataQueue} (xx : Apstates)
    (h : ∀ tmp ∈ queues, tmp.queueId ≠ k.queueId) :
    k.fields (compareAndQueue queues previous xx).2.1 = k.fields xx := by
  induction queues generalizing previous xx with
  | nil => simp only [compareAndQueue]
  | cons tmp queues ih =>
    cases previous with
    | nil => simp only [compareAndQueue]
    | cons pre previous =>
      have hrest := fun tmp htmp => h tmp (List.mem_cons_of_mem _ htmp)
      simp only [compareAndQueue]
      split
      · exact ih xx hrest
      · rw [ih _ hrest, hk.other _ _ (h tmp (List.mem_cons_self ..))]

/-- What becomes of the fields of a queue that has one entry. -/
theorem compare_and_queue_kept {queues previous : List DataQueue} (xx : Apstates)
    (hone : queues.Pairwise fun tmp tmp' =>
      ¬ (tmp.queueId = k.queueId ∧ tmp'.queueId = k.queueId)) {i : Nat} {tmp pre : DataQueue}
    (htmp : queues[i]? = some tmp) (hpre : previous[i]? = some pre)
    (hid : tmp.queueId = k.queueId) :
    k.fields (compareAndQueue queues previous xx).2.1 =
      if tmp.bytes = pre.bytes then k.fields xx else tmp.fields := by
  induction queues generalizing previous xx i with
  | nil => simp at htmp
  | cons tmp' queues ih =>
    cases previous with
    | nil => simp at hpre
    | cons pre' previous =>
      obtain ⟨hfirst, hrest⟩ := List.pairwise_cons.mp hone
      simp only [compareAndQueue]
      cases i with
      | zero =>
        obtain rfl := Option.some.inj htmp
        obtain rfl := Option.some.inj hpre
        have hnone : ∀ tmp ∈ queues, tmp.queueId ≠ k.queueId :=
          fun tmp htmp hsame => hfirst tmp htmp ⟨hid, hsame⟩
        split
        · exact compare_and_queue_none hk xx hnone
        · rw [compare_and_queue_none hk _ hnone, hk.own _ _ hid]
      | succ i =>
        have hother : tmp'.queueId ≠ k.queueId :=
          fun hsame => hfirst tmp (List.mem_of_getElem? htmp) ⟨hsame, hid⟩
        split
        · exact ih xx hrest htmp hpre
        · rw [ih _ hrest htmp hpre, hk.other _ _ hother]

end CompareAndQueue

/-- `get_information` beside the transmissions that fill `queue_global`. `completed`
is what each tick found there and the sample it left, which nothing reads. -/
structure QueueRun where
  ring : ApsRing
  queueGlobal : List DataQueue
  completed : List (List DataQueue × Apstates)

inductive QueueAction where
  | xmit (queueItem : DataQueue)
  | tick (survey : Option DataSurvey) (neibours : Option U8)

def QueueRun.exec (s : QueueRun) : QueueAction → Except Fault QueueRun
  | .xmit queueItem => .ok { s with queueGlobal := schDirectXmit queueItem s.queueGlobal }
  | .tick survey neibours => do
    let ring ← getInformation s.ring ⟨survey, neibours, s.queueGlobal⟩
    .ok { s with
      ring
      completed := s.completed ++ [(s.queueGlobal, slotState ring s.ring.apsHead)] }

def queueMachine : Machine QueueRun QueueAction Fault :=
  ⟨⟨loaded, List.replicate 6 zeroQueue, []⟩, fun _ _ => True, QueueRun.exec⟩

/-- A sample holds the values of a queue that is in `queue_global`. -/
def Kept.Carries (k : Kept) (queueGlobal : List DataQueue) (xx : Apstates) : Prop :=
  ∀ tmp ∈ queueGlobal, tmp.queueId = k.queueId → k.fields xx = tmp.fields

/-- From one tick to a later one the counters of a sample do not decrease if
those in `queue_global` do not. -/
def Kept.NoDecrease (k : Kept) (x y : List DataQueue × Apstates) : Prop :=
  ∀ tmp ∈ x.1, ∀ tmp' ∈ y.1, tmp.queueId = k.queueId → tmp'.queueId = k.queueId →
    tmp.fields.CountersLE tmp'.fields → (k.fields x.2).CountersLE (k.fields y.2)

/-- The ticks of the window. -/
def QueueRun.recent (s : QueueRun) : List (List DataQueue × Apstates) :=
  s.completed.drop (givenUp s.completed.length)

/-- The sample a tick completes is current for a queue, and the window in order. -/
structure Kept.Current (k : Kept) (s t : QueueRun) : Prop where
  carries : k.Carries s.queueGlobal (slotState t.ring s.ring.apsHead)
  order : t.recent.Pairwise k.NoDecrease

def CurrentTick (s : QueueRun) : QueueAction → Except Fault QueueRun → Prop
  | .xmit _, _ => True
  | .tick .., r => ∃ t, r = .ok t ∧ keptQueue3.Current s t ∧ keptRoot.Current s t

/-- A queue whose byte counter has not moved since it was last written has in the
slot at the head, which is a round old, the values it has now. -/
def Kept.Fresh (k : Kept) (s : QueueRun) : Prop :=
  ∀ (i : Nat) (tmp pre : DataQueue), s.queueGlobal[i]? = some tmp →
    s.ring.queuePrevious[i]? = some pre → tmp.queueId = k.queueId → tmp.bytes = pre.bytes →
    k.fields (slotState s.ring s.ring.apsHead) = tmp.fields

def FreshTick (s : QueueRun) : QueueAction → Prop
  | .xmit _ => True
  | .tick .. => keptQueue3.Fresh s ∧ keptRoot.Fresh s

/-- Queue 3 and the root queue have their own places. -/
def Placed (queueGlobal : List DataQueue) : Prop :=
  ∀ (i : Nat) (tmp : DataQueue), queueGlobal[i]? = some tmp →
    (tmp.queueId = 3 → i = 3) ∧ (tmp.queueId = 4294967295 → i = 5)

/-- What `sch_direct_xmit` and `get_information` keep up. -/
structure QueueInvariant (s : QueueRun) : Prop where
  size : s.ring.apstatesGlobal.length = apsl
  head_lt : s.ring.apsHead < apsl
  previous : s.ring.queuePrevious.length = 6
  global : s.queueGlobal.length = 6
  placed : Placed s.queueGlobal
  queue3 : ∀ x ∈ s.completed, keptQueue3.Carries x.1 x.2
  root : ∀ x ∈ s.completed, keptRoot.Carries x.1 x.2

theorem compare_and_queue_length (queues previous : List DataQueue) (xx : Apstates) :
    (compareAndQueue queues previous xx).1.length = previous.length := by
  induction queues generalizing previous xx with
  | nil => simp only [compareAndQueue]
  | cons tmp queues ih =>
    cases previous with
    | nil => simp only [compareAndQueue]
    | cons pre previous =>
      simp only [compareAndQueue]
      split <;> simp only [List.length_cons, ih]

theorem xmit_placed {queueGlobal : List DataQueue} {queueItem : DataQueue}
    (hlength : queueGlobal.length = 6) (h : Placed queueGlobal) :
    Placed (schDirectXmit queueItem queueGlobal) := by
  intro i tmp htmp
  unfold schDirectXmit at htmp
  split at htmp
  · rename_i hsmall
    by_cases hi : queueItem.queueId.toNat = i
    · have hlt : queueItem.queueId.toNat < queueGlobal.length := by
        rw [hlength]
        exact hsmall
      rw [← hi, List.getElem?_set_self hlt] at htmp
      obtain rfl := Option.some.inj htmp
      refine ⟨fun hid => ?_, fun hid => ?_⟩
      · rw [← hi, hid]
        rfl
      · rw [hid] at hsmall
        exact absurd hsmall (by decide)
    · rw [List.getElem?_set_ne hi] at htmp
      exact h i tmp htmp
  · rename_i hlarge
    by_cases hi : 5 = i
    · rw [← hi, List.getElem?_set_self (by omega)] at htmp
      obtain rfl := Option.some.inj htmp
      refine ⟨fun hid => ?_, fun _ => hi.symm⟩
      rw [hid] at hlarge
      exact absurd (by decide) hlarge
    · rw [List.getElem?_set_ne hi] at htmp
      exact h i tmp htmp

namespace QueueInvariant

variable {s : QueueRun}

theorem one_entry (h : QueueInvariant s) {k : Kept} (hk : k = keptQueue3 ∨ k = keptRoot) :
    s.queueGlobal.Pairwise fun tmp tmp' =>
      ¬ (tmp.queueId = k.queueId ∧ tmp'.queueId = k.queueId) := by
  rw [List.pairwise_iff_getElem]
  rintro i j hi hj hlt ⟨hid, hid'⟩
  have hpi := h.placed i _ (List.getElem?_eq_getElem hi)
  have hpj := h.placed j _ (List.getElem?_eq_getElem hj)
  rcases hk with rfl | rfl
  · have := hpi.1 hid
    have := hpj.1 hid'
    omega
  · have := hpi.2 hid
    have := hpj.2 hid'
    omega

theorem xmit (h : QueueInvariant s) (queueItem : DataQueue) :
    QueueInvariant { s with queueGlobal := schDirectXmit queueItem s.queueGlobal } where
  size := h.size
  head_lt := h.head_lt
  previous := h.previous
  global := by
    have hlength := h.global
    simp only [schDirectXmit]
    split <;> simpa using hlength
  placed := xmit_placed h.global h.placed
  queue3 := h.queue3
  root := h.root

end QueueInvariant

/-- What a tick comes to for the queues. -/
structure Ticks (survey : Option DataSurvey) (neibours : Option U8) (s t : QueueRun) : Prop where
  runs : s.exec (.tick survey neibours) = .ok t
  global : t.queueGlobal = s.queueGlobal
  completed : t.completed = s.completed ++ [(s.queueGlobal, slotState t.ring s.ring.apsHead)]
  sample : slotState t.ring s.ring.apsHead =
    (compareAndQueue s.queueGlobal s.ring.queuePrevious (recordNeibours neibours
      (recordSurvey survey (slotState s.ring s.ring.apsHead)))).2.1
  size : t.ring.apstatesGlobal.length = apsl
  head_lt : t.ring.apsHead < apsl
  previous : t.ring.queuePrevious.length = 6

theorem QueueInvariant.ticks {s : QueueRun} (h : QueueInvariant s) (survey : Option DataSurvey)
    (neibours : Option U8) : ∃ t, Ticks survey neibours s t := by
  have hlt : s.ring.apsHead < s.ring.apstatesGlobal.length := h.size.symm ▸ h.head_lt
  have hslot : slotState s.ring s.ring.apsHead = s.ring.apstatesGlobal[s.ring.apsHead] := by
    rw [slotState, List.getElem?_eq_getElem hlt, Option.getD_some]
  obtain ⟨ring, hrun, hring⟩ : ∃ ring,
      getInformation s.ring ⟨survey, neibours, s.queueGlobal⟩ = .ok ring ∧ ring = _ :=
    ⟨_, get_information_out hlt rfl, rfl⟩
  refine ⟨{ s with
    ring
    completed := s.completed ++ [(s.queueGlobal, slotState ring s.ring.apsHead)] },
    ?_, rfl, rfl, ?_, ?_, ?_, ?_⟩
  · rw [QueueRun.exec, hrun]
    rfl
  · rw [hslot, hring]
    simp only [slotState, advance, List.getElem?_set_self hlt, Option.getD_some]
  · simpa only [hring, advance, List.length_set] using h.size
  · rw [hring]
    exact Nat.mod_lt _ (by decide)
  · simpa only [hring, advance, compare_and_queue_length] using h.previous

theorem Ticks.carries_iff {survey : Option DataSurvey} {neibours : Option U8} {s t : QueueRun}
    (ht : Ticks survey neibours s t) (h : QueueInvariant s) {k : Kept} (hk : k.Recorded)
    (hkept : k = keptQueue3 ∨ k = keptRoot) :
    k.Carries s.queueGlobal (slotState t.ring s.ring.apsHead) ↔ k.Fresh s := by
  have hone := h.one_entry hkept
  have hvalue : ∀ (i : Nat) (tmp pre : DataQueue), s.queueGlobal[i]? = some tmp →
      s.ring.queuePrevious[i]? = some pre → tmp.queueId = k.queueId →
      k.fields (slotState t.ring s.ring.apsHead) = if tmp.bytes = pre.bytes then
        k.fields (slotState s.ring s.ring.apsHead) else tmp.fields := by
    intro i tmp pre htmp hpre hid
    rw [ht.sample, compare_and_queue_kept hk _ hone htmp hpre hid, hk.neibours, hk.survey]
  constructor
  · intro hcarries i tmp pre htmp hpre hid hbytes
    have hcarried := hcarries tmp (List.mem_of_getElem? htmp) hid
    rwa [hvalue i tmp pre htmp hpre hid, if_pos hbytes] at hcarried
  · intro hfresh tmp hmem hid
    obtain ⟨i, hi, htmp⟩ := List.getElem_of_mem hmem
    have htmp : s.queueGlobal[i]? = some tmp := by rw [List.getElem?_eq_getElem hi, htmp]
    have hi' : i < s.ring.queuePrevious.length := by
      rw [h.previous, ← h.global]
      exact hi
    rw [hvalue i tmp _ htmp (List.getElem?_eq_getElem hi') hid]
    split
    · rename_i hbytes
      exact hfresh i tmp _ htmp (List.getElem?_eq_getElem hi') hid hbytes
    · rfl

/-- Samples that are current are in order as far as `queue_global` is. -/
theorem pairwise_no_decrease {k : Kept} {completed : List (List DataQueue × Apstates)}
    (h : ∀ x ∈ completed, k.Carries x.1 x.2) : completed.Pairwise k.NoDecrease := by
  refine List.pairwise_of_forall_mem_list fun x hx y hy tmp htmp tmp' htmp' hid hid' hle => ?_
  rw [h x hx tmp htmp hid, h y hy tmp' htmp' hid']
  exact hle

theorem Ticks.carried {survey : Option DataSurvey} {neibours : Option U8} {s t : QueueRun}
    (ht : Ticks survey neibours s t) {k : Kept} (h : ∀ x ∈ s.completed, k.Carries x.1 x.2)
    (hcarries : k.Carries s.queueGlobal (slotState t.ring s.ring.apsHead)) :
    ∀ x ∈ t.completed, k.Carries x.1 x.2 := by
  intro x hx
  rw [ht.completed] at hx
  rcases List.mem_append.mp hx with hx | hx
  · exact h x hx
  · obtain rfl := List.mem_singleton.mp hx
    exact hcarries

theorem Ticks.current_iff {survey : Option DataSurvey} {neibours : Option U8} {s t : QueueRun}
    (ht : Ticks survey neibours s t) (h : QueueInvariant s) {k : Kept} (hk : k.Recorded)
    (hkept : k = keptQueue3 ∨ k = keptRoot) (hall : ∀ x ∈ s.completed, k.Carries x.1 x.2) :
    k.Current s t ↔ k.Fresh s := by
  rw [← ht.carries_iff h hk hkept]
  constructor
  · exact Kept.Current.carries
  · intro hcarries
    have hordered := pairwise_no_decrease (ht.carried hall hcarries)
    exact ⟨hcarries, hordered.sublist (List.drop_sublist ..)⟩

theorem current_tick_iff {s : QueueRun} (h : QueueInvariant s) (a : QueueAction) :
    CurrentTick s a (s.exec a) ↔ FreshTick s a := by
  cases a with
  | xmit queueItem => exact Iff.rfl
  | tick survey neibours =>
    obtain ⟨t, ht⟩ := h.ticks survey neibours
    have h3 := ht.current_iff h kept_queue3_recorded (.inl rfl) h.queue3
    have hf := ht.current_iff h kept_root_recorded (.inr rfl) h.root
    rw [ht.runs]
    constructor
    · rintro ⟨t', ht', hcurrent⟩
      obtain rfl := Except.ok.inj ht'
      exact ⟨h3.mp hcurrent.1, hf.mp hcurrent.2⟩
    · rintro ⟨hfresh3, hfreshf⟩
      exact ⟨t, rfl, h3.mpr hfresh3, hf.mpr hfreshf⟩

theorem queue_invariant_step {s t : QueueRun} {a : QueueAction} (h : QueueInvariant s)
    (hfresh : FreshTick s a) (hrun : s.exec a = .ok t) : QueueInvariant t := by
  cases a with
  | xmit queueItem =>
    obtain rfl := Except.ok.inj hrun
    exact h.xmit queueItem
  | tick survey neibours =>
    obtain ⟨t', ht⟩ := h.ticks survey neibours
    obtain rfl := Except.ok.inj (ht.runs.symm.trans hrun)
    exact
      { size := ht.size
        head_lt := ht.head_lt
        previous := ht.previous
        global := ht.global ▸ h.global
        placed := ht.global ▸ h.placed
        queue3 := ht.carried h.queue3
          ((ht.carries_iff h kept_queue3_recorded (.inl rfl)).mpr hfresh.1)
        root := ht.carried h.root
          ((ht.carries_iff h kept_root_recorded (.inr rfl)).mpr hfresh.2) }

theorem queue_invariant_start : QueueInvariant queueMachine.start where
  size := List.length_replicate
  head_lt := by decide
  previous := List.length_replicate
  global := List.length_replicate
  placed := by
    intro i tmp htmp
    obtain rfl := List.eq_of_mem_replicate (List.mem_of_getElem? htmp)
    exact ⟨fun hid => absurd hid (by decide), fun hid => absurd hid (by decide)⟩
  queue3 := by
    intro x hx
    cases hx
  root := by
    intro x hx
    cases hx

/-- The samples of a run are current exactly if every tick of it is fresh. -/
theorem queues_current_iff (actions : List QueueAction) :
    queueMachine.Throughout CurrentTick queueMachine.start actions ↔
    queueMachine.Throughout (fun s a _ => FreshTick s a) queueMachine.start actions :=
  Machine.throughout_iff QueueInvariant (fun _ a hs _ => current_tick_iff hs a)
    (fun _ _ _ hs _ hfresh hrun => queue_invariant_step hs hfresh hrun)
    queue_invariant_start actions

theorem exec_tick {s : QueueRun} {survey : Option DataSurvey} {neibours : Option U8}
    {ring : ApsRing} (h : getInformation s.ring ⟨survey, neibours, s.queueGlobal⟩ = .ok ring) :
    s.exec (.tick survey neibours) = .ok { s with
      ring
      completed := s.completed ++ [(s.queueGlobal, slotState ring s.ring.apsHead)] } := by
  rw [QueueRun.exec, h]
  rfl

/-- The second of two ticks at one state of the queues leaves zeros in its slot. -/
theorem second_tick_stale : ¬ ∀ actions,
    queueMachine.Throughout CurrentTick queueMachine.start actions := by
  intro h
  obtain ⟨s, hs, hbuf, hhead, hprevious⟩ := first_tick
  have hlength : s.apstatesGlobal.length = apsl := by
    rw [hbuf, List.length_set, List.length_replicate]
  obtain ⟨t, ht, hslots, -, -⟩ :=
    same_queues_tick hlength (hhead ▸ by decide) hprevious none
  let xmitted : QueueRun := ⟨loaded, oneQueue, []⟩
  let ticked : QueueRun := ⟨s, oneQueue, [(oneQueue, slotState s 0)]⟩
  have hfirst : xmitted.exec (.tick none none) = .ok ticked := exec_tick hs
  have hsecond := exec_tick (s := ticked) ht
  obtain ⟨-, hnext⟩ := h [.xmit ⟨3, 1, 1, 0, 0, 1, 5, 0, 0, 0, 0⟩, .tick none none,
    .tick none none] trivial
  obtain ⟨-, hnext⟩ := hnext xmitted rfl trivial
  obtain ⟨⟨u, hu, hcurrent, -⟩, -⟩ := hnext ticked hfirst trivial
  obtain rfl := Except.ok.inj (hsecond.symm.trans hu)
  have hzero : slotState t s.apsHead = zeroApstates := by
    have hone : slotState s s.apsHead = zeroApstates := by
      rw [slotState, hbuf, hhead, List.getElem?_set_ne (by decide), get_replicate]
    have hlt : s.apsHead < s.apstatesGlobal.length := by
      rw [hlength, hhead]
      decide
    rw [slotState, hslots, List.getElem?_set_self hlt, Option.getD_some, hone]
    rfl
  have hmem : ⟨3, 1, 1, 0, 0, 1, 5, 0, 0, 0, 0⟩ ∈ oneQueue := by decide
  have hcarried := hcurrent.carries _ hmem rfl
  have hpackets : (slotState t s.apsHead).q3packets = 1 := congrArg QueueFields.packets hcarried
  rw [hzero] at hpackets
  exact absurd hpackets (by decide)

end Sendudp

end ApTelemetry
