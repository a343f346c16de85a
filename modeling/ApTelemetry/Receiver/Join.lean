import ApTelemetry.Receiver.Computed

namespace ApTelemetry.Receiver.Join
open Lib Computed Samples

variable {Q S α : Type}

/-- The three computed lists, of items with any values. -/
structure Lists (Q S : Type) where
  queueP3 : Lib.Fifo Q
  queuePF : Lib.Fifo Q
  surveyP : Lib.Fifo S

/-- `q_keep_3`, `q_keep_f` and `s_keep`. -/
structure Keeps (Q S : Type) where
  qKeep3 : Q
  qKeepF : Q
  sKeep : S

/-- What else a row is written from. -/
structure Globals where
  dropCount : U32
  neibourLists : Option U32
  stationLists : Option U32

/-- A line of the training file. It has all values of the three items but their times. -/
structure Row (Q S : Type) where
  drop : Bool
  dropCount : U32
  neibours : U32
  stations : U32
  keeps : Keeps Q S

variable (qClock : Clock Q) (sClock : Clock S)

/-- The test in front of `fprintf`. It leaves queue f out. -/
def writeRow (drop : Bool) (g : Globals) (keeps : Keeps Q S) : Option (Row Q S) :=
  if (sClock keeps.sKeep).sec ≠ 0 ∧ (qClock keeps.qKeep3).sec ≠ 0 then
    some ⟨drop, g.dropCount, g.neibourLists.getD 0, g.stationLists.getD 0, keeps⟩
  else none

/-- The samples at an event. The code stands twice, in the loop over the packet
times and behind it. The locals are not set before the searches: `stale` is what
they hold. -/
def join (drop : Bool) (timeTp : TimeStructure) (stale : Keeps Q S) (g : Globals)
    (l : Lists Q S) : Except Fault (Lists Q S × Option (Row Q S)) :=
  if timeTp.sec = 0 ∨ l.queueP3.first = none ∨ l.surveyP.first = none ∨ l.queuePF.first = none then
    .ok (l, none)
  else do
    let (queueP3, _, found3) ← deleteOld qClock timeTp l.queueP3
    let (queuePF, _, foundF) ← deleteOld qClock timeTp l.queuePF
    let (surveyP, _, foundS) ← deleteOld sClock timeTp l.surveyP
    .ok (⟨queueP3, queuePF, surveyP⟩, writeRow qClock sClock drop g
      ⟨found3.getD stale.qKeep3, foundF.getD stale.qKeepF, foundS.getD stale.sKeep⟩)

/-- The earliest item that is not before the event. -/
def Earliest (clock : Clock α) (time : TimeStructure) (items : List α) (item : α) : Prop :=
  (clock item).After time ∧ (∃ pre post, items = pre ++ item :: post ∧
    ∀ x ∈ pre, ¬ (clock x).After time) ∧
  ∀ x ∈ items, (clock x).After time → (clock x).After (clock item)

/-- There is such an item. -/
def Later (clock : Clock α) (time : TimeStructure) (items : List α) : Prop :=
  ∃ x ∈ items, (clock x).After time

/-- The row, if one is written, has the earliest item of each list. -/
def JoinsEarliest (timeTp : TimeStructure) (items3 itemsF : List Q) (itemsS : List S)
    (result : Except Fault (Lists Q S × Option (Row Q S))) : Prop :=
  ∃ l row, result = .ok (l, row) ∧ ∀ r ∈ row,
    Earliest qClock timeTp items3 r.keeps.qKeep3 ∧
    Earliest qClock timeTp itemsF r.keeps.qKeepF ∧
    Earliest sClock timeTp itemsS r.keeps.sKeep

/-- Each list has an item for the row, or the code sees that there is none: a list
is empty, or a local that is tested and not assigned holds second 0. -/
def SeesNone (timeTp : TimeStructure) (stale : Keeps Q S) (items3 itemsF : List Q)
    (itemsS : List S) : Prop :=
  Later qClock timeTp items3 ∧ Later qClock timeTp itemsF ∧
      Later sClock timeTp itemsS ∨
    timeTp.sec = 0 ∨ items3 = [] ∨ itemsS = [] ∨ itemsF = [] ∨
    ¬ Later sClock timeTp itemsS ∧ (sClock stale.sKeep).sec = 0 ∨
    ¬ Later qClock timeTp items3 ∧ (qClock stale.qKeep3).sec = 0

/-- The lists hold these items, sorted by their times. -/
structure Sorted (l : Lists Q S) (nodes3 nodesF : List (Addr × Q)) (nodesS : List (Addr × S)) :
    Prop where
  holds3 : l.queueP3.Holds nodes3
  holdsF : l.queuePF.Holds nodesF
  holdsS : l.surveyP.Holds nodesS
  sorted3 : nodes3.Pairwise fun n m => (qClock m.2).After (qClock n.2)
  sortedF : nodesF.Pairwise fun n m => (qClock m.2).After (qClock n.2)
  sortedS : nodesS.Pairwise fun n m => (sClock m.2).After (sClock n.2)

variable {qClock sClock} {clock : Clock α} {time timeTp : TimeStructure}

/-- The first item at which a search stops. -/
def firstLater (clock : Clock α) (time : TimeStructure) (items : List α) : Option α :=
  items.find? fun x => decide ((clock x).After time)

theorem search_time_keep {heap : Heap α} {p : Option Addr} {nodes : List (Addr × α)}
    (h : Chain heap p nodes) {wait found : Option Addr} {keep : Option α} {turns : Nat}
    (hrun : searchTime clock time heap turns wait p = .ok (found, keep)) :
    keep = firstLater clock time (nodes.map Prod.snd) := by
  induction nodes generalizing p wait turns with
  | nil =>
    obtain rfl : p = none := h.start_eq
    have hend : searchTime clock time heap turns wait none = .ok (wait, none) := by
      cases turns <;> rfl
    rw [hend] at hrun
    exact (Prod.mk.inj (Except.ok.inj hrun)).2.symm
  | cons n nodes ih =>
    cases h with
    | @cons a x p _ _ hlook tail =>
      cases turns with
      | zero => cases hrun
      | succ turns =>
        simp only [searchTime, Heap.read_of_lookup hlook, bind, Except.bind] at hrun
        rw [firstLater, List.map_cons, List.find?_cons]
        by_cases hafter : (clock x).After time
        · rw [if_pos hafter] at hrun
          rw [decide_eq_true hafter]
          exact (Prod.mk.inj (Except.ok.inj hrun)).2.symm
        · rw [if_neg hafter] at hrun
          rw [decide_eq_false hafter]
          exact ih tail hrun

/-- A search of any list runs through and keeps the first item it stops at. -/
theorem delete_old_runs (clock : Clock α) {q : Lib.Fifo α} {nodes : List (Addr × α)}
    (h : q.Holds nodes) (time : TimeStructure) : ∃ q' gone, deleteOld clock time q =
      .ok (q', gone, firstLater clock time (nodes.map Prod.snd)) := by
  obtain ⟨found, keep, hsearch, hfound⟩ : ∃ found keep,
      searchTime clock time q.heap q.heap.entries.length none q.first = .ok (found, keep) ∧ _ :=
    search_time_runs time h.chain none _ h.chain.length_le
  obtain rfl := search_time_keep h.chain hsearch
  rcases hfound with rfl | ⟨xs, a, x, ys, rfl, rfl, -⟩
  · refine ⟨q, [], ?_⟩
    rw [deleteOld, hsearch]
    rfl
  · obtain ⟨heap, hfree, -⟩ := h.chain.free_up_to (q.heap.entries.length + 1)
      (by have := h.chain.length_le; simp at this; omega)
    refine ⟨{ q with heap, first := some a }, xs.map Prod.snd, ?_⟩
    rw [deleteOld, hsearch]
    simp only [bind, Except.bind, hfree]

theorem later_iff {items : List α} :
    Later clock time items ↔ ∃ x, firstLater clock time items = some x := by
  rw [Later, ← Option.isSome_iff_exists, firstLater, List.find?_isSome]
  simp only [decide_eq_true_eq]

theorem first_later_none {items : List α} (h : ¬ Later clock time items) :
    firstLater clock time items = none := by
  rw [later_iff, not_exists] at h
  exact Option.eq_none_iff_forall_ne_some.mpr h

/-- In a sorted list the first item that is not before the event is the earliest. -/
theorem first_later_earliest {nodes : List (Addr × α)} {x : α}
    (hsorted : nodes.Pairwise fun n m => (clock m.2).After (clock n.2))
    (h : firstLater clock time (nodes.map Prod.snd) = some x) :
    Earliest clock time (nodes.map Prod.snd) x := by
  have hitems : (nodes.map Prod.snd).Pairwise fun x y => (clock y).After (clock x) :=
    List.pairwise_map.mpr hsorted
  generalize nodes.map Prod.snd = items at h hitems
  obtain ⟨hafter, pre, post, rfl, hbefore⟩ := List.find?_eq_some_iff_append.mp h
  simp only [Bool.not_eq_true', decide_eq_false_iff_not] at hbefore
  refine ⟨of_decide_eq_true hafter, ⟨pre, post, rfl, hbefore⟩, fun y hy hyafter => ?_⟩
  rcases List.mem_append.mp hy with hy | hy
  · exact absurd hyafter (hbefore y hy)
  · rcases List.mem_cons.mp hy with rfl | hy
    · exact after_refl _
    · exact List.rel_of_pairwise_cons (List.pairwise_append.mp hitems).2.1 hy

/-- An item found at an event is not of second 0. -/
theorem found_sec_ne {items : List α} {x : α} (htime : time.sec ≠ 0)
    (h : firstLater clock time items = some x) : (clock x).sec ≠ 0 := by
  have hafter : (clock x).After time := by
    rw [firstLater] at h
    simpa only [decide_eq_true_eq] using List.find?_some h
  have hle := after_sec hafter
  intro hzero
  rw [hzero] at hle
  exact htime (BitVec.le_zero_iff.mp hle)

/-- A local holds second 0 after its search exactly if it did before and none was found. -/
theorem kept_sec_zero_iff (clock : Clock α) (items : List α) (stale : α) (htime : time.sec ≠ 0) :
    (clock ((firstLater clock time items).getD stale)).sec = 0 ↔
      ¬ Later clock time items ∧ (clock stale).sec = 0 := by
  by_cases hlater : Later clock time items
  · obtain ⟨x, hx⟩ := later_iff.mp hlater
    rw [hx]
    exact iff_of_false (found_sec_ne htime hx) fun hnone => hnone.1 hlater
  · rw [first_later_none hlater]
    exact ⟨fun hzero => ⟨hlater, hzero⟩, fun hnone => hnone.2⟩

theorem Earliest.later {items : List α} {x : α} (h : Earliest clock time items x) :
    Later clock time items := by
  obtain ⟨hafter, ⟨pre, post, rfl, -⟩, -⟩ := h
  exact ⟨x, by simp, hafter⟩

section Joined

variable {l : Lists Q S} {nodes3 nodesF : List (Addr × Q)} {nodesS : List (Addr × S)}

theorem first_none_iff {q : Lib.Fifo α} {nodes : List (Addr × α)} (h : q.Holds nodes) :
    q.first = none ↔ nodes.map Prod.snd = [] := by
  rw [h.chain.start_eq]
  cases nodes <;> simp [firstAddr]

/-- With an event and three lists the searches run, and the test decides. -/
theorem join_runs (h : Sorted qClock sClock l nodes3 nodesF nodesS)
    (hgo : ¬ (timeTp.sec = 0 ∨ l.queueP3.first = none ∨ l.surveyP.first = none ∨
      l.queuePF.first = none)) (drop : Bool) (stale : Keeps Q S) (g : Globals) : ∃ l',
    join qClock sClock drop timeTp stale g l = .ok (l',
      writeRow qClock sClock drop g
      ⟨(firstLater qClock timeTp (nodes3.map Prod.snd)).getD stale.qKeep3,
        (firstLater qClock timeTp (nodesF.map Prod.snd)).getD stale.qKeepF,
        (firstLater sClock timeTp (nodesS.map Prod.snd)).getD stale.sKeep⟩) := by
  obtain ⟨queueP3, gone3, hrun3⟩ := delete_old_runs qClock h.holds3 timeTp
  obtain ⟨queuePF, goneF, hrunF⟩ := delete_old_runs qClock h.holdsF timeTp
  obtain ⟨surveyP, goneS, hrunS⟩ := delete_old_runs sClock h.holdsS timeTp
  refine ⟨⟨queueP3, queuePF, surveyP⟩, ?_⟩
  rw [join, if_neg hgo]
  simp only [hrun3, hrunF, hrunS, bind, Except.bind]

/-- A row is right exactly if the lists have its items or the code sees that they
do not. -/
theorem joined_iff (h : Sorted qClock sClock l nodes3 nodesF nodesS) (drop : Bool)
    (timeTp : TimeStructure) (stale : Keeps Q S) (g : Globals) :
    JoinsEarliest qClock sClock timeTp (nodes3.map Prod.snd) (nodesF.map Prod.snd)
        (nodesS.map Prod.snd) (join qClock sClock drop timeTp stale g l) ↔
      SeesNone qClock sClock timeTp stale (nodes3.map Prod.snd) (nodesF.map Prod.snd)
        (nodesS.map Prod.snd) := by
  by_cases hgo : timeTp.sec = 0 ∨ l.queueP3.first = none ∨ l.surveyP.first = none ∨
      l.queuePF.first = none
  · refine iff_of_true ⟨l, none, if_pos hgo, fun r hr => by cases hr⟩ ?_
    rw [first_none_iff h.holds3, first_none_iff h.holdsS, first_none_iff h.holdsF] at hgo
    rcases hgo with hsec | h3 | hS | hF
    · exact .inr (.inl hsec)
    · exact .inr (.inr (.inl h3))
    · exact .inr (.inr (.inr (.inl hS)))
    · exact .inr (.inr (.inr (.inr (.inl hF))))
  obtain ⟨l', hrun⟩ := join_runs h hgo drop stale g
  have hfilled := hgo
  rw [first_none_iff h.holds3, first_none_iff h.holdsS, first_none_iff h.holdsF] at hfilled
  simp only [not_or] at hfilled
  obtain ⟨hsec, h3, hS, hF⟩ := hfilled
  rw [hrun]
  have hzeroS := kept_sec_zero_iff sClock (nodesS.map Prod.snd) stale.sKeep hsec
  have hzero3 := kept_sec_zero_iff qClock (nodes3.map Prod.snd) stale.qKeep3 hsec
  constructor
  · rintro ⟨l'', row, hrow, hgood⟩
    obtain ⟨-, rfl⟩ := Prod.mk.inj (Except.ok.inj hrow)
    by_cases hnone : ¬ Later sClock timeTp (nodesS.map Prod.snd) ∧
        (sClock stale.sKeep).sec = 0
    · exact .inr (.inr (.inr (.inr (.inr (.inl hnone)))))
    by_cases hnone' : ¬ Later qClock timeTp (nodes3.map Prod.snd) ∧
        (qClock stale.qKeep3).sec = 0
    · exact .inr (.inr (.inr (.inr (.inr (.inr hnone')))))
    obtain ⟨he3, heF, heS⟩ :=
      hgood _ (if_pos ⟨mt hzeroS.mp hnone, mt hzero3.mp hnone'⟩)
    exact .inl ⟨he3.later, heF.later, heS.later⟩
  · rintro (⟨hl3, hlF, hlS⟩ | hzero | hnil | hnil | hnil | hnone | hnone)
    · obtain ⟨x3, hx3⟩ := later_iff.mp hl3
      obtain ⟨xF, hxF⟩ := later_iff.mp hlF
      obtain ⟨xS, hxS⟩ := later_iff.mp hlS
      refine ⟨l', _, rfl, fun r hr => ?_⟩
      rw [hx3, hxF, hxS] at hr
      unfold writeRow at hr
      split at hr
      · obtain rfl := Option.some.inj hr
        exact ⟨first_later_earliest h.sorted3 hx3, first_later_earliest h.sortedF hxF,
          first_later_earliest h.sortedS hxS⟩
      · cases hr
    · exact absurd hzero hsec
    · exact absurd hnil h3
    · exact absurd hnil hS
    · exact absurd hnil hF
    · refine ⟨l', none, ?_, fun r hr => by cases hr⟩
      rw [writeRow, if_neg fun hboth => hboth.1 (hzeroS.mpr hnone)]
    · refine ⟨l', none, ?_, fun r hr => by cases hr⟩
      rw [writeRow, if_neg fun hboth => hboth.2 (hzero3.mpr hnone)]

end Joined

/-- The lists that the insertions of `format_data` leave. -/
def Lists.ofBuffers (s : Buffers) : Lists (Measured DataQueue) (Measured DataSurvey) :=
  ⟨s.queueP3.list, s.queuePF.list, s.surveyP.list⟩

/-- What a join does to the lists is their clean-up. -/
theorem join_clean_up {s : Buffers} {drop : Bool} {timeTp : TimeStructure}
    {stale : Keeps (Measured DataQueue) (Measured DataSurvey)} {g : Globals}
    {l : Lists (Measured DataQueue) (Measured DataSurvey)}
    {row : Option (Row (Measured DataQueue) (Measured DataSurvey))}
    (hrun : join queueClock surveyClock drop timeTp stale g (Lists.ofBuffers s) = .ok (l, row)) :
    ∃ t, s.cleanUp timeTp = .ok t ∧ Lists.ofBuffers t = l := by
  unfold join at hrun
  unfold Buffers.cleanUp
  split at hrun
  · rename_i hnone
    obtain ⟨rfl, -⟩ := Prod.mk.inj (Except.ok.inj hrun)
    exact ⟨s, if_pos hnone, rfl⟩
  · rename_i hgo
    have hgo' : ¬ (timeTp.sec = 0 ∨ s.queueP3.list.first = none ∨ s.surveyP.list.first = none ∨
      s.queuePF.list.first = none) := hgo
    rw [if_neg hgo']
    obtain ⟨⟨queueP3, gone3, found3⟩, h3, hrun⟩ := bind_ok hrun
    obtain ⟨⟨queuePF, goneF, foundF⟩, hF, hrun⟩ := bind_ok hrun
    obtain ⟨⟨surveyP, goneS, foundS⟩, hS, hrun⟩ := bind_ok hrun
    obtain ⟨rfl, -⟩ := Prod.mk.inj (Except.ok.inj hrun)
    have h3' : deleteOld queueClock timeTp s.queueP3.list = .ok (queueP3, gone3, found3) := h3
    have hF' : deleteOld queueClock timeTp s.queuePF.list = .ok (queuePF, goneF, foundF) := hF
    have hS' : deleteOld surveyClock timeTp s.surveyP.list = .ok (surveyP, goneS, foundS) := hS
    simp only [Ledger.delete, h3', hF', hS', bind, Except.bind]
    exact ⟨_, rfl, rfl⟩

/-- The lists of a run that keeps them sorted are such as a join expects. -/
theorem sorted_of_sound {s : Buffers} (h : s.Sound) : ∃ nodes3 nodesF nodesS,
    Sorted queueClock surveyClock (Lists.ofBuffers s) nodes3 nodesF nodesS := by
  obtain ⟨⟨nodes3, h3⟩, ⟨nodesF, hF⟩, ⟨nodesS, hS⟩⟩ := h
  exact ⟨nodes3, nodesF, nodesS, h3.holds, hF.holds, hS.holds, h3.sorted, hF.sorted, hS.sorted⟩

/-- Lists of one item each. -/
def singles (x y : Q) (z : S) : Lists Q S :=
  ⟨⟨(∅ : Heap Q).insert 1 ⟨x, none⟩, some 1, some 1⟩,
    ⟨(∅ : Heap Q).insert 1 ⟨y, none⟩, some 1, some 1⟩,
    ⟨(∅ : Heap S).insert 1 ⟨z, none⟩, some 1, some 1⟩⟩

theorem singles_sorted (x y : Q) (z : S) :
    Sorted qClock sClock (singles x y z) [(1, x)] [(1, y)] [(1, z)] :=
  ⟨⟨Segment.single _ 1 x, rfl⟩, ⟨Segment.single _ 1 y, rfl⟩, ⟨Segment.single _ 1 z, rfl⟩,
    List.pairwise_singleton _ _, List.pairwise_singleton _ _, List.pairwise_singleton _ _⟩

def queueAt (sec : U32) : Measured DataQueue := ⟨queueSample 3 0, queueSample 3 sec, 1000⟩

def surveyAt (sec : U32) : Measured DataSurvey :=
  ⟨surveySample 0, { surveySample 1000 with sec }, 1000⟩

/-- What the stack holds before a join. -/
def cleared : Keeps (Measured DataQueue) (Measured DataSurvey) := ⟨queueAt 0, queueAt 0, surveyAt 0⟩

theorem joined_iff_one_each : JoinsEarliest queueClock surveyClock ⟨3, 0⟩ [queueAt 5] [queueAt 6]
    [surveyAt 7] (join queueClock surveyClock true ⟨3, 0⟩ cleared ⟨0, none, none⟩
      (singles (queueAt 5) (queueAt 6) (surveyAt 7))) :=
  (joined_iff (singles_sorted _ _ _) true ⟨3, 0⟩ cleared ⟨0, none, none⟩).mpr
    (.inl ⟨⟨_, List.mem_singleton_self _, .inl (by decide)⟩,
      ⟨_, List.mem_singleton_self _, .inl (by decide)⟩,
      ⟨_, List.mem_singleton_self _, .inl (by decide)⟩⟩)

/-- Queue f has no sample after the event. The row has what was on the stack. -/
theorem queue_f_not_joined : ¬ ∀ (l : Lists (Measured DataQueue) (Measured DataSurvey))
    nodes3 nodesF nodesS, Sorted queueClock surveyClock l nodes3 nodesF nodesS →
    ∀ drop timeTp stale g, JoinsEarliest queueClock surveyClock timeTp (nodes3.map Prod.snd)
      (nodesF.map Prod.snd) (nodesS.map Prod.snd)
      (join queueClock surveyClock drop timeTp stale g l) := by
  intro h
  have hsorted : Sorted queueClock surveyClock (singles (queueAt 5) (queueAt 1) (surveyAt 5))
      _ _ _ := singles_sorted _ _ _
  obtain ⟨l, row, hrow, hgood⟩ := h _ _ _ _ hsorted true ⟨3, 0⟩ cleared ⟨0, none, none⟩
  obtain ⟨l', hrun⟩ : ∃ l', join queueClock surveyClock true ⟨3, 0⟩ cleared ⟨0, none, none⟩
      (singles (queueAt 5) (queueAt 1) (surveyAt 5)) = .ok (l', _) :=
    join_runs hsorted (by simp [singles]) true cleared ⟨0, none, none⟩
  obtain ⟨-, rfl⟩ := Prod.mk.inj (Except.ok.inj (hrun.symm.trans hrow))
  obtain ⟨-, hearliest, -⟩ := hgood ⟨true, 0, 0, 0, ⟨queueAt 5, queueAt 0, surveyAt 5⟩⟩ rfl
  obtain ⟨x, hx, hafter⟩ := hearliest.later
  rw [List.mem_singleton.mp hx] at hafter
  exact absurd hafter (by decide)

end ApTelemetry.Receiver.Join
