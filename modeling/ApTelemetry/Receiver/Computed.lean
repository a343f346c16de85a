import ApTelemetry.Lib.Ordered
import ApTelemetry.Receiver.Samples

namespace ApTelemetry.Receiver.Computed
open Lib Samples

/-- `struct time_structure`. -/
structure TimeStructure where
  sec : U32
  usec : U32

/-- The two time fields of a computed item. -/
abbrev Clock (α : Type) := α → TimeStructure

/-- An item computed for a queue has the time of the later sample. -/
def queueClock : Clock (Measured DataQueue) := fun item => ⟨item.last.sec, item.last.usec⟩

def surveyClock : Clock (Measured DataSurvey) := fun item => ⟨item.last.sec, item.last.usec⟩

/-- Not before, by `sec` and then `usec`. -/
def TimeStructure.After (later earlier : TimeStructure) : Prop :=
  earlier.sec < later.sec ∨ earlier.sec = later.sec ∧ earlier.usec ≤ later.usec

instance (later earlier : TimeStructure) : Decidable (later.After earlier) :=
  inferInstanceAs (Decidable (_ ∨ _))

variable {α : Type} (clock : Clock α)

/-- A new item goes behind the last, or else in front of the first with a later
`sec`. In front of the head it is not linked at all. -/
def insertItem (block : Addr) (newitem : α) (q : Lib.Fifo α) : Except Fault (Lib.Fifo α) :=
  let heap : Heap α := q.heap.insert block ⟨newitem, none⟩
  match q.first with
  | none => .ok ⟨heap, some block, some block⟩
  | some _ => do
    let last ← heap.read q.last
    if (clock newitem).After (clock last.item) then do
      let heap ← heap.setNext q.last (some block)
      .ok { q with heap, last := some block }
    else do
      let (ptrpre, ptr) ← heap.seek (fun item => (clock newitem).sec < (clock item).sec)
        heap.entries.length none q.first
      if ptrpre.isSome then do
        let heap ← heap.setNext ptrpre (some block)
        let heap ← heap.setNext (some block) ptr
        .ok { q with heap }
      else .ok { q with heap }

/-- The search for the state after an event: the item found, and the last one
before it that is older than 10 seconds. -/
def searchTime (time : TimeStructure) (heap : Heap α) :
    Nat → Option Addr → Option Addr → Except Fault (Option Addr × Option α)
  | _, wait, none => .ok (wait, none)
  | 0, _, some _ => .error .endless
  | turns + 1, wait, some tmp => do
    let c ← heap.read (some tmp)
    if (clock c.item).After time then .ok (wait, some c.item)
    else
      searchTime time heap turns
        (if 10 < time.sec - (clock c.item).sec then some tmp else wait) c.next

/-- The items in front of that one are released. -/
def deleteOld (time : TimeStructure) (q : Lib.Fifo α) :
    Except Fault (Lib.Fifo α × List α × Option α) := do
  let (wait, keep) ← searchTime clock time q.heap q.heap.entries.length none q.first
  match wait with
  | none => .ok (q, [], keep)
  | some waitToDel => do
    let (heap, gone) ← q.heap.freeUpTo waitToDel (q.heap.entries.length + 1) q.first
    .ok ({ q with heap, first := some waitToDel }, gone, keep)

/-- A list of computed items. Everything `inserted` and what is `gone`, with the
time it was deleted at, are histories that nothing reads. -/
structure Ledger (α : Type) where
  list : Lib.Fifo α
  inserted : List α
  gone : List (α × TimeStructure)

namespace Ledger

def insert (block : Addr) (newitem : α) (l : Ledger α) : Except Fault (Ledger α) := do
  let list ← insertItem clock block newitem l.list
  .ok { l with list, inserted := l.inserted ++ [newitem] }

def delete (time : TimeStructure) (l : Ledger α) : Except Fault (Ledger α) := do
  let (list, gone, _) ← deleteOld clock time l.list
  .ok { l with list, gone := l.gone ++ gone.map fun x => (x, time) }

/-- The list is sorted, its last pointer right, and it holds what was inserted
but for what was deleted when it was older than 10 seconds. -/
structure Sound (l : Ledger α) (nodes : List (Addr × α)) : Prop where
  holds : l.list.Holds nodes
  sorted : nodes.Pairwise fun n m => (clock m.2).After (clock n.2)
  accounted : (nodes.map Prod.snd ++ l.gone.map Prod.fst).Perm l.inserted
  old : ∀ d ∈ l.gone, (clock d.1).sec.toNat + 10 < d.2.sec.toNat

end Ledger

/-- Where the code finds the place for an item: behind the head, and after
everything of the same second. -/
def InPlace (nodes : List (Addr × α)) (newitem : α) : Prop :=
  (∀ n ∈ nodes.head?, (clock n.2).sec ≤ (clock newitem).sec) ∧
  ∀ n ∈ nodes, (clock n.2).sec = (clock newitem).sec →
    (clock n.2).usec ≤ (clock newitem).usec

section Time

variable {s t u : TimeStructure}

theorem after_trans (h : u.After t) (h' : t.After s) : u.After s := by
  unfold TimeStructure.After at *
  rcases h with h | ⟨h, hu⟩ <;> rcases h' with h' | ⟨h', hu'⟩ <;> bv_omega

theorem after_refl (t : TimeStructure) : t.After t := .inr ⟨rfl, BitVec.le_refl _⟩

theorem after_of_not (h : ¬ t.After s) : s.After t := by
  unfold TimeStructure.After at *
  bv_omega

theorem after_sec (h : t.After s) : s.sec ≤ t.sec := by
  unfold TimeStructure.After at h
  bv_omega

end Time

variable {clock}

section Insert

variable {q : Lib.Fifo α} {nodes : List (Addr × α)} {newitem : α}

/-- The nodes the slow path walks past. -/
def before (clock : Clock α) (newitem : α) (n : Addr × α) : Bool :=
  !decide ((clock newitem).sec < (clock n.2).sec)

theorem insert_empty (block : Addr) (h : q.Holds []) : insertItem clock block newitem q =
    .ok ⟨q.heap.insert block ⟨newitem, none⟩, some block, some block⟩ := by
  have hfirst : q.first = none := h.chain.start_eq
  simp only [insertItem, hfirst]

variable {init : List (Addr × α)} {l : Addr} {y : α} {block : Addr}

/-- The fast path. -/
theorem insert_behind (h : q.Holds (init ++ [(l, y)])) (fresh : q.heap.lookup block = none)
    (hafter : (clock newitem).After (clock y)) :
    ∃ t, insertItem clock block newitem q = .ok t ∧
      t.Holds (init ++ [(l, y)] ++ [(block, newitem)]) := by
  obtain ⟨t, hrun, hholds⟩ := h.append newitem fresh
  refine ⟨t, ?_, hholds⟩
  rw [← hrun]
  have hlast : q.last = some l := by simpa using h.last
  have hlook := h.chain.lookup_append
  have hne : l ≠ block := by
    rintro rfl
    rw [fresh] at hlook
    cases hlook
  have hlook' : (q.heap.insert block ⟨newitem, none⟩).lookup l = some ⟨y, none⟩ := by
    rw [AList.lookup_insert_ne hne]
    exact hlook
  unfold insertItem Lib.Fifo.append
  cases q.first with
  | none => rfl
  | some f =>
    simp only [hlast, Heap.read_of_lookup hlook', bind, Except.bind, if_pos hafter]

/-- The slow path: the item goes behind all nodes of its second or earlier ones,
if there are any. -/
theorem insert_slow (h : q.Holds (init ++ [(l, y)])) (fresh : q.heap.lookup block = none)
    (hbefore : ¬ (clock newitem).After (clock y)) : ∃ heap,
    insertItem clock block newitem q = .ok { q with heap } ∧ Chain heap q.first
      (if (init ++ [(l, y)]).takeWhile (before clock newitem) = [] then init ++ [(l, y)]
      else insertBehind (before clock newitem) (block, newitem) (init ++ [(l, y)])) := by
  have hlast : q.last = some l := by simpa using h.last
  have hne : l ≠ block := by
    rintro rfl
    exact h.chain.lookup_mem l (by simp) fresh
  have hframe : Chain (q.heap.insert block ⟨newitem, none⟩) q.first (init ++ [(l, y)]) := by
    refine h.chain.frame fun a ha => AList.lookup_insert_ne ?_
    rintro rfl
    exact h.chain.lookup_mem a ha fresh
  have hlook := hframe.lookup_append
  obtain ⟨f, hf⟩ : ∃ f, q.first = some f := by
    rw [h.chain.start_eq]
    cases init <;> exact ⟨_, rfl⟩
  have hseek := hframe.seek_runs (fun item => decide ((clock newitem).sec < (clock item).sec)) none
    _ hframe.length_le
  have hrun : insertItem clock block newitem q =
      (if (lastAddr none ((init ++ [(l, y)]).takeWhile (before clock newitem))).isSome then do
        let heap ← Heap.setNext (q.heap.insert block ⟨newitem, none⟩)
          (lastAddr none ((init ++ [(l, y)]).takeWhile (before clock newitem))) (some block)
        let heap ← heap.setNext (some block)
          (firstAddr ((init ++ [(l, y)]).dropWhile (before clock newitem)))
        .ok { q with heap }
      else .ok { q with heap := q.heap.insert block ⟨newitem, none⟩ }) := by
    unfold insertItem
    rw [hf] at hseek ⊢
    simp only [hlast, Heap.read_of_lookup hlook, bind, Except.bind, if_neg hbefore, hseek]
    rfl
  rw [hrun]
  have hparts := List.takeWhile_append_dropWhile (p := before clock newitem) (l := init ++ [(l, y)])
  rcases List.eq_nil_or_concat ((init ++ [(l, y)]).takeWhile (before clock newitem)) with
    hnil | ⟨xs, ⟨a, x⟩, hcons⟩
  · rw [if_pos hnil, hnil]
    exact ⟨_, rfl, hframe⟩
  · rw [List.concat_eq_append] at hcons
    rw [hcons, List.append_assoc, List.singleton_append] at hparts
    have hsome : (init ++ [(l, y)]).takeWhile (before clock newitem) ≠ [] := by
      rw [hcons]
      simp
    rw [if_neg hsome, insertBehind, hcons, List.append_assoc, List.singleton_append]
    generalize (init ++ [(l, y)]).dropWhile (before clock newitem) = ys at hparts ⊢
    rw [← hparts] at h hframe
    have hab : block ≠ a := by
      rintro rfl
      exact h.chain.lookup_mem block (by simp) fresh
    have hfound := hframe.lookup_append
    have hblock : ((q.heap.insert block ⟨newitem, none⟩).insert a ⟨x, some block⟩).lookup block =
        some ⟨newitem, none⟩ := by
      rw [AList.lookup_insert_ne hab, AList.lookup_insert]
    refine ⟨_, ?_, h.chain.splice newitem fresh⟩
    simp only [lastAddr, List.getLast?_concat, Option.map_some, Option.some_or, Option.isSome_some,
      if_true, Heap.set_next_of_lookup (some block) hfound, Heap.set_next_of_lookup _ hblock, bind,
      Except.bind]

end Insert

namespace Ledger

variable {l : Ledger α} {nodes : List (Addr × α)} {newitem : α} {block : Addr}

/-- Nothing of the item's second or an earlier one stands behind a later node. -/
theorem Sound.sec_before (h : l.Sound clock nodes) {n : Addr × α}
    (hn : n ∈ nodes.dropWhile (before clock newitem)) : (clock newitem).sec < (clock n.2).sec := by
  have hsorted := h.sorted
  rw [← List.takeWhile_append_dropWhile (p := before clock newitem) (l := nodes),
    List.pairwise_append] at hsorted
  have hback := hsorted.2.1
  cases hdrop : nodes.dropWhile (before clock newitem) with
  | nil =>
    rw [hdrop] at hn
    cases hn
  | cons m rest =>
    have hstop : before clock newitem m = false := by
      have hhead := List.head_dropWhile_not (before clock newitem) (l := nodes) (by simp [hdrop])
      simpa [hdrop] using hhead
    have hm : (clock newitem).sec < (clock m.2).sec := by simpa [before] using hstop
    rw [hdrop] at hn hback
    rcases List.mem_cons.mp hn with rfl | hn
    · exact hm
    · have hle := after_sec (List.rel_of_pairwise_cons hback hn)
      bv_omega

theorem mem_before {n : Addr × α} (hn : n ∈ nodes.takeWhile (before clock newitem)) :
    (clock n.2).sec ≤ (clock newitem).sec := by
  have hbefore := List.mem_takeWhile_imp hn
  simp only [before, Bool.not_eq_true', decide_eq_false_iff_not] at hbefore
  bv_omega

/-- Where the place is found the list stays sorted, and only there. -/
theorem Sound.in_place_iff (h : l.Sound clock nodes) (block : Addr) :
    InPlace clock nodes newitem ↔ nodes = [] ∨
      nodes.takeWhile (before clock newitem) ≠ [] ∧
      (insertBehind (before clock newitem) (block, newitem) nodes).Pairwise
        fun n m => (clock m.2).After (clock n.2) := by
  rw [insert_behind_pairwise h.sorted]
  constructor
  · rintro ⟨hhead, hsame⟩
    cases nodes with
    | nil => exact .inl rfl
    | cons n rest =>
      have hle : before clock newitem n = true := by
        have := hhead n rfl
        simp only [before, Bool.not_eq_true', decide_eq_false_iff_not]
        bv_omega
      refine .inr ⟨by simp [hle], fun m hm => ?_, fun m hm => ?_⟩
      · have hmem := (List.takeWhile_prefix (before clock newitem)).subset hm
        have hsec := mem_before hm
        by_cases heq : (clock m.2).sec = (clock newitem).sec
        · exact .inr ⟨heq, hsame m hmem heq⟩
        · exact .inl (by bv_omega)
      · exact .inl (h.sec_before hm)
  · rintro (rfl | ⟨hsome, hfront, -⟩)
    · exact ⟨by simp, by simp⟩
    · refine ⟨fun n hn => ?_, fun n hn heq => ?_⟩
      · cases nodes with
        | nil => simp at hsome
        | cons m rest =>
          obtain rfl : m = n := Option.some.inj hn
          have hm : m ∈ (m :: rest).takeWhile (before clock newitem) := by
            rw [List.takeWhile_cons] at hsome ⊢
            split
            · exact List.mem_cons_self ..
            · rename_i hle
              exact absurd (if_neg hle) hsome
          exact mem_before hm
      · rw [← List.takeWhile_append_dropWhile (p := before clock newitem) (l := nodes)] at hn
        rcases List.mem_append.mp hn with hn | hn
        · rcases hfront n hn with hlt | ⟨-, hle⟩
          · bv_omega
          · exact hle
        · have := h.sec_before hn
          bv_omega

/-- A list with the item besides the nodes accounts for the insertion of the item. -/
theorem Sound.accounted_insert (h : l.Sound clock nodes) {xs : List α}
    (hxs : xs.Perm (newitem :: nodes.map Prod.snd)) :
    (xs ++ l.gone.map Prod.fst).Perm (l.inserted ++ [newitem]) := by
  refine (hxs.append_right _).trans ?_
  rw [List.cons_append]
  exact (h.accounted.cons newitem).trans (List.perm_append_singleton newitem l.inserted).symm

/-- The last item of a sound list is not before any of its items. -/
theorem Sound.last_after {init : List (Addr × α)} {a : Addr} {y : α}
    (h : l.Sound clock (init ++ [(a, y)])) :
    ∀ n ∈ init ++ [(a, y)], (clock y).After (clock n.2) := by
  intro n hn
  rcases List.mem_append.mp hn with hn | hn
  · exact (List.pairwise_append.mp h.sorted).2.2 n hn (a, y) (List.mem_singleton_self _)
  · rw [List.mem_singleton.mp hn]
    exact after_refl _

/-- The first item of a list. -/
theorem Sound.insert_first (h : l.Sound clock []) (block : Addr) (newitem : α) :
    ∃ t nodes', l.insert clock block newitem = .ok t ∧ t.Sound clock nodes' := by
  refine ⟨{ l with
    list := ⟨l.list.heap.insert block ⟨newitem, none⟩, some block, some block⟩
    inserted := l.inserted ++ [newitem] }, [(block, newitem)], ?_, ?_⟩
  · rw [insert, insert_empty block h.holds]
    rfl
  · exact ⟨⟨Segment.single _ block newitem, rfl⟩, List.pairwise_singleton _ _,
      h.accounted_insert (List.Perm.refl _), h.old⟩

section Last

variable {init : List (Addr × α)} {a : Addr} {y : α}

/-- An item that is not before the last one goes behind all of them. -/
theorem Sound.insert_behind_newest (h : l.Sound clock (init ++ [(a, y)]))
    (hafter : (clock newitem).After (clock y)) (block : Addr) :
    (init ++ [(a, y)]).takeWhile (before clock newitem) = init ++ [(a, y)] ∧
      insertBehind (before clock newitem) (block, newitem) (init ++ [(a, y)]) =
        init ++ [(a, y)] ++ [(block, newitem)] := by
  have hfront : (init ++ [(a, y)]).takeWhile (before clock newitem) = init ++ [(a, y)] := by
    refine List.takeWhile_eq_self_iff.mpr fun n hn => ?_
    have := after_sec (after_trans hafter (h.last_after n hn))
    simp only [before, Bool.not_eq_true', decide_eq_false_iff_not]
    bv_omega
  refine ⟨hfront, ?_⟩
  rw [insertBehind, hfront, List.dropWhile_eq_nil_iff.mpr fun n hn => ?_]
  exact List.mem_takeWhile_imp (hfront.symm ▸ hn)

/-- The fast path keeps the list sorted. -/
theorem Sound.sorted_newest (h : l.Sound clock (init ++ [(a, y)]))
    (hafter : (clock newitem).After (clock y)) :
    (init ++ [(a, y)] ++ [(block, newitem)]).Pairwise
      fun n m => (clock m.2).After (clock n.2) := by
  refine List.pairwise_append.mpr ⟨h.sorted, List.pairwise_singleton _ _, fun n hn m hm => ?_⟩
  rw [List.mem_singleton.mp hm]
  exact after_trans hafter (h.last_after n hn)

/-- The fast path keeps the list sound. -/
theorem Sound.insert_newest (h : l.Sound clock (init ++ [(a, y)]))
    (fresh : l.list.heap.lookup block = none) (hafter : (clock newitem).After (clock y)) :
    ∃ t nodes', l.insert clock block newitem = .ok t ∧ t.Sound clock nodes' := by
  obtain ⟨list, hrun, hholds⟩ := insert_behind h.holds fresh hafter
  refine ⟨{ l with list, inserted := l.inserted ++ [newitem] }, _, ?_, hholds,
    h.sorted_newest hafter, h.accounted_insert ?_, h.old⟩
  · rw [insert, hrun]
    rfl
  · rw [List.map_append]
    exact List.perm_append_singleton newitem _

/-- An item that is before the last one and keeps the list sorted does not become the last
one. -/
theorem Sound.last_of_sorted (h : l.Sound clock (init ++ [(a, y)]))
    (hbefore : ¬ (clock newitem).After (clock y))
    (hsorted : (insertBehind (before clock newitem) (block, newitem) (init ++ [(a, y)])).Pairwise
      fun n m => (clock m.2).After (clock n.2)) :
    (insertBehind (before clock newitem) (block, newitem) (init ++ [(a, y)])).getLast? =
      (init ++ [(a, y)]).getLast? := by
  have hparts := List.takeWhile_append_dropWhile (p := before clock newitem)
    (l := init ++ [(a, y)])
  have hback : (init ++ [(a, y)]).dropWhile (before clock newitem) ≠ [] := by
    intro hnil
    have hmem : (a, y) ∈ (init ++ [(a, y)]).takeWhile (before clock newitem) := by
      rw [hnil, List.append_nil] at hparts
      rw [hparts]
      simp
    exact hbefore (((insert_behind_pairwise h.sorted).mp hsorted).1 _ hmem)
  rw [insertBehind, List.getLast?_append_of_ne_nil _ (by simp),
    List.getLast?_cons_of_ne_nil hback]
  conv_rhs => rw [← hparts]
  exact (List.getLast?_append_of_ne_nil _ hback).symm

/-- On the slow path the list stays sound exactly if there is a node to go behind and the
place behind it is the item's. -/
theorem Sound.insert_older_iff (h : l.Sound clock (init ++ [(a, y)]))
    (fresh : l.list.heap.lookup block = none) (hbefore : ¬ (clock newitem).After (clock y)) :
    (∃ t nodes', l.insert clock block newitem = .ok t ∧ t.Sound clock nodes') ↔
      (init ++ [(a, y)]).takeWhile (before clock newitem) ≠ [] ∧
      (insertBehind (before clock newitem) (block, newitem) (init ++ [(a, y)])).Pairwise
        fun n m => (clock m.2).After (clock n.2) := by
  obtain ⟨heap, hrun, hchain⟩ := insert_slow h.holds fresh hbefore
  have hinsert : l.insert clock block newitem = .ok { l with
      list := { l.list with heap }, inserted := l.inserted ++ [newitem] } := by
    rw [insert, hrun]
    rfl
  rw [hinsert]
  constructor
  · rintro ⟨t, nodes', ht, hsound⟩
    obtain rfl := Except.ok.inj ht
    obtain rfl := hsound.holds.chain.unique hchain
    by_cases hnone : (init ++ [(a, y)]).takeWhile (before clock newitem) = []
    · -- the item is in no place, but counted as inserted
      have hlength := hsound.accounted.length_eq
      rw [if_pos hnone] at hlength
      have hcount := h.accounted.length_eq
      simp only [List.length_append, List.length_singleton] at hlength hcount
      omega
    · have hsorted := hsound.sorted
      rw [if_neg hnone] at hsorted
      exact ⟨hnone, hsorted⟩
  · rintro ⟨hsome, hsorted⟩
    rw [if_neg hsome] at hchain
    refine ⟨_, _, rfl, ⟨hchain, ?_⟩, hsorted, h.accounted_insert ?_, h.old⟩
    · rw [h.last_of_sorted hbefore hsorted]
      exact h.holds.last
    · exact insert_behind_perm.map Prod.snd

end Last

/-- An insertion keeps the list sound exactly if the item's place is found. -/
theorem Sound.insert_iff (h : l.Sound clock nodes) (fresh : l.list.heap.lookup block = none) :
    (∃ t nodes', l.insert clock block newitem = .ok t ∧ t.Sound clock nodes') ↔
      InPlace clock nodes newitem := by
  rw [h.in_place_iff block]
  rcases List.eq_nil_or_concat nodes with rfl | ⟨init, ⟨a, y⟩, rfl⟩
  · exact ⟨fun _ => .inl rfl, fun _ => h.insert_first block newitem⟩
  · rw [List.concat_eq_append] at h ⊢
    have hne : init ++ [(a, y)] ≠ [] := by simp
    by_cases hafter : (clock newitem).After (clock y)
    · obtain ⟨hfront, hplace⟩ := h.insert_behind_newest hafter block
      rw [hplace, hfront]
      exact ⟨fun _ => .inr ⟨hne, h.sorted_newest hafter⟩, fun _ => h.insert_newest fresh hafter⟩
    · rw [h.insert_older_iff fresh hafter]
      exact ⟨.inr, fun hor => hor.resolve_left hne⟩

end Ledger

section Delete

variable {time : TimeStructure}

/-- An item that an event finds outdated. -/
def Outdated (clock : Clock α) (time : TimeStructure) (item : α) : Prop :=
  ¬ (clock item).After time ∧ 10 < time.sec - (clock item).sec

theorem search_time_runs (time : TimeStructure) {heap : Heap α} {p : Option Addr}
    {nodes : List (Addr × α)} (h : Chain heap p nodes) (wait : Option Addr) (turns : Nat)
    (hn : nodes.length ≤ turns) :
    ∃ found keep, searchTime clock time heap turns wait p = .ok (found, keep) ∧
      (found = wait ∨ ∃ pre a item post, nodes = pre ++ (a, item) :: post ∧ found = some a ∧
        Outdated clock time item) := by
  induction nodes generalizing p wait turns with
  | nil =>
    obtain rfl : p = none := h.start_eq
    exact ⟨wait, none, by cases turns <;> rfl, .inl rfl⟩
  | cons n nodes ih =>
    obtain ⟨turns, rfl⟩ : ∃ k, turns = k + 1 := ⟨turns - 1, by simp at hn; omega⟩
    cases h with
    | @cons a x p _ _ found tail =>
      simp only [searchTime, Heap.read_of_lookup found, bind, Except.bind]
      by_cases hafter : (clock x).After time
      · rw [if_pos hafter]
        exact ⟨wait, some x, rfl, .inl rfl⟩
      · rw [if_neg hafter]
        obtain ⟨found', keep, hrun, hfound⟩ :=
          ih tail (if 10 < time.sec - (clock x).sec then some a else wait) turns
            (by simpa using hn)
        refine ⟨found', keep, hrun, ?_⟩
        rcases hfound with rfl | ⟨pre, b, item, post, rfl, hb, hold⟩
        · by_cases hold : 10 < time.sec - (clock x).sec
          · rw [if_pos hold]
            exact .inr ⟨[], a, x, nodes, rfl, rfl, hafter, hold⟩
          · rw [if_neg hold]
            exact .inl rfl
        · exact .inr ⟨(a, x) :: pre, b, item, post, rfl, hb, hold⟩

/-- What stands in front of an outdated item of a sorted list is outdated by as much. -/
theorem Ledger.Sound.outdated {l : Ledger α} {xs ys : List (Addr × α)} {a : Addr} {x : α}
    (h : l.Sound clock (xs ++ (a, x) :: ys)) (hold : Outdated clock time x) :
    ∀ n ∈ xs, (clock n.2).sec.toNat + 10 < time.sec.toNat := by
  intro n hn
  have hle := after_sec ((List.pairwise_append.mp h.sorted).2.2 n hn (a, x)
    (List.mem_cons_self ..))
  obtain ⟨hnot, hfar⟩ := hold
  have hpast := after_sec (after_of_not hnot)
  bv_omega

/-- Deleting keeps a sound list sound. -/
theorem Ledger.Sound.delete {l : Ledger α} {nodes : List (Addr × α)} (h : l.Sound clock nodes)
    (time : TimeStructure) :
    ∃ t nodes', l.delete clock time = .ok t ∧ t.Sound clock nodes' := by
  obtain ⟨found, keep, hsearch, hfound⟩ :=
    search_time_runs time h.holds.chain none _ h.holds.chain.length_le
  rcases hfound with rfl | ⟨xs, a, x, ys, rfl, rfl, hold⟩
  · refine ⟨{ l with gone := l.gone ++ [] }, nodes, ?_, ?_⟩
    · rw [Ledger.delete, deleteOld, hsearch]
      rfl
    · rw [List.append_nil]
      exact h
  · obtain ⟨heap, hfree, hchain⟩ := h.holds.chain.free_up_to
      (l.list.heap.entries.length + 1)
      (by have := h.holds.chain.length_le; simp at this; omega)
    refine ⟨{ l with
      list := { l.list with heap, first := some a }
      gone := l.gone ++ (xs.map Prod.snd).map fun x => (x, time) }, (a, x) :: ys, ?_,
      ⟨hchain, ?_⟩, ?_, ?_, ?_⟩
    · rw [Ledger.delete, deleteOld, hsearch]
      simp only [bind, Except.bind, hfree]
    · rw [h.holds.last, List.getLast?_append_of_ne_nil _ (by simp)]
    · exact (List.pairwise_append.mp h.sorted).2.1
    · refine List.Perm.trans ?_ h.accounted
      simp only [List.map_append, List.map_map, Function.comp_def, List.map_cons]
      refine (List.perm_append_comm.append_left _).trans ?_
      rw [← List.append_assoc]
      exact List.perm_append_comm.append_right _
    · intro d hd
      rcases List.mem_append.mp hd with hd | hd
      · exact h.old d hd
      · obtain ⟨item, hitem, rfl⟩ := List.mem_map.mp hd
        obtain ⟨n, hn, rfl⟩ := List.mem_map.mp hitem
        exact h.outdated hold n hn

end Delete

/-- The three lists of `format_data`. -/
structure Buffers where
  queueP3 : Ledger (Measured DataQueue)
  queuePF : Ledger (Measured DataQueue)
  surveyP : Ledger (Measured DataSurvey)

inductive Action where
  | insertQueue3 (block : Addr) (newitem : Measured DataQueue)
  | insertQueueF (block : Addr) (newitem : Measured DataQueue)
  | insertSurvey (block : Addr) (newitem : Measured DataSurvey)
  | cleanUp (timeTp : TimeStructure)

namespace Buffers

def insertQueue3 (block : Addr) (newitem : Measured DataQueue) (s : Buffers) :
    Except Fault Buffers := do
  let queueP3 ← s.queueP3.insert queueClock block newitem
  .ok { s with queueP3 }

def insertQueueF (block : Addr) (newitem : Measured DataQueue) (s : Buffers) :
    Except Fault Buffers := do
  let queuePF ← s.queuePF.insert queueClock block newitem
  .ok { s with queuePF }

def insertSurvey (block : Addr) (newitem : Measured DataSurvey) (s : Buffers) :
    Except Fault Buffers := do
  let surveyP ← s.surveyP.insert surveyClock block newitem
  .ok { s with surveyP }

/-- The search for the states at an event, which both kinds of events make. -/
def cleanUp (timeTp : TimeStructure) (s : Buffers) : Except Fault Buffers :=
  if timeTp.sec = 0 ∨ s.queueP3.list.first = none ∨ s.surveyP.list.first = none ∨
      s.queuePF.list.first = none then .ok s
  else do
    let queueP3 ← s.queueP3.delete queueClock timeTp
    let queuePF ← s.queuePF.delete queueClock timeTp
    let surveyP ← s.surveyP.delete surveyClock timeTp
    .ok { queueP3, queuePF, surveyP }

/-- `malloc` hands out a block that is not in use. -/
def enabled (s : Buffers) : Action → Prop
  | .insertQueue3 block _ => s.queueP3.list.heap.lookup block = none
  | .insertQueueF block _ => s.queuePF.list.heap.lookup block = none
  | .insertSurvey block _ => s.surveyP.list.heap.lookup block = none
  | .cleanUp _ => True

def exec (s : Buffers) : Action → Except Fault Buffers
  | .insertQueue3 block newitem => s.insertQueue3 block newitem
  | .insertQueueF block newitem => s.insertQueueF block newitem
  | .insertSurvey block newitem => s.insertSurvey block newitem
  | .cleanUp timeTp => s.cleanUp timeTp

end Buffers

def machine : Machine Buffers Action Fault where
  start := ⟨⟨⟨∅, none, none⟩, [], []⟩, ⟨⟨∅, none, none⟩, [], []⟩, ⟨⟨∅, none, none⟩, [], []⟩⟩
  enabled := Buffers.enabled
  exec := Buffers.exec

/-- Each list is sorted, ends at its last pointer and holds all it should. -/
def Buffers.Sound (s : Buffers) : Prop :=
  (∃ nodes, s.queueP3.Sound queueClock nodes) ∧ (∃ nodes, s.queuePF.Sound queueClock nodes) ∧
    ∃ nodes, s.surveyP.Sound surveyClock nodes

/-- The action runs through and leaves the lists as they should be. -/
def LeavesSound (_ : Buffers) (_ : Action) (result : Except Fault Buffers) : Prop :=
  ∃ t, result = .ok t ∧ t.Sound

/-- The place of an item to insert is one that the code finds. -/
def Placed (s : Buffers) : Action → Prop
  | .insertQueue3 _ newitem =>
    ∀ nodes, s.queueP3.list.Holds nodes → InPlace queueClock nodes newitem
  | .insertQueueF _ newitem =>
    ∀ nodes, s.queuePF.list.Holds nodes → InPlace queueClock nodes newitem
  | .insertSurvey _ newitem =>
    ∀ nodes, s.surveyP.list.Holds nodes → InPlace surveyClock nodes newitem
  | .cleanUp _ => True

theorem Ledger.Sound.insert_iff_placed {l : Ledger α} {nodes : List (Addr × α)} {newitem : α}
    {block : Addr} (h : l.Sound clock nodes) (fresh : l.list.heap.lookup block = none) :
    (∃ t nodes', l.insert clock block newitem = .ok t ∧ t.Sound clock nodes') ↔
      ∀ nodes, l.list.Holds nodes → InPlace clock nodes newitem := by
  rw [h.insert_iff fresh]
  constructor
  · intro hin nodes' hholds
    obtain rfl := h.holds.chain.unique hholds.chain
    exact hin
  · exact fun hall => hall nodes h.holds

theorem sound_start : machine.start.Sound :=
  have hempty : ∀ {α : Type} (clock : Clock α),
      Ledger.Sound clock ⟨⟨∅, none, none⟩, [], []⟩ [] := fun _ =>
    ⟨⟨.nil none, rfl⟩, .nil, .nil, by simp⟩
  ⟨⟨_, hempty _⟩, ⟨_, hempty _⟩, ⟨_, hempty _⟩⟩

theorem clean_up_sound {s : Buffers} (h : s.Sound) (timeTp : TimeStructure) :
    ∃ t, s.cleanUp timeTp = .ok t ∧ t.Sound := by
  obtain ⟨⟨nodes3, h3⟩, ⟨nodesF, hF⟩, ⟨nodesS, hS⟩⟩ := h
  rw [Buffers.cleanUp]
  split
  · exact ⟨s, rfl, ⟨nodes3, h3⟩, ⟨nodesF, hF⟩, ⟨nodesS, hS⟩⟩
  · obtain ⟨queueP3, nodes3', hrun3, h3'⟩ := h3.delete timeTp
    obtain ⟨queuePF, nodesF', hrunF, hF'⟩ := hF.delete timeTp
    obtain ⟨surveyP, nodesS', hrunS, hS'⟩ := hS.delete timeTp
    refine ⟨⟨queueP3, queuePF, surveyP⟩, ?_, ⟨nodes3', h3'⟩, ⟨nodesF', hF'⟩, ⟨nodesS', hS'⟩⟩
    simp only [hrun3, hrunF, hrunS, bind, Except.bind]

/-- An insertion into one list leaves all of them sound when it leaves that one so. -/
theorem leaves_sound_of_insert {l : Ledger α} {block : Addr} {newitem : α}
    {store : Ledger α → Buffers} {rest : Prop}
    (hstore : ∀ l', (store l').Sound ↔ (∃ nodes, l'.Sound clock nodes) ∧ rest) (hrest : rest)
    (s : Buffers) (a : Action) :
    LeavesSound s a (l.insert clock block newitem >>= fun l' => .ok (store l')) ↔
      ∃ t nodes', l.insert clock block newitem = .ok t ∧ t.Sound clock nodes' := by
  cases hrun : l.insert clock block newitem with
  | error fault =>
    constructor
    · rintro ⟨t, ht, -⟩
      cases ht
    · rintro ⟨t, nodes, ht, -⟩
      cases ht
  | ok l' =>
    constructor
    · rintro ⟨t, ht, hsound⟩
      obtain rfl := Except.ok.inj ht
      obtain ⟨⟨nodes, hl⟩, -⟩ := (hstore l').mp hsound
      exact ⟨l', nodes, rfl, hl⟩
    · rintro ⟨t, nodes, ht, hl⟩
      obtain rfl := Except.ok.inj ht
      exact ⟨_, rfl, (hstore l').mpr ⟨⟨nodes, hl⟩, hrest⟩⟩

theorem leaves_sound_iff {s : Buffers} (h : s.Sound) {a : Action} (ha : s.enabled a) :
    LeavesSound s a (s.exec a) ↔ Placed s a := by
  have hall := h
  obtain ⟨⟨nodes3, h3⟩, ⟨nodesF, hF⟩, ⟨nodesS, hS⟩⟩ := hall
  cases a with
  | insertQueue3 block newitem =>
    refine Iff.trans ?_ (h3.insert_iff_placed ha)
    have hstore : ∀ l', (Buffers.mk l' s.queuePF s.surveyP).Sound ↔
        (∃ nodes, l'.Sound queueClock nodes) ∧ (∃ nodes, s.queuePF.Sound queueClock nodes) ∧
          ∃ nodes, s.surveyP.Sound surveyClock nodes := fun _ => Iff.rfl
    exact leaves_sound_of_insert hstore h.2 _ _
  | insertQueueF block newitem =>
    refine Iff.trans ?_ (hF.insert_iff_placed ha)
    have hstore : ∀ l', (Buffers.mk s.queueP3 l' s.surveyP).Sound ↔
        (∃ nodes, l'.Sound queueClock nodes) ∧ (∃ nodes, s.queueP3.Sound queueClock nodes) ∧
          ∃ nodes, s.surveyP.Sound surveyClock nodes := fun _ => and_left_comm
    exact leaves_sound_of_insert hstore ⟨h.1, h.2.2⟩ _ _
  | insertSurvey block newitem =>
    refine Iff.trans ?_ (hS.insert_iff_placed ha)
    have hstore : ∀ l', (Buffers.mk s.queueP3 s.queuePF l').Sound ↔
        (∃ nodes, l'.Sound surveyClock nodes) ∧ (∃ nodes, s.queueP3.Sound queueClock nodes) ∧
          ∃ nodes, s.queuePF.Sound queueClock nodes := fun _ => and_assoc.symm.trans and_comm
    exact leaves_sound_of_insert hstore ⟨h.1, h.2.1⟩ _ _
  | cleanUp timeTp => exact iff_of_true (clean_up_sound h timeTp) trivial

/-- In every run the lists stay sorted and complete exactly if every item inserted
stands behind the head and after all items of its second. -/
theorem computed_lists_iff (actions : List Action) :
    machine.Throughout LeavesSound machine.start actions ↔
    machine.Throughout (fun s a _ => Placed s a) machine.start actions := by
  refine Machine.throughout_iff Buffers.Sound (fun s a hs ha => leaves_sound_iff hs ha) ?_
    sound_start actions
  intro s a t hs ha hplaced hrun
  obtain ⟨t', ht', hsound⟩ := (leaves_sound_iff hs ha).mpr hplaced
  obtain rfl := Except.ok.inj (hrun.symm.trans ht')
  exact hsound

/-- An item of queue 3 whose later sample was taken at second 5. -/
def atSecondFive (usec : U32) : Measured DataQueue :=
  ⟨queueSample 3 4, ⟨3, 0, 0, 5, usec, 0, 0, 0, 0, 0, 0⟩, 1000⟩

/-- Within one second the later item is inserted first. The other goes behind it,
and the last pointer stays where it was. -/
theorem same_second_unsorted : ¬ ∀ actions,
    machine.Throughout LeavesSound machine.start actions := by
  intro h
  obtain ⟨⟨t, hrun, hsound⟩, hlater⟩ :=
    h [.insertQueue3 1 (atSecondFive 900000), .insertQueue3 2 (atSecondFive 100000)] rfl
  have hfresh : t.queueP3.list.heap.lookup 2 = none := by
    obtain rfl := Except.ok.inj hrun
    rfl
  have hholds : t.queueP3.list.Holds [(1, atSecondFive 900000)] := by
    obtain rfl := Except.ok.inj hrun
    exact ⟨.cons rfl (.nil none), rfl⟩
  obtain ⟨hgood, -⟩ := hlater t hrun hfresh
  have hplaced := (leaves_sound_iff (a := .insertQueue3 2 (atSecondFive 100000)) hsound
    hfresh).mp hgood _ hholds
  have husec := hplaced.2 (1, atSecondFive 900000) (List.mem_singleton_self _) rfl
  exact absurd husec (by decide)

end ApTelemetry.Receiver.Computed
