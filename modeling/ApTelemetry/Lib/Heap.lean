import ApTelemetry.Lib.Buffer
import Mathlib.Data.List.AList

namespace ApTelemetry.Lib

abbrev Addr := Nat

/-- A node of a singly linked list in memory. -/
structure Cell (α : Type) where
  item : α
  next : Option Addr
  deriving DecidableEq

/-- The live blocks. A freed address is absent and may be handed out again. -/
abbrev Heap (α : Type) := AList (fun _ : Addr => Cell α)

variable {α : Type}

namespace Heap

def read (h : Heap α) : Option Addr → Except Fault (Cell α)
  | none => .error .null
  | some a => match h.lookup a with
    | none => .error .freed
    | some c => .ok c

/-- Storing to the `next` field of a node. -/
def setNext (h : Heap α) (p next : Option Addr) : Except Fault (Heap α) :=
  match p with
  | none => .error .null
  | some a => match h.lookup a with
    | none => .error .freed
    | some c => .ok (h.insert a { c with next := next })

/-- Storing to fields of the item of a node. -/
def setItem (h : Heap α) (p : Option Addr) (store : α → α) : Except Fault (Heap α) :=
  match p with
  | none => .error .null
  | some a => match h.lookup a with
    | none => .error .freed
    | some c => .ok (h.insert a { c with item := store c.item })

/-- Releasing a block. A second release of the same block is a fault. -/
def free (h : Heap α) : Option Addr → Except Fault (Heap α)
  | none => .ok h
  | some a => match h.lookup a with
    | none => .error .freed
    | some _ => .ok (h.erase a)

/-- The items a walk along the links meets. The live blocks bound its turns. -/
def items (h : Heap α) : Nat → Option Addr → Except Fault (List α)
  | _, none => .ok []
  | 0, some _ => .error .endless
  | turns + 1, some a => do
    let c ← h.read (some a)
    let rest ← items h turns c.next
    .ok (c.item :: rest)

/-- Releasing a whole list, each node once its link is read. -/
def freeAll : Nat → Heap α → Option Addr → Except Fault (Heap α)
  | _, h, none => .ok h
  | 0, _, some _ => .error .endless
  | turns + 1, h, some a => do
    let c ← h.read (some a)
    let h' ← h.free (some a)
    freeAll turns h' c.next

theorem read_of_lookup {h : Heap α} {a : Addr} {c : Cell α} (hc : h.lookup a = some c) :
    h.read (some a) = .ok c := by
  simp only [read, hc]

theorem free_of_lookup {h : Heap α} {a : Addr} {c : Cell α} (hc : h.lookup a = some c) :
    h.free (some a) = .ok (h.erase a) := by
  simp only [free, hc]

theorem set_next_of_lookup {h : Heap α} {a : Addr} {c : Cell α} (next : Option Addr)
    (hc : h.lookup a = some c) :
    h.setNext (some a) next = .ok (h.insert a { c with next := next }) := by
  simp only [setNext, hc]

theorem set_item_of_lookup {h : Heap α} {a : Addr} {c : Cell α} (store : α → α)
    (hc : h.lookup a = some c) :
    h.setItem (some a) store = .ok (h.insert a { c with item := store c.item }) := by
  simp only [setItem, hc]

end Heap

/-- The nodes met on the way from one pointer to another. -/
inductive Segment (h : Heap α) : Option Addr → List (Addr × α) → Option Addr → Prop where
  | nil (p : Option Addr) : Segment h p [] p
  | cons {a : Addr} {x : α} {p q : Option Addr} {xs : List (Addr × α)}
      (found : h.lookup a = some ⟨x, p⟩) (tail : Segment h p xs q) :
      Segment h (some a) ((a, x) :: xs) q

/-- A finite list that ends in NULL. -/
abbrev Chain (h : Heap α) (p : Option Addr) (xs : List (Addr × α)) : Prop := Segment h p xs none

def addrs (xs : List (Addr × α)) : List Addr := xs.map Prod.fst

@[simp] theorem addrs_nil : addrs ([] : List (Addr × α)) = [] := rfl

@[simp] theorem addrs_cons (n : Addr × α) (xs : List (Addr × α)) :
    addrs (n :: xs) = n.1 :: addrs xs := rfl

@[simp] theorem addrs_append (xs ys : List (Addr × α)) :
    addrs (xs ++ ys) = addrs xs ++ addrs ys := List.map_append

/-- Where a list starts. -/
def firstAddr (xs : List (Addr × α)) : Option Addr := xs.head?.map Prod.fst

namespace Segment

variable {h : Heap α} {p q r : Option Addr} {xs ys : List (Addr × α)}

theorem append (hx : Segment h p xs q) (hy : Segment h q ys r) : Segment h p (xs ++ ys) r := by
  induction hx with
  | nil => exact hy
  | cons found _ ih => exact .cons found (ih hy)

theorem split (hs : Segment h p (xs ++ ys) r) : ∃ q, Segment h p xs q ∧ Segment h q ys r := by
  induction xs generalizing p with
  | nil => exact ⟨p, .nil p, hs⟩
  | cons n xs ih =>
    cases hs with
    | cons found tail =>
      obtain ⟨q, hx, hy⟩ := ih tail
      exact ⟨q, .cons found hx, hy⟩

/-- A segment survives any change of memory that keeps its own nodes. -/
theorem frame {h' : Heap α} (hs : Segment h p xs q)
    (keep : ∀ a ∈ addrs xs, h'.lookup a = h.lookup a) : Segment h' p xs q := by
  induction hs with
  | nil => exact .nil _
  | @cons a x p q xs found tail ih =>
    have hhere := keep a (by simp)
    exact .cons (hhere.trans found) (ih (fun b hb => keep b (by simp [hb])))

theorem start_eq (hs : Segment h p xs none) : p = firstAddr xs := by
  cases hs with
  | nil => rfl
  | cons => rfl

theorem lookup_mem (hs : Segment h p xs q) : ∀ a ∈ addrs xs, h.lookup a ≠ none := by
  induction hs with
  | nil => simp
  | cons found tail ih =>
    intro b hb
    rcases List.mem_cons.mp hb with rfl | hb
    · simp [found]
    · exact ih b hb

/-- Two lists from one pointer are the same list. -/
theorem unique (hx : Segment h p xs none) (hy : Segment h p ys none) : xs = ys := by
  generalize hq : (none : Option Addr) = q at hx hy
  induction hx generalizing ys with
  | nil => subst hq; cases hy; rfl
  | cons found tail ih =>
    cases hy with
    | nil => cases hq
    | cons found' tail' =>
      obtain ⟨rfl, rfl⟩ := Cell.mk.inj (Option.some.inj (found.symm.trans found'))
      rw [ih hq tail']

/-- A list that ends does not pass one node twice. -/
theorem nodup (hs : Segment h p xs none) : (addrs xs).Nodup := by
  induction xs generalizing p with
  | nil => simp
  | cons n xs ih =>
    cases hs with
    | cons found tail =>
      rename_i a x p
      refine List.nodup_cons.mpr ⟨?_, ih tail⟩
      intro hm
      -- a second visit of `a` would start the whole list again inside its tail
      obtain ⟨⟨b, y⟩, hb, he⟩ := List.mem_map.mp hm
      obtain ⟨pre, post, hsplit⟩ := List.append_of_mem hb
      obtain ⟨q, _, hpost⟩ := (hsplit ▸ tail).split
      have hq : q = some a := by
        rw [hpost.start_eq]
        exact congrArg some he
      have hsame := (Segment.cons found tail).unique (hq ▸ hpost)
      have hlen := congrArg List.length hsame
      rw [hsplit] at hlen
      simp at hlen
      omega

theorem lookup_head (hs : Segment h p ((a, x) :: ys) none) :
    h.lookup a = some ⟨x, firstAddr ys⟩ := by
  cases hs with
  | cons found tail =>
    rw [tail.start_eq] at found
    exact found

theorem lookup_append (hs : Segment h p (xs ++ (a, x) :: ys) none) :
    h.lookup a = some ⟨x, firstAddr ys⟩ := by
  obtain ⟨q, _, hy⟩ := hs.split
  exact hy.lookup_head

/-- A list cannot be longer than there are live blocks. -/
theorem length_le (hs : Segment h p xs none) : xs.length ≤ h.entries.length := by
  have hsub : addrs xs ⊆ h.keys := by
    intro a ha
    have hne := hs.lookup_mem a ha
    by_contra hn
    exact hne (AList.lookup_eq_none.mpr hn)
  have hle := (List.subperm_of_subset hs.nodup hsub).length_le
  simpa [addrs, AList.keys, List.keys] using hle

/-- The nodes around one of a list are other nodes. -/
theorem not_mem_around (hs : Segment h p (xs ++ (a, x) :: ys) none) :
    a ∉ addrs xs ∧ a ∉ addrs ys := by
  have hnodup := hs.nodup
  simp only [addrs_append, addrs_cons, List.nodup_append, List.nodup_cons] at hnodup
  refine ⟨?_, hnodup.2.1.1⟩
  intro hm
  exact hnodup.2.2 a hm a (by simp) rfl

/-- Storing to the item of one node changes nothing else of the list. -/
theorem set_item (hs : Segment h p (xs ++ (a, x) :: ys) none) (y : α) :
    Segment (h.insert a ⟨y, firstAddr ys⟩) p (xs ++ (a, y) :: ys) none := by
  obtain ⟨hbefore, hafter⟩ := hs.not_mem_around
  obtain ⟨q, hx, hy⟩ := hs.split
  obtain rfl : q = some a := hy.start_eq
  cases hy with
  | cons found tail =>
    refine append (hx.frame ?_) (.cons ?_ (tail.frame ?_))
    · exact fun b hb => AList.lookup_insert_ne (fun he => hbefore (he ▸ hb))
    · rw [AList.lookup_insert, tail.start_eq]
    · exact fun b hb => AList.lookup_insert_ne (fun he => hafter (he ▸ hb))

/-- The node behind `b` goes when `b` is linked past it. -/
theorem unlink {b : Addr} {y : α} (hs : Segment h p (xs ++ (b, y) :: (a, x) :: ys) none) :
    Segment ((h.insert b ⟨y, firstAddr ys⟩).erase a) p (xs ++ (b, y) :: ys) none := by
  obtain ⟨hbefore, hafter⟩ := hs.not_mem_around
  have hsplit : xs ++ (b, y) :: (a, x) :: ys = (xs ++ [(b, y)]) ++ (a, x) :: ys := by simp
  obtain ⟨habefore, haafter⟩ := (hsplit ▸ hs).not_mem_around
  simp only [addrs_append, addrs_cons, addrs_nil, List.mem_append, List.mem_singleton,
    not_or] at habefore
  simp only [addrs_cons, List.mem_cons, not_or] at hafter
  have keep : ∀ c, c ≠ a → c ≠ b →
      ((h.insert b ⟨y, firstAddr ys⟩).erase a).lookup c = h.lookup c := by
    intro c hca hcb
    rw [AList.lookup_erase_ne hca, AList.lookup_insert_ne hcb]
  obtain ⟨q, hx, hy⟩ := hs.split
  obtain rfl : q = some b := hy.start_eq
  cases hy with
  | cons _ htail =>
    cases htail with
    | cons _ tail =>
      refine append (hx.frame ?_) (.cons ?_ (tail.frame ?_))
      · intro c hc
        exact keep c (fun he => habefore.1 (he ▸ hc)) (fun he => hbefore (he ▸ hc))
      · rw [AList.lookup_erase_ne (Ne.symm habefore.2), AList.lookup_insert, tail.start_eq]
      · intro c hc
        exact keep c (fun he => haafter (he ▸ hc)) (fun he => hafter.2 (he ▸ hc))

/-- Linking a fresh block behind the last node extends the list by it. -/
theorem snoc (hs : Segment h p (xs ++ [(a, x)]) none) {b : Addr} (y : α)
    (fresh : h.lookup b = none) :
    Segment ((h.insert b ⟨y, none⟩).insert a ⟨x, some b⟩) p
      (xs ++ [(a, x), (b, y)]) none := by
  have hab : b ≠ a := by
    rintro rfl
    exact hs.lookup_mem b (by simp) fresh
  have hnot : a ∉ addrs xs := hs.not_mem_around.1
  obtain ⟨q, hx, hy⟩ := hs.split
  have hq : q = some a := hy.start_eq
  subst hq
  refine append (q := some a) (hx.frame ?_) (.cons ?_ (.cons ?_ (.nil none)))
  · intro c hc
    have hca : c ≠ a := fun he => hnot (he ▸ hc)
    have hcb : c ≠ b := by
      rintro rfl
      exact hx.lookup_mem c hc fresh
    rw [AList.lookup_insert_ne hca, AList.lookup_insert_ne hcb]
  · exact AList.lookup_insert _
  · rw [AList.lookup_insert_ne hab]
    exact AList.lookup_insert _

/-- The list of one fresh block. -/
theorem single (h : Heap α) (b : Addr) (y : α) :
    Segment (h.insert b ⟨y, none⟩) (some b) [(b, y)] none :=
  .cons (AList.lookup_insert _) (.nil none)

/-- Releasing the first node leaves the rest of the list in place. -/
theorem erase_head (hs : Segment h p ((a, x) :: xs) none) :
    Segment (h.erase a) (firstAddr xs) xs none := by
  have hnot : a ∉ addrs xs := (List.nodup_cons.mp hs.nodup).1
  cases hs with
  | cons found tail =>
    rw [← tail.start_eq]
    exact tail.frame (fun b hb => AList.lookup_erase_ne (fun he => hnot (he ▸ hb)))

theorem items_eq (hs : Segment h p xs none) (turns : Nat) (hn : xs.length ≤ turns) :
    h.items turns p = .ok (xs.map Prod.snd) := by
  induction xs generalizing p turns with
  | nil =>
    obtain rfl : p = none := hs.start_eq
    cases turns <;> rfl
  | cons n xs ih =>
    obtain ⟨turns, rfl⟩ : ∃ k, turns = k + 1 := ⟨turns - 1, by simp at hn; omega⟩
    cases hs with
    | cons found tail =>
      simp only [Heap.items, Heap.read_of_lookup found, bind, Except.bind,
        ih tail turns (by simpa using hn), List.map_cons]

theorem free_all (hs : Segment h p xs none) (turns : Nat) (hn : xs.length ≤ turns) :
    ∃ h', Heap.freeAll turns h p = .ok h' := by
  induction xs generalizing h p turns with
  | nil =>
    obtain rfl : p = none := hs.start_eq
    cases turns <;> exact ⟨h, rfl⟩
  | cons n xs ih =>
    obtain ⟨turns, rfl⟩ : ∃ k, turns = k + 1 := ⟨turns - 1, by simp at hn; omega⟩
    have hrest := ih hs.erase_head turns (by simpa using hn)
    have hlook := hs.lookup_head
    obtain rfl : p = some n.1 := hs.start_eq
    simpa only [Heap.freeAll, Heap.read_of_lookup hlook, Heap.free_of_lookup hlook, bind,
      Except.bind] using hrest

end Segment

/-- An allocator: the block it hands out is not in use. -/
structure Malloc (α : Type) where
  block : Heap α → Addr
  fresh : ∀ h : Heap α, h.lookup (block h) = none

theorem le_foldr_max {a : Addr} {ks : List Addr} (hm : a ∈ ks) : a ≤ ks.foldr max 0 := by
  induction ks with
  | nil => simp at hm
  | cons b ks ih =>
    rcases List.mem_cons.mp hm with rfl | hm
    · exact Nat.le_max_left _ _
    · exact Nat.le_trans (ih hm) (Nat.le_max_right _ _)

/-- The allocator that goes on behind the highest block in use. -/
def Malloc.bump : Malloc α where
  block h := h.keys.foldr max 0 + 1
  fresh h := by
    rw [AList.lookup_eq_none]
    intro hm
    exact Nat.not_succ_le_self _ (le_foldr_max hm)

end ApTelemetry.Lib
