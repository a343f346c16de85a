import ApTelemetry.Lib.Fifo
import Mathlib.Data.List.TakeDrop
import Mathlib.Data.List.TakeWhile

namespace ApTelemetry.Lib

variable {α : Type}

section Insert

variable {r : α → α → Prop} {xs : List α} {x : α} {p : α → Bool}

/-- Putting an item behind the longest front part that meets a test. -/
def insertBehind (p : α → Bool) (x : α) (xs : List α) : List α :=
  xs.takeWhile p ++ x :: xs.dropWhile p

theorem insert_behind_perm : (insertBehind p x xs).Perm (x :: xs) := by
  have h : (xs.takeWhile p ++ x :: xs.dropWhile p).Perm (x :: (xs.takeWhile p ++ xs.dropWhile p)) :=
    List.perm_middle
  rwa [List.takeWhile_append_dropWhile] at h

theorem insert_behind_pairwise (h : xs.Pairwise r) : (insertBehind p x xs).Pairwise r ↔
    (∀ y ∈ xs.takeWhile p, r y x) ∧ ∀ z ∈ xs.dropWhile p, r x z := by
  have hparts := h
  rw [← List.takeWhile_append_dropWhile (p := p) (l := xs), List.pairwise_append] at hparts
  obtain ⟨hfront, hback, hcross⟩ := hparts
  rw [insertBehind, List.pairwise_append, List.pairwise_cons]
  constructor
  · rintro ⟨-, ⟨hafter, -⟩, hbefore⟩
    exact ⟨fun y hy => hbefore y hy x (List.mem_cons_self ..), hafter⟩
  · rintro ⟨hbefore, hafter⟩
    refine ⟨hfront, ⟨hafter, hback⟩, fun y hy z hz => ?_⟩
    rcases List.mem_cons.mp hz with rfl | hz
    · exact hbefore y hy
    · exact hcross y hy z hz

end Insert

namespace Heap

/-- The walk to the first node that meets a test, and the node in front of it. -/
def seek (stop : α → Bool) (h : Heap α) :
    Nat → Option Addr → Option Addr → Except Fault (Option Addr × Option Addr)
  | _, ptrpre, none => .ok (ptrpre, none)
  | 0, _, some _ => .error .endless
  | turns + 1, ptrpre, some ptr => do
    let c ← h.read (some ptr)
    if stop c.item then .ok (ptrpre, some ptr) else seek stop h turns (some ptr) c.next

/-- Releasing the nodes of a list up to one of them. What they held is returned. -/
def freeUpTo (stopAt : Addr) : Nat → Heap α → Option Addr → Except Fault (Heap α × List α)
  | 0, _, _ => .error .endless
  | turns + 1, h, p =>
    if p = some stopAt then .ok (h, []) else do
      let c ← h.read p
      let h ← h.free p
      let (h, items) ← freeUpTo stopAt turns h c.next
      .ok (h, c.item :: items)

end Heap

/-- The address of the last node of a list, or what stands for it in front. -/
def lastAddr (before : Option Addr) (xs : List (Addr × α)) : Option Addr :=
  (xs.getLast?.map Prod.fst).or before

theorem last_addr_cons (before : Option Addr) (a : Addr) (x : α) (xs : List (Addr × α)) :
    lastAddr before ((a, x) :: xs) = lastAddr (some a) xs := by
  cases xs with
  | nil => rfl
  | cons n xs => simp [lastAddr, List.getLast?_cons]

namespace Segment

variable {h : Heap α} {p : Option Addr} {xs ys : List (Addr × α)}

theorem seek_runs (hs : Segment h p xs none) (stop : α → Bool) (ptrpre : Option Addr)
    (turns : Nat) (hn : xs.length ≤ turns) : h.seek stop turns ptrpre p =
      .ok (lastAddr ptrpre (xs.takeWhile fun n => !stop n.2),
        firstAddr (xs.dropWhile fun n => !stop n.2)) := by
  induction xs generalizing p ptrpre turns with
  | nil =>
    obtain rfl : p = none := hs.start_eq
    cases turns <;> rfl
  | cons n xs ih =>
    obtain ⟨turns, rfl⟩ : ∃ k, turns = k + 1 := ⟨turns - 1, by simp at hn; omega⟩
    cases hs with
    | @cons a x p _ _ found tail =>
      simp only [Heap.seek, Heap.read_of_lookup found, bind, Except.bind]
      cases hstop : stop x with
      | true =>
        simp only [if_true, List.takeWhile_cons, List.dropWhile_cons, hstop, Bool.not_true,
          Bool.false_eq_true, if_false]
        rfl
      | false =>
        simp only [Bool.false_eq_true, if_false, List.takeWhile_cons, List.dropWhile_cons, hstop,
          Bool.not_false, if_true, last_addr_cons]
        exact ih tail (some a) turns (by simpa using hn)

/-- A fresh block goes between two nodes. -/
theorem splice {a b : Addr} {x : α} (hs : Segment h p (xs ++ (a, x) :: ys) none) (y : α)
    (fresh : h.lookup b = none) :
    Segment (((h.insert b ⟨y, none⟩).insert a ⟨x, some b⟩).insert b ⟨y, firstAddr ys⟩) p
      (xs ++ (a, x) :: (b, y) :: ys) none := by
  have hb : ∀ c ∈ addrs (xs ++ (a, x) :: ys), c ≠ b := by
    rintro c hc rfl
    exact hs.lookup_mem c hc fresh
  simp only [addrs_append, addrs_cons, List.mem_append, List.mem_cons] at hb
  obtain ⟨hbefore, hafter⟩ := hs.not_mem_around
  have keep : ∀ c, c ≠ a → c ≠ b →
      (((h.insert b ⟨y, none⟩).insert a ⟨x, some b⟩).insert b ⟨y, firstAddr ys⟩).lookup c =
        h.lookup c := by
    intro c hca hcb
    rw [AList.lookup_insert_ne hcb, AList.lookup_insert_ne hca, AList.lookup_insert_ne hcb]
  obtain ⟨q, hx, hy⟩ := hs.split
  obtain rfl : q = some a := hy.start_eq
  cases hy with
  | cons _ tail =>
    have hab : a ≠ b := hb a (.inr (.inl rfl))
    refine append (hx.frame ?_) (.cons ?_ (.cons ?_ (tail.start_eq ▸ tail.frame ?_)))
    · exact fun c hc => keep c (fun he => hbefore (he ▸ hc)) (hb c (.inl hc))
    · rw [AList.lookup_insert_ne hab, AList.lookup_insert]
    · rw [AList.lookup_insert]
    · exact fun c hc => keep c (fun he => hafter (he ▸ hc)) (hb c (.inr (.inr hc)))

theorem free_up_to {a : Addr} {x : α} (hs : Segment h p (xs ++ (a, x) :: ys) none) (turns : Nat)
    (hn : xs.length < turns) : ∃ h', Heap.freeUpTo a turns h p = .ok (h', xs.map Prod.snd) ∧
      Segment h' (some a) ((a, x) :: ys) none := by
  induction xs generalizing h p turns with
  | nil =>
    obtain ⟨turns, rfl⟩ : ∃ k, turns = k + 1 := ⟨turns - 1, by omega⟩
    obtain rfl : p = some a := hs.start_eq
    exact ⟨h, if_pos rfl, hs⟩
  | cons n xs ih =>
    obtain ⟨turns, rfl⟩ : ∃ k, turns = k + 1 := ⟨turns - 1, by omega⟩
    obtain ⟨b, y⟩ := n
    have hne : p ≠ some a := by
      rw [hs.start_eq]
      intro he
      have hab : b = a := Option.some.inj he
      have hnodup := hs.nodup
      rw [List.cons_append, addrs_cons, List.nodup_cons] at hnodup
      exact hnodup.1 (by simp [hab])
    have hlook := hs.lookup_head
    obtain rfl : p = some b := hs.start_eq
    obtain ⟨h', hrun, hrest⟩ := ih (h := h.erase b) hs.erase_head turns (by simpa using hn)
    refine ⟨h', ?_, hrest⟩
    rw [Heap.freeUpTo, if_neg hne, Heap.read_of_lookup hlook]
    simp only [bind, Except.bind, Heap.free_of_lookup hlook]
    simp only [List.append_eq] at hrun ⊢
    rw [hrun]
    rfl

end Segment

end ApTelemetry.Lib
