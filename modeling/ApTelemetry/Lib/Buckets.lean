import ApTelemetry.Lib.Heap
import Mathlib.Algebra.BigOperators.Group.Finset.Basic
import Mathlib.Data.Fintype.Basic

namespace ApTelemetry.Lib

section Search

variable {α κ : Type} [DecidableEq κ] (key : α → κ)

/-- Searching a list whose entries have keys. -/
def lookupBy (xs : List α) (c : κ) : Option α := xs.find? fun x => key x = c

variable {key} {pre post : List α} {x y : α}

theorem lookup_by_eq_none {xs : List α} {c : κ} :
    lookupBy key xs c = none ↔ ∀ x ∈ xs, key x ≠ c := by
  simp [lookupBy]

theorem lookup_by_cons (x : α) (xs : List α) (c : κ) :
    lookupBy key (x :: xs) c = if key x = c then some x else lookupBy key xs c := by
  rw [lookupBy, List.find?_cons]
  by_cases h : key x = c <;> simp [h, lookupBy]

theorem lookup_by_append (xs ys : List α) (c : κ) :
    lookupBy key (xs ++ ys) c = (lookupBy key xs c).or (lookupBy key ys c) :=
  List.find?_append

variable (key) in
/-- A list is searched up to its first entry or to its end. -/
theorem lookup_by_split (xs : List α) (c : κ) :
    (∀ x ∈ xs, key x ≠ c) ∨
      ∃ pre x post, xs = pre ++ x :: post ∧ key x = c ∧ ∀ y ∈ pre, key y ≠ c := by
  induction xs with
  | nil => exact .inl (by simp)
  | cons z xs ih =>
    by_cases hz : key z = c
    · exact .inr ⟨[], z, xs, rfl, hz, by simp⟩
    · cases ih with
      | inl hnone => exact .inl (by simpa [hz] using hnone)
      | inr hsome =>
        obtain ⟨pre, x, post, rfl, hx, hpre⟩ := hsome
        exact .inr ⟨z :: pre, x, post, rfl, hx, by simpa [hz] using hpre⟩

theorem lookup_by_before (hnodup : ((pre ++ x :: post).map key).Nodup) :
    lookupBy key pre (key x) = none := by
  rw [lookup_by_eq_none]
  intro y hy he
  rw [List.map_append, List.nodup_append] at hnodup
  exact hnodup.2.2 (key y) (List.mem_map_of_mem hy) (key x) (by simp) he

theorem lookup_by_behind (hnodup : ((pre ++ x :: post).map key).Nodup) :
    lookupBy key post (key x) = none := by
  rw [lookup_by_eq_none]
  intro y hy he
  rw [List.map_append, List.map_cons, List.nodup_append, List.nodup_cons] at hnodup
  exact hnodup.2.1.1 (he ▸ List.mem_map_of_mem hy)

theorem lookup_by_middle (hnodup : ((pre ++ x :: post).map key).Nodup) :
    lookupBy key (pre ++ x :: post) (key x) = some x := by
  rw [lookup_by_append, lookup_by_before hnodup, lookup_by_cons, if_pos rfl]
  rfl

/-- Another entry under the same key takes the place of the first. -/
theorem lookup_by_replace (hnodup : ((pre ++ x :: post).map key).Nodup) (hkey : key y = key x)
    (c : κ) : lookupBy key (pre ++ y :: post) c =
      if c = key x then some y else lookupBy key (pre ++ x :: post) c := by
  have hbefore := lookup_by_before hnodup
  simp only [lookup_by_append, lookup_by_cons, hkey]
  by_cases hc : c = key x
  · subst hc
    simp [hbefore]
  · simp [hc, Ne.symm hc]

theorem lookup_by_remove (hnodup : ((pre ++ x :: post).map key).Nodup) (c : κ) :
    lookupBy key (pre ++ post) c =
      if c = key x then none else lookupBy key (pre ++ x :: post) c := by
  have hbefore := lookup_by_before hnodup
  have hbehind := lookup_by_behind hnodup
  simp only [lookup_by_append, lookup_by_cons]
  by_cases hc : c = key x
  · subst hc
    simp [hbefore, hbehind]
  · simp [hc, Ne.symm hc]

end Search

/-- Lists in one memory that have no node in common. -/
structure Buckets {ι α : Type} (heap : Heap α) (heads : ι → Option Addr)
    (chains : ι → List (Addr × α)) : Prop where
  chain : ∀ i, Chain heap (heads i) (chains i)
  apart : ∀ i j, i ≠ j → List.Disjoint (addrs (chains i)) (addrs (chains j))

namespace Buckets

theorem empty {ι α : Type} (heap : Heap α) : Buckets heap (fun _ : ι => none) (fun _ => []) :=
  ⟨fun _ => .nil none, fun _ _ _ => List.disjoint_nil_left _⟩

variable {ι α : Type} [DecidableEq ι] {heap heap' : Heap α} {heads : ι → Option Addr}
  {chains : ι → List (Addr × α)} {i : ι} {a : Addr} {x : α} {pre post : List (Addr × α)}

/-- One list changes, into nodes it had or that no list had, and the memory of
the others stays. -/
theorem change (h : Buckets heap heads chains) {start : Option Addr} {xs : List (Addr × α)}
    (hchain : Chain heap' start xs)
    (hnodes : ∀ a ∈ addrs xs, a ∈ addrs (chains i) ∨ heap.lookup a = none)
    (keep : ∀ a, a ∉ addrs (chains i) → heap.lookup a ≠ none → heap'.lookup a = heap.lookup a) :
    Buckets heap' (Function.update heads i start) (Function.update chains i xs) := by
  have hout : ∀ j, j ≠ i → ∀ a ∈ addrs (chains j), a ∉ addrs xs := by
    intro j hj a ha hxs
    cases hnodes a hxs with
    | inl hi => exact h.apart j i hj ha hi
    | inr hnone => exact (h.chain j).lookup_mem a ha hnone
  refine ⟨?_, ?_⟩
  · intro j
    by_cases hj : j = i
    · subst hj
      rw [Function.update_self, Function.update_self]
      exact hchain
    · rw [Function.update_of_ne hj, Function.update_of_ne hj]
      exact (h.chain j).frame fun a ha =>
        keep a (h.apart j i hj ha) ((h.chain j).lookup_mem a ha)
  · intro j k hjk
    by_cases hj : j = i
    · subst hj
      rw [Function.update_self, Function.update_of_ne (Ne.symm hjk)]
      exact fun a ha hk => hout k (Ne.symm hjk) a hk ha
    · rw [Function.update_of_ne hj]
      by_cases hk : k = i
      · subst hk
        rw [Function.update_self]
        exact fun a ha hxs => hout j hj a ha hxs
      · rw [Function.update_of_ne hk]
        exact h.apart j k hjk

/-- A fresh block becomes the first of a list. -/
theorem push (h : Buckets heap heads chains) (i : ι) {block : Addr} (x : α)
    (fresh : heap.lookup block = none) :
    Buckets (heap.insert block ⟨x, heads i⟩) (Function.update heads i (some block))
      (Function.update chains i ((block, x) :: chains i)) := by
  have hother : ∀ a, heap.lookup a ≠ none →
      (heap.insert block ⟨x, heads i⟩).lookup a = heap.lookup a := by
    intro a ha
    refine AList.lookup_insert_ne ?_
    rintro rfl
    exact ha fresh
  apply h.change
  · exact .cons (AList.lookup_insert _)
      ((h.chain i).frame fun a ha => hother a ((h.chain i).lookup_mem a ha))
  · intro a ha
    cases List.mem_cons.mp ha with
    | inl he => exact .inr (he ▸ fresh)
    | inr hm => exact .inl hm
  · exact fun a _ ha => hother a ha

/-- The item of one node changes. -/
theorem set_item (h : Buckets heap heads chains) (hi : chains i = pre ++ (a, x) :: post) (y : α) :
    Buckets (heap.insert a ⟨y, firstAddr post⟩) heads
      (Function.update chains i (pre ++ (a, y) :: post)) := by
  have hchain := h.chain i
  rw [hi] at hchain
  have := h.change (i := i) (hchain.set_item y) (fun b hb => .inl (by simpa [hi] using hb)) ?_
  · rwa [Function.update_eq_self] at this
  · intro b hb _
    refine AList.lookup_insert_ne ?_
    rintro rfl
    simp [hi] at hb

theorem unlink_head (h : Buckets heap heads chains) (hi : chains i = (a, x) :: post) :
    Buckets (heap.erase a) (Function.update heads i (firstAddr post))
      (Function.update chains i post) := by
  have hchain := h.chain i
  rw [hi] at hchain
  apply h.change hchain.erase_head
  · intro b hb
    simp [hi, hb]
  · intro b hb _
    refine AList.lookup_erase_ne ?_
    rintro rfl
    simp [hi] at hb

theorem unlink_behind {b : Addr} {y : α} (h : Buckets heap heads chains)
    (hi : chains i = pre ++ (b, y) :: (a, x) :: post) :
    Buckets ((heap.insert b ⟨y, firstAddr post⟩).erase a) heads
      (Function.update chains i (pre ++ (b, y) :: post)) := by
  have hchain := h.chain i
  rw [hi] at hchain
  have := h.change (i := i) hchain.unlink ?_ ?_
  · rwa [Function.update_eq_self] at this
  · intro c hc
    simp only [hi, addrs_append, addrs_cons, List.mem_append, List.mem_cons] at hc ⊢
    left
    rcases hc with hc | hc | hc <;> simp [hc]
  · intro c hc _
    simp only [hi, addrs_append, addrs_cons, List.mem_append, List.mem_cons, not_or] at hc
    rw [AList.lookup_erase_ne hc.2.2.1, AList.lookup_insert_ne hc.2.1]

/-- How many nodes there are on all lists, when one of them changes. -/
theorem total_update [Fintype ι] (chains : ι → List α) (i : ι) (xs : List α) :
    ∑ j, (Function.update chains i xs j).length + (chains i).length =
      ∑ j, (chains j).length + xs.length := by
  have hout : ∑ j ∈ Finset.univ.erase i, (Function.update chains i xs j).length =
      ∑ j ∈ Finset.univ.erase i, (chains j).length := by
    refine Finset.sum_congr rfl fun j hj => ?_
    rw [Function.update_of_ne (Finset.ne_of_mem_erase hj)]
  rw [← Finset.add_sum_erase _ _ (Finset.mem_univ i), hout, Function.update_self,
    ← Finset.add_sum_erase _ (fun j => (chains j).length) (Finset.mem_univ i)]
  omega

end Buckets

end ApTelemetry.Lib
