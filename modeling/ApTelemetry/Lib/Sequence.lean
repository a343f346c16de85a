import ApTelemetry.Lib.Buffer
import Mathlib.Algebra.GroupWithZero.Nat
import Mathlib.Order.Lattice

namespace ApTelemetry.Lib

/-- The place that an index of Python names in a list of `n` items. It counts from
the end when it is negative. -/
def place (n : Nat) (i : Int) : Except Fault Nat :=
  let j := if i < 0 then n + i else i
  if 0 ≤ j ∧ j < n then .ok j.toNat else .error .outside

variable {α : Type} {xs : List α} {i : Int}

/-- `xs[i]` of Python. -/
def item (xs : List α) (i : Int) : Except Fault α := place xs.length i >>= load xs

theorem place_nat {n k : Nat} (h : k < n) : place n k = .ok k := by
  have hk : ¬ (k : Int) < 0 := by omega
  simp only [place, if_neg hk]
  exact if_pos ⟨by omega, by omega⟩

theorem item_nat {k : Nat} (h : k < xs.length) : item xs k = .ok xs[k] := by
  rw [item, place_nat h]
  exact load_lt h

theorem item_mem {x : α} (h : item xs i = .ok x) : x ∈ xs := by
  obtain ⟨k, -, hk⟩ := bind_ok h
  exact List.mem_of_getElem? (load_ok_iff.mp hk)

theorem item_last (h : xs ≠ []) : item xs (-1) = .ok (xs.getLast h) := by
  have hlen : 0 < xs.length := List.length_pos_iff.mpr h
  have hplace : place xs.length (-1) = .ok (xs.length - 1) := by
    simp only [place]
    rw [if_pos (by omega), if_pos (by omega)]
    congr 1
    omega
  rw [item, hplace, List.getLast_eq_getElem]
  exact load_lt (Nat.sub_lt hlen Nat.one_pos)

/-- In a list ordered by a key, an item's key is not above that of a later one. -/
theorem key_le {β : Type} [Preorder β] {key : α → β} (h : xs.Pairwise fun x y => key x ≤ key y)
    {j k : Nat} (hk : k < xs.length) (hjk : j ≤ k) : key xs[j] ≤ key xs[k] := by
  rcases Nat.lt_or_eq_of_le hjk with hlt | rfl
  · exact List.pairwise_iff_getElem.mp h j k _ hk hlt
  · exact le_refl _

/-- Counting by places counts each item once, where the places of the items are
those of a list. -/
theorem sum_count (p : α → Bool) (f : α → Int) (n : Nat) (xs : List α) :
    ((List.range n).map fun k : Nat => xs.countP fun x => p x && decide (f x = k)).sum =
      xs.countP fun x => p x && decide (0 ≤ f x ∧ f x < n) := by
  induction n with
  | zero =>
    symm
    simp only [List.range_zero, List.map_nil, List.sum_nil, List.countP_eq_zero, Bool.and_eq_true,
      decide_eq_true_eq, not_and]
    intro x _ _ _
    omega
  | succ n ih =>
    rw [List.range_succ, List.map_append, List.sum_append, ih, List.map_singleton,
      List.sum_singleton]
    clear ih
    induction xs with
    | nil => rfl
    | cons x xs ih =>
      simp only [List.countP_cons]
      rw [← ih]
      by_cases hp : p x = true
      · simp only [hp, Bool.true_and, decide_eq_true_eq]
        split <;> split <;> split <;> omega
      · simp [hp]

end ApTelemetry.Lib
