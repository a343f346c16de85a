import Mathlib.Algebra.BigOperators.Group.List.Basic
import Mathlib.Algebra.GroupWithZero.Nat
import Mathlib.Data.List.Nodup
import Mathlib.Data.List.Perm.Basic

namespace ApTelemetry.Lib

variable {α : Type} [DecidableEq α] {xs ys : List α} {a : α}

theorem perm_erase_both (nodup : (xs ++ ys).Nodup) (h : a ∈ xs ++ ys) :
    (a :: (xs.erase a ++ ys.erase a)).Perm (xs ++ ys) := by
  have herase := (List.perm_cons_erase h).symm
  rw [List.erase_append] at herase
  split at herase
  · rename_i hxs
    have hys : a ∉ ys := List.disjoint_of_nodup_append nodup hxs
    rwa [List.erase_of_not_mem hys]
  · rename_i hxs
    rwa [List.erase_of_not_mem hxs]

/-- To the tail of the second list. -/
theorem perm_move_last (nodup : (xs ++ ys).Nodup) (h : a ∈ xs ++ ys) :
    (xs.erase a ++ (ys.erase a ++ [a])).Perm (xs ++ ys) := by
  rw [← List.append_assoc]
  exact List.perm_append_comm.trans (perm_erase_both nodup h)

theorem nodup_erase_both (nodup : (xs ++ ys).Nodup) : (xs.erase a ++ ys.erase a).Nodup :=
  nodup.sublist (List.Sublist.append List.erase_sublist List.erase_sublist)

theorem mem_erase_both {b : α} (hb : b ∈ xs ++ ys) (hne : b ≠ a) :
    b ∈ xs.erase a ++ ys.erase a := by
  rw [List.mem_append] at hb ⊢
  exact hb.imp (List.mem_erase_of_ne hne).mpr (List.mem_erase_of_ne hne).mpr

theorem sum_erase_both (nodup : (xs ++ ys).Nodup) (h : a ∈ xs ++ ys) (g : α → Nat) :
    ((xs ++ ys).map g).sum = g a + ((xs.erase a ++ ys.erase a).map g).sum :=
  ((perm_erase_both nodup h).map g).sum_eq.symm

theorem sum_move_last (nodup : (xs ++ ys).Nodup) (h : a ∈ xs ++ ys) (g : α → Nat) :
    ((xs.erase a ++ (ys.erase a ++ [a])).map g).sum =
      g a + ((xs.erase a ++ ys.erase a).map g).sum :=
  ((perm_move_last nodup h).map g).sum_eq.trans (sum_erase_both nodup h g)

theorem not_mem_erase_both (nodup : (xs ++ ys).Nodup) : a ∉ xs.erase a ++ ys.erase a := by
  intro h
  rcases List.mem_append.mp h with hxs | hys
  · exact nodup.of_append_left.not_mem_erase hxs
  · exact nodup.of_append_right.not_mem_erase hys

/-- Other items do not notice what a function is at the item taken out. -/
theorem sum_erase_congr (nodup : (xs ++ ys).Nodup) {f g : α → Nat} (h : ∀ b, b ≠ a → f b = g b) :
    ((xs.erase a ++ ys.erase a).map f).sum = ((xs.erase a ++ ys.erase a).map g).sum := by
  refine congrArg List.sum (List.map_congr_left fun b hb => h b ?_)
  rintro rfl
  exact not_mem_erase_both nodup hb

/-- An item counts twice in the first list and once in the second. -/
def weight (xs ys : List α) : Nat := 2 * xs.length + ys.length

theorem weight_move_last_le (h : a ∈ xs ++ ys) :
    weight (xs.erase a) (ys.erase a ++ [a]) ≤ weight xs ys := by
  have hxs := List.length_erase_le (a := a) (l := xs)
  have hys := List.length_erase_le (a := a) (l := ys)
  rw [weight, weight, List.length_append, List.length_singleton]
  rcases List.mem_append.mp h with hmem | hmem
  · have hlen := List.length_erase_of_mem hmem
    have hpos := List.length_pos_of_mem hmem
    omega
  · have hlen := List.length_erase_of_mem hmem
    have hpos := List.length_pos_of_mem hmem
    omega

theorem weight_move_last_lt (h : a ∈ xs) :
    weight (xs.erase a) (ys.erase a ++ [a]) < weight xs ys := by
  have hlen := List.length_erase_of_mem h
  have hpos := List.length_pos_of_mem h
  have hys := List.length_erase_le (a := a) (l := ys)
  rw [weight, weight, List.length_append, List.length_singleton]
  omega

theorem weight_erase_lt (h : a ∈ xs ++ ys) : weight (xs.erase a) (ys.erase a) < weight xs ys := by
  have hle := weight_move_last_le h
  rw [weight, List.length_append, List.length_singleton] at hle
  rw [weight]
  omega

section Order

/-- Of two items, the one that comes first in a list. -/
def leads (a b : α) : List α → Bool
  | [] => false
  | x :: xs => if x = a then true else if x = b then false else leads a b xs

variable {b c : α}

theorem leads_erase (hca : c ≠ a) (hcb : c ≠ b) (xs : List α) :
    leads a b (xs.erase c) = leads a b xs := by
  induction xs with
  | nil => rfl
  | cons x xs ih =>
    cases decEq x c with
    | isTrue hx =>
      subst hx
      rw [List.erase_cons_head, leads, if_neg hca, if_neg hcb]
    | isFalse hx =>
      rw [List.erase_cons_tail (by simpa using hx), leads, leads, ih]

theorem leads_append (h : a ∈ xs ∨ b ∈ xs) : leads a b (xs ++ ys) = leads a b xs := by
  induction xs with
  | nil => simp at h
  | cons x xs ih =>
    rw [List.cons_append, leads, leads]
    split
    · rfl
    · rename_i hxa
      split
      · rfl
      · rename_i hxb
        apply ih
        simpa [Ne.symm hxa, Ne.symm hxb] using h

theorem leads_of_only (hb : b ∈ xs) (ha : a ∉ xs) : leads a b xs = false := by
  induction xs with
  | nil => rfl
  | cons x xs ih =>
    rw [List.mem_cons, not_or] at ha
    rw [leads, if_neg (Ne.symm ha.1)]
    split
    · rfl
    · rename_i hxb
      exact ih ((List.mem_cons.mp hb).resolve_left (Ne.symm hxb)) ha.2

theorem leads_of_missing (ha : a ∈ xs) (hb : b ∉ xs) : leads a b xs = true := by
  induction xs with
  | nil => simp at ha
  | cons x xs ih =>
    rw [List.mem_cons, not_or] at hb
    rw [leads, if_neg (Ne.symm hb.1)]
    split
    · rfl
    · rename_i hxa
      exact ih ((List.mem_cons.mp ha).resolve_left (Ne.symm hxa)) hb.2

/-- One more turn for the item that leads, when it goes to the end. -/
def lead (a b : α) (xs : List α) : Int := if leads a b xs then 1 else 0

theorem lead_rotate_first (nodup : (a :: xs).Nodup) (hb : b ∈ xs) :
    lead a b (a :: xs) = 1 ∧ lead a b (xs ++ [a]) = 0 := by
  have ha := (List.nodup_cons.mp nodup).1
  constructor
  · rw [lead, leads, if_pos rfl]
    rfl
  · rw [lead, leads_append (Or.inr hb), leads_of_only hb ha]
    rfl

theorem lead_rotate_second (nodup : (b :: xs).Nodup) (ha : a ∈ xs) (hab : a ≠ b) :
    lead a b (b :: xs) = 0 ∧ lead a b (xs ++ [b]) = 1 := by
  have hb := (List.nodup_cons.mp nodup).1
  constructor
  · rw [lead, leads, if_neg (Ne.symm hab), if_pos rfl]
    rfl
  · rw [lead, leads_append (Or.inl ha), leads_of_missing ha hb]
    rfl

theorem lead_move_last (hca : c ≠ a) (hcb : c ≠ b) (ha : a ∈ xs) :
    lead a b (xs.erase c ++ [c]) = lead a b xs := by
  have hmem : a ∈ xs.erase c := (List.mem_erase_of_ne (Ne.symm hca)).mpr ha
  rw [lead, leads_append (Or.inl hmem), leads_erase hca hcb, lead]

/-- An item at the end is behind all others. -/
theorem lead_of_last (nodup : xs.Nodup) (ha : a ∈ xs) (hab : a ≠ b) :
    lead a b (xs.erase b ++ [b]) = 1 := by
  have hmem : a ∈ xs.erase b := (List.mem_erase_of_ne hab).mpr ha
  rw [lead, leads_append (Or.inl hmem), leads_of_missing hmem nodup.not_mem_erase]
  rfl

theorem lead_erase (hca : c ≠ a) (hcb : c ≠ b) : lead a b (xs.erase c) = lead a b xs := by
  rw [lead, leads_erase hca hcb, lead]

theorem lead_range (a b : α) (xs : List α) : 0 ≤ lead a b xs ∧ lead a b xs ≤ 1 := by
  rw [lead]
  split <;> omega

end Order

end ApTelemetry.Lib
