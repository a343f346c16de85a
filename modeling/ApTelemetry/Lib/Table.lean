import Mathlib.Algebra.BigOperators.Fin
import Mathlib.Algebra.BigOperators.Group.Finset.Piecewise
import Mathlib.Algebra.Group.Basic
import Mathlib.Data.BitVec

namespace ApTelemetry.Lib

variable {ι α M : Type} [DecidableEq ι]

/-- What holds of the new entry and of all others holds of the table with it. -/
theorem update_forall {P : ι → α → Prop} {t : ι → α} {i : ι} {a : α} (new : P i a)
    (old : ∀ j, P j (t j)) (j : ι) : P j (Function.update t i a j) := by
  cases decEq j i with
  | isTrue h =>
    subst h
    rwa [Function.update_self]
  | isFalse h =>
    rw [Function.update_of_ne h]
    exact old j

/-- A total over a table moves by what one entry moves. -/
theorem sum_update [Fintype ι] [AddCommMonoid M] (t : ι → α) (i : ι) (a : α) (g : α → M) :
    (∑ j, g (Function.update t i a j)) + g (t i) = (∑ j, g (t j)) + g a := by
  have hothers : ∑ j ∈ Finset.univ.erase i, g (Function.update t i a j) =
      ∑ j ∈ Finset.univ.erase i, g (t j) := by
    apply Finset.sum_congr rfl
    intro j hj
    rw [Function.update_of_ne (Finset.ne_of_mem_erase hj)]
  calc (∑ j, g (Function.update t i a j)) + g (t i)
      = g a + (∑ j ∈ Finset.univ.erase i, g (t j)) + g (t i) := by
        rw [← Finset.add_sum_erase _ _ (Finset.mem_univ i), hothers, Function.update_self]
    _ = (g (t i) + ∑ j ∈ Finset.univ.erase i, g (t j)) + g a := by
        rw [add_comm, ← add_assoc, add_right_comm]
    _ = (∑ j, g (t j)) + g a := by
        rw [Finset.add_sum_erase _ (fun j => g (t j)) (Finset.mem_univ i)]

/-- A sum that fits is exact. -/
theorem to_nat_sum {w : Nat} (s : Finset ι) (f : ι → BitVec w)
    (h : ∑ i ∈ s, (f i).toNat < 2 ^ w) : (∑ i ∈ s, f i).toNat = ∑ i ∈ s, (f i).toNat := by
  induction s using Finset.induction_on with
  | empty => exact BitVec.toNat_zero
  | insert i s hi ih =>
    rw [Finset.sum_insert hi] at h
    rw [Finset.sum_insert hi, Finset.sum_insert hi, BitVec.toNat_add, ih (by omega)]
    exact Nat.mod_eq_of_lt h

theorem foldl_sub {β : Type} [AddCommGroup M] (g : β → M) (xs : List β) (m : M) :
    xs.foldl (fun m x => m - g x) m = m - (xs.map g).sum := by
  induction xs generalizing m with
  | nil => exact (sub_zero m).symm
  | cons x xs ih =>
    rw [List.foldl_cons, ih, List.map_cons, List.sum_cons]
    exact sub_sub ..

/-- The search that takes over an item with a larger key ends at a largest one, or where it
started. -/
theorem foldl_largest {β : Type} {w : Nat} (key : β → BitVec w) (best : BitVec w × β)
    (xs : List β) :
    let found := xs.foldl (fun best i => if key i > best.1 then (key i, i) else best) best
    (found = best ∨ found.2 ∈ xs ∧ key found.2 = found.1) ∧ best.1 ≤ found.1 ∧
      ∀ x ∈ xs, key x ≤ found.1 := by
  induction xs generalizing best with
  | nil => exact ⟨Or.inl rfl, BitVec.le_refl _, by simp⟩
  | cons x xs ih =>
    rw [List.foldl_cons]
    split
    · rename_i hlarger
      obtain ⟨hfound, hbest, hall⟩ := ih (key x, x)
      refine ⟨Or.inr ?_, BitVec.le_trans (BitVec.le_of_lt hlarger) hbest, ?_⟩
      · rcases hfound with hsame | ⟨hmem, hkey⟩
        · rw [hsame]
          exact ⟨List.mem_cons_self .., rfl⟩
        · exact ⟨List.mem_cons_of_mem x hmem, hkey⟩
      · exact List.forall_mem_cons.mpr ⟨hbest, hall⟩
    · rename_i hnot
      obtain ⟨hfound, hbest, hall⟩ := ih best
      refine ⟨hfound.imp_right fun h => ⟨List.mem_cons_of_mem x h.1, h.2⟩, hbest, ?_⟩
      exact List.forall_mem_cons.mpr ⟨BitVec.le_trans (BitVec.not_lt.mp hnot) hbest, hall⟩

end ApTelemetry.Lib
