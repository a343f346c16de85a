import Mathlib.Algebra.Group.Int.Defs
import Mathlib.Algebra.GroupWithZero.Nat
import Mathlib.Data.Int.Init

namespace ApTelemetry.Lib

/-- The operations of C on a signed type. -/
inductive CInt.Op where
  | add
  | sub
  | mul
  | div

/-- An expression of a signed type. A number in it, also one that is cast to the
type, is the number it was. -/
inductive CInt where
  | num (n : Int)
  | op (o : CInt.Op) (a b : CInt)

namespace CInt

/-- The operation on numbers. -/
def Op.ideal : Op → Int → Int → Int
  | add, a, b => a + b
  | sub, a, b => a - b
  | mul, a, b => a * b
  | div, a, b => a.tdiv b

/-- The operation on `w` bits. -/
def Op.run {w : Nat} : Op → BitVec w → BitVec w → BitVec w
  | add, a, b => a + b
  | sub, a, b => a - b
  | mul, a, b => a * b
  | div, a, b => a.sdiv b

def value : CInt → Int
  | num n => n
  | op o a b => o.ideal a.value b.value

/-- What a machine computes that wraps around. -/
def run (w : Nat) : CInt → BitVec w
  | num n => BitVec.ofInt w n
  | op o a b => o.run (a.run w) (b.run w)

/-- All intermediate values, the last one included. -/
def terms : CInt → List CInt
  | num n => [num n]
  | op o a b => op o a b :: (a.terms ++ b.terms)

/-- No intermediate value is another one on the machine. -/
def Exact (w : Nat) (e : CInt) : Prop := ∀ t ∈ e.terms, (t.run w).toInt = t.value

/-- A number of the signed type. -/
def Fits (w : Nat) (n : Int) : Prop := -2 ^ w ≤ 2 * n ∧ 2 * n < 2 ^ w

variable {w : Nat}

theorem fits_of_eq {x : BitVec w} {n : Int} (h : x.toInt = n) : Fits w n := by
  subst h
  exact ⟨BitVec.le_two_mul_toInt, BitVec.two_mul_toInt_lt⟩

theorem Fits.bmod {n : Int} (h : Fits w n) : n.bmod (2 ^ w) = n := by
  obtain ⟨hle, hlt⟩ := h
  refine Int.bmod_eq_of_le_mul_two ?_ ?_
  · rw [Int.mul_comm n 2]
    exact_mod_cast hle
  · rw [Int.mul_comm n 2]
    exact_mod_cast hlt

/-- An operation of the machine is right up to wrapping around. -/
theorem Op.run_toInt (o : Op) (a b : BitVec w) :
    (o.run a b).toInt = (o.ideal a.toInt b.toInt).bmod (2 ^ w) := by
  cases o with
  | add => exact BitVec.toInt_add a b
  | sub => exact BitVec.toInt_sub
  | mul => exact BitVec.toInt_mul a b
  | div => exact BitVec.toInt_sdiv a b

theorem mem_terms (e : CInt) : e ∈ e.terms := by
  cases e <;> exact List.mem_cons_self

theorem Exact.run_toInt {e : CInt} (h : e.Exact w) : (e.run w).toInt = e.value :=
  h e e.mem_terms

theorem exact_num {n : Int} : (num n).Exact w ↔ Fits w n := by
  constructor
  · intro h
    exact fits_of_eq h.run_toInt
  · intro h t ht
    rw [List.mem_singleton.mp ht]
    exact (BitVec.toInt_ofInt n).trans h.bmod

/-- An operation is exact if its operands are and its own value fits. -/
theorem exact_op {o : Op} {a b : CInt} :
    (op o a b).Exact w ↔ a.Exact w ∧ b.Exact w ∧ Fits w (op o a b).value := by
  constructor
  · intro h
    refine ⟨fun t ht => ?_, fun t ht => ?_, fits_of_eq h.run_toInt⟩
    · exact h t (List.mem_cons_of_mem _ (List.mem_append_left _ ht))
    · exact h t (List.mem_cons_of_mem _ (List.mem_append_right _ ht))
  · rintro ⟨ha, hb, hfits⟩ t ht
    rcases List.mem_cons.mp ht with rfl | ht
    · rw [run, Op.run_toInt, ha.run_toInt, hb.run_toInt]
      exact hfits.bmod
    · rcases List.mem_append.mp ht with ht | ht
      · exact ha t ht
      · exact hb t ht

end CInt

end ApTelemetry.Lib
