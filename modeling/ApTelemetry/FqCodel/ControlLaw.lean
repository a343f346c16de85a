import ApTelemetry.Lib.InvSqrt
import ApTelemetry.Lib.Serial
import ApTelemetry.Structs

namespace ApTelemetry.FqCodel
open Lib

/-- A time in units of 1024 ns, `codel_time_t`. -/
abbrev CodelTime := U32

/-- `codel_time_after(a, b)` -/
def timeAfter (a b : CodelTime) : Bool := 0 < (a - b).toInt

def timeBefore (a b : CodelTime) : Bool := timeAfter b a

def timeAfterEq (a b : CodelTime) : Bool := 0 ≤ (a - b).toInt

structure Params where
  target : CodelTime
  ceThreshold : CodelTime
  interval : CodelTime
  mtu : U32
  ecn : Bool

structure Vars where
  count : U32
  lastcount : U32
  dropping : Bool
  recInvSqrt : U16
  firstAboveTime : CodelTime
  dropNext : CodelTime
  ldelay : CodelTime

/-- `codel_vars_init` -/
def Vars.init : Vars := ⟨0, 0, false, 0, 0, 0, 0⟩

def recInvSqrtShift : Nat := 16

def newtonStep (vars : Vars) : Vars :=
  let invsqrt : U32 := vars.recInvSqrt.setWidth 32 <<< recInvSqrtShift
  let invsqrt2 : U32 := ((invsqrt.setWidth 64 * invsqrt.setWidth 64) >>> 32).setWidth 32
  let val : U64 := (3 <<< 32) - vars.count.setWidth 64 * invsqrt2.setWidth 64
  let val := val >>> 2
  let val := (val * invsqrt.setWidth 64) >>> (32 - 2 + 1)
  { vars with recInvSqrt := (val >>> recInvSqrtShift).setWidth 16 }

/-- The kernel's `reciprocal_scale`. -/
def reciprocalScale (val epRo : U32) : U32 :=
  ((val.setWidth 64 * epRo.setWidth 64) >>> 32).setWidth 32

def controlLaw (t interval : CodelTime) (recInvSqrt : U32) : CodelTime :=
  t + reciprocalScale interval (recInvSqrt <<< recInvSqrtShift)

/-- The time of the drop after one at `t`. -/
def Vars.next (vars : Vars) (t interval : CodelTime) : CodelTime :=
  controlLaw t interval (vars.recInvSqrt.setWidth 32)

/-- One more drop in the dropping state. -/
def countUp (vars : Vars) : Vars := newtonStep { vars with count := vars.count + 1 }

/-- Where the drop rate starts when the dropping state is entered: at the last one, if
that is not long ago. -/
def restart (vars : Vars) (now interval : CodelTime) : Vars :=
  let delta := vars.count - vars.lastcount
  if delta > 1 ∧ timeBefore (now - vars.dropNext) (16 * interval) then
    newtonStep { vars with count := delta }
  else { vars with count := 1, recInvSqrt := ((~~~(0 : U32)) >>> recInvSqrtShift).setWidth 16 }

def enter (vars : Vars) (now interval : CodelTime) : Vars :=
  let vars := restart { vars with dropping := true } now interval
  { vars with lastcount := vars.count, dropNext := vars.next now interval }

/-- The estimate of `1 / √count` is not above it. Once `count` has wrapped around, it
is at most one unit. -/
structure Vars.Sound (vars : Vars) : Prop where
  below : vars.count.toNat * vars.recInvSqrt.toNat ^ 2 ≤ 65536 ^ 2
  wrapped : vars.lastcount ≤ vars.count ∨ vars.recInvSqrt.toNat ≤ 1

/-- The unsigned subtraction of the next Newton step stays above zero. -/
def Vars.Steps (vars : Vars) (count : U32) : Prop :=
  count.toNat * vars.recInvSqrt.toNat ^ 2 ≤ 3 * 65536 ^ 2

section Newton

variable {vars : Vars}

theorem inv_sqrt_to_nat (rec : U16) :
    ((rec.setWidth 32 <<< recInvSqrtShift : U32).setWidth 64).toNat = rec.toNat * 65536 := by
  have hrec := rec.isLt
  simp only [recInvSqrtShift, BitVec.toNat_shiftLeft, BitVec.toNat_setWidth, Nat.shiftLeft_eq]
  omega

/-- The fixed-point product behind the subtraction. -/
theorem scaled_le {invsqrt val : U64} {x : Nat} (hx : invsqrt.toNat = x * 65536) (hrec : x < 65536)
    (hval : val.toNat ≤ 12884901888) :
    (((((val >>> 2) * invsqrt) >>> (32 - 2 + 1)) >>> recInvSqrtShift).setWidth 16 : U16).toNat ≤
      x * val.toNat / 8589934592 := by
  have hquarter : val.toNat / 4 * (x * 65536) = val.toNat / 4 * x * 65536 :=
    (Nat.mul_assoc ..).symm
  have hle : val.toNat / 4 * x ≤ 3221225472 * 65536 := Nat.mul_le_mul (by omega) (le_of_lt hrec)
  have hdiv : val.toNat / 4 * x / 2147483648 ≤ x * val.toNat / 8589934592 := by
    have hfloor := Nat.div_mul_le_self (val.toNat / 4 * x) 2147483648
    have hwhole : val.toNat / 4 * x * 4 ≤ x * val.toNat :=
      calc val.toNat / 4 * x * 4 = x * (val.toNat / 4 * 4) := by ring
        _ ≤ x * val.toNat := Nat.mul_le_mul_left x (Nat.div_mul_le_self ..)
    generalize val.toNat / 4 * x = y at hfloor hwhole
    omega
  refine le_trans ?_ hdiv
  simp only [recInvSqrtShift, BitVec.toNat_setWidth, BitVec.toNat_ushiftRight, BitVec.toNat_mul,
    Nat.shiftRight_eq_div_pow, hx, Nat.reducePow, Nat.reduceSub, Nat.reduceAdd]
  rw [hquarter]
  omega

theorem squared_eq {invsqrt : U64} {x : Nat} (hx : invsqrt.toNat = x * 65536) (hrec : x < 65536) :
    ((((invsqrt * invsqrt) >>> 32 : U64).setWidth 32 : U32).setWidth 64).toNat = x ^ 2 := by
  have hprod : invsqrt.toNat * invsqrt.toNat = x ^ 2 * 4294967296 := by
    rw [hx]
    ring
  have hle : x * x ≤ 65535 * 65535 := Nat.mul_le_mul (by omega) (by omega)
  rw [← Nat.pow_two] at hle
  simp only [BitVec.toNat_setWidth, BitVec.toNat_ushiftRight, BitVec.toNat_mul, hprod,
    Nat.shiftRight_eq_div_pow, Nat.reducePow]
  omega

theorem difference_eq {count : U32} {square : U64} {v : Nat}
    (hv : count.toNat * square.toNat = v) (h : v ≤ 12884901888) :
    ((3 <<< 32 : U64) - count.setWidth 64 * square).toNat = 12884901888 - v := by
  have hcount : (count.setWidth 64).toNat = count.toNat := by
    have := count.isLt
    rw [BitVec.toNat_setWidth]
    omega
  have hthree : (3 <<< 32 : U64).toNat = 12884901888 := by decide
  rw [BitVec.toNat_sub, BitVec.toNat_mul, hcount, hv, hthree]
  omega

/-- As long as the subtraction does not wrap around, the step is Newton's, cut to 16 bits. -/
theorem newton_step_le (h : vars.Steps vars.count) :
    (newtonStep vars).recInvSqrt.toNat ≤ newton 65536 vars.count.toNat vars.recInvSqrt.toNat := by
  have hx := inv_sqrt_to_nat vars.recInvSqrt
  have hsquare := squared_eq hx vars.recInvSqrt.isLt
  have hval := difference_eq (congrArg (vars.count.toNat * ·) hsquare) h
  have hscaled := scaled_le hx vars.recInvSqrt.isLt (hval ▸ Nat.sub_le _ _)
  rw [hval] at hscaled
  exact hscaled

variable (vars) in
theorem newton_step_below (h : vars.Steps vars.count) :
    vars.count.toNat * (newtonStep vars).recInvSqrt.toNat ^ 2 ≤ 65536 ^ 2 :=
  newton_below (by omega) h (newton_step_le h)

variable (vars) in
theorem newton_step_small (h : vars.Steps vars.count) (hrec : vars.recInvSqrt.toNat ≤ 1) :
    (newtonStep vars).recInvSqrt.toNat ≤ 1 :=
  le_trans (newton_step_le h) (newton_small hrec)

/-- A value scaled to a range is in it. -/
theorem reciprocal_scale_lt (val epRo : U32) (h : 0 < epRo.toNat) :
    (reciprocalScale val epRo).toNat < epRo.toNat := by
  have hval := val.isLt
  have hrange := epRo.isLt
  have hprod : val.toNat * epRo.toNat < 4294967296 * epRo.toNat :=
    Nat.mul_lt_mul_of_pos_right hval h
  simp only [reciprocalScale, BitVec.toNat_setWidth, BitVec.toNat_ushiftRight, BitVec.toNat_mul,
    Nat.shiftRight_eq_div_pow, Nat.reducePow]
  rw [Nat.mod_eq_of_lt (a := val.toNat) (by omega), Nat.mod_eq_of_lt (a := epRo.toNat) (by omega)]
  generalize val.toNat * epRo.toNat = p at hprod ⊢
  omega

theorem reciprocal_scale_le (interval : CodelTime) (rec : U16) :
    (reciprocalScale interval (rec.setWidth 32 <<< recInvSqrtShift)).toNat * 65536 ≤
      interval.toNat * rec.toNat := by
  have hinterval := interval.isLt
  have hrec := rec.isLt
  have hprod : interval.toNat * (rec.toNat * 65536) = interval.toNat * rec.toNat * 65536 :=
    (Nat.mul_assoc ..).symm
  have hle : interval.toNat * rec.toNat ≤ 4294967295 * 65535 :=
    Nat.mul_le_mul (by omega) (by omega)
  have hwidth : (interval.setWidth 64).toNat = interval.toNat := by
    rw [BitVec.toNat_setWidth]
    omega
  rw [reciprocalScale, BitVec.toNat_setWidth, BitVec.toNat_ushiftRight, BitVec.toNat_mul,
    inv_sqrt_to_nat, hwidth, hprod, Nat.shiftRight_eq_div_pow]
  generalize interval.toNat * rec.toNat = p at hle ⊢
  omega

end Newton

namespace Vars.Sound

variable {vars : Vars}

theorem init : Vars.init.Sound := ⟨by decide, Or.inl (by decide)⟩

/-- The step to the next drop starts within Newton's range, also where `count` wraps around. -/
theorem steps_up (h : vars.Sound) : vars.Steps (vars.count + 1) := by
  have hrec : vars.recInvSqrt.toNat ^ 2 ≤ 65536 ^ 2 :=
    Nat.pow_le_pow_left (le_of_lt vars.recInvSqrt.isLt) 2
  have hcount : (vars.count + 1).toNat ≤ vars.count.toNat + 1 := by
    rw [BitVec.toNat_add]
    exact Nat.mod_le _ _
  have hbelow := h.below
  calc (vars.count + 1).toNat * vars.recInvSqrt.toNat ^ 2
      ≤ (vars.count.toNat + 1) * vars.recInvSqrt.toNat ^ 2 := Nat.mul_le_mul_right _ hcount
    _ = vars.count.toNat * vars.recInvSqrt.toNat ^ 2 + vars.recInvSqrt.toNat ^ 2 := by ring
    _ ≤ 3 * 65536 ^ 2 := by omega

/-- So does the step back to the drops since the state was entered. -/
theorem steps_back (h : vars.Sound) : vars.Steps (vars.count - vars.lastcount) := by
  have hbelow := h.below
  rcases h.wrapped with hle | hsmall
  · have hcount : (vars.count - vars.lastcount).toNat ≤ vars.count.toNat := by
      rw [sub_to_nat_of_le hle]
      exact Nat.sub_le _ _
    exact le_trans (Nat.mul_le_mul_right _ hcount) (by omega)
  · have hrec : vars.recInvSqrt.toNat ^ 2 ≤ 1 := Nat.pow_le_pow_left hsmall 2
    have hdelta := (vars.count - vars.lastcount).isLt
    have hmul := Nat.mul_le_mul (le_of_lt hdelta) hrec
    exact le_trans hmul (by decide)

theorem count_up (h : vars.Sound) : (countUp vars).Sound := by
  refine ⟨newton_step_below { vars with count := vars.count + 1 } h.steps_up, ?_⟩
  rcases Nat.lt_or_ge 1 vars.recInvSqrt.toNat with hlarge | hsmall
  · have hle := h.wrapped.resolve_right (by omega)
    have hfour : vars.count.toNat * 2 ^ 2 ≤ 65536 ^ 2 :=
      le_trans (Nat.mul_le_mul_left _ (Nat.pow_le_pow_left hlarge 2)) h.below
    have hnext : (vars.count + 1).toNat = vars.count.toNat + 1 := by
      rw [BitVec.toNat_add]
      exact Nat.mod_eq_of_lt (by change vars.count.toNat + 1 < 2 ^ 32; omega)
    refine Or.inl (BitVec.le_def.mpr ?_)
    change vars.lastcount.toNat ≤ (vars.count + 1).toNat
    rw [hnext]
    exact Nat.le_succ_of_le (BitVec.le_def.mp hle)
  · exact Or.inr (newton_step_small { vars with count := vars.count + 1 } h.steps_up hsmall)

theorem restart_below (h : vars.Sound) (now interval : CodelTime) :
    (restart vars now interval).count.toNat *
      (restart vars now interval).recInvSqrt.toNat ^ 2 ≤ 65536 ^ 2 := by
  rw [restart]
  split
  · exact newton_step_below { vars with count := vars.count - vars.lastcount } h.steps_back
  · change (1 : U32).toNat * ((~~~(0 : U32) >>> recInvSqrtShift).setWidth 16 : U16).toNat ^ 2 ≤
      65536 ^ 2
    decide

theorem enter (h : vars.Sound) (now interval : CodelTime) : (enter vars now interval).Sound := by
  have hvars : Vars.Sound { vars with dropping := true } := ⟨h.below, h.wrapped⟩
  exact ⟨hvars.restart_below now interval, Or.inl (BitVec.le_refl _)⟩

/-- The time to the next drop is at most `interval / √count`. -/
theorem spacing (h : vars.Sound) (t interval : CodelTime) :
    vars.count.toNat * (vars.next t interval - t).toNat ^ 2 ≤ interval.toNat ^ 2 := by
  have hnext : vars.next t interval - t =
      reciprocalScale interval (vars.recInvSqrt.setWidth 32 <<< recInvSqrtShift) := by
    rw [next, controlLaw, BitVec.add_comm, BitVec.add_sub_cancel]
  have hle := reciprocal_scale_le interval vars.recInvSqrt
  rw [hnext]
  generalize (reciprocalScale interval _).toNat = d at hle ⊢
  have hall : 65536 ^ 2 * (vars.count.toNat * d ^ 2) ≤ 65536 ^ 2 * interval.toNat ^ 2 :=
    calc 65536 ^ 2 * (vars.count.toNat * d ^ 2) = vars.count.toNat * (d * 65536) ^ 2 := by ring
      _ ≤ vars.count.toNat * (interval.toNat * vars.recInvSqrt.toNat) ^ 2 :=
        Nat.mul_le_mul_left _ (Nat.pow_le_pow_left hle 2)
      _ = vars.count.toNat * vars.recInvSqrt.toNat ^ 2 * interval.toNat ^ 2 := by ring
      _ ≤ 65536 ^ 2 * interval.toNat ^ 2 := Nat.mul_le_mul_right _ h.below
  exact Nat.le_of_mul_le_mul_left hall (by omega)

end Vars.Sound

end ApTelemetry.FqCodel
