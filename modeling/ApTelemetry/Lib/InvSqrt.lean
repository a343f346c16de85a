import Mathlib.Tactic.Linarith
import Mathlib.Tactic.Positivity
import Mathlib.Tactic.Ring
import Mathlib.Tactic.Zify

namespace ApTelemetry.Lib

/-- One step of Newton's method for `1 / √n`, on numbers of which `s` stands for 1:
`x / 2 * (3 - n * x ^ 2)`, rounded down. -/
def newton (s n x : Nat) : Nat := x * (3 * s ^ 2 - n * x ^ 2) / (2 * s ^ 2)

variable {s n x y : Nat}

/-- Whatever the start, the step does not pass the root. -/
theorem newton_below (hs : 0 < s) (h : n * x ^ 2 ≤ 3 * s ^ 2) (hy : y ≤ newton s n x) :
    n * y ^ 2 ≤ s ^ 2 := by
  obtain ⟨d, hd⟩ := Nat.exists_eq_add_of_le h
  have hN : 0 < s ^ 2 := Nat.pow_pos hs
  have hstep : 2 * s ^ 2 * y ≤ x * d := by
    have hle := (Nat.le_div_iff_mul_le (Nat.mul_pos two_pos hN)).mp hy
    rw [hd, Nat.add_sub_cancel_left] at hle
    linarith
  generalize s ^ 2 = N at hN hd hstep ⊢
  have hsquare : n * (2 * N * y) ^ 2 ≤ n * (x * d) ^ 2 :=
    Nat.mul_le_mul_left n (Nat.pow_le_pow_left hstep 2)
  generalize hv : n * x ^ 2 = v at hd
  have hright : n * (x * d) ^ 2 = v * d ^ 2 := by
    rw [← hv]
    ring
  -- with `u = v / N` this is `u * (3 - u) ^ 2 ≤ 4`
  have hcube : v * d ^ 2 ≤ 4 * N ^ 3 := by
    zify at hd ⊢
    have hv3 : (v : Int) ≤ 3 * N := by linarith
    have hgap : (0 : Int) ≤ (v - N) ^ 2 * (4 * N - v) :=
      mul_nonneg (sq_nonneg _) (by linarith)
    have hd' : (d : Int) = 3 * N - v := by linarith
    rw [hd']
    linarith
  have hall : 4 * N ^ 2 * (n * y ^ 2) ≤ 4 * N ^ 2 * N :=
    calc 4 * N ^ 2 * (n * y ^ 2) = n * (2 * N * y) ^ 2 := by ring
      _ ≤ v * d ^ 2 := hright ▸ hsquare
      _ ≤ 4 * N ^ 3 := hcube
      _ = 4 * N ^ 2 * N := by ring
  exact Nat.le_of_mul_le_mul_left hall (by positivity)

/-- A start of at most 1 stays at most 1. -/
theorem newton_small (hx : x ≤ 1) : newton s n x ≤ 1 := by
  rw [newton]
  rcases Nat.eq_zero_or_pos (s ^ 2) with hN | hN
  · simp [hN]
  · rw [Nat.div_le_iff_le_mul_add_pred (Nat.mul_pos two_pos hN)]
    have hle : x * (3 * s ^ 2 - n * x ^ 2) ≤ 1 * (3 * s ^ 2) :=
      Nat.mul_le_mul hx (Nat.sub_le _ _)
    omega

end ApTelemetry.Lib
