import Mathlib.Order.Lattice
import Mathlib.Order.Defs.LinearOrder
import Mathlib.Order.MinMax

namespace ApTelemetry.Lib

variable {α β : Type} [LinearOrder β] {key : α → β} {m z : β}

/-- The greatest key seen, from `m` on. -/
def highest (key : α → β) (m : β) (xs : List α) : β := xs.foldl (fun m x => max m (key x)) m

theorem highest_lt_iff {xs : List α} : highest key m xs < z ↔ m < z ∧ ∀ x ∈ xs, key x < z := by
  induction xs generalizing m with
  | nil => simp [highest]
  | cons x xs ih =>
    show highest key (max m (key x)) xs < z ↔ _
    rw [ih, max_lt_iff, List.forall_mem_cons, and_assoc]

theorem highest_append (xs ys : List α) :
    highest key m (xs ++ ys) = highest key (highest key m xs) ys := List.foldl_append ..

theorem highest_concat (xs : List α) (x : α) :
    highest key m (xs ++ [x]) = max (highest key m xs) (key x) := highest_append xs [x]

theorem le_highest {xs : List α} : m ≤ highest key m xs ∧ ∀ x ∈ xs, key x ≤ highest key m xs := by
  constructor
  · exact not_lt.mp fun h => lt_irrefl m (highest_lt_iff.mp h).1
  · exact fun x hx => not_lt.mp fun h => lt_irrefl (key x) ((highest_lt_iff.mp h).2 x hx)

/-- It is enough to compare every item with those in front of it. -/
theorem pairwise_of_split {R : α → α → Prop} {xs : List α}
    (h : ∀ pre y post, xs = pre ++ y :: post → ∀ x ∈ pre, R x y) : xs.Pairwise R := by
  induction xs with
  | nil => exact .nil
  | cons x xs ih =>
    refine .cons (fun y hy => ?_) (ih fun pre y post heq z hz => ?_)
    · obtain ⟨pre, post, rfl⟩ := List.append_of_mem hy
      exact h (x :: pre) y post rfl x List.mem_cons_self
    · exact h (x :: pre) y post (congrArg (x :: ·) heq) z (List.mem_cons_of_mem x hz)

/-- The items with a key above all before them and above `m`. -/
def maxima (key : α → β) : β → List α → List α
  | _, [] => []
  | m, x :: rest => if m < key x then x :: maxima key (key x) rest else maxima key m rest

theorem mem_maxima_iff {xs : List α} {x : α} : x ∈ maxima key m xs ↔
    ∃ pre post, xs = pre ++ x :: post ∧ highest key m pre < key x := by
  induction xs generalizing m with
  | nil => simp [maxima]
  | cons y rest ih =>
    have hrest : ∀ m', (∃ pre post, rest = pre ++ x :: post ∧ highest key m' pre < key x) →
        max m (key y) = m' →
        ∃ pre post, y :: rest = pre ++ x :: post ∧ highest key m pre < key x := by
      rintro m' ⟨pre, post, rfl, hlt⟩ rfl
      exact ⟨y :: pre, post, rfl, hlt⟩
    have hback : (∃ pre post, y :: rest = pre ++ x :: post ∧ highest key m pre < key x) →
        y = x ∧ m < key x ∨
        ∃ pre post, rest = pre ++ x :: post ∧ highest key (max m (key y)) pre < key x := by
      rintro ⟨pre, post, heq, hlt⟩
      cases pre with
      | nil => exact .inl ⟨(List.cons.inj heq).1, hlt⟩
      | cons z pre =>
        obtain ⟨rfl, rfl⟩ := List.cons.inj heq
        exact .inr ⟨pre, post, rfl, hlt⟩
    unfold maxima
    split
    · rename_i hlt
      have hmax : max m (key y) = key y := max_eq_right hlt.le
      rw [List.mem_cons, ih]
      constructor
      · rintro (rfl | h)
        · exact ⟨[], rest, rfl, hlt⟩
        · exact hrest _ h hmax
      · intro h
        rcases hback h with ⟨rfl, -⟩ | h
        · exact .inl rfl
        · exact .inr (hmax ▸ h)
    · rename_i hle
      have hmax : max m (key y) = m := max_eq_left (not_lt.mp hle)
      rw [ih]
      constructor
      · exact fun h => hrest _ h hmax
      · intro h
        rcases hback h with ⟨rfl, hlt⟩ | h
        · exact absurd hlt hle
        · exact hmax ▸ h

end ApTelemetry.Lib
