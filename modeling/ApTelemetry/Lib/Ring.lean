import Mathlib.Data.List.Basic
import Mathlib.Data.Nat.ModEq
import Mathlib.Logic.Function.Basic

namespace ApTelemetry.Lib

/-- The two indices of a ring of size `n` after `hi` units were put in and `lo`
of them given up: `first` is the oldest unit, `next` the place written next. -/
structure Cursors (n lo hi first next : Nat) : Prop where
  pos : 0 < n
  first : first = lo % n
  next : next = hi % n
  le : lo ≤ hi

namespace Cursors

variable {n lo hi first next : Nat}

theorem start (h : 0 < n) : Cursors n 0 0 0 0 :=
  ⟨h, (Nat.zero_mod n).symm, (Nat.zero_mod n).symm, Nat.le_refl 0⟩

theorem first_lt (h : Cursors n lo hi first next) : first < n :=
  h.first ▸ Nat.mod_lt lo h.pos

theorem next_lt (h : Cursors n lo hi first next) : next < n :=
  h.next ▸ Nat.mod_lt hi h.pos

/-- An index `k` places behind the oldest unit. -/
theorem first_add (h : Cursors n lo hi first next) (k : Nat) : (first + k) % n = (lo + k) % n := by
  rw [h.first, Nat.mod_add_mod]

/-- The usual fill-level expression counts the units held, unless the ring is
full: then it is zero. -/
theorem distance (h : Cursors n lo hi first next) (hroom : hi < lo + n) :
    (next + n - first) % n = hi - lo := by
  have hle := h.le
  have hlt := h.first_lt
  obtain ⟨k, rfl⟩ : ∃ k, hi = lo + k := ⟨hi - lo, by omega⟩
  have hnext : next = (first + k) % n := by rw [h.next, h.first_add]
  rw [hnext, Nat.add_sub_cancel_left]
  rcases Nat.lt_or_ge (first + k) n with hlo | hge
  · rw [Nat.mod_eq_of_lt hlo, show first + k + n - first = k + n by omega, Nat.add_mod_right,
      Nat.mod_eq_of_lt (by omega)]
  · have hwrap : (first + k) % n = first + k - n := by
      rw [Nat.mod_eq_sub_mod hge, Nat.mod_eq_of_lt (by omega)]
    rw [hwrap, show first + k - n + n - first = k by omega, Nat.mod_eq_of_lt (by omega)]

theorem distance_empty (h : Cursors n lo lo first next) : (next + n - first) % n = 0 := by
  rw [h.distance (Nat.lt_add_of_pos_right h.pos), Nat.sub_self]

theorem put (h : Cursors n lo hi first next) (w : Nat) :
    Cursors n lo (hi + w) first ((next + w) % n) :=
  ⟨h.pos, h.first, by rw [h.next, Nat.mod_add_mod], Nat.le_add_right_of_le h.le⟩

theorem take (h : Cursors n lo hi first next) (w : Nat) (hle : lo + w ≤ hi) :
    Cursors n (lo + w) hi ((first + w) % n) next :=
  ⟨h.pos, by rw [h.first, Nat.mod_add_mod], h.next, hle⟩

/-- The place written next meets the oldest unit exactly when the ring is full
or empty. -/
theorem meets_iff (h : Cursors n lo hi first next) (hlt : lo < hi) (hroom : hi ≤ lo + n) :
    next = first ↔ hi = lo + n := by
  rw [h.next, h.first]
  constructor
  · intro he
    have hdvd : n ∣ hi - lo := (Nat.modEq_iff_dvd' (by omega)).mp he.symm
    have := Nat.le_of_dvd (by omega) hdvd
    omega
  · intro he
    rw [he, Nat.add_mod_right]

end Cursors

/-- How many of `n` items a ring gives up that keeps the last `m`. -/
def dropped (m n : Nat) : Nat := n - min n m

theorem dropped_le (m n : Nat) : dropped m n ≤ n := Nat.sub_le ..

theorem dropped_room (m n : Nat) : n < dropped m n + (m + 1) := by
  unfold dropped
  omega

/-- A ring of one place more than it keeps: the next place meets the oldest unit
when it is full, and then that unit is given up. -/
theorem Cursors.push {m n first next : Nat} (h : Cursors (m + 1) (dropped m n) n first next)
    (hm : 0 < m) :
    Cursors (m + 1) (dropped m (n + 1)) (n + 1)
      (if (next + 1) % (m + 1) = first then (first + 1) % (m + 1) else first)
      ((next + 1) % (m + 1)) := by
  have hput := h.put 1
  have hmeets := hput.meets_iff (by unfold dropped; omega) (by unfold dropped; omega)
  split
  · rename_i hfull
    have hup : dropped m (n + 1) = dropped m n + 1 := by
      have := hmeets.mp hfull
      unfold dropped at this ⊢
      omega
    rw [hup]
    exact hput.take 1 (by unfold dropped; omega)
  · rename_i hfree
    have hup : dropped m (n + 1) = dropped m n := by
      have := mt hmeets.mpr hfree
      unfold dropped at this ⊢
      omega
    rw [hup]
    exact hput

/-- The slots hold the items from number `lo` on of everything put in. -/
def Stored {α : Type} (n : Nat) (slot : Nat → α) (log : List α) (lo : Nat) : Prop :=
  ∀ j, lo ≤ j → ∀ h : j < log.length, slot (j % n) = log[j]

namespace Stored

variable {α : Type} {n lo : Nat} {slot slot' : Nat → α} {log : List α}

theorem nil (n : Nat) (slot : Nat → α) : Stored n slot [] 0 := by
  intro j _ h
  simp at h

theorem mono (h : Stored n slot log lo) {lo' : Nat} (hle : lo ≤ lo') : Stored n slot log lo' :=
  fun j hj => h j (by omega)

/-- The place written next holds none of the items as long as one is free. -/
theorem free (h : Stored n slot log lo) (hroom : log.length < lo + n)
    (hkeep : ∀ i, i < n → i ≠ log.length % n → slot' i = slot i) : Stored n slot' log lo := by
  intro j hj hlt
  have hne : j % n ≠ log.length % n := by
    intro he
    have hdvd : n ∣ log.length - j := (Nat.modEq_iff_dvd' (by omega)).mp he
    have := Nat.le_of_dvd (by omega) hdvd
    omega
  rw [hkeep _ (Nat.mod_lt j (by omega)) hne]
  exact h j hj hlt

/-- Writing the next slot keeps all items still inside the ring. -/
theorem put (h : Stored n slot log lo) (x : α) (hroom : log.length < lo + n)
    (hnew : slot' (log.length % n) = x)
    (hkeep : ∀ i, i < n → i ≠ log.length % n → slot' i = slot i) :
    Stored n slot' (log ++ [x]) lo := by
  intro j hj hlt
  rw [List.length_append, List.length_singleton] at hlt
  rcases Nat.lt_succ_iff_lt_or_eq.mp hlt with hlt | rfl
  · rw [h.free hroom hkeep j hj hlt, List.getElem_append_left hlt]
  · rw [hnew, List.getElem_append_right (Nat.le_refl _)]
    simp

/-- Reading the slots from the oldest item on gives the last items put in. -/
theorem window {first next : Nat} (h : Stored n slot log lo)
    (hc : Cursors n lo log.length first next) (hroom : log.length < lo + n) :
    (List.range ((next + n - first) % n)).map (fun k => slot ((first + k) % n)) =
      log.drop lo := by
  rw [hc.distance hroom]
  apply List.ext_getElem
  · simp
  · intro k hk _
    have hk' : k < log.length - lo := by simpa using hk
    simp only [List.getElem_map, List.getElem_range, List.getElem_drop, hc.first_add]
    exact h (lo + k) (by omega) (by omega)

end Stored

end ApTelemetry.Lib
