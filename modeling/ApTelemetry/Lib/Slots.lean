import Mathlib.Algebra.GroupWithZero.Nat
import Mathlib.Data.Fin.Tuple.Basic
import Mathlib.Data.Fintype.Card
import Mathlib.Data.List.FinRange

namespace ApTelemetry.Lib

/-- A table of slots as a client sees it: the key of each slot that is taken. -/
abbrev Slots (ι κ : Type) := ι → Option κ

namespace Slots

variable {ι κ : Type} {slots : Slots ι κ}

/-- No key is in two slots. -/
def Unique (slots : Slots ι κ) : Prop :=
  ∀ i j key, slots i = some key → slots j = some key → i = j

def Holds (slots : Slots ι κ) (key : κ) : Prop := ∃ i, slots i = some key

/-- Fewer keys than slots leave a slot free. -/
theorem Unique.exists_free [Fintype ι] (h : Unique slots) {keys : Finset κ}
    (hkeys : ∀ i key, slots i = some key → key ∈ keys) (hcard : keys.card < Fintype.card ι) :
    ∃ i, slots i = none := by
  by_contra hfull
  have hsome : ∀ i, ∃ key, slots i = some key := fun i =>
    Option.ne_none_iff_exists'.mp fun hnone => hfull ⟨i, hnone⟩
  choose key hkey using hsome
  have hle : Fintype.card ι ≤ keys.card := by
    apply Finset.card_le_card_of_injOn key
    · exact fun i _ => hkeys i (key i) (hkey i)
    · exact fun i _ j _ heq => h i j (key i) (hkey i) (heq ▸ hkey j)
  exact absurd hcard (not_lt.mpr hle)

section Update

variable [DecidableEq ι]

theorem Unique.free (h : Unique slots) (place : ι) : Unique (Function.update slots place none) := by
  intro i j key hi hj
  have hip : i ≠ place := by
    rintro rfl
    simp at hi
  have hjp : j ≠ place := by
    rintro rfl
    simp at hj
  rw [Function.update_of_ne hip] at hi
  rw [Function.update_of_ne hjp] at hj
  exact h i j key hi hj

/-- A key may be put where no other slot has it. -/
theorem Unique.take_iff (h : Unique slots) (place : ι) (key : κ) :
    Unique (Function.update slots place (some key)) ↔ ∀ i, slots i = some key → i = place := by
  constructor
  · intro hu i hi
    by_contra hne
    exact hne (hu i place key (by rwa [Function.update_of_ne hne]) (Function.update_self ..))
  · intro honly i j k hi hj
    by_cases hip : i = place
    · subst hip
      rw [Function.update_self] at hi
      obtain rfl := Option.some.inj hi
      by_contra hne
      rw [Function.update_of_ne (Ne.symm hne)] at hj
      exact hne (honly j hj).symm
    · rw [Function.update_of_ne hip] at hi
      by_cases hjp : j = place
      · subst hjp
        rw [Function.update_self] at hj
        obtain rfl := Option.some.inj hj
        exact honly i hi
      · rw [Function.update_of_ne hjp] at hj
        exact h i j k hi hj

/-- Freeing a slot takes a key out of the table if no other slot has it. -/
theorem free_holds_iff (place : ι) (key : κ) :
    Holds (Function.update slots place none) key ↔ ∃ i, slots i = some key ∧ i ≠ place := by
  constructor
  · rintro ⟨i, hi⟩
    have hip : i ≠ place := by
      rintro rfl
      simp at hi
    exact ⟨i, by rwa [Function.update_of_ne hip] at hi, hip⟩
  · rintro ⟨i, hi, hip⟩
    exact ⟨i, by rwa [Function.update_of_ne hip]⟩

end Update

end Slots

section Count

variable {α : Type} {n : Nat}

/-- How many slots of an array have the property. -/
def countWhere (p : α → Bool) (slots : Fin n → α) : Nat :=
  (List.finRange n).countP fun i => p (slots i)

variable (p : α → Bool) (slots : Fin n → α)

theorem count_where_all (h : ∀ i, p (slots i) = true) : countWhere p slots = n := by
  rw [countWhere, List.countP_eq_length.mpr fun i _ => h i, List.length_finRange]

theorem count_where_none (h : ∀ i, p (slots i) = false) : countWhere p slots = 0 :=
  List.countP_eq_zero.mpr fun i _ => by simp [h i]

variable {p slots}

theorem count_where_pos {i : Fin n} (h : p (slots i) = true) : 0 < countWhere p slots :=
  List.countP_pos_iff.mpr ⟨i, List.mem_finRange i, h⟩

/-- Two slots that have it. -/
theorem one_lt_count_where {i j : Fin n} (hij : i ≠ j) (hi : p (slots i) = true)
    (hj : p (slots j) = true) : 1 < countWhere p slots := by
  have hpair : [i, j].Subperm (List.finRange n) :=
    List.subperm_of_subset (by simp [hij]) fun k _ => List.mem_finRange k
  have hle := hpair.countP_le fun i => p (slots i)
  simp only [List.countP_cons, List.countP_nil, hi, hj, if_true] at hle
  exact hle

/-- One slot that has it and no other. -/
theorem count_where_one {i : Fin n} (hi : p (slots i) = true)
    (hothers : ∀ j, j ≠ i → p (slots j) = false) : countWhere p slots = 1 := by
  have hcongr : countWhere p slots = (List.finRange n).count i := by
    rw [countWhere, List.count_eq_countP]
    refine List.countP_congr fun j _ => ?_
    by_cases hj : j = i
    · simp [hj, hi]
    · simp [hj, hothers j hj]
  rw [hcongr]
  exact List.count_eq_one_of_mem (List.nodup_finRange n) (List.mem_finRange i)

end Count

section Least

variable {ι : Type} {w : Nat} (key : ι → BitVec w)

/-- The search that takes over an item with a smaller key ends at a smallest one. -/
theorem foldl_least (best : ι) (xs : List ι) :
    (∀ x ∈ xs, key (xs.foldl (fun best i => if key i < key best then i else best) best) ≤ key x) ∧
      key (xs.foldl (fun best i => if key i < key best then i else best) best) ≤ key best := by
  induction xs generalizing best with
  | nil => exact ⟨by simp, BitVec.le_refl _⟩
  | cons y ys ih =>
    rw [List.foldl_cons]
    by_cases hlt : key y < key best
    · rw [if_pos hlt]
      obtain ⟨hrest, hfirst⟩ := ih y
      refine ⟨fun x hx => ?_, BitVec.le_trans hfirst (BitVec.le_of_lt hlt)⟩
      rcases List.mem_cons.mp hx with rfl | hx
      · exact hfirst
      · exact hrest x hx
    · rw [if_neg hlt]
      obtain ⟨hrest, hfirst⟩ := ih best
      refine ⟨fun x hx => ?_, hfirst⟩
      rcases List.mem_cons.mp hx with rfl | hx
      · exact BitVec.le_trans hfirst (BitVec.not_lt.mp hlt)
      · exact hrest x hx

/-- A search of a whole array from its first place on. -/
theorem foldl_fin_least {n : Nat} [NeZero n] (key : Fin n → BitVec w) (j : Fin n) :
    key ((List.finRange n).tail.foldl (fun best i => if key i < key best then i else best) 0) ≤
      key j := by
  obtain ⟨hrest, hfirst⟩ := foldl_least key 0 (List.finRange n).tail
  by_cases hj : j = 0
  · subst hj
    exact hfirst
  · refine hrest j ?_
    have hmem := List.mem_finRange j
    cases n with
    | zero => exact j.elim0
    | succ n =>
      rw [List.finRange_succ] at hmem ⊢
      exact (List.mem_cons.mp hmem).resolve_left hj

end Least

end ApTelemetry.Lib
