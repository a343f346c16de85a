import ApTelemetry.Lib.Machine
import ApTelemetry.Lib.Sequence
import Mathlib.Data.Int.Order.Basic

namespace ApTelemetry.Compute
open Lib

variable {K ρ β : Type} [LinearOrder K]

/-- The recursion of both functions. `found` is what they return on the key itself,
`missed` what they return on an empty range, from the index stored last; `none` is
the `0.2` it starts with. A subscript that raises ends the script. -/
def descend (array : List (K × ρ)) (key : K) (found : Int → Except Fault β)
    (missed : Option Int → Except Fault β) (low high : Int) (last : Option Int) :
    Except Fault (β × Option Int) := do
  let mid := (low + high) / 2
  let probe ← item array mid
  if key = probe.1 then .ok (← found mid, last)
  else if low > high then .ok (← missed last, last)
  else if key < probe.1 then descend array key found missed low (mid - 1) last
  else descend array key found missed (mid + 1) high (some mid)
termination_by (high - low + 1).toNat

/-- `BinSearch`, with `none` for `'error'`. -/
def binSearch (array : List (K × ρ)) (key : K) (low high : Int) (lastLowIndex : Option Int) :
    Except Fault (Option (K × ρ) × Option Int) :=
  descend array key (fun mid => return some (← item array mid))
    (fun
      | none => .ok none
      | some i => return some (← item array i))
    low high lastLowIndex

/-- `BinSearch_ind`, with `none` for `'error'`. -/
def binSearchInd (array : List (K × ρ)) (key : K) (low high : Int)
    (lastLowIndex1 : Option Int) : Except Fault (Option Int × Option Int) :=
  descend array key (fun mid => .ok (some mid)) .ok low high lastLowIndex1

/-- The two globals of the script, `none` while they hold `0.2`. -/
structure Globals where
  lastLowIndex : Option Int
  lastLowIndex1 : Option Int

/-- A search of a whole array, from `0` to `len(array) - 1`. -/
inductive Call (K ρ : Type) where
  | binSearch (array : List (K × ρ)) (key : K)
  | binSearchInd (array : List (K × ρ)) (key : K)

def exec (s : Globals) : Call K ρ → Except Fault Globals
  | .binSearch array key => do
    let (_, last) ← binSearch array key 0 (array.length - 1) s.lastLowIndex
    return { s with lastLowIndex := last }
  | .binSearchInd array key => do
    let (_, last) ← binSearchInd array key 0 (array.length - 1) s.lastLowIndex1
    return { s with lastLowIndex1 := last }

/-- The script's searches one after another, on whatever arrays. -/
def machine (K ρ : Type) [LinearOrder K] : Machine Globals (Call K ρ) Fault :=
  ⟨⟨none, none⟩, fun _ _ => True, exec⟩

section Specification

variable (array : List (K × ρ)) (key : K)

def Sorted : Prop := array.Pairwise fun a b => a.1 ≤ b.1

/-- An item with the greatest first component that is not above the key, or none
where all are above it. -/
def Nearest : Option (K × ρ) → Prop
  | some e => e ∈ array ∧ e.1 ≤ key ∧ ∀ x ∈ array, x.1 ≤ key → x.1 ≤ e.1
  | none => ∀ x ∈ array, key < x.1

/-- The index of such an item. -/
def NearestInd : Option Int → Prop
  | some i => ∃ n : Nat, i = n ∧ ∃ e, array[n]? = some e ∧ Nearest array key (some e)
  | none => Nearest array key none

/-- Every item below `n` lies below the key, and every other one above it. -/
structure Boundary (n : Nat) : Prop where
  inside : n ≤ array.length
  below : ∀ i x, i < n → array[i]? = some x → x.1 < key
  above : ∀ i x, n ≤ i → array[i]? = some x → key < x.1

end Specification

/-- What a call is to return, when its array is sorted and not empty. -/
def Right (s : Globals) : Call K ρ → Except Fault Globals → Prop
  | .binSearch array key, _ => array ≠ [] → Sorted array → ∃ answer last,
    binSearch array key 0 (array.length - 1) s.lastLowIndex = .ok (answer, last) ∧
      Nearest array key answer
  | .binSearchInd array key, _ => array ≠ [] → Sorted array → ∃ answer last,
    binSearchInd array key 0 (array.length - 1) s.lastLowIndex1 = .ok (answer, last) ∧
      NearestInd array key answer

/-- The stored index is not read, or was stored by this search. -/
def OwnIndex (lastLow : Option Int) (array : List (K × ρ)) (key : K) : Prop :=
  lastLow = none ∨ ∃ x ∈ array, x.1 ≤ key

def Settled (s : Globals) : Call K ρ → Prop
  | .binSearch array key => array ≠ [] → Sorted array → OwnIndex s.lastLowIndex array key
  | .binSearchInd array key => array ≠ [] → Sorted array → OwnIndex s.lastLowIndex1 array key

section Search

variable {array : List (K × ρ)} {key : K} {found : Int → Except Fault β}
  {missed : Option Int → Except Fault β}

variable (key found missed) in
theorem descend_probe {low high : Int} {probe : K × ρ} (last : Option Int)
    (h : item array ((low + high) / 2) = .ok probe) :
    descend array key found missed low high last =
      if key = probe.1 then found ((low + high) / 2) >>= fun r => .ok (r, last)
      else if low > high then missed last >>= fun r => .ok (r, last)
      else if key < probe.1 then descend array key found missed low ((low + high) / 2 - 1) last
      else descend array key found missed ((low + high) / 2 + 1) high
        (some ((low + high) / 2)) := by
  rw [descend, h]
  rfl

theorem Sorted.le (h : Sorted array) {i j : Nat} {x y : K × ρ} (hij : i ≤ j)
    (hx : array[i]? = some x) (hy : array[j]? = some y) : x.1 ≤ y.1 := by
  obtain ⟨hi, rfl⟩ := List.getElem?_eq_some_iff.mp hx
  obtain ⟨hj, rfl⟩ := List.getElem?_eq_some_iff.mp hy
  exact key_le h hj hij

/-- The index a search leaves where its range has shrunk to nothing in front of `n`. -/
def mark (lastLow : Option Int) (n : Nat) : Option Int :=
  if n = 0 then lastLow else some (n - 1)

/-- The probe on the empty range, which comes before the test for it, finds nothing:
it falls on the last item below the key, or, at `-1`, on the last item of all. -/
theorem descend_empty {n : Nat} (hne : array ≠ []) (h : Boundary array key n)
    (last : Option Int) : descend array key found missed n (n - 1) last =
      missed last >>= fun r => .ok (r, last) := by
  have hlow : (n : Int) > n - 1 := by omega
  cases n with
  | zero =>
    have hmid : (((0 : Nat) : Int) + ((0 : Nat) - 1)) / 2 = -1 := by decide
    have hlast : key < (array.getLast hne).1 :=
      h.above (array.length - 1) _ (Nat.zero_le _)
        (List.getLast?_eq_getElem?.symm.trans (List.getLast?_eq_some_getLast hne))
    rw [descend_probe key found missed last (by rw [hmid]; exact item_last hne),
      if_neg (ne_of_lt hlast), if_pos hlow]
  | succ n =>
    have hmid : (((n + 1 : Nat) : Int) + ((n + 1 : Nat) - 1)) / 2 = n := by omega
    have hn : n < array.length := h.inside
    have hbelow : array[n].1 < key :=
      h.below n _ (Nat.lt_succ_self n) (List.getElem?_eq_getElem hn)
    rw [descend_probe key found missed last (by rw [hmid]; exact item_nat hn),
      if_neg (ne_of_gt hbelow), if_pos hlow]

theorem mark_succ (lastLow : Option Int) (n : Nat) : mark lastLow (n + 1) = some (n : Int) := by
  rw [mark, if_neg (Nat.succ_ne_zero n)]
  congr 1
  omega

variable (key found missed) in
/-- The range is the `width` items from `low` on; everything in front of it lies below
the key, everything behind it above, and the stored index is the one in front of it
as soon as there is one. -/
theorem descend_spec (hs : Sorted array) (hne : array ≠ []) (lastLow : Option Int) (width low : Nat)
    (hin : low + width ≤ array.length)
    (hbelow : ∀ i x, i < low → array[i]? = some x → x.1 < key)
    (habove : ∀ i x, low + width ≤ i → array[i]? = some x → key < x.1) :
    (∃ (mid : Nat) (x : K × ρ) (last : Option Int), array[mid]? = some x ∧ x.1 = key ∧
      descend array key found missed low (low + width - 1) (mark lastLow low) =
        found mid >>= fun r => .ok (r, last)) ∨
    ∃ n, Boundary array key n ∧
      descend array key found missed low (low + width - 1) (mark lastLow low) =
        missed (mark lastLow n) >>= fun r => .ok (r, mark lastLow n) := by
  induction width using Nat.strongRecOn generalizing low with
  | ind width ih =>
    rcases Nat.eq_zero_or_pos width with rfl | hpos
    · have hedge : Boundary array key low := ⟨hin, hbelow, habove⟩
      have hhigh : (low : Int) + ((0 : Nat) : Int) - 1 = low - 1 := by omega
      rw [hhigh]
      exact Or.inr ⟨low, hedge, descend_empty hne hedge _⟩
    · obtain ⟨half, hhalf⟩ : ∃ half, half = (width - 1) / 2 := ⟨_, rfl⟩
      have hmid : ((low : Int) + (low + width - 1)) / 2 = (low + half : Nat) := by omega
      have hlt : low + half < array.length := by omega
      have hget := List.getElem?_eq_getElem hlt
      have hprobe := descend_probe key found missed (mark lastLow low)
        (by rw [hmid]; exact item_nat hlt)
      have hwide : ¬ (low : Int) > low + width - 1 := by omega
      rw [hmid, if_neg hwide] at hprobe
      rcases lt_trichotomy key array[low + half].1 with hlow | heq | hhigh
      · have hnext := ih half (by omega) low (by omega) hbelow fun i x hi hx =>
          lt_of_lt_of_le hlow (hs.le hi hget hx)
        rw [if_neg (ne_of_lt hlow), if_pos hlow] at hprobe
        rw [hprobe]
        simpa using hnext
      · rw [if_pos heq] at hprobe
        exact Or.inl ⟨low + half, _, _, hget, heq.symm, hprobe⟩
      · have hnext := ih (width - 1 - half) (by omega) (low + half + 1) (by omega)
          (fun i x hi hx => lt_of_le_of_lt (hs.le (Nat.le_of_lt_succ hi) hx hget) hhigh)
          (fun i x hi hx => habove i x (by omega) hx)
        have hend : ((low + half + 1 : Nat) : Int) + (width - 1 - half : Nat) - 1 =
            low + width - 1 := by omega
        rw [if_neg (ne_of_gt hhigh), if_neg (not_lt_of_gt hhigh)] at hprobe
        rw [mark_succ, hend] at hnext
        rw [hprobe]
        exact hnext

theorem nearest_key {mid : Nat} {x : K × ρ} (hget : array[mid]? = some x) (hx : x.1 = key) :
    Nearest array key (some x) :=
  ⟨List.mem_of_getElem? hget, le_of_eq hx, fun _ _ hle => hx ▸ hle⟩

theorem Boundary.nearest {n : Nat} {x : K × ρ} (h : Boundary array key (n + 1))
    (hs : Sorted array) (hget : array[n]? = some x) : Nearest array key (some x) := by
  refine ⟨List.mem_of_getElem? hget, le_of_lt (h.below n x (Nat.lt_succ_self n) hget), ?_⟩
  intro y hy hle
  obtain ⟨i, hi⟩ := List.getElem?_of_mem hy
  rcases Nat.lt_or_ge n i with hlt | hge
  · exact absurd (h.above i y hlt hi) (not_lt_of_ge hle)
  · exact hs.le hge hi hget

theorem Boundary.nearest_none (h : Boundary array key 0) : Nearest array key none := by
  intro x hx
  obtain ⟨i, hi⟩ := List.getElem?_of_mem hx
  exact h.above i x (Nat.zero_le i) hi

/-- What both functions share: a search answers rightly exactly if the index it may
fall back on is its own. -/
theorem descend_right_iff (good : β → Prop) (hs : Sorted array) (hne : array ≠ [])
    (hfound : ∀ (mid : Nat) x, array[mid]? = some x → Nearest array key (some x) →
      ∃ r, found mid = .ok r ∧ good r)
    (hmissed : ∀ (n : Nat) x, array[n]? = some x → Nearest array key (some x) →
      ∃ r, missed (some n) = .ok r ∧ good r)
    (hnone : Nearest array key none → ∃ r, missed none = .ok r ∧ good r)
    (hstale : Nearest array key none → ∀ i r, missed (some i) = .ok r → ¬ good r)
    (lastLow : Option Int) :
    (∃ r last, descend array key found missed 0 (array.length - 1) lastLow = .ok (r, last) ∧
      good r) ↔ OwnIndex lastLow array key := by
  have hrun := descend_spec key found missed hs hne lastLow array.length 0
    (by omega) (fun i _ hi => absurd hi (Nat.not_lt_zero i))
    (fun i x hi hx => by
      rw [List.getElem?_eq_none (by omega)] at hx
      cases hx)
  rw [mark, if_pos rfl, Int.natCast_zero, Int.zero_add] at hrun
  rcases hrun with ⟨mid, x, last, hget, hx, heq⟩ | ⟨n, hn, heq⟩
  · obtain ⟨r, hr, hgood⟩ := hfound mid x hget (nearest_key hget hx)
    rw [hr] at heq
    exact iff_of_true ⟨r, last, heq, hgood⟩
      (Or.inr ⟨x, List.mem_of_getElem? hget, le_of_eq hx⟩)
  · cases n with
    | succ n =>
      have hget := List.getElem?_eq_getElem (Nat.lt_of_succ_le hn.inside)
      have hnear := hn.nearest hs hget
      obtain ⟨r, hr, hgood⟩ := hmissed n _ hget hnear
      rw [mark_succ, hr] at heq
      exact iff_of_true ⟨r, _, heq, hgood⟩ (Or.inr ⟨_, hnear.1, hnear.2.1⟩)
    | zero =>
      have hall := hn.nearest_none
      rw [mark, if_pos rfl] at heq
      cases lastLow with
      | none =>
        obtain ⟨r, hr, hgood⟩ := hnone hall
        rw [hr] at heq
        exact iff_of_true ⟨r, _, heq, hgood⟩ (Or.inl rfl)
      | some i =>
        refine iff_of_false ?_ ?_
        · rintro ⟨r, last, hrun, hgood⟩
          rw [heq] at hrun
          obtain ⟨answer, hanswer, hpair⟩ := bind_ok hrun
          obtain ⟨rfl, -⟩ := Prod.mk.inj (Except.ok.inj hpair)
          exact hstale hall i answer hanswer hgood
        · rintro (hno | ⟨x, hx, hle⟩)
          · cases hno
          · exact absurd (hall x hx) (not_lt_of_ge hle)

end Search

section Calls

variable {array : List (K × ρ)} {key : K}

theorem bin_search_right_iff (hs : Sorted array) (hne : array ≠ []) (lastLow : Option Int) :
    (∃ answer last, binSearch array key 0 (array.length - 1) lastLow = .ok (answer, last) ∧
      Nearest array key answer) ↔ OwnIndex lastLow array key := by
  have hread : ∀ (n : Nat) x, array[n]? = some x → item array n = .ok x := by
    intro n x hx
    obtain ⟨hn, rfl⟩ := List.getElem?_eq_some_iff.mp hx
    exact item_nat hn
  unfold binSearch
  refine descend_right_iff (Nearest array key) hs hne ?_ ?_ (fun h => ⟨none, rfl, h⟩) ?_ lastLow
  · intro mid x hget hnear
    exact ⟨some x, by rw [hread mid x hget]; rfl, hnear⟩
  · intro n x hget hnear
    refine ⟨some x, ?_, hnear⟩
    change (item array n >>= fun e => .ok (some e)) = .ok (some x)
    rw [hread n x hget]
    rfl
  · intro hall i r hr hgood
    obtain ⟨e, he, hre⟩ := bind_ok hr
    cases hre
    exact absurd (hall e (item_mem he)) (not_lt_of_ge hgood.2.1)

theorem bin_search_ind_right_iff (hs : Sorted array) (hne : array ≠ []) (lastLow : Option Int) :
    (∃ answer last, binSearchInd array key 0 (array.length - 1) lastLow = .ok (answer, last) ∧
      NearestInd array key answer) ↔ OwnIndex lastLow array key := by
  unfold binSearchInd
  refine descend_right_iff (NearestInd array key) hs hne ?_ ?_ (fun h => ⟨none, rfl, h⟩) ?_ lastLow
  · exact fun mid x hget hnear => ⟨some mid, rfl, mid, rfl, x, hget, hnear⟩
  · exact fun n x hget hnear => ⟨some n, rfl, n, rfl, x, hget, hnear⟩
  · rintro hall i r hr hgood
    cases hr
    obtain ⟨_, _, e, _, hmem, hle, _⟩ := hgood
    exact absurd (hall e hmem) (not_lt_of_ge hle)

end Calls

theorem call_right_iff (s : Globals) (call : Call K ρ) (after : Except Fault Globals) :
    Right s call after ↔ Settled s call := by
  cases call with
  | binSearch array key =>
    exact forall_congr' fun hne => forall_congr' fun hs => bin_search_right_iff hs hne _
  | binSearchInd array key =>
    exact forall_congr' fun hne => forall_congr' fun hs => bin_search_ind_right_iff hs hne _

/-- Every search of a run is right exactly if none of them finds all items above its
key while an earlier one has left an index. -/
theorem searches_right_iff (calls : List (Call K ρ)) :
    (machine K ρ).Throughout Right (machine K ρ).start calls ↔
      (machine K ρ).Throughout (fun s call _ => Settled s call) (machine K ρ).start calls :=
  Machine.throughout_iff (fun _ => True) (fun s call _ _ => call_right_iff s call _)
    (fun _ _ _ _ _ _ _ => trivial) trivial calls

/-- The first search leaves the index 0, which the second one, for a key below its
only item, takes for an answer. -/
theorem searches_stale : ¬ ∀ calls : List (Call Int Unit),
    (machine Int Unit).Throughout Right (machine Int Unit).start calls := by
  intro h
  have hfirst : exec ⟨none, none⟩ (.binSearch [(1, ())] 2 : Call Int Unit) =
      .ok ⟨some 0, none⟩ := by
    simp [exec, binSearch, descend, item, place, load, bind, Except.bind, pure, Except.pure]
  have hrun := h [.binSearch [(1, ())] 2, .binSearch [(5, ())] 3] trivial
  have hsecond := (hrun.2 _ hfirst trivial).1
  rcases (call_right_iff _ _ _).mp hsecond (List.cons_ne_nil _ _) (List.pairwise_singleton ..) with
    hunset | ⟨x, hx, hle⟩
  · cases hunset
  · rw [List.mem_singleton.mp hx] at hle
    exact absurd hle (by decide)

end ApTelemetry.Compute
