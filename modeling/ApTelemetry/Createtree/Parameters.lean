import ApTelemetry.Createtree.CreateTree
import ApTelemetry.Lib.Firsts

namespace ApTelemetry.Createtree
open Lib

variable {V : Type}

/-- The variables of `get_parameters`: its 80 slots and how many it has used. -/
structure Parameters where
  tmp : List (Option (List Char))
  last : Nat

/-- What is done with a record: a name that is no leaf's and in no slot yet gets
the next one. A record without a name is compared through NULL. -/
def Parameters.add (p : Parameters) (ptr : Rawdata V) : Except Fault Parameters :=
  match ptr.name with
  | none => .error .null
  | some name =>
    if name = leaf then .ok p
    else if some name ∈ p.tmp.take p.last then .ok p
    else do
      let tmp ← save p.tmp p.last (some name)
      .ok ⟨tmp, p.last + 1⟩

def getParameters (ptr : List (Rawdata V)) : Except Fault (List (Option (List Char))) := do
  let p ← ptr.foldlM Parameters.add ⟨List.replicate 80 none, 0⟩
  .ok p.tmp

/-- The names that the loop `while (parameters[i])` of `init_linger_m` meets. -/
def readParameters : List (Option (List Char)) → Except Fault (List (List Char))
  | [] => .error .outside
  | none :: _ => .ok []
  | some name :: rest => do
    let names ← readParameters rest
    .ok (name :: names)

/-- The features that the records test. -/
def features (ptr : List (Rawdata V)) : List (List Char) :=
  (ptr.filterMap Rawdata.name).filter (· ≠ leaf)

/-- The slots hold the different features in the order of their first occurrences
and end, so that the loop over them meets these. -/
def Complete (ptr : List (Rawdata V)) : Prop :=
  ∃ tmp, getParameters ptr = .ok tmp ∧ tmp.length = 80 ∧
    (∃ behind, tmp = (features ptr).eraseDups.map some ++ none :: behind) ∧
    readParameters tmp = .ok (features ptr).eraseDups

/-- The variables with these names found. -/
def holding (names : List (List Char)) : Parameters :=
  ⟨names.map some ++ List.replicate (80 - names.length) none, names.length⟩

section Add

variable {names : List (List Char)} {name : List Char} {ptr : Rawdata V}

theorem holding_take (names : List (List Char)) :
    (holding names).tmp.take (holding names).last = names.map some :=
  List.take_left' (List.length_map ..)

theorem add_known (hname : ptr.name = some name) (h : name = leaf ∨ name ∈ names) :
    (holding names).add ptr = .ok (holding names) := by
  simp only [Parameters.add, hname, holding_take]
  rcases h with rfl | h
  · rw [if_pos rfl]
  · rw [if_pos (List.mem_map_of_mem h), ite_self]

theorem add_new (hname : ptr.name = some name) (hleaf : name ≠ leaf) (hnew : name ∉ names)
    (hroom : names.length < 80) :
    (holding names).add ptr = .ok (holding (names ++ [name])) := by
  have hnone : some name ∉ names.map some := by simpa using hnew
  have hslot : (holding names).last < (holding names).tmp.length := by
    simp only [holding, List.length_append, List.length_map, List.length_replicate]
    omega
  obtain ⟨k, hk⟩ : ∃ k, 80 - names.length = k + 1 := ⟨79 - names.length, by omega⟩
  have hrest : 80 - (names.length + 1) = k := by omega
  simp only [Parameters.add, hname, holding_take, if_neg hleaf, if_neg hnone, save_lt hslot, bind,
    Except.bind]
  simp only [holding, hk, hrest, List.length_append, List.length_singleton, List.map_append,
    List.map_cons, List.map_nil, List.replicate_succ]
  rw [List.set_append_right _ _ (by rw [List.length_map]), List.length_map, Nat.sub_self,
    List.set_cons_zero, List.append_assoc, List.singleton_append]

theorem add_full (hname : ptr.name = some name) (hleaf : name ≠ leaf) (hnew : name ∉ names)
    (hfull : names.length = 80) : (holding names).add ptr = .error .outside := by
  have hnone : some name ∉ names.map some := by simpa using hnew
  have hslot : ¬ (holding names).last < (holding names).tmp.length := by
    simp only [holding, List.length_append, List.length_map, List.length_replicate]
    omega
  simp only [Parameters.add, hname, holding_take, if_neg hleaf, if_neg hnone, save, if_neg hslot,
    bind, Except.bind]

end Add

/-- All records are gone through exactly if each has a name and the slots suffice. -/
theorem adds_iff (ptr : List (Rawdata V)) {names : List (List Char)} (hle : names.length ≤ 80)
    {p : Parameters} : ptr.foldlM Parameters.add (holding names) = .ok p ↔
      (∀ r ∈ ptr, r.name ≠ none) ∧ (names ++ fresh names (features ptr)).length ≤ 80 ∧
        p = holding (names ++ fresh names (features ptr)) := by
  induction ptr generalizing names with
  | nil =>
    rw [features, List.filterMap_nil, List.filter_nil, fresh, List.append_nil]
    constructor
    · intro h
      exact ⟨by simp, hle, (Except.ok.inj h).symm⟩
    · rintro ⟨-, -, rfl⟩
      rfl
  | cons r ptr ih =>
    rw [List.foldlM_cons, List.forall_mem_cons]
    cases hname : r.name with
    | none =>
      refine iff_of_false ?_ fun h => h.1.1 rfl
      intro h
      obtain ⟨q, hq, -⟩ := bind_ok h
      simp only [Parameters.add, hname] at hq
      cases hq
    | some name =>
      rw [and_iff_right (Option.some_ne_none name)]
      by_cases hleaf : name = leaf
      · have hfeatures : features (r :: ptr) = features ptr := by
          rw [features, List.filterMap_cons_some hname,
            List.filter_cons_of_neg (by simpa using hleaf)]
          rfl
        rw [hfeatures, add_known hname (.inl hleaf)]
        exact ih hle
      · have hfeatures : features (r :: ptr) = name :: features ptr := by
          rw [features, List.filterMap_cons_some hname,
            List.filter_cons_of_pos (by simpa using hleaf)]
          rfl
        rw [hfeatures]
        by_cases hknown : name ∈ names
        · rw [add_known hname (.inr hknown), fresh_cons_seen hknown]
          exact ih hle
        · rw [append_fresh_new hknown]
          by_cases hroom : names.length < 80
          · rw [add_new hname hleaf hknown hroom]
            exact ih (by rw [List.length_append]; exact hroom)
          · rw [add_full hname hleaf hknown (by omega)]
            refine iff_of_false (fun h => by cases h) ?_
            rintro ⟨-, hlength, -⟩
            simp only [List.length_append, List.length_singleton] at hlength
            omega

/-- The loop over the slots ends at the first free one, if there is any. -/
theorem read_holding (names : List (List Char)) (k : Nat) :
    readParameters (names.map some ++ List.replicate k none) =
      if k = 0 then .error .outside else .ok names := by
  induction names with
  | nil => cases k <;> rfl
  | cons name names ih =>
    rw [List.map_cons, List.cons_append, readParameters, ih]
    split <;> rfl

/-- The list of features is complete exactly if every record has a name and there
are at most 79 different features. -/
theorem complete_iff (ptr : List (Rawdata V)) :
    Complete ptr ↔ (∀ r ∈ ptr, r.name ≠ none) ∧ (features ptr).toFinset.card ≤ 79 := by
  have hruns : ∀ p, ptr.foldlM Parameters.add (holding []) = .ok p ↔
      (∀ r ∈ ptr, r.name ≠ none) ∧ (features ptr).toFinset.card ≤ 80 ∧
        p = holding (features ptr).eraseDups := by
    intro p
    rw [adds_iff ptr (show ([] : List (List Char)).length ≤ 80 from Nat.zero_le 80), fresh_nil,
      List.nil_append, eraseDups_length]
  constructor
  · rintro ⟨tmp, hget, hlength, ⟨behind, htmp⟩, -⟩
    obtain ⟨p, hrun, -⟩ := bind_ok hget
    obtain ⟨hnamed, -, -⟩ := (hruns p).mp hrun
    refine ⟨hnamed, ?_⟩
    rw [htmp, List.length_append, List.length_map, List.length_cons, eraseDups_length] at hlength
    omega
  · rintro ⟨hnamed, hcard⟩
    have hrun := (hruns _).mpr ⟨hnamed, by omega, rfl⟩
    obtain ⟨k, hk⟩ : ∃ k, 80 - (features ptr).eraseDups.length = k + 1 := by
      rw [eraseDups_length]
      exact ⟨79 - (features ptr).toFinset.card, by omega⟩
    refine ⟨(holding (features ptr).eraseDups).tmp, ?_, ?_, ⟨List.replicate k none, ?_⟩, ?_⟩
    · change (ptr.foldlM Parameters.add (holding []) >>= fun p => .ok p.tmp) = _
      rw [hrun]
      rfl
    · simp only [holding, List.length_append, List.length_map, List.length_replicate]
      rw [eraseDups_length]
      omega
    · rw [holding, hk, List.replicate_succ]
    · rw [holding, hk, read_holding, if_neg (Nat.succ_ne_zero k)]

/-- Eighty records, each with a feature of its own: `a`, `aa` and so on. -/
def eighty : List (Rawdata Int) :=
  (List.range 80).map fun k : Nat => ⟨-1, k, some (List.replicate (k + 1) 'a'), 0, 0⟩

theorem eighty_features :
    features eighty = (List.range 80).map fun k => List.replicate (k + 1) 'a' := by
  rw [features, eighty, List.filterMap_map]
  rw [List.filter_eq_self.mpr]
  · exact congrFun List.filterMap_eq_map' _
  · intro name hname
    obtain ⟨k, -, hk⟩ := List.mem_filterMap.mp hname
    obtain rfl := Option.some.inj hk
    rw [decide_eq_true_eq, List.replicate_succ, leaf]
    intro h
    cases h

/-- They leave no slot that ends the list. -/
theorem no_slot_ends : ¬ ∀ ptr : List (Rawdata Int), Complete ptr := by
  intro h
  have hcard := ((complete_iff eighty).mp (h eighty)).2
  have hnodup : ((List.range 80).map fun k => List.replicate (k + 1) 'a').Nodup := by
    refine List.nodup_range.map fun i j hij => ?_
    have hlength := congrArg List.length hij
    simp only [List.length_replicate] at hlength
    omega
  rw [eighty_features, List.toFinset_card_of_nodup hnodup, List.length_map,
    List.length_range] at hcard
  exact absurd hcard (by decide)

end ApTelemetry.Createtree
