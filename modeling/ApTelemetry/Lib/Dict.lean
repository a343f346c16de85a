import Mathlib.Data.List.Nodup
import Mathlib.Data.List.Perm.Basic

namespace ApTelemetry.Lib

variable {κ α β : Type}

/-- A dictionary of lists: its entries, in the order in which their keys were added. -/
abbrev Dict (κ β : Type) := List (κ × List β)

namespace Dict

/-- `dic[key].append(x)`, or `dic[key] = [x]` where the key is missing. -/
def append [DecidableEq κ] (key : κ) (x : β) : Dict κ β → Dict κ β
  | [] => [(key, [x])]
  | (k, ys) :: rest => if k = key then (k, ys ++ [x]) :: rest else (k, ys) :: append key x rest

def keys (dic : Dict κ β) : List κ := dic.map Prod.fst

@[simp] theorem keys_cons (e : κ × List β) (rest : Dict κ β) :
    keys (e :: rest) = e.1 :: rest.keys := rfl

/-- The dictionary that a list is filed in: one entry for each key, which holds what
was filed under it, in order. -/
structure Files [DecidableEq κ] (key : α → κ) (val : α → β) (xs : List α) (dic : Dict κ β) :
    Prop where
  nodup : dic.keys.Nodup
  entries : ∀ e ∈ dic, e.2 = (xs.filter fun x => key x = e.1).map val
  complete : ∀ x ∈ xs, key x ∈ dic.keys

section Append

variable [DecidableEq κ] {key : κ} {x : β} {dic : Dict κ β}

theorem keys_append : (dic.append key x).keys =
    if key ∈ dic.keys then dic.keys else dic.keys ++ [key] := by
  induction dic with
  | nil => simp [append, keys]
  | cons e rest ih =>
    obtain ⟨k, ys⟩ := e
    rw [append]
    by_cases hk : k = key
    · simp [hk]
    · have hne : ¬ key = k := fun he => hk he.symm
      rw [if_neg hk, keys_cons, keys_cons, ih]
      by_cases hmem : key ∈ keys rest
      · rw [if_pos hmem, if_pos (List.mem_cons_of_mem k hmem)]
      · rw [if_neg hmem, if_neg (by simp [hne, hmem]), List.cons_append]

theorem mem_append_other {e : κ × List β} (h : e ∈ dic.append key x) (hk : e.1 ≠ key) :
    e ∈ dic := by
  induction dic with
  | nil => exact absurd (congrArg Prod.fst (List.mem_singleton.mp h)) hk
  | cons d rest ih =>
    obtain ⟨k, ys⟩ := d
    rw [append] at h
    split at h
    · rename_i hd
      rcases List.mem_cons.mp h with rfl | h
      · exact absurd hd hk
      · exact List.mem_cons_of_mem _ h
    · rcases List.mem_cons.mp h with rfl | h
      · exact List.mem_cons_self
      · exact List.mem_cons_of_mem _ (ih h)

/-- The entry of the key itself: the old one with the item behind it, or a new one. -/
theorem mem_append_self {e : κ × List β} (hnodup : dic.keys.Nodup) (h : e ∈ dic.append key x)
    (hk : e.1 = key) : (∃ ys, (key, ys) ∈ dic ∧ e.2 = ys ++ [x]) ∨
      (key ∉ dic.keys ∧ e.2 = [x]) := by
  induction dic with
  | nil =>
    obtain rfl := List.mem_singleton.mp h
    exact Or.inr ⟨List.not_mem_nil, rfl⟩
  | cons d rest ih =>
    obtain ⟨k, ys⟩ := d
    obtain ⟨hnot, hrest⟩ := List.nodup_cons.mp hnodup
    rw [append] at h
    split at h
    · rename_i hd
      subst hd
      rcases List.mem_cons.mp h with rfl | h
      · exact Or.inl ⟨ys, List.mem_cons_self, rfl⟩
      · exact absurd (List.mem_map.mpr ⟨e, h, hk⟩) hnot
    · rename_i hd
      rcases List.mem_cons.mp h with rfl | h
      · exact absurd hk hd
      · rcases ih hrest h with ⟨zs, hzs, he⟩ | ⟨hmiss, he⟩
        · exact Or.inl ⟨zs, List.mem_cons_of_mem _ hzs, he⟩
        · refine Or.inr ⟨?_, he⟩
          rintro (_ | ⟨_, hmem⟩)
          · exact hd rfl
          · exact hmiss hmem

end Append

namespace Files

variable [DecidableEq κ] {key : α → κ} {val : α → β} {xs : List α} {dic : Dict κ β}

theorem nil : Files key val [] [] where
  nodup := List.nodup_nil
  entries := fun _ he => absurd he List.not_mem_nil
  complete := fun _ hx => absurd hx List.not_mem_nil

theorem append (h : Files key val xs dic) (x : α) :
    Files key val (xs ++ [x]) (dic.append (key x) (val x)) where
  nodup := by
    rw [keys_append]
    split
    · exact h.nodup
    · rename_i hk
      exact h.nodup.append (List.nodup_singleton _)
        (List.disjoint_singleton.mpr hk)
  entries := by
    intro e he
    rw [List.filter_append, List.map_append]
    by_cases hk : e.1 = key x
    · have hlast : ([x].filter fun y => key y = e.1).map val = [val x] := by simp [hk]
      rw [hlast]
      rcases mem_append_self h.nodup he hk with ⟨ys, hys, hval⟩ | ⟨hmiss, hval⟩
      · have hold : ys = (xs.filter fun y => key y = key x).map val := h.entries _ hys
        rw [hval, hk, hold]
      · have hnone : (xs.filter fun y => key y = e.1) = [] := by
          refine List.filter_eq_nil_iff.mpr fun y hy hyk => hmiss ?_
          rw [← hk, ← of_decide_eq_true hyk]
          exact h.complete y hy
        rw [hval, hnone]
        rfl
    · have hlast : ([x].filter fun y => key y = e.1).map val = [] := by simp [Ne.symm hk]
      rw [hlast, List.append_nil]
      exact h.entries e (mem_append_other he hk)
  complete := by
    intro y hy
    rw [keys_append]
    rcases List.mem_append.mp hy with hy | hy
    · split
      · exact h.complete y hy
      · exact List.mem_append_left _ (h.complete y hy)
    · rw [List.mem_singleton.mp hy]
      split
      · assumption
      · exact List.mem_append_right _ (List.mem_singleton_self _)

/-- Whatever is made of each entry is made of what was filed under each key. -/
theorem flat_map {γ : Type} (h : Files key val xs dic) (f : List β → List γ) :
    (dic.flatMap fun e => f e.2) =
      dic.keys.flatMap fun k => f ((xs.filter fun x => key x = k).map val) := by
  rw [keys, List.flatMap_map]
  exact List.flatMap_congr fun e he => by rw [h.entries e he]

end Files

end Dict

/-- The items that a later one matches. -/
def repeated (same : α → α → Bool) : List α → List α
  | [] => []
  | x :: xs => if xs.any (same x) then x :: repeated same xs else repeated same xs

/-- All but the last item of each key, for any order of the keys. -/
theorem repeated_perm [DecidableEq κ] (key : α → κ) {keys : List κ} (hnodup : keys.Nodup)
    {xs : List α} (h : ∀ x ∈ xs, key x ∈ keys) :
    (keys.flatMap fun k => (xs.filter fun x => key x = k).dropLast).Perm
      (repeated (fun x y => decide (key y = key x)) xs) := by
  induction xs with
  | nil => simp [repeated]
  | cons x xs ih =>
    have htail := ih fun y hy => h y (List.mem_cons_of_mem x hy)
    obtain ⟨pre, post, rfl⟩ := List.append_of_mem (h x List.mem_cons_self)
    have hapart : ∀ k, k ∈ pre ∨ k ∈ post → key x ≠ k := by
      intro k hk he
      rw [← he] at hk
      rw [List.nodup_append, List.nodup_cons] at hnodup
      rcases hk with hk | hk
      · exact hnodup.2.2 _ hk _ List.mem_cons_self rfl
      · exact hnodup.2.1.1 hk
    have hsame : ∀ ks : List κ, (∀ k ∈ ks, key x ≠ k) →
        (ks.flatMap fun k => ((x :: xs).filter fun y => key y = k).dropLast) =
          ks.flatMap fun k => (xs.filter fun y => key y = k).dropLast := by
      intro ks hks
      refine List.flatMap_congr fun k hk => ?_
      rw [List.filter_cons_of_neg (by simpa using hks k hk)]
    rw [List.flatMap_append, List.flatMap_cons] at htail ⊢
    rw [hsame pre fun k hk => hapart k (Or.inl hk), hsame post fun k hk => hapart k (Or.inr hk),
      List.filter_cons_of_pos (by simp), repeated]
    cases hgroup : xs.filter fun y => key y = key x with
    | nil =>
      have hnone : xs.any (fun y => decide (key y = key x)) = false := by
        simpa using List.filter_eq_nil_iff.mp hgroup
      rw [hgroup] at htail
      rw [hnone]
      exact htail
    | cons y ys =>
      have hsome : xs.any (fun y => decide (key y = key x)) = true := by
        have hy : y ∈ xs.filter fun y => key y = key x := hgroup ▸ List.mem_cons_self
        exact List.any_eq_true.mpr ⟨y, (List.mem_filter.mp hy).1, (List.mem_filter.mp hy).2⟩
      rw [hgroup] at htail
      rw [hsome, if_pos rfl, List.dropLast_cons_of_ne_nil (List.cons_ne_nil y ys), List.cons_append]
      exact List.perm_middle.trans (htail.cons x)

section Repeated

variable {same same' : α → α → Bool}

theorem repeated_sublist (h : ∀ x y, same x y = true → same' x y = true) (xs : List α) :
    (repeated same xs).Sublist (repeated same' xs) := by
  induction xs with
  | nil => exact List.Sublist.refl _
  | cons x xs ih =>
    rw [repeated, repeated]
    split
    · rename_i hany
      obtain ⟨y, hy, hxy⟩ := List.any_eq_true.mp hany
      rw [if_pos (List.any_eq_true.mpr ⟨y, hy, h x y hxy⟩)]
      exact ih.cons_cons x
    · split
      · exact ih.cons x
      · exact ih

/-- A wider match repeats as many items only if every item it repeats is repeated
already. -/
theorem repeated_length_iff (h : ∀ x y, same x y = true → same' x y = true) (xs : List α) :
    (repeated same xs).length = (repeated same' xs).length ↔
      ∀ pre x post, xs = pre ++ x :: post → (∃ y ∈ post, same' x y = true) →
        ∃ y ∈ post, same x y = true := by
  induction xs with
  | nil => simp [repeated]
  | cons x xs ih =>
    have hle := (repeated_sublist h xs).length_le
    have hsplit : (∀ pre z post, x :: xs = pre ++ z :: post → (∃ y ∈ post, same' z y = true) →
        ∃ y ∈ post, same z y = true) ↔
        ((∃ y ∈ xs, same' x y = true) → ∃ y ∈ xs, same x y = true) ∧
        ∀ pre z post, xs = pre ++ z :: post → (∃ y ∈ post, same' z y = true) →
          ∃ y ∈ post, same z y = true := by
      constructor
      · intro hall
        exact ⟨hall [] x xs rfl, fun pre z post he => hall (x :: pre) z post (by rw [he]; rfl)⟩
      · rintro ⟨hhead, htail⟩ pre z post he
        cases pre with
        | nil =>
          obtain ⟨rfl, rfl⟩ := List.cons.inj he
          exact hhead
        | cons w pre => exact htail pre z post (List.cons.inj he).2
    rw [hsplit, ← ih, repeated, repeated]
    simp only [List.any_eq_true]
    by_cases hsame : ∃ y ∈ xs, same x y = true
    · have hwide : ∃ y ∈ xs, same' x y = true := by
        obtain ⟨y, hy, hxy⟩ := hsame
        exact ⟨y, hy, h x y hxy⟩
      simp [hsame, hwide]
    · by_cases hwide : ∃ y ∈ xs, same' x y = true
      · rw [if_neg hsame, if_pos hwide, List.length_cons]
        constructor
        · intro he
          omega
        · exact fun hown => absurd (hown.1 hwide) hsame
      · rw [if_neg hsame, if_neg hwide]
        exact ⟨fun he => ⟨fun hw => absurd hw hwide, he⟩, fun he => he.2⟩

end Repeated

end ApTelemetry.Lib
