import Mathlib.Data.Finset.Card
import Mathlib.Data.Finset.Dedup
import Mathlib.Data.List.Nodup

namespace ApTelemetry.Lib

variable {α β : Type} [DecidableEq β]

/-- The different elements of a list that were not seen before, in the order of
their first occurrences. -/
def fresh (seen : List β) : List β → List β
  | [] => []
  | x :: l => if x ∈ seen then fresh seen l else x :: fresh (x :: seen) l

section Fresh

variable {seen : List β} {x : β} {l : List β}

theorem fresh_cons_seen (h : x ∈ seen) : fresh seen (x :: l) = fresh seen l := if_pos h

theorem fresh_cons_new (h : x ∉ seen) : fresh seen (x :: l) = x :: fresh (x :: seen) l := if_neg h

theorem fresh_eq [BEq β] [LawfulBEq β] (seen l : List β) :
    fresh seen l = (l.filter (· ∉ seen)).eraseDups := by
  induction l generalizing seen with
  | nil => rfl
  | cons x l ih =>
    by_cases h : x ∈ seen
    · rw [fresh_cons_seen h, ih, List.filter_cons_of_neg (by simpa using h)]
    · rw [fresh_cons_new h, ih, List.filter_cons_of_pos (by simpa using h), List.eraseDups_cons,
        List.filter_filter]
      congr 3
      funext y
      simp [beq_eq_decide]

/-- Starting from nothing these are all different elements. -/
theorem fresh_nil [BEq β] [LawfulBEq β] (l : List β) : fresh [] l = l.eraseDups := by
  rw [fresh_eq, List.filter_eq_self.mpr]
  simp

/-- Only which elements were seen matters. -/
theorem fresh_congr {seen' : List β} (h : ∀ x, x ∈ seen ↔ x ∈ seen') (l : List β) :
    fresh seen l = fresh seen' l := by
  rw [fresh_eq, fresh_eq]
  congr 2
  funext x
  rw [decide_eq_decide, h]

/-- What a loop that adds new elements to `seen` has in the end. -/
theorem append_fresh_new (h : x ∉ seen) :
    seen ++ fresh seen (x :: l) = seen ++ [x] ++ fresh (seen ++ [x]) l := by
  have hsame : ∀ y, y ∈ x :: seen ↔ y ∈ seen ++ [x] := by
    intro y
    rw [List.mem_cons, List.mem_append, List.mem_singleton, or_comm]
  rw [fresh_cons_new h, fresh_congr hsame, List.append_assoc, List.singleton_append]

theorem mem_fresh : x ∈ fresh seen l ↔ x ∈ l ∧ x ∉ seen := by
  rw [fresh_eq, List.mem_eraseDups, List.mem_filter, decide_eq_true_eq]

theorem nodup_fresh (seen l : List β) : (fresh seen l).Nodup := by
  induction l generalizing seen with
  | nil => exact List.nodup_nil
  | cons x l ih =>
    by_cases h : x ∈ seen
    · rw [fresh_cons_seen h]
      exact ih seen
    · rw [fresh_cons_new h, List.nodup_cons]
      exact ⟨fun hx => (mem_fresh.mp hx).2 List.mem_cons_self, ih _⟩

/-- The first of them stands before those that are fresh behind it. -/
theorem fresh_of_head {seen l : List β} (h : (fresh seen l).head? = some x) :
    fresh seen l = x :: fresh (x :: seen) l := by
  induction l with
  | nil => cases h
  | cons y l ih =>
    by_cases hy : y ∈ seen
    · rw [fresh_cons_seen hy] at h ⊢
      rw [ih h, fresh_cons_seen (List.mem_cons_of_mem x hy)]
    · rw [fresh_cons_new hy] at h ⊢
      obtain rfl := Option.some.inj h
      rw [fresh_cons_seen List.mem_cons_self]

theorem eraseDups_toFinset [BEq β] [LawfulBEq β] (l : List β) :
    l.eraseDups.toFinset = l.toFinset := by
  ext x
  simp

theorem eraseDups_length [BEq β] [LawfulBEq β] (l : List β) :
    l.eraseDups.length = l.toFinset.card := by
  rw [← eraseDups_toFinset, List.toFinset_card_of_nodup]
  rw [← fresh_nil]
  exact nodup_fresh [] l

/-- Nothing goes where nothing comes twice. -/
theorem eraseDups_eq_self [BEq β] [LawfulBEq β] {l : List β} : l.eraseDups = l ↔ l.Nodup := by
  constructor
  · intro h
    rw [← h, ← fresh_nil]
    exact nodup_fresh [] l
  · intro h
    induction l with
    | nil => rfl
    | cons x l ih =>
      obtain ⟨hx, hl⟩ := List.nodup_cons.mp h
      have hkeep : (l.filter fun y => !y == x) = l := by
        refine List.filter_eq_self.mpr fun y hy => ?_
        simpa using fun he : y = x => hx (he ▸ hy)
      rw [List.eraseDups_cons, hkeep, ih hl]

omit [DecidableEq β] in
/-- Elements behind a list bring nothing new exactly if all are in it. -/
theorem eraseDups_append_eq [BEq β] [LawfulBEq β] {as bs : List β} :
    as.eraseDups = (as ++ bs).eraseDups ↔ ∀ x ∈ as ++ bs, x ∈ as := by
  constructor
  · intro h x hx
    rwa [← List.mem_eraseDups, h, List.mem_eraseDups]
  · intro h
    have hnone : bs.removeAll as = [] := by
      refine List.filter_eq_nil_iff.mpr fun x hx => ?_
      simpa using h x (List.mem_append_right as hx)
    rw [List.eraseDups_append, hnone, List.eraseDups_nil, List.append_nil]

end Fresh

section Filter

variable {f : α → β} {p : α → Bool} {seen : List β} {l : List α}

theorem fresh_head (f : α → β) (seen : List β) (l : List α) :
    (fresh seen (l.map f)).head? = (l.find? (f · ∉ seen)).map f := by
  induction l with
  | nil => rfl
  | cons x l ih =>
    rw [List.map_cons]
    by_cases h : f x ∈ seen
    · rw [fresh_cons_seen h, List.find?_cons_of_neg (by simpa using h), ih]
    · rw [fresh_cons_new h, List.find?_cons_of_pos (by simpa using h)]
      rfl

/-- Each element whose value is fresh there is followed by, or is, a chosen one that
brings the same value, before the chosen ones bring any other fresh one. -/
def Introduced (f : α → β) (p : α → Bool) (seen : List β) (l : List α) : Prop :=
  ∀ pre x post, l = pre ++ x :: post → f x ∉ seen ++ pre.map f →
    (((x :: post).filter p).find? (f · ∉ seen ++ pre.map f)).map f = some (f x)

theorem introduced_cons {x : α} : Introduced f p seen (x :: l) ↔
    (f x ∉ seen → (((x :: l).filter p).find? (f · ∉ seen)).map f = some (f x)) ∧
      Introduced f p (f x :: seen) l := by
  have hshift : ∀ (pre : List α) (y : β), y ∈ seen ++ (x :: pre).map f ↔
      y ∈ (f x :: seen) ++ pre.map f := by
    intro pre y
    simp only [List.map_cons, List.mem_append, List.mem_cons]
    tauto
  constructor
  · intro h
    refine ⟨fun hx => ?_, ?_⟩
    · have := h [] x l rfl
      simp only [List.map_nil, List.append_nil] at this
      exact this hx
    · intro pre y post hl hy
      have := h (x :: pre) y post (by rw [hl]; rfl)
      simp only [hshift] at this
      exact this hy
  · rintro ⟨hfirst, hrest⟩ pre y post hl hy
    cases pre with
    | nil =>
      obtain ⟨rfl, rfl⟩ := List.cons.inj hl
      simp only [List.map_nil, List.append_nil] at hy ⊢
      exact hfirst hy
    | cons z pre =>
      obtain ⟨rfl, rfl⟩ := List.cons.inj hl
      simp only [hshift] at hy ⊢
      exact hrest pre y post rfl hy

/-- The chosen elements bring the same values in the same order as all of them
exactly if they introduce each. -/
theorem fresh_filter_iff (f : α → β) (p : α → Bool) (seen : List β) (l : List α) :
    fresh seen (l.map f) = fresh seen ((l.filter p).map f) ↔ Introduced f p seen l := by
  induction l generalizing seen with
  | nil =>
    refine iff_of_true rfl ?_
    intro pre x post hl
    cases pre <;> cases hl
  | cons x l ih =>
    rw [introduced_cons, ← ih]
    by_cases hseen : f x ∈ seen
    · have hsame : ∀ y, y ∈ f x :: seen ↔ y ∈ seen := by
        intro y
        rw [List.mem_cons]
        exact or_iff_right_of_imp fun he => he ▸ hseen
      rw [fresh_congr hsame, fresh_congr hsame, List.map_cons, fresh_cons_seen hseen,
        and_iff_right fun h => absurd hseen h]
      by_cases hp : p x = true
      · rw [List.filter_cons_of_pos hp, List.map_cons, fresh_cons_seen hseen]
      · rw [List.filter_cons_of_neg hp]
    · rw [List.map_cons, fresh_cons_new hseen]
      by_cases hp : p x = true
      · rw [List.filter_cons_of_pos hp, List.map_cons, fresh_cons_new hseen,
          List.find?_cons_of_pos (by simpa using hseen)]
        exact ⟨fun h => ⟨fun _ => rfl, (List.cons.inj h).2⟩, fun h => by rw [h.2]⟩
      · rw [List.filter_cons_of_neg hp, ← fresh_head]
        constructor
        · intro h
          have hhead : (fresh seen ((l.filter p).map f)).head? = some (f x) := by
            rw [← h]
            rfl
          rw [fresh_of_head hhead] at h
          exact ⟨fun _ => hhead, (List.cons.inj h).2⟩
        · rintro ⟨hhead, hrest⟩
          rw [fresh_of_head (hhead hseen), hrest]

end Filter

end ApTelemetry.Lib
