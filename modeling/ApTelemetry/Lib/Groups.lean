import Mathlib.Data.List.Induction
import Mathlib.Data.List.Sort
import Mathlib.Order.Defs.LinearOrder

namespace ApTelemetry.Lib

variable {α κ : Type} [LinearOrder κ]

/-- Grouping a list by a key: the key and the members of the open group, and the
groups closed so far, each with the key that closed it. -/
structure Grouping (α κ : Type) where
  current : κ
  members : List α
  closed : List (κ × List α)
  deriving DecidableEq

namespace Grouping

/-- Nothing is read yet. -/
def start (first : κ) : Grouping α κ := ⟨first, [], []⟩

/-- A group ends where the key changes. -/
def add (key : α → κ) (g : Grouping α κ) (x : α) : Grouping α κ :=
  if g.current ≠ key x then ⟨key x, [x], g.closed ++ [(key x, g.members)]⟩
  else { g with members := g.members ++ [x] }

def run (key : α → κ) (first : κ) (xs : List α) : Grouping α κ :=
  xs.foldl (add key) (start first)

end Grouping

/-- The items with one key. -/
def group (key : α → κ) (xs : List α) (k : κ) : List α := xs.filter fun x => key x = k

/-- Of the keys in a list, one comes right after another. -/
structure Next (key : α → κ) (xs : List α) (k k' : κ) : Prop where
  before : ∃ x ∈ xs, key x = k
  after : ∃ x ∈ xs, key x = k'
  lt : k < k'
  gap : ∀ x ∈ xs, key x ≤ k ∨ k' ≤ key x

section Group

variable {key : α → κ} {xs : List α} {x : α} {k k' : κ}

theorem mem_group : x ∈ group key xs k ↔ x ∈ xs ∧ key x = k := by
  simp [group]

theorem group_snoc_same (h : key x = k) : group key (xs ++ [x]) k = group key xs k ++ [x] := by
  simp [group, List.filter_append, h]

theorem group_snoc_ne (h : key x ≠ k) : group key (xs ++ [x]) k = group key xs k := by
  simp [group, List.filter_append, h]

theorem group_eq_nil (h : ∀ x ∈ xs, key x ≠ k) : group key xs k = [] := by
  simpa [group] using h

theorem Next.group_ne_nil (h : Next key xs k k') : group key xs k ≠ [] := by
  obtain ⟨y, hy, hk⟩ := h.before
  exact List.ne_nil_of_mem (mem_group.mpr ⟨hy, hk⟩)

theorem Next.nil : ¬ Next key [] k k' := fun h => by simpa using h.before

/-- Another item of the greatest key changes nothing between the keys. -/
theorem Next.snoc_same {top : κ} (le : ∀ y ∈ xs, key y ≤ top) (seen : ∃ y ∈ xs, key y = top)
    (h : key x = top) : Next key (xs ++ [x]) k k' ↔ Next key xs k k' := by
  have held : ∀ j, (∃ y ∈ xs ++ [x], key y = j) ↔ ∃ y ∈ xs, key y = j := by
    intro j
    constructor
    · rintro ⟨y, hy, rfl⟩
      rcases List.mem_append.mp hy with hy | hy
      · exact ⟨y, hy, rfl⟩
      · obtain rfl := List.mem_singleton.mp hy
        rwa [h]
    · rintro ⟨y, hy, rfl⟩
      exact ⟨y, List.mem_append_left _ hy, rfl⟩
  constructor
  · rintro ⟨before, after, lt, gap⟩
    exact ⟨(held k).mp before, (held k').mp after, lt,
      fun y hy => gap y (List.mem_append_left _ hy)⟩
  · rintro ⟨before, after, lt, gap⟩
    refine ⟨(held k).mpr before, (held k').mpr after, lt, fun y hy => ?_⟩
    rcases List.mem_append.mp hy with hy | hy
    · exact gap y hy
    · obtain rfl := List.mem_singleton.mp hy
      obtain ⟨z, hz, hk'⟩ := after
      exact .inr (by rw [h, ← hk']; exact le z hz)

/-- An item of a new greatest key comes right after the key that was the greatest. -/
theorem Next.snoc_new {top : κ} (le : ∀ y ∈ xs, key y ≤ top) (seen : ∃ y ∈ xs, key y = top)
    (h : top < key x) : Next key (xs ++ [x]) k k' ↔
      Next key xs k k' ∨ k = top ∧ k' = key x := by
  obtain ⟨t, ht, htop⟩ := seen
  constructor
  · rintro ⟨⟨y, hy, rfl⟩, ⟨z, hz, rfl⟩, lt, gap⟩
    have hfront : y ∈ xs := by
      refine (List.mem_append.mp hy).resolve_right fun hy => ?_
      obtain rfl := List.mem_singleton.mp hy
      rcases List.mem_append.mp hz with hz | hz
      · exact absurd (lt.trans_le (le z hz)) h.asymm
      · obtain rfl := List.mem_singleton.mp hz
        exact lt_irrefl _ lt
    rcases List.mem_append.mp hz with hz | hz
    · exact .inl ⟨⟨y, hfront, rfl⟩, ⟨z, hz, rfl⟩, lt,
        fun v hv => gap v (List.mem_append_left _ hv)⟩
    · obtain rfl := List.mem_singleton.mp hz
      rcases gap t (List.mem_append_left _ ht) with hle | hle
      · exact .inr ⟨le_antisymm (le y hfront) (htop ▸ hle), rfl⟩
      · exact absurd (htop ▸ hle) (not_le_of_gt h)
  · rintro (⟨⟨y, hy, rfl⟩, ⟨z, hz, rfl⟩, lt, gap⟩ | ⟨rfl, rfl⟩)
    · refine ⟨⟨y, List.mem_append_left _ hy, rfl⟩, ⟨z, List.mem_append_left _ hz, rfl⟩, lt, ?_⟩
      intro v hv
      rcases List.mem_append.mp hv with hv | hv
      · exact gap v hv
      · obtain rfl := List.mem_singleton.mp hv
        exact .inr ((le z hz).trans h.le)
    · refine ⟨⟨t, List.mem_append_left _ ht, htop⟩,
        ⟨x, List.mem_append_right _ (List.mem_singleton_self x), rfl⟩, h, ?_⟩
      intro v hv
      rcases List.mem_append.mp hv with hv | hv
      · exact .inl (le v hv)
      · obtain rfl := List.mem_singleton.mp hv
        exact .inr le_rfl

end Group

namespace Grouping

variable {key : α → κ} {first : κ} {done : List α} {g : Grouping α κ} {x : α}

/-- What grouping has done with the items of a sorted list read so far. -/
structure Covers (key : α → κ) (done : List α) (g : Grouping α κ) : Prop where
  le : ∀ x ∈ done, key x ≤ g.current
  seen : done ≠ [] → ∃ x ∈ done, key x = g.current
  members : g.members = group key done g.current
  closed : ∀ k' ms, ms ≠ [] →
    ((k', ms) ∈ g.closed ↔ ∃ k, Next key done k k' ∧ ms = group key done k)

theorem Covers.start (first : κ) : Covers key [] (Grouping.start first) where
  le := by simp
  seen h := absurd rfl h
  members := rfl
  closed k' ms _ := by simp [Grouping.start, Next.nil]

theorem Covers.add_same (h : Covers key done g) (hx : g.current = key x) :
    Covers key (done ++ [x]) (g.add key x) := by
  have hadd : g.add key x = { g with members := g.members ++ [x] } := if_neg (not_not.mpr hx)
  rw [hadd]
  refine ⟨?_, fun _ => ⟨x, by simp, hx.symm⟩, ?_, fun k' ms hms => ?_⟩
  · intro y hy
    rcases List.mem_append.mp hy with hy | hy
    · exact h.le y hy
    · obtain rfl := List.mem_singleton.mp hy
      exact hx.ge
  · rw [group_snoc_same hx.symm, h.members]
  · rw [h.closed k' ms hms]
    by_cases hd : done = []
    · subst hd
      constructor
      · rintro ⟨k, hk, -⟩
        exact absurd hk Next.nil
      · rintro ⟨k, ⟨⟨y, hy, rfl⟩, ⟨z, hz, rfl⟩, lt, -⟩, -⟩
        obtain rfl := List.mem_singleton.mp hy
        obtain rfl := List.mem_singleton.mp hz
        exact absurd lt (lt_irrefl _)
    · refine exists_congr fun k => ?_
      rw [Next.snoc_same h.le (h.seen hd) hx.symm]
      refine and_congr_right fun hk => ?_
      obtain ⟨z, hz, hk'⟩ := hk.after
      have hne : key x ≠ k := by
        rw [← hx]
        exact (hk.lt.trans_le (hk' ▸ h.le z hz)).ne'
      rw [group_snoc_ne hne]

theorem Covers.add_new (h : Covers key done g) (hle : ∀ y ∈ done, key y ≤ key x)
    (hx : g.current ≠ key x) : Covers key (done ++ [x]) (g.add key x) := by
  have hadd : g.add key x = ⟨key x, [x], g.closed ++ [(key x, g.members)]⟩ := if_pos hx
  have hlt : done ≠ [] → g.current < key x := by
    intro hd
    obtain ⟨y, hy, hk⟩ := h.seen hd
    exact lt_of_le_of_ne (hk ▸ hle y hy) hx
  have hnone : ∀ y ∈ done, key y ≠ key x := fun y hy =>
    ((h.le y hy).trans_lt (hlt (List.ne_nil_of_mem hy))).ne
  rw [hadd]
  refine ⟨?_, fun _ => ⟨x, by simp, rfl⟩, ?_, fun k' ms hms => ?_⟩
  · intro y hy
    rcases List.mem_append.mp hy with hy | hy
    · exact hle y hy
    · obtain rfl := List.mem_singleton.mp hy
      exact le_rfl
  · rw [group_snoc_same rfl, group_eq_nil hnone, List.nil_append]
  · rw [List.mem_append, h.closed k' ms hms, List.mem_singleton, Prod.mk.injEq]
    have hkeep : ∀ k, (∃ y ∈ done, key y = k) →
        group key (done ++ [x]) k = group key done k := by
      rintro k ⟨y, hy, rfl⟩
      exact group_snoc_ne (hnone y hy).symm
    constructor
    · rintro (⟨k, hk, rfl⟩ | ⟨rfl, rfl⟩)
      · have hd : done ≠ [] := by
          obtain ⟨y, hy, -⟩ := hk.before
          exact List.ne_nil_of_mem hy
        exact ⟨k, (Next.snoc_new h.le (h.seen hd) (hlt hd)).mpr (.inl hk),
          (hkeep k hk.before).symm⟩
      · have hd : done ≠ [] := by
          rintro rfl
          exact hms h.members
        exact ⟨g.current, (Next.snoc_new h.le (h.seen hd) (hlt hd)).mpr (.inr ⟨rfl, rfl⟩),
          by rw [hkeep _ (h.seen hd), h.members]⟩
    · rintro ⟨k, hk, rfl⟩
      have hd : done ≠ [] := by
        rintro rfl
        obtain ⟨y, hy, rfl⟩ := hk.before
        obtain ⟨z, hz, rfl⟩ := hk.after
        obtain rfl := List.mem_singleton.mp hy
        obtain rfl := List.mem_singleton.mp hz
        exact lt_irrefl _ hk.lt
      rcases (Next.snoc_new h.le (h.seen hd) (hlt hd)).mp hk with hk | ⟨rfl, rfl⟩
      · exact .inl ⟨k, hk, hkeep k hk.before⟩
      · exact .inr ⟨rfl, by rw [hkeep _ (h.seen hd), h.members]⟩

/-- Reading a sorted list, each group is closed by the key that comes next, and
the group of the last key is not closed. -/
theorem run_covers (first : κ) {xs : List α} (hs : xs.Pairwise fun x y => key x ≤ key y) :
    Covers key xs (run key first xs) := by
  induction xs using List.reverseRecOn with
  | nil => exact Covers.start first
  | append_singleton done x ih =>
    rw [List.pairwise_append] at hs
    have hle : ∀ y ∈ done, key y ≤ key x := fun y hy => hs.2.2 y hy x (by simp)
    rw [run, List.foldl_append]
    by_cases hx : (run key first done).current = key x
    · exact (ih hs.1).add_same hx
    · exact (ih hs.1).add_new hle hx

end Grouping

end ApTelemetry.Lib
