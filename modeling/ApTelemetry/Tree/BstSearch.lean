import ApTelemetry.Tree.CreateTree

namespace ApTelemetry.Tree

structure ItemValue (V : Type) where
  name : Int
  value : V
  deriving DecidableEq

variable {V : Type}

/-- The loop `for (i = 1; i < length; i++)` of `bst_search`: the index it
breaks at with `found` set. The first argument counts the turns left. -/
def findItem (value : Nat → ItemValue V) (name : Int) : Nat → Nat → Option Nat
  | 0, _ => none
  | left + 1, i =>
    if name = (value i).name then some i
    else if (value i).name = -1 then none
    else findItem value name left (i + 1)

/-- The last lines of `bst_search`. Both log lines read `node_pre`; `none` is
the NULL dereference when there is no such node. -/
def bstResult (found : Bool) (nodePre node : Treenode V) : Option (Treenode V) :=
  match nodePre with
  | .null => none
  | .node .. => some (if found then node else nodePre)

variable [LE V] [DecidableLE V]

/-- The `while` loop of `bst_search`, with its leftover flag and pointer. -/
def bstSearchFrom (value : Nat → ItemValue V) (length : Nat) (found : Bool)
    (nodePre : Treenode V) : Treenode V → Option (Treenode V)
  | .null => bstResult found nodePre .null
  | .node i n v c l r =>
    if n ≠ 0 then
      match findItem value n (length - 1) 1 with
      | none => some .null
      | some k =>
        if (value k).value ≤ v then bstSearchFrom value length true (.node i n v c l r) l
        else bstSearchFrom value length true (.node i n v c l r) r
    else bstResult found nodePre (.node i n v c l r)

def bstSearch (node : Treenode V) (value : Nat → ItemValue V) (length : Nat) :
    Option (Treenode V) :=
  bstSearchFrom value length false node node

/-- The reference meaning of a tree: the leaf its tests lead to. -/
def DecisionTree.eval (x : Int → V) : DecisionTree V → DecisionTree V
  | leaf i v c => leaf i v c
  | split _ n v _ l r => if x n ≤ v then l.eval x else r.eval x

/-- Only the features tested matter. -/
theorem DecisionTree.eval_congr {x y : Int → V} (t : DecisionTree V)
    (h : ∀ n ∈ t.names, x n = y n) : t.eval x = t.eval y := by
  induction t with
  | leaf i v c => rfl
  | split i n v c left right hl hr =>
    have hleft := hl fun m hm => h m (List.mem_cons_of_mem n (List.mem_append_left _ hm))
    have hright := hr fun m hm => h m (List.mem_cons_of_mem n (List.mem_append_right _ hm))
    rw [eval, eval, h n List.mem_cons_self, hleft, hright]

omit [LE V] [DecidableLE V] in
/-- A slot that carries the searched name is found when no earlier slot in the
range carries it or the end mark. -/
theorem find_item_reaches {value : Nat → ItemValue V} {name : Int} {k : Nat}
    (hk : (value k).name = name) (left i : Nat) (hi : i ≤ k) (hl : k < i + left)
    (hbefore : ∀ j, i ≤ j → j < k → (value j).name ≠ name ∧ (value j).name ≠ -1) :
    findItem value name left i = some k := by
  induction left generalizing i with
  | zero => omega
  | succ left ih =>
    rcases Nat.eq_or_lt_of_le hi with rfl | hlt
    · rw [findItem, if_pos hk.symm]
    · obtain ⟨hname, hend⟩ := hbefore i (Nat.le_refl i) hlt
      rw [findItem, if_neg (Ne.symm hname), if_neg hend]
      exact ih (i + 1) hlt (by omega) (fun j hj hjk => hbefore j (by omega) hjk)

/-- The array `fstates[31]` when slot `i` carries the feature named `i`. -/
structure FeatureVector (V : Type) where
  slot : Nat → ItemValue V
  named : ∀ i : Nat, 1 ≤ i → i ≤ 30 → (slot i).name = i

def FeatureVector.value (x : FeatureVector V) (name : Int) : V := (x.slot name.toNat).value

omit [LE V] [DecidableLE V] in
theorem find_item_feature (x : FeatureVector V) {n : Int} (hlow : 1 ≤ n) (hhigh : n ≤ 30) :
    findItem x.slot n (31 - 1) 1 = some n.toNat := by
  have hname : (x.slot n.toNat).name = n := by
    rw [x.named n.toNat (by omega) (by omega)]
    omega
  apply find_item_reaches hname 30 1 (by omega) (by omega)
  intro j hj hjn
  rw [x.named j hj (by omega)]
  omega

omit [LE V] [DecidableLE V] in
theorem find_item_absent {value : Nat → ItemValue V} {name : Int} (left i : Nat)
    (h : ∀ j, i ≤ j → j < i + left → (value j).name ≠ name) :
    findItem value name left i = none := by
  induction left generalizing i with
  | zero => rfl
  | succ left ih =>
    rw [findItem, if_neg (Ne.symm (h i (Nat.le_refl i) (by omega)))]
    split
    · rfl
    · exact ih (i + 1) fun j hj hjl => h j (by omega) (by omega)

/-- The tests of any linked tree lead to a leaf. -/
def FeatureVector.reaches (x : FeatureVector V) : Treenode V → Bool
  | .null => false
  | .node _ n v _ l r =>
    if n = 0 then true
    else if 1 ≤ n ∧ n ≤ 30 then if x.value n ≤ v then x.reaches l else x.reaches r
    else false

/-- Once a test has been made, the search gives a node just when a leaf is met. -/
theorem bst_search_from_reaches (x : FeatureVector V) (t : Treenode V) (i n : Int) (v : V)
    (c : Int) (l r : Treenode V) :
    ∃ found, bstSearchFrom x.slot 31 true (.node i n v c l r) t = some found ∧
      (found ≠ .null ↔ x.reaches t = true) := by
  induction t generalizing i n v c l r with
  | null => exact ⟨.null, rfl, by simp [FeatureVector.reaches]⟩
  | node i' n' v' c' left right hl hr =>
    by_cases hzero : n' = 0
    · refine ⟨.node i' n' v' c' left right, ?_, by simp [FeatureVector.reaches, hzero]⟩
      rw [bstSearchFrom, if_neg (by simpa using hzero)]
      rfl
    by_cases hrange : 1 ≤ n' ∧ n' ≤ 30
    · simp only [bstSearchFrom, if_pos hzero, find_item_feature x hrange.1 hrange.2,
        FeatureVector.reaches, if_neg hzero, if_pos hrange]
      change ∃ found, (if x.value n' ≤ v' then _ else _) = _ ∧ _
      split
      · exact hl _ _ _ _ _ _
      · exact hr _ _ _ _ _ _
    · have habsent : findItem x.slot n' (31 - 1) 1 = none := by
        refine find_item_absent 30 1 ?_
        intro j hj hjl
        rw [x.named j hj (by omega)]
        omega
      refine ⟨.null, ?_, by simp [FeatureVector.reaches, hzero, hrange]⟩
      simp only [bstSearchFrom, if_pos hzero, habsent]

/-- On the empty tree the search reads through NULL. -/
theorem bst_search_reaches (x : FeatureVector V) {t : Treenode V} (ht : t ≠ .null) :
    ∃ found, bstSearch t x.slot 31 = some found ∧ (found ≠ .null ↔ x.reaches t = true) := by
  cases t with
  | null => exact absurd rfl ht
  | node i n v c l r =>
    by_cases hzero : n = 0
    · refine ⟨.node i n v c l r, ?_, by simp [FeatureVector.reaches, hzero]⟩
      rw [bstSearch, bstSearchFrom, if_neg (by simpa using hzero)]
      rfl
    · have hflag := bst_search_from_reaches x (.node i n v c l r) i n v c l r
      simpa only [bstSearch, bstSearchFrom, if_pos hzero] using hflag

/-- A tree of distinct ids that tests only the thirty features of `enum sta_l`.
The root may have any id. -/
structure FeatureTree (V : Type) where
  tree : DecisionTree V
  ids : tree.ids.Nodup
  bounded : ∀ n ∈ tree.names, 1 ≤ n ∧ n ≤ 30

def FeatureTree.message (t : FeatureTree V) (father : Int) : List (Rawdata V) :=
  t.tree.records father

omit [LE V] [DecidableLE V] in
theorem FeatureTree.distinct (t : FeatureTree V) : t.tree.Distinct := by
  refine ⟨t.ids, ?_⟩
  intro n hn
  have := t.bounded n hn
  omega

/-- Once a test has been made the loop ends at the reference leaf. The
induction is on the subtree the cursor points at; the flag stays set. -/
theorem bst_search_from_linked (x : FeatureVector V) (t : DecisionTree V)
    (hn : ∀ n ∈ t.names, 1 ≤ n ∧ n ≤ 30) (i n : Int) (v : V) (c : Int) (l r : Treenode V) :
    bstSearchFrom x.slot 31 true (.node i n v c l r) t.linked = some (t.eval x.value).linked := by
  induction t generalizing i n v c l r with
  | leaf i' v' c' => rfl
  | split i' n' v' c' left right hl hr =>
    obtain ⟨hlow, hhigh⟩ := hn n' List.mem_cons_self
    have hleft : ∀ m ∈ left.names, 1 ≤ m ∧ m ≤ 30 := fun m hm =>
      hn m (List.mem_cons_of_mem n' (List.mem_append_left _ hm))
    have hright : ∀ m ∈ right.names, 1 ≤ m ∧ m ≤ 30 := fun m hm =>
      hn m (List.mem_cons_of_mem n' (List.mem_append_right _ hm))
    have hne : n' ≠ 0 := by omega
    simp only [DecisionTree.linked, bstSearchFrom, if_pos hne, find_item_feature x hlow hhigh,
      DecisionTree.eval]
    change (if x.value n' ≤ v' then _ else _) = _
    split
    · exact hl hleft _ _ _ _ _ _
    · exact hr hright _ _ _ _ _ _

/-- The search over any linked tree, the single leaf included. -/
theorem bst_search_linked (x : FeatureVector V) (t : DecisionTree V)
    (hn : ∀ n ∈ t.names, 1 ≤ n ∧ n ≤ 30) :
    bstSearch t.linked x.slot 31 = some (t.eval x.value).linked := by
  cases t with
  | leaf i v c => rfl
  | split i n v c left right =>
    -- the first turn only sets the flag, which no inner node reads
    have hflag := bst_search_from_linked x (.split i n v c left right) hn
      i n v c left.linked right.linked
    have hne : n ≠ 0 := by have := hn n List.mem_cons_self; omega
    simpa only [bstSearch, DecisionTree.linked, bstSearchFrom, if_pos hne] using hflag

/-- Whatever father the root's record names, as it is never looked for. -/
theorem bst_search_message (t : FeatureTree V) (father : Int) (x : FeatureVector V) :
    bstSearch (createTree (t.message father)) x.slot 31 = some (t.tree.eval x.value).linked := by
  rw [FeatureTree.message, create_tree_records t.tree father t.distinct]
  exact bst_search_linked x t.tree t.bounded

end ApTelemetry.Tree
