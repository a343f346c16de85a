import Mathlib.Data.List.Nodup
import Mathlib.Order.Defs.LinearOrder

namespace ApTelemetry.Tree

/-- One record of a tree message. The list pointer `next` is the list itself. -/
structure Rawdata (V : Type) where
  father : Int
  itself : Int
  name : Int
  value : V
  class_ : Int
  deriving DecidableEq

/-- A `struct treenode *`. The field `parent` is always NULL and never read. -/
inductive Treenode (V : Type) where
  | null
  | node (itself name : Int) (value : V) (class_ : Int) (lchild rchild : Treenode V)
  deriving DecidableEq

variable {V : Type}

def findLchild : List (Rawdata V) → Int → List (Rawdata V)
  | [], _ => []
  | ptr :: next, father => if ptr.father = father then ptr :: next else findLchild next father

/-- The loop of `find_rchild`, which counts the children met so far. -/
def findRchildFrom (rchild : Nat) : List (Rawdata V) → Int → List (Rawdata V)
  | [], _ => []
  | ptr :: next, father =>
    if ptr.father = father then
      if rchild = 1 then ptr :: next else findRchildFrom (rchild + 1) next father
    else findRchildFrom rchild next father

def findRchild (ptr : List (Rawdata V)) (father : Int) : List (Rawdata V) :=
  findRchildFrom 0 ptr father

theorem find_lchild_suffix (ptr : List (Rawdata V)) (father : Int) :
    findLchild ptr father <:+ ptr := by
  induction ptr with
  | nil => exact List.suffix_refl []
  | cons r next ih =>
    simp only [findLchild]
    split
    · exact List.suffix_refl _
    · exact ih.trans (List.suffix_cons r next)

theorem find_rchild_from_suffix (k : Nat) (ptr : List (Rawdata V)) (father : Int) :
    findRchildFrom k ptr father <:+ ptr := by
  induction ptr generalizing k with
  | nil => exact List.suffix_refl []
  | cons r next ih =>
    simp only [findRchildFrom]
    split
    · split
      · exact List.suffix_refl _
      · exact (ih _).trans (List.suffix_cons r next)
    · exact (ih _).trans (List.suffix_cons r next)

/-- Each recursive call resumes strictly later in the record list, whatever
the ids say; this is what bounds the recursion. -/
def createTree : List (Rawdata V) → Treenode V
  | [] => .null
  | ptr :: next =>
    if ptr.name ≠ 0 then
      .node ptr.itself ptr.name ptr.value ptr.class_
        (createTree (findLchild next ptr.itself)) (createTree (findRchild next ptr.itself))
    else .node ptr.itself ptr.name ptr.value ptr.class_ .null .null
termination_by ptr => ptr.length
decreasing_by
  · exact Nat.lt_succ_of_le (find_lchild_suffix next ptr.itself).length_le
  · exact Nat.lt_succ_of_le (find_rchild_from_suffix 0 next ptr.itself).length_le

/-- A binary decision tree, before it is flattened into records. -/
inductive DecisionTree (V : Type) where
  | leaf (itself : Int) (value : V) (class_ : Int)
  | split (itself name : Int) (value : V) (class_ : Int) (left right : DecisionTree V)

namespace DecisionTree

def itself : DecisionTree V → Int
  | leaf i _ _ => i
  | split i _ _ _ _ _ => i

def ids : DecisionTree V → List Int
  | leaf i _ _ => [i]
  | split i _ _ _ l r => i :: (l.ids ++ r.ids)

/-- The feature names tested by the inner nodes. -/
def names : DecisionTree V → List Int
  | leaf _ _ _ => []
  | split _ n _ _ l r => n :: (l.names ++ r.names)

/-- Flattening in pre-order, below the node `father`. -/
def records (father : Int) : DecisionTree V → List (Rawdata V)
  | leaf i v c => [⟨father, i, 0, v, c⟩]
  | split i n v c l r => ⟨father, i, n, v, c⟩ :: (l.records i ++ r.records i)

/-- The linked tree of the same shape, ids, names, values and classes. -/
def linked : DecisionTree V → Treenode V
  | leaf i v c => .node i 0 v c .null .null
  | split i n v c l r => .node i n v c l.linked r.linked

/-- The record of the root itself. -/
def rootRecord (father : Int) : DecisionTree V → Rawdata V
  | leaf i v c => ⟨father, i, 0, v, c⟩
  | split i n v c _ _ => ⟨father, i, n, v, c⟩

/-- The records below the root, in pre-order. -/
def descendants : DecisionTree V → List (Rawdata V)
  | leaf _ _ _ => []
  | split i _ _ _ l r => l.records i ++ r.records i

theorem records_eq (t : DecisionTree V) (father : Int) :
    t.records father = t.rootRecord father :: t.descendants := by
  cases t <;> rfl

@[simp] theorem root_record_father (t : DecisionTree V) (father : Int) :
    (t.rootRecord father).father = father := by
  cases t <;> rfl

/-- Records below the root name a father inside the tree. -/
theorem descendants_father_mem (t : DecisionTree V) : ∀ r ∈ t.descendants, r.father ∈ t.ids := by
  induction t with
  | leaf i v c => simp [descendants]
  | split i n v c left right hl hr =>
    intro r hm
    rw [descendants, records_eq left, records_eq right] at hm
    simp only [List.mem_append, List.mem_cons] at hm
    simp only [ids, List.mem_cons, List.mem_append]
    rcases hm with (rfl | hm) | (rfl | hm)
    · exact Or.inl (root_record_father left i)
    · exact Or.inr (Or.inl (hl r hm))
    · exact Or.inl (root_record_father right i)
    · exact Or.inr (Or.inr (hr r hm))

end DecisionTree

/-- Records of other fathers do not count. -/
theorem find_rchild_skip {father : Int} (k : Nat) (before rest : List (Rawdata V))
    (h : ∀ r ∈ before, r.father ≠ father) :
    findRchildFrom k (before ++ rest) father = findRchildFrom k rest father := by
  induction before with
  | nil => rfl
  | cons r before ih =>
    rw [List.cons_append, findRchildFrom, if_neg (h r List.mem_cons_self)]
    exact ih (fun q hq => h q (List.mem_cons_of_mem r hq))

/-- The left subtree's records come first, so its root is the first child. -/
theorem find_lchild_records (left : DecisionTree V) (father : Int) (rest : List (Rawdata V)) :
    findLchild (left.records father ++ rest) father = left.records father ++ rest := by
  rw [left.records_eq, List.cons_append, findLchild, if_pos (left.root_record_father father)]

/-- The second child is found behind the whole left subtree, because no record
below the left root names `father` again. -/
theorem find_rchild_records (left right : DecisionTree V) (father : Int)
    (rest : List (Rawdata V)) (hnot : father ∉ left.ids) :
    findRchild (left.records father ++ (right.records father ++ rest)) father =
      right.records father ++ rest := by
  have hbelow : ∀ r ∈ left.descendants, r.father ≠ father := by
    intro r hr he
    exact hnot (he ▸ left.descendants_father_mem r hr)
  rw [findRchild, left.records_eq, List.cons_append, findRchildFrom,
    if_pos (left.root_record_father father), if_neg Nat.zero_ne_one,
    find_rchild_skip _ _ _ hbelow, right.records_eq, List.cons_append, findRchildFrom,
    if_pos (right.root_record_father father), if_pos rfl]

/-- What rebuilding needs of a tree: one id a node, and `0` only for leaves. -/
structure DecisionTree.Distinct (t : DecisionTree V) : Prop where
  ids : t.ids.Nodup
  names : ∀ n ∈ t.names, n ≠ 0

theorem DecisionTree.Distinct.left {i n : Int} {v : V} {c : Int} {l r : DecisionTree V}
    (h : (DecisionTree.split i n v c l r).Distinct) : l.Distinct := by
  obtain ⟨_, hids⟩ := List.nodup_cons.mp h.ids
  exact ⟨hids.of_append_left, fun m hm =>
    h.names m (List.mem_cons_of_mem n (List.mem_append_left _ hm))⟩

theorem DecisionTree.Distinct.right {i n : Int} {v : V} {c : Int} {l r : DecisionTree V}
    (h : (DecisionTree.split i n v c l r).Distinct) : r.Distinct := by
  obtain ⟨_, hids⟩ := List.nodup_cons.mp h.ids
  exact ⟨hids.of_append_right, fun m hm =>
    h.names m (List.mem_cons_of_mem n (List.mem_append_right _ hm))⟩

/-- Rebuilding a subtree wherever its records start. Later records may follow;
they are never reached, so nothing is assumed about them. -/
theorem create_tree_append (t : DecisionTree V) (father : Int) (rest : List (Rawdata V))
    (h : t.Distinct) : createTree (t.records father ++ rest) = t.linked := by
  induction t generalizing father rest with
  | leaf i v c => simp [DecisionTree.records, DecisionTree.linked, createTree]
  | split i n v c left right hl hr =>
    have hn : n ≠ 0 := h.names n List.mem_cons_self
    have hleft : i ∉ left.ids := fun hm =>
      (List.nodup_cons.mp h.ids).1 (List.mem_append_left _ hm)
    rw [DecisionTree.records, List.cons_append, createTree, if_pos hn, List.append_assoc,
      find_lchild_records, find_rchild_records left right i rest hleft,
      hl i _ h.left, hr i _ h.right, DecisionTree.linked]

theorem create_tree_records (t : DecisionTree V) (father : Int) (h : t.Distinct) :
    createTree (t.records father) = t.linked := by
  simpa only [List.append_nil] using create_tree_append t father [] h

/-- A tree as the exporter sends it: distinct ids, the root numbered 0, feature
names other than 0. -/
structure FittedTree (V : Type) where
  tree : DecisionTree V
  distinct : tree.Distinct
  rooted : tree.itself = 0

/-- The message of a fitted tree. The root's father is the root's own id. -/
def FittedTree.message (t : FittedTree V) : List (Rawdata V) := t.tree.records 0

theorem create_tree_message (t : FittedTree V) : createTree t.message = t.tree.linked :=
  create_tree_records t.tree 0 t.distinct

def backlogTree : DecisionTree Nat :=
  .split 0 10 5 1 (.leaf 1 0 0) (.split 2 3 7 0 (.leaf 3 0 1) (.leaf 4 0 0))

theorem backlog_tree_distinct : backlogTree.Distinct := ⟨by decide, by decide⟩

def backlogFitted : FittedTree Nat := ⟨backlogTree, backlog_tree_distinct, rfl⟩

/-- Two tests, of which the second one is the right child. -/
theorem create_tree_message_backlog :
    createTree [⟨0, 0, 10, 5, 1⟩, ⟨0, 1, 0, 0, 0⟩, ⟨0, 2, 3, 7, 0⟩, ⟨2, 3, 0, 0, 1⟩,
      ⟨2, 4, 0, 0, 0⟩] =
    .node 0 10 5 1 (.node 1 0 0 0 .null .null)
      (.node 2 3 7 0 (.node 3 0 0 1 .null .null) (.node 4 0 0 0 .null .null)) :=
  create_tree_message backlogFitted

end ApTelemetry.Tree
