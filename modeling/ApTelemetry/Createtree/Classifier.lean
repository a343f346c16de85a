import Mathlib.Data.List.Nodup
import ApTelemetry.Createtree.CreateTree

namespace ApTelemetry.Createtree
open Lib

/-- A fitted tree: numbered nodes, a feature and a threshold where it branches. -/
inductive Classifier (V : Type) where
  | leaf (itself class_ : Nat)
  | split (itself : Nat) (name : List Char) (value : V) (class_ : Nat) (left right : Classifier V)

namespace Classifier

variable {V : Type} (zero : V)

def itself : Classifier V → Nat
  | leaf i _ => i
  | split i _ _ _ _ _ => i

def ids : Classifier V → List Nat
  | leaf i _ => [i]
  | split i _ _ _ l r => i :: (l.ids ++ r.ids)

def classes : Classifier V → List Nat
  | leaf _ c => [c]
  | split _ _ _ c l r => c :: (l.classes ++ r.classes)

/-- The features its inner nodes test. -/
def names : Classifier V → List (List Char)
  | leaf _ _ => []
  | split _ n _ _ l r => n :: (l.names ++ r.names)

/-- The linked tree that is this one again. A leaf is called `leaf`. -/
def linked : Classifier V → Treenode V
  | leaf i c => .node i Createtree.leaf zero c .null .null
  | split i n v c l r => .node i n v c (l.linked) (r.linked)

/-- Its records below the node `father`, in pre-order. -/
def records (father : Int) : Classifier V → List (Rawdata V)
  | leaf i c => [⟨father, i, some Createtree.leaf, zero, c⟩]
  | split i n v c l r => ⟨father, i, some n, v, c⟩ :: (l.records i ++ r.records i)

def rootRecord (father : Int) : Classifier V → Rawdata V
  | leaf i c => ⟨father, i, some Createtree.leaf, zero, c⟩
  | split i n v c _ _ => ⟨father, i, some n, v, c⟩

def descendants : Classifier V → List (Rawdata V)
  | leaf _ _ => []
  | split i _ _ _ l r => l.records zero i ++ r.records zero i

theorem records_eq (t : Classifier V) (father : Int) :
    t.records zero father = t.rootRecord zero father :: t.descendants zero := by
  cases t <;> rfl

@[simp] theorem root_record_father (t : Classifier V) (father : Int) :
    (t.rootRecord zero father).father = father := by
  cases t <;> rfl

theorem descendants_father_mem (t : Classifier V) :
    ∀ r ∈ t.descendants zero, ∃ i ∈ t.ids, r.father = (i : Int) := by
  induction t with
  | leaf i c => simp [descendants]
  | split i n v c left right hl hr =>
    intro r hm
    rw [descendants, records_eq zero left, records_eq zero right] at hm
    simp only [List.mem_append, List.mem_cons] at hm
    have hroot : i ∈ (split i n v c left right).ids := List.mem_cons_self
    rcases hm with (rfl | hm) | (rfl | hm)
    · exact ⟨i, hroot, root_record_father zero left i⟩
    · obtain ⟨k, hk, he⟩ := hl r hm
      exact ⟨k, List.mem_cons_of_mem i (List.mem_append_left _ hk), he⟩
    · exact ⟨i, hroot, root_record_father zero right i⟩
    · obtain ⟨k, hk, he⟩ := hr r hm
      exact ⟨k, List.mem_cons_of_mem i (List.mem_append_right _ hk), he⟩

theorem find_lchild_records (t : Classifier V) (father : Int) (rest : List (Rawdata V)) :
    findLchild (t.records zero father ++ rest) father = t.records zero father ++ rest := by
  rw [records_eq, List.cons_append, findLchild, if_pos (root_record_father zero t father)]

/-- Behind the left subtree, as no record below its root names `father` again. -/
theorem find_rchild_records (left right : Classifier V) (i : Nat) (rest : List (Rawdata V))
    (hnot : i ∉ left.ids) :
    findRchild (left.records zero i ++ (right.records zero i ++ rest)) i =
      right.records zero i ++ rest := by
  have hbelow : ∀ r ∈ left.descendants zero, r.father ≠ (i : Int) := by
    intro r hr he
    obtain ⟨k, hk, hke⟩ := left.descendants_father_mem zero r hr
    exact hnot (Int.ofNat_inj.mp (hke.symm.trans he) ▸ hk)
  have hskip : ∀ r ∈ left.descendants zero, decide (r.father ≠ (i : Int)) = true := by
    simpa using hbelow
  rw [find_rchild_eq, find_lchild_records, records_eq, List.cons_append, List.tail_cons,
    find_lchild_eq, List.dropWhile_append_of_pos hskip, ← find_lchild_eq, find_lchild_records]

/-- What rebuilding needs: one number a node, and no feature called leaf. -/
structure Distinct (t : Classifier V) : Prop where
  ids : t.ids.Nodup
  names : ∀ n ∈ t.names, n ≠ Createtree.leaf

theorem Distinct.left {i : Nat} {n : List Char} {v : V} {c : Nat} {l r : Classifier V}
    (h : (split i n v c l r).Distinct) : l.Distinct := by
  obtain ⟨_, hids⟩ := List.nodup_cons.mp h.ids
  exact ⟨hids.of_append_left, fun m hm =>
    h.names m (List.mem_cons_of_mem n (List.mem_append_left _ hm))⟩

theorem Distinct.right {i : Nat} {n : List Char} {v : V} {c : Nat} {l r : Classifier V}
    (h : (split i n v c l r).Distinct) : r.Distinct := by
  obtain ⟨_, hids⟩ := List.nodup_cons.mp h.ids
  exact ⟨hids.of_append_right, fun m hm =>
    h.names m (List.mem_cons_of_mem n (List.mem_append_right _ hm))⟩

/-- The tree of its own records, whatever records follow. -/
theorem create_tree_records (t : Classifier V) (father : Int) (rest : List (Rawdata V))
    (h : t.Distinct) : createTree (t.records zero father ++ rest) = .ok (t.linked zero) := by
  induction t generalizing father rest with
  | leaf i c =>
    rw [records, linked, List.singleton_append]
    exact create_tree_leaf rfl rest
  | split i n v c left right hl hr =>
    have hleft : i ∉ left.ids := fun hm =>
      (List.nodup_cons.mp h.ids).1 (List.mem_append_left _ hm)
    rw [records, List.cons_append, List.append_assoc]
    have hname : (⟨father, i, some n, v, c⟩ : Rawdata V).name = some n := rfl
    refine create_tree_split hname (h.names n List.mem_cons_self) ?_ ?_
    · rw [find_lchild_records]
      exact hl i _ h.left
    · rw [find_rchild_records zero left right i rest hleft]
      exact hr i rest h.right

theorem linked_ids (t : Classifier V) : ∀ i ∈ t.ids, (i : Int) ∈ (t.linked zero).ids := by
  induction t with
  | leaf i c => simp [ids, linked, Treenode.ids]
  | split i n v c left right hl hr =>
    intro k hk
    simp only [ids, List.mem_cons, List.mem_append] at hk
    simp only [linked, Treenode.ids, List.mem_cons, List.mem_append]
    rcases hk with rfl | hk | hk
    · exact Or.inl rfl
    · exact Or.inr (Or.inl (hl k hk))
    · exact Or.inr (Or.inr (hr k hk))

theorem linked_names (t : Classifier V) : ∀ n ∈ t.names, n ∈ (t.linked zero).names := by
  induction t with
  | leaf i c => simp [names]
  | split i n v c left right hl hr =>
    intro m hm
    simp only [names, List.mem_cons, List.mem_append] at hm
    simp only [linked, Treenode.names, List.mem_cons, List.mem_append]
    rcases hm with rfl | hm | hm
    · exact Or.inl rfl
    · exact Or.inr (Or.inl (hl m hm))
    · exact Or.inr (Or.inr (hr m hm))

/-- A feature called leaf makes a node with children that is called so. -/
theorem leaves_end_names (t : Classifier V) (h : (t.linked zero).LeavesEnd) :
    ∀ n ∈ t.names, n ≠ Createtree.leaf := by
  induction t with
  | leaf i c => simp [names]
  | split i n v c left right hl hr =>
    obtain ⟨hroot, hleft, hright⟩ := h
    intro m hm
    simp only [names, List.mem_cons, List.mem_append] at hm
    rcases hm with rfl | hm | hm
    · intro he
      have hnull := (hroot he).1
      cases left <;> simp [linked] at hnull
    · exact hl hleft m hm
    · exact hr hright m hm

end Classifier

end ApTelemetry.Createtree
