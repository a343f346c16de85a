import ApTelemetry.Tree.CreateTree

namespace ApTelemetry.Tree

variable {V : Type}

def Treenode.isNull : Treenode V → Bool
  | .null => true
  | .node .. => false

def treeDepth : Treenode V → Int
  | .null => -1
  | .node _ _ _ _ lchild rchild =>
    let leftdep := if lchild.isNull then -1 else treeDepth lchild
    let rightdep := if rchild.isNull then -1 else treeDepth rchild
    if rightdep > leftdep then rightdep + 1 else leftdep + 1

/-- `create_tree` on a stack with room for `depth` calls inside each other,
`none` where a call finds no room. Nothing here knows that the list gets shorter. -/
def createTreeWithin : Nat → List (Rawdata V) → Option (Treenode V)
  | 0, _ => none
  | _ + 1, [] => some .null
  | depth + 1, ptr :: next =>
    if ptr.name ≠ 0 then do
      let lchild ← createTreeWithin depth (findLchild next ptr.itself)
      let rchild ← createTreeWithin depth (findRchild next ptr.itself)
      some (.node ptr.itself ptr.name ptr.value ptr.class_ lchild rchild)
    else some (.node ptr.itself ptr.name ptr.value ptr.class_ .null .null)

/-- The tests for NULL before the calls change nothing. -/
theorem tree_depth_child (t : Treenode V) :
    (if t.isNull then -1 else treeDepth t) = treeDepth t := by
  cases t <;> rfl

theorem tree_depth_node (itself name : Int) (value : V) (class_ : Int) (l r : Treenode V) :
    treeDepth (.node itself name value class_ l r) = max (treeDepth l) (treeDepth r) + 1 := by
  rw [treeDepth, tree_depth_child, tree_depth_child]
  split <;> omega

theorem tree_depth_lower (t : Treenode V) : -1 ≤ treeDepth t := by
  induction t with
  | null => exact Int.le_refl (-1)
  | node itself name value class_ l r hl hr =>
    rw [tree_depth_node]
    omega

/-- Both searches resume behind the record they start from, so each call leaves
at least one record less to the calls inside it. -/
theorem create_tree_within {depth : Nat} {raw : List (Rawdata V)} (h : raw.length < depth) :
    createTreeWithin depth raw = some (createTree raw) := by
  induction depth generalizing raw with
  | zero => exact absurd h (Nat.not_lt_zero _)
  | succ depth ih =>
    cases raw with
    | nil => rw [createTreeWithin, createTree]
    | cons ptr next =>
      have hnext : next.length < depth := Nat.lt_of_succ_lt_succ h
      have hleft : (findLchild next ptr.itself).length < depth :=
        Nat.lt_of_le_of_lt (find_lchild_suffix next ptr.itself).length_le hnext
      have hright : (findRchild next ptr.itself).length < depth :=
        Nat.lt_of_le_of_lt (find_rchild_from_suffix 0 next ptr.itself).length_le hnext
      rw [createTreeWithin, createTree, ih hleft, ih hright]
      split <;> rfl

theorem tree_depth_upper (raw : List (Rawdata V)) :
    treeDepth (createTree raw) ≤ (raw.length : Int) - 1 := by
  induction raw using createTree.induct with
  | case1 => simp [createTree, treeDepth]
  | case2 ptr next hname hl hr =>
    have hleft := (find_lchild_suffix next ptr.itself).length_le
    have hright : (findRchild next ptr.itself).length ≤ next.length :=
      (find_rchild_from_suffix 0 next ptr.itself).length_le
    rw [createTree, if_pos hname, tree_depth_node, List.length_cons]
    omega
  | case3 ptr next hname =>
    rw [createTree, if_neg hname, tree_depth_node, List.length_cons]
    simp only [treeDepth]
    omega

/-- One call more than there are records is room enough for every message, and
no tree is deeper than its message is long. -/
theorem create_tree_safe (raw : List (Rawdata V)) :
    createTreeWithin (raw.length + 1) raw = some (createTree raw) ∧
      treeDepth (createTree raw) ≤ (raw.length : Int) - 1 ∧
      -1 ≤ treeDepth (createTree raw) ∧
      treeDepth (createTree ([] : List (Rawdata V))) = -1 := by
  refine ⟨create_tree_within (Nat.lt_succ_self _), tree_depth_upper raw, tree_depth_lower _, ?_⟩
  rw [createTree, treeDepth]

/-- Three records of one id, each its own father, reach the bound. -/
example : (createTreeWithin 4 [⟨1, 1, 7, (), 0⟩, ⟨1, 1, 7, (), 0⟩, ⟨1, 1, 7, (), 0⟩]).map
    treeDepth = some 2 := by decide

end ApTelemetry.Tree
