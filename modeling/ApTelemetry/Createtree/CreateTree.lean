import ApTelemetry.Lib.Buffer
import ApTelemetry.Lib.Scan

namespace ApTelemetry.Createtree
open Lib

/-- A record of the program that names its features by strings. A record with
fewer than three fields has no name. -/
structure Rawdata (V : Type) where
  father : Int
  itself : Int
  name : Option (List Char)
  value : V
  class_ : Int
  deriving DecidableEq

/-- A `struct treenode *` of that program. -/
inductive Treenode (V : Type) where
  | null
  | node (itself : Int) (name : List Char) (value : V) (class_ : Int) (lchild rchild : Treenode V)
  deriving DecidableEq

def leaf : List Char := ['l', 'e', 'a', 'f']

variable {V : Type}

/-- Field `k` of a record. The copy of a name is taken for the name, although its
NUL goes one byte past the block. -/
def setField (atof : List Char → V) (r : Rawdata V) (q : List Char) : Nat → Rawdata V
  | 0 => { r with father := atoi q }
  | 1 => { r with itself := atoi q }
  | 2 => { r with name := some q }
  | 3 => { r with value := atof q }
  | 4 => { r with class_ := atoi q }
  | _ => r

def parseRecord (atof : List Char → V) (zero : V) (p : List Char) : Rawdata V :=
  (tokens ',' p).zipIdx.foldl (fun r q => setField atof r q.1 q.2) ⟨0, 0, none, zero, 0⟩

/-- The list that `init_linger_m` makes of its text. -/
def parseRecords (atof : List Char → V) (zero : V) (inputtxt : List Char) : List (Rawdata V) :=
  (tokens '|' inputtxt).map (parseRecord atof zero)

def findLchild : List (Rawdata V) → Int → List (Rawdata V)
  | [], _ => []
  | ptr :: next, father => if ptr.father = father then ptr :: next else findLchild next father

/-- The loop of `find_rchild`, which counts the children met so far. -/
def findRchildFrom (rchild : Nat) : List (Rawdata V) → Int → List (Rawdata V)
  | [], _ => []
  | ptr :: next, father =>
    if ptr.father = father then
      if rchild = 1 then ptr :: next else findRchildFrom (rchild + 1) next father
    else findRchildFrom rchild next father

def findRchild (ptr : List (Rawdata V)) (father : Int) : List (Rawdata V) :=
  findRchildFrom 0 ptr father

theorem find_lchild_eq (ptr : List (Rawdata V)) (father : Int) :
    findLchild ptr father = ptr.dropWhile fun r => r.father ≠ father := by
  induction ptr with
  | nil => rfl
  | cons r next ih =>
    rw [findLchild, ih]
    by_cases h : r.father = father <;> simp [h]

/-- The second child is the first one behind the first. -/
theorem find_rchild_eq (ptr : List (Rawdata V)) (father : Int) :
    findRchild ptr father = findLchild (findLchild ptr father).tail father := by
  have hsecond (l : List (Rawdata V)) : findRchildFrom 1 l father = findLchild l father := by
    induction l with
    | nil => rfl
    | cons r next ih =>
      rw [findRchildFrom, findLchild, ih, if_pos rfl]
  unfold findRchild
  induction ptr with
  | nil => rfl
  | cons r next ih =>
    rw [findRchildFrom, findLchild]
    by_cases h : r.father = father
    · rw [if_pos h, if_pos h, if_neg Nat.zero_ne_one, hsecond, List.tail_cons]
    · rw [if_neg h, if_neg h, ih]

theorem find_lchild_suffix (ptr : List (Rawdata V)) (father : Int) :
    findLchild ptr father <:+ ptr := by
  rw [find_lchild_eq]
  exact List.dropWhile_suffix _

theorem find_rchild_suffix (ptr : List (Rawdata V)) (father : Int) :
    findRchild ptr father <:+ ptr := by
  rw [find_rchild_eq]
  exact (find_lchild_suffix _ father).trans
    ((List.tail_suffix _).trans (find_lchild_suffix ptr father))

/-- `strlen` and `strcmp` on a missing name read through NULL. -/
def createTree : List (Rawdata V) → Except Fault (Treenode V)
  | [] => .ok .null
  | ptr :: next =>
    match ptr.name with
    | none => .error .null
    | some name =>
      if name ≠ leaf then do
        let lchild ← createTree (findLchild next ptr.itself)
        let rchild ← createTree (findRchild next ptr.itself)
        .ok (.node ptr.itself name ptr.value ptr.class_ lchild rchild)
      else .ok (.node ptr.itself name ptr.value ptr.class_ .null .null)
termination_by ptr => ptr.length
decreasing_by
  · exact Nat.lt_succ_of_le (find_lchild_suffix next ptr.itself).length_le
  · exact Nat.lt_succ_of_le (find_rchild_suffix next ptr.itself).length_le

/-- `init_linger_m` on an empty list, as far as the tree. -/
def initLingerM (atof : List Char → V) (zero : V) (inputtxt : List Char) :
    Except Fault (Treenode V) :=
  createTree (parseRecords atof zero inputtxt)

namespace Treenode

def ids : Treenode V → List Int
  | null => []
  | node itself _ _ _ l r => itself :: (l.ids ++ r.ids)

def names : Treenode V → List (List Char)
  | null => []
  | node _ name _ _ l r => name :: (l.names ++ r.names)

/-- Nodes called leaf have no children. -/
def LeavesEnd : Treenode V → Prop
  | null => True
  | node _ name _ _ l r => (name = leaf → l = null ∧ r = null) ∧ l.LeavesEnd ∧ r.LeavesEnd

end Treenode

/-- What is made of a record with children. -/
theorem create_tree_split {ptr : Rawdata V} {next : List (Rawdata V)} {name : List Char}
    (hname : ptr.name = some name) (hleaf : name ≠ leaf) {l r : Treenode V}
    (hl : createTree (findLchild next ptr.itself) = .ok l)
    (hr : createTree (findRchild next ptr.itself) = .ok r) :
    createTree (ptr :: next) = .ok (.node ptr.itself name ptr.value ptr.class_ l r) := by
  rw [createTree]
  simp only [hname, if_pos hleaf, hl, hr, bind, Except.bind]

theorem create_tree_leaf {ptr : Rawdata V} (hname : ptr.name = some leaf)
    (next : List (Rawdata V)) :
    createTree (ptr :: next) = .ok (.node ptr.itself leaf ptr.value ptr.class_ .null .null) := by
  rw [createTree]
  simp only [hname, ne_eq, not_true_eq_false, if_false]

/-- A tree is made of the records' own ids and names. -/
theorem create_tree_made_of (ptr : List (Rawdata V)) : ∀ t, createTree ptr = .ok t →
    (∀ i ∈ t.ids, ∃ r ∈ ptr, r.itself = i) ∧ (∀ n ∈ t.names, ∃ r ∈ ptr, r.name = some n) ∧
      t.LeavesEnd := by
  induction ptr using createTree.induct with
  | case1 =>
    intro t h
    rw [createTree] at h
    obtain rfl := Except.ok.inj h
    simp [Treenode.ids, Treenode.names, Treenode.LeavesEnd]
  | case2 ptr next hname =>
    intro t h
    rw [createTree] at h
    simp [hname] at h
  | case3 ptr next name hname hleaf ihl ihr =>
    intro t h
    rw [createTree] at h
    simp only [hname, if_pos hleaf, bind, Except.bind] at h
    cases hl : createTree (findLchild next ptr.itself) with
    | error f => simp [hl] at h
    | ok l =>
      cases hr : createTree (findRchild next ptr.itself) with
      | error f => simp [hl, hr] at h
      | ok r =>
        simp only [hl, hr] at h
        obtain rfl := Except.ok.inj h
        obtain ⟨hlids, hlnames, hlend⟩ := ihl l hl
        obtain ⟨hrids, hrnames, hrend⟩ := ihr r hr
        have hlmem : ∀ q ∈ findLchild next ptr.itself, q ∈ ptr :: next := fun q hq =>
          List.mem_cons_of_mem ptr ((find_lchild_suffix next ptr.itself).subset hq)
        have hrmem : ∀ q ∈ findRchild next ptr.itself, q ∈ ptr :: next := fun q hq =>
          List.mem_cons_of_mem ptr ((find_rchild_suffix next ptr.itself).subset hq)
        refine ⟨?_, ?_, ⟨fun he => absurd he hleaf, hlend, hrend⟩⟩
        · intro i hi
          simp only [Treenode.ids, List.mem_cons, List.mem_append] at hi
          rcases hi with rfl | hi | hi
          · exact ⟨ptr, List.mem_cons_self, rfl⟩
          · obtain ⟨q, hq, he⟩ := hlids i hi
            exact ⟨q, hlmem q hq, he⟩
          · obtain ⟨q, hq, he⟩ := hrids i hi
            exact ⟨q, hrmem q hq, he⟩
        · intro n hn
          simp only [Treenode.names, List.mem_cons, List.mem_append] at hn
          rcases hn with rfl | hn | hn
          · exact ⟨ptr, List.mem_cons_self, hname⟩
          · obtain ⟨q, hq, he⟩ := hlnames n hn
            exact ⟨q, hlmem q hq, he⟩
          · obtain ⟨q, hq, he⟩ := hrnames n hn
            exact ⟨q, hrmem q hq, he⟩
  | case4 ptr next name hname hleaf =>
    intro t h
    obtain rfl : name = leaf := not_not.mp hleaf
    obtain rfl := Except.ok.inj ((create_tree_leaf hname next).symm.trans h)
    refine ⟨?_, ?_, ?_⟩
    · intro i hi
      rw [Treenode.ids, Treenode.ids, List.append_nil, List.mem_singleton] at hi
      exact ⟨ptr, List.mem_cons_self, hi.symm⟩
    · intro n hn
      rw [Treenode.names, Treenode.names, List.append_nil, List.mem_singleton] at hn
      exact ⟨ptr, List.mem_cons_self, hn ▸ hname⟩
    · exact ⟨fun _ => ⟨rfl, rfl⟩, trivial, trivial⟩

end ApTelemetry.Createtree
