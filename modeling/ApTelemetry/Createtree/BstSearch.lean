import ApTelemetry.Createtree.Classifier

namespace ApTelemetry.Createtree
open Lib

/-- `struct item_value`. An entry not in use has no name. -/
structure ItemValue (V : Type) where
  name : Option (List Char)
  value : V

variable {V : Type}

/-- The loop of `bst_search` over the items. The name is compared before it is
looked at whether there is one. -/
def findItem (name : List Char) : List (ItemValue V) → Except Fault (Option (ItemValue V))
  | [] => .ok none
  | item :: rest =>
    match item.name with
    | none => .error .null
    | some itemName => if name = itemName then .ok (some item) else findItem name rest

/-- The last lines of `bst_search`. Both log lines read `node_pre`. -/
def bstResult (found : Bool) (nodePre node : Treenode V) : Except Fault (Treenode V) :=
  match nodePre with
  | .null => .error .null
  | .node .. => .ok (if found then node else nodePre)

variable [LE V] [DecidableLE V]

/-- The `while` loop of `bst_search`. Where `assigns` is set, the test behind the
items is `found = 0`: it clears the flag and goes on with `value[i]`. -/
def bstSearchFrom (assigns : Bool) (value : List (ItemValue V)) (found : Bool)
    (nodePre : Treenode V) : Treenode V → Except Fault (Treenode V)
  | .null => bstResult found nodePre .null
  | .node i n v c l r =>
    if n ≠ leaf then
      match findItem n value with
      | .error fault => .error fault
      | .ok none => if assigns then .error .outside else .ok .null
      | .ok (some item) =>
        if item.value ≤ v then bstSearchFrom assigns value (!assigns) (.node i n v c l r) l
        else bstSearchFrom assigns value (!assigns) (.node i n v c l r) r
    else bstResult found nodePre (.node i n v c l r)

/-- `bst_search` of `create_tree/createtree.c`. -/
def bstSearch (node : Treenode V) (value : List (ItemValue V)) : Except Fault (Treenode V) :=
  bstSearchFrom false value false node node

/-- `bst_search` of `createtree.c`. -/
def bstSearchAssigns (node : Treenode V) (value : List (ItemValue V)) :
    Except Fault (Treenode V) :=
  bstSearchFrom true value false node node

/-- The entries in use and behind them `spare` ones that are not. -/
def items (used : List (List Char × V)) (spare : Nat) (unused : V) : List (ItemValue V) :=
  used.map (fun x => ⟨some x.1, x.2⟩) ++ List.replicate spare ⟨none, unused⟩

/-- Every feature tested on the path has an item. -/
def Present (used : List (List Char × V)) : Treenode V → Prop
  | .null => True
  | .node _ n v _ l r => n = leaf ∨
    ∃ x, used.lookup n = some x ∧ if x ≤ v then Present used l else Present used r

section Items

omit [LE V] [DecidableLE V]

/-- A name with an item is found; one without is compared with no name, if there
is an entry not in use. -/
theorem find_item_eq (n : List Char) (used : List (List Char × V)) (spare : Nat) (unused : V) :
    findItem n (items used spare unused) =
      match used.lookup n with
      | some x => .ok (some ⟨some n, x⟩)
      | none => if spare = 0 then .ok none else .error .null := by
  induction used with
  | nil =>
    cases spare with
    | zero => rfl
    | succ spare => rfl
  | cons x used ih =>
    obtain ⟨name, value⟩ := x
    rw [items, List.map_cons, List.cons_append, findItem]
    by_cases hn : n = name
    · subst hn
      simp only [if_true, List.lookup_cons_self]
    · rw [List.lookup_cons, beq_eq_false_iff_ne.mpr hn]
      simp only [if_neg hn]
      exact ih

theorem bst_result_ok {found : Bool} {nodePre node : Treenode V} (h : nodePre ≠ .null) :
    bstResult found nodePre node = .ok (if found then node else nodePre) := by
  cases nodePre with
  | null => exact absurd rfl h
  | node i n v c l r => rfl

end Items

section Search

variable {used : List (List Char × V)} {spare : Nat} {unused : V}

/-- The child that an item of value `x` leads to. -/
def child (x v : V) (l r : Treenode V) : Treenode V := if x ≤ v then l else r

theorem present_child {i : Int} {n : List Char} {v : V} {c : Int} {l r : Treenode V}
    (hleaf : n ≠ leaf) {x : V} (hx : used.lookup n = some x) :
    Present used (.node i n v c l r) ↔ Present used (child x v l r) := by
  have hchild : (if x ≤ v then Present used l else Present used r) ↔
      Present used (child x v l r) := by
    unfold child
    split <;> rfl
  rw [← hchild]
  constructor
  · rintro (h | ⟨y, hy, hpath⟩)
    · exact absurd h hleaf
    · obtain rfl := Option.some.inj (hx.symm.trans hy)
      exact hpath
  · intro hpath
    exact .inr ⟨x, hx, hpath⟩

theorem child_smaller (i : Int) (n : List Char) (c : Int) (x v : V) (l r : Treenode V) :
    (child x v l r).ids.length < (Treenode.node i n v c l r).ids.length := by
  simp only [Treenode.ids, List.length_cons, List.length_append]
  unfold child
  split <;> omega

/-- One turn of the loop whose feature has an item. -/
theorem search_turn {assigns found : Bool} {nodePre : Treenode V} {i : Int} {n : List Char} {v : V}
    {c : Int} {l r : Treenode V} (hleaf : n ≠ leaf) {x : V} (hx : used.lookup n = some x) :
    bstSearchFrom assigns (items used spare unused) found nodePre (.node i n v c l r) =
      bstSearchFrom assigns (items used spare unused) (!assigns) (.node i n v c l r)
        (child x v l r) := by
  rw [bstSearchFrom, if_pos hleaf, find_item_eq, hx]
  dsimp only
  unfold child
  split <;> rfl

theorem search_leaf {assigns found : Bool} {value : List (ItemValue V)} {nodePre : Treenode V}
    {i : Int} {v : V} {c : Int} {l r : Treenode V} :
    bstSearchFrom assigns value found nodePre (.node i leaf v c l r) =
      bstResult found nodePre (.node i leaf v c l r) := by
  rw [bstSearchFrom, if_neg (not_not.mpr rfl)]

variable (spare unused) in
/-- Below the root the loop that keeps its flag ends at a smaller node than the one
that clears it, which answers with the node before. -/
theorem searches_apart {t : Treenode V} (h : Present used t) {nodePre : Treenode V}
    (hpre : t.ids.length < nodePre.ids.length) : ∃ node before,
    bstSearchFrom false (items used spare unused) true nodePre t = .ok node ∧
    bstSearchFrom true (items used spare unused) false nodePre t = .ok before ∧
    node.ids.length < before.ids.length := by
  have hnull : nodePre ≠ .null := by
    rintro rfl
    exact absurd hpre (Nat.not_lt_zero _)
  induction t generalizing nodePre with
  | null => exact ⟨.null, nodePre, bst_result_ok hnull, bst_result_ok hnull, hpre⟩
  | node i n v c l r ihl ihr =>
    by_cases hleaf : n = leaf
    · subst hleaf
      exact ⟨_, nodePre, search_leaf.trans (bst_result_ok hnull),
        search_leaf.trans (bst_result_ok hnull), hpre⟩
    · obtain ⟨x, hx, -⟩ := h.resolve_left hleaf
      have hpath := (present_child hleaf hx).mp h
      have hless := child_smaller i n c x v l r
      rw [search_turn hleaf hx, search_turn hleaf hx]
      unfold child at hpath hless ⊢
      split at hpath <;> rename_i hle
      · rw [if_pos hle] at hless ⊢
        exact ihl hpath hless (by simp)
      · rw [if_neg hle] at hless ⊢
        exact ihr hpath hless (by simp)

/-- One turn whose feature has no item. -/
theorem search_absent {found : Bool} {nodePre : Treenode V} {i : Int} {n : List Char} {v : V}
    {c : Int} {l r : Treenode V} (hleaf : n ≠ leaf) (hx : used.lookup n = none) :
    bstSearchFrom false (items used spare unused) found nodePre (.node i n v c l r) =
      if spare = 0 then .ok .null else .error .null := by
  rw [bstSearchFrom, if_pos hleaf, find_item_eq, hx]
  by_cases hspare : spare = 0 <;> simp [hspare]

/-- The search from a node that is there: it answers with a node, or with none where
a feature is missing and no entry is spare. -/
theorem search_missing_iff (t : Treenode V) {found : Bool} {nodePre : Treenode V}
    (hnull : nodePre ≠ .null) :
    (∃ node, bstSearchFrom false (items used spare unused) found nodePre t = .ok node ∧
      (¬ Present used t → node = .null)) ↔ spare = 0 ∨ Present used t := by
  induction t generalizing nodePre found with
  | null => exact iff_of_true ⟨_, bst_result_ok hnull, fun h => absurd trivial h⟩ (.inr trivial)
  | node i n v c l r ihl ihr =>
    by_cases hleaf : n = leaf
    · subst hleaf
      have hpresent : Present used (.node i leaf v c l r) := .inl rfl
      exact iff_of_true ⟨_, search_leaf.trans (bst_result_ok hnull),
        fun h => absurd hpresent h⟩ (.inr hpresent)
    · cases hx : used.lookup n with
      | none =>
        have hmissing : ¬ Present used (.node i n v c l r) := by
          rintro (h | ⟨x, hsome, -⟩)
          · exact hleaf h
          · rw [hx] at hsome
            cases hsome
        rw [search_absent hleaf hx, or_iff_left hmissing]
        by_cases hspare : spare = 0
        · rw [if_pos hspare]
          exact iff_of_true ⟨.null, rfl, fun _ => rfl⟩ hspare
        · rw [if_neg hspare]
          refine iff_of_false ?_ hspare
          rintro ⟨node, hok, -⟩
          cases hok
      | some x =>
        rw [search_turn hleaf hx, present_child hleaf hx]
        unfold child
        split
        · exact ihl (by simp)
        · exact ihr (by simp)

end Search

/-- A tree with one test. -/
def oneTest : Classifier Int := .split 0 ['q'] 5 0 (.leaf 1 1) (.leaf 2 2)

theorem one_test_present : Present [(['q'], 3)] (oneTest.linked 0) :=
  .inr ⟨3, rfl, .inl rfl⟩

/-- The two searches answer with one node exactly if the root is a leaf. -/
theorem same_node_iff {used : List (List Char × V)} {t : Treenode V} (h : Present used t)
    (spare : Nat) (unused : V) :
    (∃ node, bstSearchAssigns t (items used spare unused) = .ok node ∧
      bstSearch t (items used spare unused) = .ok node) ↔
    ∃ i v c l r, t = .node i leaf v c l r := by
  unfold bstSearchAssigns bstSearch
  cases t with
  | null =>
    refine iff_of_false ?_ ?_
    · rintro ⟨node, hok, -⟩
      cases hok
    · rintro ⟨i, v, c, l, r, ht⟩
      cases ht
  | node i n v c l r =>
    by_cases hleaf : n = leaf
    · subst hleaf
      exact iff_of_true ⟨_, search_leaf, search_leaf⟩ ⟨i, v, c, l, r, rfl⟩
    · refine iff_of_false ?_ ?_
      · obtain ⟨x, hx, -⟩ := h.resolve_left hleaf
        rw [search_turn hleaf hx, search_turn hleaf hx]
        obtain ⟨node, before, hnode, hbefore, hlt⟩ := searches_apart spare unused
          ((present_child hleaf hx).mp h) (child_smaller i n c x v l r)
        rintro ⟨both, hassigns, hkeeps⟩
        obtain rfl := Except.ok.inj (hnode.symm.trans hkeeps)
        obtain rfl := Except.ok.inj (hbefore.symm.trans hassigns)
        exact Nat.lt_irrefl _ hlt
      · rintro ⟨i', v', c', l', r', ht⟩
        cases ht
        exact hleaf rfl

theorem same_node_iff_one_test :
    (∃ node, bstSearchAssigns (oneTest.linked 0) (items [(['q'], 3)] 1 0) = .ok node ∧
      bstSearch (oneTest.linked 0) (items [(['q'], 3)] 1 0) = .ok node) ↔
    ∃ i v c l r, oneTest.linked 0 = .node i leaf v c l r :=
  same_node_iff one_test_present 1 0

/-- In a tree of three records one search ends at a leaf and the other at its parent. -/
theorem parent_answered : ¬ ∀ (ptr : List (Rawdata Int)) (t : Treenode Int)
    (used : List (List Char × Int)) (spare : Nat) (unused : Int), createTree ptr = .ok t →
    Present used t → ∃ node, bstSearchAssigns t (items used spare unused) = .ok node ∧
      bstSearch t (items used spare unused) = .ok node := by
  intro h
  have hdistinct : oneTest.Distinct := ⟨by decide, by decide⟩
  have hbuilt := Classifier.create_tree_records 0 oneTest (-1) [] hdistinct
  obtain ⟨node, hassigns, hkeeps⟩ := h _ _ [(['q'], 3)] 1 0 hbuilt one_test_present
  have hleaf : bstSearch (oneTest.linked 0) (items [(['q'], 3)] 1 0) =
      .ok (.node 1 leaf 0 1 .null .null) := rfl
  have hroot : bstSearchAssigns (oneTest.linked 0) (items [(['q'], 3)] 1 0) =
      .ok (oneTest.linked 0) := rfl
  have hsame := Except.ok.inj ((hkeeps.symm.trans hleaf).symm.trans (hassigns.symm.trans hroot))
  cases hsame

/-- A missing feature is reported as such, and nothing is read through NULL. -/
def ReportsMissing (used : List (List Char × V)) (spare : Nat) (unused : V) (t : Treenode V) :
    Prop :=
  ∃ node, bstSearch t (items used spare unused) = .ok node ∧ (¬ Present used t → node = .null)

/-- That is so exactly if there is a tree and either no entry is spare or no feature
is missing. -/
theorem reports_missing_iff (used : List (List Char × V)) (spare : Nat) (unused : V)
    (t : Treenode V) :
    ReportsMissing used spare unused t ↔ t ≠ .null ∧ (spare = 0 ∨ Present used t) := by
  by_cases hnull : t = .null
  · subst hnull
    refine iff_of_false ?_ fun h => h.1 rfl
    rintro ⟨node, hok, -⟩
    cases hok
  · rw [and_iff_right hnull]
    exact search_missing_iff t hnull

/-- A feature without an item is compared with no name where an entry is spare. -/
theorem null_name_compared : ¬ ∀ (used : List (List Char × Int)) (spare : Nat) (unused : Int)
    (t : Treenode Int), ReportsMissing used spare unused t := by
  intro h
  obtain ⟨node, hrun, -⟩ := h [] 1 0 (oneTest.linked 0)
  cases hrun

section Decides

variable {V : Type} [LE V] [DecidableLE V]

/-- The number and the class of the leaf that the measurements lead to, if all that are asked for
are there. -/
def Classifier.decides (used : List (List Char × V)) : Classifier V → Option (Nat × Nat)
  | leaf i c => some (i, c)
  | split _ n v _ l r =>
    match used.lookup n with
    | some x => if x ≤ v then l.decides used else r.decides used
    | none => none

/-- What `bst_search` makes of a decision. Where a measurement is missing, there is no node, or
an entry without a name is read. -/
def decided (zero : V) (spare : Nat) : Option (Nat × Nat) → Except Fault (Treenode V)
  | some (i, c) => .ok (.node i leaf zero c .null .null)
  | none => if spare = 0 then .ok .null else .error .null

variable {used : List (List Char × V)} {spare : Nat} {unused : V}

/-- By induction on the tree. The flag is set behind the first test, and a search that begins at
a leaf answers with the node before, which is that leaf. -/
theorem search_decides (zero : V) (t : Classifier V) (hnames : ∀ n ∈ t.names, n ≠ leaf)
    {found : Bool} {nodePre : Treenode V} (hpre : nodePre ≠ .null)
    (hfound : found = true ∨ nodePre = t.linked zero) :
    bstSearchFrom false (items used spare unused) found nodePre (t.linked zero) =
      decided zero spare (t.decides used) := by
  induction t generalizing found nodePre with
  | leaf i c =>
    rw [Classifier.linked, search_leaf, bst_result_ok hpre]
    cases hfound with
    | inl hset =>
      subst hset
      rfl
    | inr hsame =>
      subst hsame
      cases found <;> rfl
  | split i n v c l r ihl ihr =>
    simp only [Classifier.names, List.forall_mem_cons, List.forall_mem_append] at hnames
    obtain ⟨hname, hleft, hright⟩ := hnames
    cases hx : used.lookup n with
    | none =>
      rw [Classifier.linked, search_absent hname hx, Classifier.decides, hx]
      rfl
    | some x =>
      rw [Classifier.linked, search_turn hname hx, Classifier.decides, hx, child]
      have hnode : Treenode.node (i : Int) n v c (l.linked zero) (r.linked zero) ≠ .null := by
        intro h
        cases h
      by_cases hle : x ≤ v
      · simp only [if_pos hle]
        exact ihl hleft hnode (Or.inl rfl)
      · simp only [if_neg hle]
        exact ihr hright hnode (Or.inl rfl)

theorem bst_search_decides (zero : V) (t : Classifier V) (hnames : ∀ n ∈ t.names, n ≠ leaf) :
    bstSearch (t.linked zero) (items used spare unused) =
      decided zero spare (t.decides used) := by
  have hroot : t.linked zero ≠ .null := by
    cases t <;> exact fun h => by cases h
  exact search_decides zero t hnames hroot (Or.inr rfl)

end Decides

end ApTelemetry.Createtree
