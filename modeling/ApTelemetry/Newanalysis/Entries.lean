import ApTelemetry.Newanalysis.ReadLine

namespace ApTelemetry.Newanalysis
open Lib Createtree

/-- How numbers are written in the DOT text and in the message, and read back. -/
structure FloatText (V : Type) where
  zero : V
  dot : V → Str
  float : Str → Option V
  str : V → Str
  atof : Str → V
  dot_number : ∀ v, NumberText (dot v)
  str_number : ∀ v, NumberText (str v)
  float_dot : ∀ v, float (dot v) = some v
  atof_str : ∀ v, atof (str v) = v
  atof_zero : atof ['0'] = zero

/-- A fitted tree: its root is node 0, no number names two nodes, numbers and
classes fit an `int`, and no feature's name has a separator. -/
structure Fitted (V : Type) where
  tree : Classifier V
  root : tree.itself = 0
  distinct : tree.ids.Nodup
  ids_lt : ∀ i ∈ tree.ids, i < 2 ^ 31
  classes_lt : ∀ c ∈ tree.classes, c < 2 ^ 31
  names_plain : ∀ n ∈ tree.names, ∀ c ∈ n, NameChar c

/-- What the DOT text shows besides the tree: the lines around the nodes, the
looks of the nodes and what stands behind the edges. -/
structure Drawing where
  before : List Str
  after : List Str
  decor : Nat → Decor
  edge : Nat → Str
  around_plain : ∀ line ∈ before ++ after,
    '\n' ∉ line ∧ Str.toInt? ((line.splitOn ' ').headD []) = none
  edge_plain : ∀ x, '\n' ∉ edge x

section Text

variable {V : Type} (F : FloatText V) (g : Drawing)

def Drawing.lines (t : Classifier V) : List Str :=
  g.before ++ (nodeLines F.dot g.decor g.edge none t ++ g.after)

/-- `graph.to_string()`. -/
def Drawing.strtree (t : Classifier V) : Str := ['\n'].intercalate (g.lines F t)

theorem node_lines_plain (father : Option Nat) (t : Classifier V)
    (hnames : ∀ n ∈ t.names, ∀ c ∈ n, NameChar c) :
    ∀ line ∈ nodeLines F.dot g.decor g.edge father t, '\n' ∉ line := by
  have hshown {line : Str} (h : ∀ c ∈ line, Str.Shown c) : '\n' ∉ line := fun hm =>
    absurd (h _ hm).2.2.1 (by decide)
  have hedges (father : Option Nat) (x : Nat) : ∀ line ∈ edgeLines g.edge x father,
      '\n' ∉ line := by
    intro line hline
    cases father with
    | none => cases hline
    | some father =>
      rw [edgeLines, List.mem_singleton] at hline
      rw [hline]
      simp only [edgeLine, List.mem_append, not_or]
      exact ⟨not_mem_digits (by decide) father, by decide, not_mem_digits (by decide) x,
        g.edge_plain x⟩
  induction t generalizing father with
  | leaf x c =>
    intro line hline
    rcases List.mem_cons.mp hline with rfl | hline
    · exact hshown (shown_line (g.decor x) x (by simp))
    · exact hedges father x line hline
  | split x n v c l r hl hr =>
    simp only [Classifier.names, List.forall_mem_cons, List.forall_mem_append] at hnames
    obtain ⟨hname, hleft, hright⟩ := hnames
    intro line hline
    rw [nodeLines, List.mem_cons, List.mem_append, List.mem_append] at hline
    rcases hline with rfl | hline | hline | hline
    · exact hshown (shown_line (g.decor x) x (shown_test hname (F.dot_number v)))
    · exact hedges father x line hline
    · exact hl (some x) hleft line hline
    · exact hr (some x) hright line hline

theorem strtree_lines (t : Classifier V) (hnames : ∀ n ∈ t.names, ∀ c ∈ n, NameChar c) :
    (g.strtree F t).splitOn '\n' = g.lines F t := by
  refine List.splitOn_intercalate _ ?_ ?_
  · intro line hline
    rw [Drawing.lines, List.mem_append, List.mem_append] at hline
    rcases hline with h | h | h
    · exact (g.around_plain line (List.mem_append_left _ h)).1
    · exact node_lines_plain F g none t hnames line h
    · exact (g.around_plain line (List.mem_append_right _ h)).1
  · cases t <;> simp [Drawing.lines, nodeLines]

end Text

section Nodes

variable {V : Type} (F : FloatText V) (g : Drawing)

/-- The tuple of an inner node, unless its feature has `class` in its name. -/
def splitEntries (father x : Int) (n : Str) (v : V) (c : Int) : List (Entry V) :=
  if "class".toList <:+: n then [] else [⟨some father, x, n, some v, c⟩]

/-- The tuples kept of a tree below a parent. -/
def entries (father : Int) : Classifier V → List (Entry V)
  | .leaf x c => [⟨some father, x, leafName, none, c⟩]
  | .split x n v c l r => splitEntries father x n v c ++ (entries x l ++ entries x r)

theorem split_entries_kept {n : Str} (h : ¬ "class".toList <:+: n) (father x : Int) (v : V)
    (c : Int) : splitEntries father x n v c = [⟨some father, x, n, some v, c⟩] := by
  unfold splitEntries
  exact if_neg h

theorem split_entries_dropped {n : Str} (h : "class".toList <:+: n) (father x : Int) (v : V)
    (c : Int) : splitEntries father x n v c = [] := by
  unfold splitEntries
  exact if_pos h

theorem mem_split_entries {father x : Int} {n : Str} {v : V} {c : Int} {e : Entry V}
    (he : e ∈ splitEntries father x n v c) : e = ⟨some father, x, n, some v, c⟩ := by
  by_cases hclass : "class".toList <:+: n
  · rw [split_entries_dropped hclass] at he
    cases he
  · rw [split_entries_kept hclass] at he
    exact List.mem_singleton.mp he

theorem entries_father (father : Int) (t : Classifier V) :
    ∀ e ∈ entries father t, ∃ f, e.father = some f := by
  induction t generalizing father with
  | leaf x c => simp [entries]
  | split x n v c l r hl hr =>
    intro e he
    rw [entries, List.mem_append, List.mem_append] at he
    rcases he with he | he | he
    · exact ⟨father, congrArg Entry.father (mem_split_entries he)⟩
    · exact hl x e he
    · exact hr x e he

/-- Every tuple has a father already. -/
def Patched (s : Exporter V) : Prop := ∀ e ∈ s.nodes, ∃ f, e.father = some f

/-- The edge behind a tuple that waits for its father. -/
theorem add_father_waiting (s : Exporter V) (nodes : List (Entry V)) (x : Int) (name : Str)
    (value : Option V) (class_ father : Int) :
    addFather { s with nodes := nodes ++ [⟨none, x, name, value, class_⟩] } father =
      { s with nodes := nodes ++ [⟨some father, x, name, value, class_⟩] } := by
  simp [addFather]

theorem add_father_patched {s : Exporter V} (h : Patched s) (x : Int) : addFather s x = s := by
  cases hlast : s.nodes.getLast? with
  | none => simp [addFather, hlast]
  | some last =>
    obtain ⟨f, hf⟩ := h last (List.mem_of_getLast? hlast)
    simp [addFather, hlast, hf]

/-- The lines of a subtree append its tuples. -/
theorem read_subtree (father : Nat) (t : Classifier V) (s : Exporter V) (hs : Patched s)
    (hroot : 0 ∉ t.ids) (hnames : ∀ n ∈ t.names, ∀ c ∈ n, NameChar c) :
    (nodeLines F.dot g.decor g.edge (some father) t).foldl (readLine F.float) s =
      { s with nodes := s.nodes ++ entries father t } := by
  induction t generalizing father s with
  | leaf x c =>
    rw [nodeLines, List.foldl_cons, leaf_line, edgeLines, List.foldl_cons, List.foldl_nil,
      edge_line, add_father_waiting]
    rfl
  | split x n v c l r hl hr =>
    simp only [Classifier.ids, List.mem_cons, List.mem_append, not_or] at hroot
    simp only [Classifier.names, List.forall_mem_cons, List.forall_mem_append] at hnames
    obtain ⟨hx, hrootl, hrootr⟩ := hroot
    obtain ⟨hname, hleft, hright⟩ := hnames
    have hnode : (edgeLines g.edge x (some father)).foldl (readLine F.float)
        (readLine F.float s (nodeLine (g.decor x) x (test F.dot n v) c)) =
        { s with nodes := s.nodes ++ splitEntries father x n v c } := by
      rw [edgeLines, List.foldl_cons, List.foldl_nil, edge_line]
      by_cases hclass : "class".toList <:+: n
      · rw [split_line_dropped F.float s hname hclass (F.dot_number v), add_father_patched hs,
          split_entries_dropped hclass, List.append_nil]
      · have hnot : ¬ ((x : Int) = 0 ∧ s.begin = false) := fun h => hx (Int.ofNat_inj.mp h.1).symm
        rw [split_line F.float s hname hclass (F.dot_number v) (F.float_dot v), if_neg hnot,
          add_father_waiting, split_entries_kept hclass]
    have hpatched : Patched { s with nodes := s.nodes ++ splitEntries father x n v c } :=
      List.forall_mem_append.mpr ⟨hs, fun e he =>
        ⟨father, congrArg Entry.father (mem_split_entries he)⟩⟩
    have hleftdone : Patched { s with
        nodes := (s.nodes ++ splitEntries father x n v c) ++ entries x l } :=
      List.forall_mem_append.mpr ⟨hpatched, entries_father x l⟩
    rw [nodeLines, List.foldl_cons, List.foldl_append, hnode, List.foldl_append,
      hl x _ hpatched hrootl hleft, hr x _ hleftdone hrootr hright, entries]
    simp only [List.append_assoc]

theorem read_around {lines : List Str} (s : Exporter V)
    (h : ∀ line ∈ lines, Str.toInt? ((line.splitOn ' ').headD []) = none) :
    lines.foldl (readLine F.float) s = s := by
  induction lines with
  | nil => rfl
  | cons line lines ih =>
    rw [List.forall_mem_cons] at h
    have hline : readLine F.float s line = s := by simp only [readLine, h.1]
    rw [List.foldl_cons, hline, ih h.2]

/-- The tuples of a whole tree: a single leaf is never given a father. -/
def treeEntries : Classifier V → List (Entry V)
  | .leaf x c => [⟨none, x, leafName, none, c⟩]
  | .split x n v c l r => entries 0 (.split x n v c l r)

theorem read_lines (T : Fitted V) :
    (readLines F.float ((g.strtree F T.tree).splitOn '\n')).nodes = treeEntries T.tree := by
  obtain ⟨t, hzero, hdistinct, _, _, hnames⟩ := T
  have hbefore := read_around F ⟨[], false⟩ fun line hline =>
    (g.around_plain line (List.mem_append_left _ hline)).2
  have hafter (s : Exporter V) := read_around F s fun line hline =>
    (g.around_plain line (List.mem_append_right _ hline)).2
  rw [strtree_lines F g t hnames, readLines, Drawing.lines, List.foldl_append, hbefore,
    List.foldl_append, hafter]
  cases t with
  | leaf x c =>
    rw [nodeLines, edgeLines, List.foldl_cons, List.foldl_nil, leaf_line]
    rfl
  | split x n v c l r =>
    obtain rfl : x = 0 := hzero
    simp only [Classifier.ids, List.nodup_cons, List.mem_append, not_or] at hdistinct
    simp only [Classifier.names, List.forall_mem_cons, List.forall_mem_append] at hnames
    obtain ⟨hname, hleft, hright⟩ := hnames
    obtain ⟨⟨hrootl, hrootr⟩, _⟩ := hdistinct
    obtain ⟨begin', hnode⟩ : ∃ begin', readLine F.float ⟨[], false⟩
        (nodeLine (g.decor 0) 0 (test F.dot n v) c) = ⟨splitEntries 0 0 n v c, begin'⟩ := by
      by_cases hclass : "class".toList <:+: n
      · rw [split_line_dropped F.float _ hname hclass (F.dot_number v),
          split_entries_dropped hclass]
        exact ⟨false, rfl⟩
      · rw [split_line F.float _ hname hclass (F.dot_number v) (F.float_dot v),
          if_pos ⟨rfl, rfl⟩, split_entries_kept hclass]
        exact ⟨true, rfl⟩
    have hpatched : Patched ⟨splitEntries 0 0 n v c, begin'⟩ := fun e he =>
      ⟨0, congrArg Entry.father (mem_split_entries he)⟩
    have hleftdone : Patched ⟨splitEntries 0 0 n v c ++ entries (0 : Nat) l, begin'⟩ :=
      List.forall_mem_append.mpr ⟨hpatched, entries_father (0 : Nat) l⟩
    rw [nodeLines, edgeLines, List.foldl_cons, hnode, List.nil_append, List.foldl_append,
      read_subtree F g 0 l _ hpatched hrootl hleft,
      read_subtree F g 0 r _ hleftdone hrootr hright, treeEntries, entries]
    simp only [List.append_assoc]
    rfl

end Nodes

end ApTelemetry.Newanalysis
