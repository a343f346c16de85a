import ApTelemetry.Createtree.Classifier
import ApTelemetry.Newanalysis.Export

namespace ApTelemetry.Newanalysis
open Lib Createtree

/-- The text of a number. -/
def NumberText (s : Str) : Prop := s ≠ [] ∧ ∀ c ∈ s, c.isDigit = true ∨ c ∈ ['.', '-', '+', 'e']

/-- What a node's line says of the node besides the tree: its colour and the
numbers of its label. -/
structure Decor where
  color : Str
  entropy : Str
  samples : Str
  value : Str
  color_plain : ∀ c ∈ color, Str.Shown c ∧ c ∉ [' ', '=', '<', '>', '&', 'l']
  numbers_plain : ∀ c ∈ entropy ++ (samples ++ value), Str.Shown c ∧ c ∉ ['=', '<', '>', '&', 'c']

/-- The characters of feature names: any that show as they are, except those that
separate something in the DOT text, the list of its words or the message. -/
def NameChar (c : Char) : Prop := Str.Shown c ∧ c ∉ [' ', ',', '|', '=', '<', '>', '&']

instance : DecidablePred NameChar := fun c =>
  inferInstanceAs (Decidable (Str.Shown c ∧ c ∉ [' ', ',', '|', '=', '<', '>', '&']))

section Lines

variable {V : Type} (dot : V → Str)

/-- The line of a node, with what its label begins with. -/
def nodeLine (d : Decor) (x : Nat) (test : Str) (class_ : Nat) : Str :=
  Nat.toDigits 10 x ++ (" [fillcolor=\"".toList ++ (d.color ++ ("\", label=<".toList ++ (test ++
    ("entropy = ".toList ++ (d.entropy ++ ("<br/>samples = ".toList ++ (d.samples ++
    ("<br/>value = ".toList ++ (d.value ++ ("<br/>class = ".toList ++ (Nat.toDigits 10 class_ ++
    ">];".toList))))))))))))

def test (name : Str) (v : V) : Str := name ++ (" &le; ".toList ++ (dot v ++ "<br/>".toList))

def edgeLine (father x : Nat) (rest : Str) : Str :=
  Nat.toDigits 10 father ++ (" -> ".toList ++ (Nat.toDigits 10 x ++ rest))

/-- The edge from its parent, right behind a node. -/
def edgeLines (edge : Nat → Str) (x : Nat) : Option Nat → List Str
  | none => []
  | some father => [edgeLine father x (edge x)]

/-- The lines of a tree's nodes in pre-order, below a parent. -/
def nodeLines (decor : Nat → Decor) (edge : Nat → Str) : Option Nat → Classifier V → List Str
  | father, .leaf x c => nodeLine (decor x) x [] c :: edgeLines edge x father
  | father, .split x n v c l r =>
    nodeLine (decor x) x (test dot n v) c :: (edgeLines edge x father ++
      (nodeLines decor edge (some x) l ++ nodeLines decor edge (some x) r))

end Lines

section Words

variable {c : Char} {s : Str}

theorem not_mem_digits (h : c.isDigit = false) (n : Nat) : c ∉ Nat.toDigits 10 n := by
  intro hc
  have hdigit := to_digits_digit c hc
  rw [h] at hdigit
  cases hdigit

theorem shown_of_digit (h : c.isDigit = true) : Str.Shown c := by
  have hrange := h
  simp only [Char.isDigit, Bool.and_eq_true, decide_eq_true_eq] at hrange
  have hlow : 48 ≤ c.toNat := hrange.1
  have hhigh : c.toNat ≤ 57 := hrange.2
  refine ⟨?_, ?_, by omega, by omega⟩
  · rintro rfl
    exact absurd h (by decide)
  · rintro rfl
    exact absurd h (by decide)

theorem not_mem_number (h : NumberText s) (hdigit : c.isDigit = false)
    (hc : c ∉ ['.', '-', '+', 'e']) : c ∉ s := by
  intro hm
  rcases h.2 c hm with hd | hp
  · rw [hdigit] at hd
    cases hd
  · exact hc hp

theorem not_mem_between (hs : c ∉ s) (hc : c ∉ Str.between) :
    c ∉ s.replaceChar ' ' Str.between := by
  intro hm
  obtain ⟨d, hd, hdc⟩ := List.mem_flatMap.mp hm
  split at hdc
  · exact hc hdc
  · exact hs (List.mem_singleton.mp hdc ▸ hd)

end Words

section Line

variable (d : Decor) (x : Nat)

/-- The text of the list of a line's words, up to the label. -/
def front : Str :=
  "['".toList ++ (Nat.toDigits 10 x ++ ("', '[fillcolor=\"".toList ++ (d.color ++
    "\",', 'label".toList)))

/-- Its part from the entropy to the class. -/
def middle : Str :=
  d.entropy.replaceChar ' ' Str.between ++ ("<br/>samples', '=', '".toList ++
    (d.samples.replaceChar ' ' Str.between ++ ("<br/>value', '=', '".toList ++
    (d.value.replaceChar ' ' Str.between ++ "<br/>".toList))))

theorem shown_line {text : Str} {class_ : Nat} (htext : ∀ c ∈ text, Str.Shown c) :
    ∀ c ∈ nodeLine d x text class_, Str.Shown c := by
  have hdigits (n : Nat) : ∀ c ∈ Nat.toDigits 10 n, Str.Shown c := fun c hc =>
    shown_of_digit (to_digits_digit c hc)
  have hcolor : ∀ c ∈ d.color, Str.Shown c := fun c hc => (d.color_plain c hc).1
  have hnumbers : ∀ c ∈ d.entropy ++ (d.samples ++ d.value), Str.Shown c := fun c hc =>
    (d.numbers_plain c hc).1
  simp only [List.forall_mem_append] at hnumbers
  simp only [nodeLine, List.forall_mem_append]
  refine ⟨hdigits x, ?_, hcolor, ?_, htext, ?_, hnumbers.1, ?_, hnumbers.2.1, ?_, hnumbers.2.2,
    ?_, hdigits class_, ?_⟩ <;>
  exact List.all_iff_forall_prop.mp (by decide)

/-- The text of the list of a line's words. -/
theorem repr_line {text : Str} {class_ : Nat} (htext : ∀ c ∈ text, Str.Shown c) :
    Str.reprList ((nodeLine d x text class_).splitOn ' ') =
      front d x ++ ("=<".toList ++ (text.replaceChar ' ' Str.between ++
        ("entropy', '=', '".toList ++ (middle d ++ ("class', '=', '".toList ++
        (Nat.toDigits 10 class_ ++ ">];']".toList)))))) := by
  have hcolor : d.color.replaceChar ' ' Str.between = d.color :=
    Str.replace_char_absent (fun hc => (d.color_plain ' ' hc).2 (by decide)) _
  have hdigits (n : Nat) : Str.replaceChar (Nat.toDigits 10 n) ' ' Str.between =
      Nat.toDigits 10 n := Str.replace_char_absent (not_mem_digits (by decide) n) _
  rw [Str.repr_list_split (shown_line d x htext)]
  simp only [nodeLine, Str.replace_char_append, hcolor, hdigits]
  simp [front, middle, Str.replaceChar, Str.between]

end Line

end ApTelemetry.Newanalysis
