import ApTelemetry.Newanalysis.Dot

namespace ApTelemetry.Newanalysis
open Lib Createtree

/-- What stands between the first `=` behind the first `class` and the end of the
label, whatever it is. -/
theorem class_name_eq {a y m : Str}
    (hclass : indexOf "class".toList (a ++ ("class".toList ++ (y ++ ("=', '".toList ++
      (m ++ ">];']".toList))))) = some a.length) (hy : '=' ∉ y)
    (hend : Passes ">]".toList (a ++ ("class".toList ++ (y ++ ("=', '".toList ++ m))))) :
    className (a ++ ("class".toList ++ (y ++ ("=', '".toList ++ (m ++ ">];']".toList))))) =
      m.replaceChar ' ' [] := by
  have hequals : indexOf "=".toList ("class".toList ++ (y ++ ("=', '".toList ++
      (m ++ ">];']".toList)))) = some ("class".toList ++ y).length := by
    have hpass : Passes "=".toList ("class".toList ++ y) := passes_of_head (by
      rw [List.mem_append, not_or]
      exact ⟨by decide, hy⟩)
    have hfound := index_of_after (b := "', '".toList ++ (m ++ ">];']".toList)) hpass
    rwa [List.append_assoc] at hfound
  have hlast : indexOf ">]".toList (a ++ ("class".toList ++ (y ++ ("=', '".toList ++
      (m ++ ">];']".toList))))) =
      some (a ++ ("class".toList ++ (y ++ ("=', '".toList ++ m)))).length := by
    have hfound := index_of_after (b := ";']".toList) hend
    simp only [List.append_assoc] at hfound
    exact hfound
  have hslice := Str.slice_append (a ++ ("class".toList ++ (y ++ "=', '".toList))) m
    ">];']".toList
  simp only [List.append_assoc] at hslice
  have hstart : (a.length : Int) + ("class".toList ++ y).length + 5 =
      (a ++ ("class".toList ++ (y ++ "=', '".toList))).length := by
    simp only [List.length_append]
    have hfive : "=', '".toList.length = 5 := rfl
    omega
  rw [className, Str.find_eq hclass, Str.find_eq hlast]
  rw [Str.find_from_append hequals, hstart, hslice]

theorem not_mem_name {name : Str} (h : ∀ c ∈ name, NameChar c) {c : Char}
    (hc : c ∈ ['\'', ' ', ',', '|', '=', '<', '>', '&']) : c ∉ name := by
  intro hm
  obtain ⟨hshown, hsep⟩ := h c hm
  rcases List.mem_cons.mp hc with rfl | hc
  · exact hshown.1 rfl
  · exact hsep hc

/-- The words of a test, as neither the name nor the number has a blank. -/
theorem test_words_eq {a name num b : Str} (hname : ∀ c ∈ name, NameChar c)
    (hnum : NumberText num) (hopen : Passes "=<".toList a) (hbreak : '<' ∉ a) :
    testWords (a ++ ("=<".toList ++ ((name ++ ("', '&le;', '".toList ++ num)) ++
      ("<br/>".toList ++ b)))) = [name, "&le;".toList, num] := by
  have hnamed {c : Char} (hc : c ∈ ['\'', ' ', ',', '|', '=', '<', '>', '&']) : c ∉ name :=
    not_mem_name hname hc
  have hnumber {c : Char} (hdigit : c.isDigit = false) (hc : c ∉ ['.', '-', '+', 'e']) : c ∉ num :=
    not_mem_number hnum hdigit hc
  have hpass : Passes "<br/>".toList (a ++ ("=<".toList ++ (name ++
      ("', '&le;', '".toList ++ num)))) := by
    have hlabel : Passes "<br/>".toList (a ++ "=".toList) := passes_of_head (by
      rw [List.mem_append, not_or]
      exact ⟨hbreak, by decide⟩)
    have hnot : ¬ "<br/>".toList <:+: '<' :: name := by
      intro h
      have hmem : '>' ∈ '<' :: name := h.subset (by decide)
      rcases List.mem_cons.mp hmem with he | hm
      · exact absurd he (by decide)
      · exact hnamed (by decide) hm
    have hfirst : Passes "<br/>".toList ('<' :: name ++ ['\'']) :=
      passes_of_end hnot (by decide) (by decide)
    have hrest : Passes "<br/>".toList (", '&le;', '".toList ++ num) := passes_of_head (by
      rw [List.mem_append, not_or]
      exact ⟨by decide, hnumber (by decide) (by decide)⟩)
    have hall := hlabel.append (hfirst.append hrest)
    simp only [List.append_assoc, List.cons_append] at hall
    exact hall
  have hindex2 := index_of_after (b := b) hpass
  have hindex1 := index_of_after (b := (name ++ ("', '&le;', '".toList ++ num)) ++
    ("<br/>".toList ++ b)) hopen
  have hslice := Str.slice_append (a ++ "=<".toList) (name ++ ("', '&le;', '".toList ++ num))
    ("<br/>".toList ++ b)
  have hstart : (a.length : Int) + 2 = (a ++ "=<".toList).length := by
    rw [List.length_append]
    rfl
  simp only [List.append_assoc] at hindex1 hindex2 hslice ⊢
  rw [testWords, Str.find_eq hindex1, Str.find_eq hindex2, hstart, hslice]
  have hquotes : Str.replaceChar (name ++ ("', '&le;', '".toList ++ num)) '\'' [] =
      name ++ (", &le;, ".toList ++ num) := by
    rw [Str.replace_char_between (hnamed (by decide)) (hnumber (by decide) (by decide))]
    rfl
  have hcommas : Str.replaceChar (name ++ (", &le;, ".toList ++ num)) ',' [' '] =
      name ++ ("  &le;  ".toList ++ num) := by
    rw [Str.replace_char_between (hnamed (by decide)) (hnumber (by decide) (by decide))]
    rfl
  have hspaces : Str.replaceSpaces (name ++ ("  &le;  ".toList ++ num)) =
      name ++ ' ' :: ("&le;".toList ++ ' ' :: num) := by
    have hword := Str.replace_spaces_append (a := "&le;".toList) (b := num) (by decide)
    have hline := Str.replace_spaces_append (a := name)
      (b := "&le;".toList ++ ' ' :: ' ' :: num) (hnamed (by decide))
    rw [hword, Str.replace_spaces_absent (hnumber (by decide) (by decide))] at hline
    exact hline
  rw [hquotes, hcommas, hspaces, List.splitOn_append_cons_of_beq name _ (beq_self_eq_true ' '),
    List.splitOn_append_cons_of_beq _ num (beq_self_eq_true ' '),
    List.splitOn_eq_singleton (hnamed (by decide)), List.splitOn_eq_singleton (by decide),
    List.splitOn_eq_singleton (hnumber (by decide) (by decide))]
  rfl

section Front

variable (d : Decor) (x : Nat)

theorem not_mem_color {c : Char} (hc : c ∈ [' ', '=', '<', '>', '&', 'l']) : c ∉ d.color :=
  fun hm => (d.color_plain c hm).2 hc

theorem not_mem_front {c : Char} (hc : c ∈ ['<', '>', '&']) : c ∉ front d x := by
  have hfixed : ∀ c ∈ ['<', '>', '&'], c ∉ "['".toList ∧ c ∉ "', '[fillcolor=\"".toList ∧
      c ∉ "\",', 'label".toList := List.all_iff_forall_prop.mp (by decide)
  have hdigit : ∀ c ∈ ['<', '>', '&'], c.isDigit = false :=
    List.all_iff_forall_prop.mp (by decide)
  have hcolor : ∀ c ∈ ['<', '>', '&'], c ∈ [' ', '=', '<', '>', '&', 'l'] :=
    List.all_iff_forall_prop.mp (by decide)
  simp only [front, List.mem_append, not_or]
  exact ⟨(hfixed c hc).1, not_mem_digits (hdigit c hc) x, (hfixed c hc).2.1,
    not_mem_color d (hcolor c hc), (hfixed c hc).2.2⟩

theorem front_passes_open : Passes "=<".toList (front d x) := by
  have hid : Passes "=<".toList ("['".toList ++ Nat.toDigits 10 x) := passes_of_head (by
    rw [List.mem_append, not_or]
    exact ⟨by decide, not_mem_digits (by decide) x⟩)
  have hfill : Passes "=<".toList "', '[fillcolor=\"".toList :=
    passes_of_end (a := "', '[fillcolor=".toList) (d := '"') (by decide) (by decide) (by decide)
  have hcolor : Passes "=<".toList (d.color ++ "\",', 'label".toList) := passes_of_head (by
    rw [List.mem_append, not_or]
    exact ⟨not_mem_color d (by decide), by decide⟩)
  have hall := hid.append (hfill.append hcolor)
  simp only [List.append_assoc] at hall
  exact hall

theorem front_passes_class : Passes "class".toList (front d x ++ "=<".toList) := by
  have hid : Passes "class".toList ("['".toList ++ Nat.toDigits 10 x) := passes_of_head (by
    rw [List.mem_append, not_or]
    exact ⟨by decide, not_mem_digits (by decide) x⟩)
  have hfill : Passes "class".toList "', '[fillcolor=\"".toList :=
    passes_of_end (a := "', '[fillcolor=".toList) (d := '"') (by decide) (by decide) (by decide)
  have hcolor : Passes "class".toList (d.color ++ ['"']) := by
    refine passes_of_end (fun h => ?_) (by decide) (by decide)
    exact not_mem_color d (by decide) (h.subset (by decide : 'l' ∈ "class".toList))
  have hlabel : Passes "class".toList (",', 'label".toList ++ "=<".toList) :=
    passes_of_head (by decide)
  have hquote : "\",', 'label".toList = ['"'] ++ ",', 'label".toList := rfl
  have hall := hid.append (hfill.append (hcolor.append hlabel))
  simp only [List.append_assoc] at hall
  simp only [front, hquote, List.append_assoc]
  exact hall

theorem not_mem_numbers {c : Char} (hc : c ∈ ['=', '<', '>', '&', 'c']) :
    c ∉ d.entropy.replaceChar ' ' Str.between ∧ c ∉ d.samples.replaceChar ' ' Str.between ∧
      c ∉ d.value.replaceChar ' ' Str.between := by
  have hfixed : ∀ c ∈ ['=', '<', '>', '&', 'c'], c ∉ Str.between :=
    List.all_iff_forall_prop.mp (by decide)
  have hbetween := hfixed c hc
  have hnot : ∀ e ∈ d.entropy ++ (d.samples ++ d.value), e ≠ c := by
    rintro e he rfl
    exact (d.numbers_plain e he).2 hc
  simp only [List.forall_mem_append] at hnot
  exact ⟨not_mem_between (fun hm => hnot.1 c hm rfl) hbetween,
    not_mem_between (fun hm => hnot.2.1 c hm rfl) hbetween,
    not_mem_between (fun hm => hnot.2.2 c hm rfl) hbetween⟩

theorem middle_passes_class : Passes "class".toList (middle d) := by
  obtain ⟨hentropy, hsamples, hvalue⟩ := not_mem_numbers d (c := 'c') (by decide)
  refine passes_of_head ?_
  simp only [middle, List.mem_append, not_or]
  exact ⟨hentropy, by decide, hsamples, by decide, hvalue, by decide⟩

theorem middle_passes_end {m : Str} (hm : '>' ∉ m) :
    Passes ">]".toList (middle d ++ ("class', '=', '".toList ++ m)) := by
  obtain ⟨hentropy, hsamples, hvalue⟩ := not_mem_numbers d (c := '>') (by decide)
  have hfixed1 : Passes ">]".toList "<br/>samples', '=', '".toList :=
    passes_of_end (a := "<br/>samples', '=', ".toList) (d := '\'') (by decide) (by decide)
      (by decide)
  have hfixed2 : Passes ">]".toList "<br/>value', '=', '".toList :=
    passes_of_end (a := "<br/>value', '=', ".toList) (d := '\'') (by decide) (by decide) (by decide)
  have hfixed3 : Passes ">]".toList ("<br/>".toList ++ "class', '=', '".toList) :=
    passes_of_end (a := "<br/>class', '=', ".toList) (d := '\'') (by decide) (by decide) (by decide)
  have hpass {a : Str} (ha : '>' ∉ a) : Passes ">]".toList a := passes_of_head ha
  have hall := (hpass hentropy).append (hfixed1.append ((hpass hsamples).append (hfixed2.append
    ((hpass hvalue).append (hfixed3.append (hpass hm))))))
  simp only [List.append_assoc] at hall
  simp only [middle, List.append_assoc]
  exact hall

end Front

section Label

variable (d : Decor) (x : Nat) {lead : Str}

/-- The line of a node as words, from `lead` on what its label begins with. -/
def lineText (lead : Str) (class_ : Nat) : Str :=
  front d x ++ ("=<".toList ++ (lead ++ (middle d ++ ("class', '=', '".toList ++
    (Nat.toDigits 10 class_ ++ ">];']".toList)))))

/-- No `>]` before the end of the label. -/
theorem line_passes_end (hlead : Passes ">]".toList lead) {m : Str} (hm : '>' ∉ m) :
    Passes ">]".toList (front d x ++ ("=<".toList ++ (lead ++ (middle d ++
      ("class', '=', '".toList ++ m))))) := by
  have hfront : Passes ">]".toList (front d x ++ "=<".toList) := passes_of_head (by
    rw [List.mem_append, not_or]
    exact ⟨not_mem_front d x (by decide), by decide⟩)
  have hall := hfront.append (hlead.append (middle_passes_end d hm))
  simp only [List.append_assoc] at hall
  exact hall

/-- Without another `class` before it, the class of the label is found. -/
theorem class_name_line (hclass : Passes "class".toList lead) (hend : Passes ">]".toList lead)
    (class_ : Nat) : className (lineText d x lead class_) = Nat.toDigits 10 class_ := by
  have hdigits : Str.replaceChar (Nat.toDigits 10 class_) ' ' [] = Nat.toDigits 10 class_ :=
    Str.replace_char_absent (not_mem_digits (by decide) class_) []
  have hpass := (front_passes_class d x).append (hclass.append (middle_passes_class d))
  have hfound := index_of_after (b := "', '".toList ++ ("=', '".toList ++
    (Nat.toDigits 10 class_ ++ ">];']".toList))) hpass
  have hlast := line_passes_end d x hend (m := Nat.toDigits 10 class_)
    (not_mem_digits (by decide) class_)
  have hname := class_name_eq (a := front d x ++ ("=<".toList ++ (lead ++ middle d)))
    (y := "', '".toList) (m := Nat.toDigits 10 class_)
    (by simpa only [List.append_assoc] using hfound) (by decide)
    (by simp only [List.append_assoc]; exact hlast)
  simp only [List.append_assoc] at hname
  exact hname.trans hdigits

/-- With `class` in what the label begins with, the class found is no number. -/
theorem class_name_infix {name rest : Str} (hname : "class".toList <:+: name)
    (hequals : '=' ∉ name) (hrest : '=' ∉ rest)
    (hend : Passes ">]".toList (name ++ (rest ++ "=', '".toList))) (class_ : Nat) :
    Str.toInt? (className (lineText d x (name ++ (rest ++ "=', '".toList)) class_)) = none := by
  obtain ⟨before, after, rfl, hindex⟩ := index_of_infix hname
  have hfound := (front_passes_class d x) ((before ++ ("class".toList ++ after)) ++ (rest ++
    ("=', '".toList ++ ((middle d ++ ("class', '=', '".toList ++ Nat.toDigits 10 class_)) ++
      ">];']".toList))))
  rw [hindex, Option.map_some, ← List.length_append] at hfound
  have hlast := line_passes_end d x hend (m := Nat.toDigits 10 class_)
    (not_mem_digits (by decide) class_)
  have hy : '=' ∉ after ++ rest := by
    rw [List.mem_append, not_or]
    exact ⟨fun hm => hequals (by simp [hm]), hrest⟩
  have hclass := class_name_eq (a := (front d x ++ "=<".toList) ++ before) (y := after ++ rest)
    (m := middle d ++ ("class', '=', '".toList ++ Nat.toDigits 10 class_))
    (by simpa only [List.append_assoc] using hfound) hy
    (by simpa only [List.append_assoc] using hlast)
  simp only [List.append_assoc] at hclass
  simp only [lineText, List.append_assoc]
  rw [hclass]
  have hmem : '<' ∈ Str.replaceChar (middle d ++ ("class', '=', '".toList ++
      Nat.toDigits 10 class_)) ' ' [] :=
    List.mem_flatMap.mpr ⟨'<', by simp [middle], by simp⟩
  exact Str.to_int_none hmem (by decide) (by decide) (by decide) (by decide)

end Label

section Lines

variable {V : Type} (float : Str → Option V) (s : Exporter V)

/-- A line of at least three words, the first of them a number. -/
theorem read_line_words (x : Nat) {y rest : Str} (hy : ' ' ∉ y) {i : Str}
    (hi : i = Nat.toDigits 10 x ++ ' ' :: (y ++ ' ' :: rest)) :
    readLine float s i =
      if y = "->".toList then addFather s x
      else if ¬ 0 < i.find "&le".toList then addLeaf s x (i.splitOn ' ')
      else addSplit float s x (i.splitOn ' ') := by
  have hsplit : i.splitOn ' ' = Nat.toDigits 10 x :: y :: rest.splitOn ' ' := by
    rw [hi, List.splitOn_append_cons_of_beq _ _ (beq_self_eq_true ' '),
      List.splitOn_append_cons_of_beq y rest (beq_self_eq_true ' '),
      List.splitOn_eq_singleton (not_mem_digits (by decide) x), List.splitOn_eq_singleton hy]
    rfl
  cases hrest : rest.splitOn ' ' with
  | nil => exact absurd hrest (List.splitOn_ne_nil ' ' rest)
  | cons z more =>
    rw [hrest] at hsplit
    simp only [readLine, hsplit, List.headD_cons, Str.to_int_decimal]

theorem edge_line (father x : Nat) (rest : Str) :
    readLine float s (edgeLine father x rest) = addFather s father := by
  have hwords : edgeLine father x rest = Nat.toDigits 10 father ++ ' ' :: ("->".toList ++
      ' ' :: (Nat.toDigits 10 x ++ rest)) := rfl
  rw [read_line_words float s father (by decide) hwords, if_pos rfl]

/-- A node's line up to its label. -/
theorem node_line_eq (d : Decor) (x c : Nat) : ∃ rest, ∀ text, nodeLine d x text c =
    Nat.toDigits 10 x ++ (" [fillcolor=\"".toList ++ (d.color ++ ("\", label=<".toList ++
      (text ++ rest)))) :=
  ⟨_, fun _ => rfl⟩

/-- A node's line is not taken for an edge. -/
theorem node_line_words (d : Decor) (x : Nat) (text : Str) (c : Nat) :
    readLine float s (nodeLine d x text c) =
      if ¬ 0 < (nodeLine d x text c).find "&le".toList then
        addLeaf s x ((nodeLine d x text c).splitOn ' ')
      else addSplit float s x ((nodeLine d x text c).splitOn ' ') := by
  obtain ⟨rest, hline⟩ := node_line_eq d x c
  have hwords : nodeLine d x text c = Nat.toDigits 10 x ++ ' ' :: (("[fillcolor=\"".toList ++
      (d.color ++ "\",".toList)) ++ ' ' :: ("label=<".toList ++ (text ++ rest))) := by
    simp [hline]
  have hcolor : ' ' ∉ "[fillcolor=\"".toList ++ (d.color ++ "\",".toList) := by
    simp only [List.mem_append, not_or]
    exact ⟨by decide, not_mem_color d (by decide), by decide⟩
  have hedge : "[fillcolor=\"".toList ++ (d.color ++ "\",".toList) ≠ "->".toList := fun h =>
    absurd (List.cons.inj h).1 (by decide)
  rw [read_line_words float s x hcolor hwords, if_neg hedge]

theorem add_leaf_some (x : Int) {words : List Str} {c : Int}
    (h : Str.toInt? (className (Str.reprList words)) = some c) :
    addLeaf s x words = { s with nodes := s.nodes ++ [⟨none, x, leafName, none, c⟩] } := by
  unfold addLeaf
  rw [h]

theorem shown_name {name : Str} (h : ∀ c ∈ name, NameChar c) : ∀ c ∈ name, Str.Shown c :=
  fun c hc => (h c hc).1

theorem shown_number {num : Str} (h : NumberText num) : ∀ c ∈ num, Str.Shown c := by
  intro c hc
  rcases h.2 c hc with hd | hp
  · exact shown_of_digit hd
  · have hfixed : ∀ c ∈ ['.', '-', '+', 'e'], Str.Shown c :=
      List.all_iff_forall_prop.mp (by decide)
    exact hfixed c hp

/-- A leaf's line appends its tuple, still without a father. -/
theorem leaf_line (d : Decor) (x c : Nat) : readLine float s (nodeLine d x [] c) =
    { s with nodes := s.nodes ++ [⟨none, x, leafName, none, c⟩] } := by
  have habsent : '&' ∉ nodeLine d x [] c := by
    obtain ⟨hentropy, hsamples, hvalue⟩ : '&' ∉ d.entropy ∧ '&' ∉ d.samples ∧ '&' ∉ d.value := by
      have hnot : ∀ e ∈ d.entropy ++ (d.samples ++ d.value), e ≠ '&' := by
        rintro e he rfl
        exact (d.numbers_plain _ he).2 (by decide)
      simp only [List.forall_mem_append] at hnot
      exact ⟨fun h => hnot.1 _ h rfl, fun h => hnot.2.1 _ h rfl, fun h => hnot.2.2 _ h rfl⟩
    simp only [nodeLine, List.mem_append, not_or]
    exact ⟨not_mem_digits (by decide) x, by decide, not_mem_color d (by decide), by decide,
      by decide, by decide, hentropy, by decide, hsamples, by decide, hvalue, by decide,
      not_mem_digits (by decide) c, by decide⟩
  have hnone : indexOf "&le".toList (nodeLine d x [] c) = none := by
    have hpass : Passes "&le".toList (nodeLine d x [] c) := passes_of_head habsent
    have hend := hpass []
    rwa [List.append_nil] at hend
  have hrepr : Str.reprList ((nodeLine d x [] c).splitOn ' ') =
      lineText d x "entropy', '=', '".toList c := repr_line d x (by simp)
  have hname : className (lineText d x "entropy', '=', '".toList c) = Nat.toDigits 10 c :=
    class_name_line d x (passes_of_head (by decide))
      ((passes_of_head (a := "entropy', '=', '".toList) (by decide))) c
  have hclass : Str.toInt? (className (Str.reprList ((nodeLine d x [] c).splitOn ' '))) =
      some (c : Int) := by
    rw [hrepr, hname, Str.to_int_decimal]
  rw [node_line_words, Str.find_none hnone, if_pos (by decide), add_leaf_some s x hclass]

variable {dot : V → Str} {name : Str} {v : V}

theorem shown_test (hname : ∀ c ∈ name, NameChar c) (hnum : NumberText (dot v)) :
    ∀ c ∈ test dot name v, Str.Shown c := by
  simp only [test, List.forall_mem_append]
  refine ⟨shown_name hname, ?_, shown_number hnum, ?_⟩ <;>
  exact List.all_iff_forall_prop.mp (by decide)

/-- What the label of an inner node begins with, as words. -/
def splitLead (name num : Str) : Str :=
  name ++ (("', '&le;', '".toList ++ (num ++ "<br/>entropy', '".toList)) ++ "=', '".toList)

theorem split_line_words (hname : ∀ c ∈ name, NameChar c) (hnum : NumberText (dot v)) (d : Decor)
    (x c : Nat) : Str.reprList ((nodeLine d x (test dot name v) c).splitOn ' ') =
      lineText d x (splitLead name (dot v)) c := by
  have hblank : Str.replaceChar (test dot name v) ' ' Str.between =
      name ++ ("', '&le;', '".toList ++ (dot v ++ "<br/>".toList)) := by
    simp only [test, Str.replace_char_append,
      Str.replace_char_absent (not_mem_name hname (c := ' ') (by decide)),
      Str.replace_char_absent (not_mem_number hnum (c := ' ') (by decide) (by decide))]
    rfl
  rw [repr_line d x (shown_test hname hnum), hblank]
  simp [lineText, splitLead]

theorem split_lead_passes_end {num : Str} (hname : ∀ c ∈ name, NameChar c)
    (hnum : NumberText num) : Passes ">]".toList (splitLead name num) := by
  have hfirst : Passes ">]".toList (name ++ ("', '&le;', '".toList ++ num)) :=
    passes_of_head (by
      simp only [List.mem_append, not_or]
      exact ⟨not_mem_name hname (by decide), by decide,
        not_mem_number hnum (by decide) (by decide)⟩)
  have hfixed : Passes ">]".toList ("<br/>entropy', '=', ".toList ++ ['\'']) :=
    passes_of_end (by decide) (by decide) (by decide)
  have hquote : "<br/>entropy', '".toList ++ "=', '".toList =
      "<br/>entropy', '=', ".toList ++ ['\''] := by decide
  have hall := hfirst.append hfixed
  rw [← hquote] at hall
  simp only [List.append_assoc] at hall
  simp only [splitLead, List.append_assoc]
  exact hall

theorem split_lead_passes_class {num : Str} (hclass : ¬ "class".toList <:+: name)
    (hnum : NumberText num) : Passes "class".toList (splitLead name num) := by
  have hfirst : Passes "class".toList (name ++ ['\'']) :=
    passes_of_end hclass (by decide) (by decide)
  have hrest : Passes "class".toList (", '&le;', '".toList ++ (num ++
      "<br/>entropy', '=', '".toList)) := passes_of_head (by
    simp only [List.mem_append, not_or]
    exact ⟨by decide, not_mem_number hnum (by decide) (by decide), by decide⟩)
  have hall := hfirst.append hrest
  simp only [List.append_assoc] at hall
  simp only [splitLead, List.append_assoc]
  exact hall

theorem split_line_found (hname : ∀ c ∈ name, NameChar c) (d : Decor) (x c : Nat) :
    0 < (nodeLine d x (test dot name v) c).find "&le".toList := by
  have habsent : '&' ∉ Nat.toDigits 10 x ++ (" [fillcolor=\"".toList ++ (d.color ++
      ("\", label=<".toList ++ (name ++ [' '])))) := by
    simp only [List.mem_append, not_or]
    exact ⟨not_mem_digits (by decide) x, by decide, not_mem_color d (by decide), by decide,
      not_mem_name hname (by decide), by decide⟩
  obtain ⟨rest, hrest⟩ := node_line_eq d x c
  have hline : nodeLine d x (test dot name v) c = (Nat.toDigits 10 x ++ (" [fillcolor=\"".toList ++
      (d.color ++ ("\", label=<".toList ++ (name ++ [' ']))))) ++ ("&le".toList ++
      ("; ".toList ++ (dot v ++ ("<br/>".toList ++ rest)))) := by
    simp [hrest, test]
  have hpass : Passes "&le".toList _ := passes_of_head habsent
  have hindex := index_of_after (b := "; ".toList ++ (dot v ++ ("<br/>".toList ++ rest))) hpass
  rw [← hline] at hindex
  rw [Str.find_eq hindex]
  simp only [List.length_append]
  have hfill : " [fillcolor=\"".toList.length = 13 := rfl
  omega

/-- The words of an inner node's test are read off its line. -/
theorem split_test_words (hname : ∀ c ∈ name, NameChar c) {num : Str} (hnum : NumberText num)
    (d : Decor) (x c : Nat) :
    testWords (lineText d x (splitLead name num) c) = [name, "&le;".toList, num] := by
  have hwords := test_words_eq (a := front d x) (b := "entropy', '=', '".toList ++ (middle d ++
    ("class', '=', '".toList ++ (Nat.toDigits 10 c ++ ">];']".toList)))) hname hnum
    (front_passes_open d x) (not_mem_front d x (by decide))
  simp only [List.append_assoc] at hwords
  simp only [lineText, splitLead, List.append_assoc]
  exact hwords

/-- The line of an inner node, whose feature does not name a class. -/
theorem split_line (hname : ∀ c ∈ name, NameChar c) (hclass : ¬ "class".toList <:+: name)
    (hnum : NumberText (dot v)) (hfloat : float (dot v) = some v) (d : Decor) (x c : Nat) :
    readLine float s (nodeLine d x (test dot name v) c) =
      if (x : Int) = 0 ∧ s.begin = false then
        { nodes := s.nodes ++ [⟨some 0, x, name, some v, c⟩], begin := true }
      else { s with nodes := s.nodes ++ [⟨none, x, name, some v, c⟩] } := by
  have hvalue := class_name_line d x (split_lead_passes_class hclass hnum)
    (split_lead_passes_end hname hnum) c
  rw [node_line_words, if_neg (not_not.mpr (split_line_found hname d x c)), addSplit,
    split_line_words hname hnum, split_test_words hname hnum, hvalue, Str.to_int_decimal]
  simp only [List.getElem?_cons_zero, List.getElem?_cons_succ, Option.bind_some, hfloat]

/-- A feature with `class` in its name: the line is dropped. -/
theorem split_line_dropped (hname : ∀ c ∈ name, NameChar c) (hclass : "class".toList <:+: name)
    (hnum : NumberText (dot v)) (d : Decor) (x c : Nat) :
    readLine float s (nodeLine d x (test dot name v) c) = s := by
  have hrest : '=' ∉ "', '&le;', '".toList ++ (dot v ++ "<br/>entropy', '".toList) := by
    simp only [List.mem_append, not_or]
    exact ⟨by decide, not_mem_number hnum (by decide) (by decide), by decide⟩
  have hvalue := class_name_infix d x hclass (not_mem_name hname (by decide)) hrest
    (split_lead_passes_end hname hnum) c
  rw [node_line_words, if_neg (not_not.mpr (split_line_found hname d x c)), addSplit,
    split_line_words hname hnum, splitLead, hvalue]
  split
  · rename_i h
    cases h
  · rfl

end Lines

end ApTelemetry.Newanalysis
