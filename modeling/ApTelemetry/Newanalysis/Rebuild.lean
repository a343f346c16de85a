import Mathlib.Data.List.Perm.Subperm
import ApTelemetry.Newanalysis.Entries

namespace ApTelemetry.Newanalysis
open Lib Createtree

/-- From a part that is not empty on, every part has its separator. -/
theorem joined_cons (sep : Char) {part : Str} (h : part ≠ []) (parts : List Str) :
    joined sep (part :: parts) = part ++ parts.flatMap fun p => sep :: p := by
  rw [joined, List.foldl_cons, if_pos rfl]
  induction parts generalizing part with
  | nil => simp
  | cons next parts ih =>
    have hnext : part ++ sep :: next ≠ [] := by simp
    rw [List.foldl_cons, if_neg h, ih hnext, List.flatMap_cons, List.append_assoc,
      List.cons_append]

section Record

variable {V : Type} (F : FloatText V)

/-- A tuple with a father whose numbers fit and whose name has no separator. -/
structure Plain (e : Entry V) : Prop where
  father : ∃ f : Nat, e.father = some (f : Int) ∧ f < 2 ^ 31
  x : ∃ x : Nat, e.x = x ∧ x < 2 ^ 31
  name : ∀ c ∈ e.name, NameChar c
  class_ : ∃ c : Nat, e.class_ = c ∧ c < 2 ^ 31

/-- The record that says the same as a tuple. -/
def Entry.record (zero : V) (e : Entry V) : Rawdata V :=
  ⟨e.father.getD 0, e.x, some e.name, e.value.getD zero, e.class_⟩

/-- What is read of a tuple's text: an empty name is skipped. The father is read
where `fathered` holds. -/
structure Recorded (fathered : Prop) (e : Entry V) (r : Rawdata V) : Prop where
  itself : r.itself = e.x
  name : r.name ≠ some []
  all : fathered → e.name ≠ [] → r = e.record F.zero

def valueText (e : Entry V) : Str :=
  match e.value with
  | none => ['0']
  | some v => F.str v

theorem value_text_number (e : Entry V) : NumberText (valueText F e) := by
  unfold valueText
  split
  · exact ⟨by simp, List.all_iff_forall_prop.mp (by decide)⟩
  · exact F.str_number _

theorem atof_value_text (e : Entry V) : F.atof (valueText F e) = e.value.getD F.zero := by
  unfold valueText
  split
  · rename_i h
    rw [F.atof_zero, h, Option.getD_none]
  · rename_i v h
    rw [F.atof_str, h, Option.getD_some]

theorem parse_record_five {p a b n d e : Str} (h : tokens ',' p = [a, b, n, d, e]) :
    parseRecord F.atof F.zero p = ⟨atoi a, atoi b, some n, F.atof d, atoi e⟩ := by
  rw [parseRecord, h]
  rfl

theorem parse_record_four {p a b d e : Str} (h : tokens ',' p = [a, b, d, e]) :
    parseRecord F.atof F.zero p = ⟨atoi a, atoi b, some d, F.atof e, 0⟩ := by
  rw [parseRecord, h]
  rfl

theorem fields_joined {e : Entry V} {f x c : Nat} (hf : e.father = some (f : Int)) (hx : e.x = x)
    (hc : e.class_ = c) : joined ',' (e.fields F.str) =
      Nat.toDigits 10 f ++ ',' :: (Nat.toDigits 10 x ++ ',' :: (e.name ++ ',' ::
        (valueText F e ++ ',' :: Nat.toDigits 10 c))) := by
  have hfields : e.fields F.str = Nat.toDigits 10 f :: [Nat.toDigits 10 x, e.name, valueText F e,
      Nat.toDigits 10 c] := by
    rw [Entry.fields, hf, hx, hc]
    rfl
  rw [hfields, joined_cons ',' Nat.toDigits_ne_nil]
  simp

/-- The text of a tuple, with what may stand before and behind it. -/
theorem record_text {fathered : Prop} {e : Entry V} (he : Plain e) {before behind : Str}
    (hbefore : ',' ∉ before)
    (hatoi : fathered → e.father = some (atoi (before ++ strInt (e.father.getD 0))))
    (hbehind : ',' ∉ behind) (hdigit : NoDigit behind) :
    Recorded F fathered e
      (parseRecord F.atof F.zero (before ++ (joined ',' (e.fields F.str) ++ behind))) := by
  obtain ⟨f, hf, hflt⟩ := he.father
  obtain ⟨x, hx, hxlt⟩ := he.x
  obtain ⟨c, hc, hclt⟩ := he.class_
  rw [hf, Option.getD_some, Option.some_inj] at hatoi
  have hvalue := value_text_number F e
  have hcomma : ',' ∉ before ++ Nat.toDigits 10 f := by
    rw [List.mem_append, not_or]
    exact ⟨hbefore, not_mem_digits (by decide) f⟩
  have hclass : ',' ∉ Nat.toDigits 10 c ++ behind := by
    rw [List.mem_append, not_or]
    exact ⟨not_mem_digits (by decide) c, hbehind⟩
  have hnot (n : Nat) : Nat.toDigits 10 n ≠ [] := Nat.toDigits_ne_nil
  have htokens : tokens ',' (before ++ (joined ',' (e.fields F.str) ++ behind)) =
      (before ++ Nat.toDigits 10 f) :: Nat.toDigits 10 x ::
        (([e.name].filter fun token => token ≠ []) ++
          [valueText F e, Nat.toDigits 10 c ++ behind]) := by
    have htext : before ++ (joined ',' (e.fields F.str) ++ behind) =
        (before ++ Nat.toDigits 10 f) ++ ',' :: (Nat.toDigits 10 x ++ ',' ::
          (e.name ++ ',' :: (valueText F e ++ ',' :: (Nat.toDigits 10 c ++ behind)))) := by
      rw [fields_joined F hf hx hc]
      simp
    rw [htext, tokens_append hcomma, tokens_append (not_mem_digits (by decide) x),
      tokens_append (not_mem_name he.name (by decide)),
      tokens_append (not_mem_number hvalue (by decide) (by decide)), tokens_single hclass]
    simp [hnot, hvalue.1]
  have hitself : atoi (Nat.toDigits 10 x) = x := by
    have hplain := atoi_decimal no_digit_nil hxlt
    rwa [List.append_nil] at hplain
  by_cases hname : e.name = []
  · have hfour : tokens ',' (before ++ (joined ',' (e.fields F.str) ++ behind)) =
        [before ++ Nat.toDigits 10 f, Nat.toDigits 10 x, valueText F e,
          Nat.toDigits 10 c ++ behind] := by
      rw [htokens, hname]
      rfl
    rw [parse_record_four F hfour]
    exact ⟨hitself.trans hx.symm, fun h => hvalue.1 (Option.some.inj h),
      fun _ h => absurd hname h⟩
  · have hfive : tokens ',' (before ++ (joined ',' (e.fields F.str) ++ behind)) =
        [before ++ Nat.toDigits 10 f, Nat.toDigits 10 x, e.name, valueText F e,
          Nat.toDigits 10 c ++ behind] := by
      rw [htokens]
      simp [hname]
    rw [parse_record_five F hfive]
    refine ⟨hitself.trans hx.symm, fun h => hname (Option.some.inj h), ?_⟩
    intro hfathered _
    have hfather : atoi (before ++ Nat.toDigits 10 f) = f := (hatoi hfathered).symm
    rw [hfather, hitself, atof_value_text, atoi_decimal hdigit hclt, Entry.record, hf, hx, hc,
      Option.getD_some]

theorem text_plain {e : Entry V} (he : Plain e) : '|' ∉ joined ',' (e.fields F.str) := by
  obtain ⟨f, hf, _⟩ := he.father
  obtain ⟨x, hx, _⟩ := he.x
  obtain ⟨c, hc, _⟩ := he.class_
  have hdigits (n : Nat) : '|' ∉ Nat.toDigits 10 n := not_mem_digits (by decide) n
  have hcomma : '|' ≠ ',' := by decide
  rw [fields_joined F hf hx hc]
  simp only [List.mem_append, List.mem_cons, not_or]
  exact ⟨hdigits f, hcomma, hdigits x, hcomma, not_mem_name he.name (by decide), hcomma,
    not_mem_number (value_text_number F e) (by decide) (by decide), hcomma, hdigits c⟩

theorem text_ne_nil {e : Entry V} (he : Plain e) : joined ',' (e.fields F.str) ≠ [] := by
  obtain ⟨f, hf, _⟩ := he.father
  obtain ⟨x, hx, _⟩ := he.x
  obtain ⟨c, hc, _⟩ := he.class_
  rw [fields_joined F hf hx hc]
  simp

theorem atoi_father {e : Entry V} (he : Plain e) :
    e.father = some (atoi ([] ++ strInt (e.father.getD 0))) := by
  obtain ⟨f, hf, hflt⟩ := he.father
  have hplain := atoi_decimal no_digit_nil hflt
  rw [List.append_nil] at hplain
  rw [hf, Option.getD_some]
  exact congrArg some hplain.symm

/-- Every tuple of a text becomes its record. The first one stands behind
`before`, the last one before `behind`. -/
theorem parse_texts {fathered : Prop} {behind : Str} (hcomma : ',' ∉ behind) (hbar : '|' ∉ behind)
    (hdigit : NoDigit behind) (es : List (Entry V)) (e : Entry V) (before : Str)
    (he : ∀ q ∈ e :: es, Plain q) (hbefore : ',' ∉ before ∧ '|' ∉ before)
    (hatoi : fathered → e.father = some (atoi (before ++ strInt (e.father.getD 0)))) :
    List.Forall₂ (Recorded F fathered) (e :: es) (parseRecords F.atof F.zero (before ++
      (joined ',' (e.fields F.str) ++ ((es.flatMap fun q => '|' :: joined ',' (q.fields F.str)) ++
        behind)))) := by
  induction es generalizing e before with
  | nil =>
    have hplain := he e List.mem_cons_self
    have htoken : '|' ∉ before ++ (joined ',' (e.fields F.str) ++ behind) := by
      simp only [List.mem_append, not_or]
      exact ⟨hbefore.2, text_plain F hplain, hbar⟩
    have hne : before ++ (joined ',' (e.fields F.str) ++ behind) ≠ [] := by
      simp [text_ne_nil F hplain]
    rw [List.flatMap_nil, List.nil_append, parseRecords, tokens_single htoken,
      token_kept hne, List.map_singleton]
    exact .cons (record_text F hplain hbefore.1 hatoi hcomma hdigit) .nil
  | cons next es ih =>
    have hplain := he e List.mem_cons_self
    have hrest : ∀ q ∈ next :: es, Plain q := fun q hq => he q (List.mem_cons_of_mem e hq)
    have htoken : '|' ∉ before ++ joined ',' (e.fields F.str) := by
      rw [List.mem_append, not_or]
      exact ⟨hbefore.2, text_plain F hplain⟩
    have hne : before ++ joined ',' (e.fields F.str) ≠ [] := by
      simp [text_ne_nil F hplain]
    have htext : before ++ (joined ',' (e.fields F.str) ++ (((next :: es).flatMap fun q =>
        '|' :: joined ',' (q.fields F.str)) ++ behind)) = (before ++ joined ',' (e.fields F.str)) ++
        '|' :: ([] ++ (joined ',' (next.fields F.str) ++ ((es.flatMap fun q =>
          '|' :: joined ',' (q.fields F.str)) ++ behind))) := by
      simp
    have hown := record_text F hplain hbefore.1 hatoi List.not_mem_nil no_digit_nil
    rw [List.append_nil] at hown
    rw [htext, parseRecords, tokens_append htoken, token_kept hne, List.singleton_append,
      List.map_cons]
    exact .cons hown (ih next [] hrest ⟨by simp, by simp⟩ fun _ =>
      atoi_father (hrest next List.mem_cons_self))

/-- What the program makes of a message. The father of the first tuple has to be
node 0, as it stands behind the prefix. -/
theorem parse_sent {e : Entry V} {es : List (Entry V)} (he : ∀ q ∈ e :: es, Plain q) :
    List.Forall₂ (Recorded F (e.father = some 0)) (e :: es)
      (parseRecords F.atof F.zero (stringtosend F.str (e :: es))) := by
  have hatoi (hzero : e.father = some 0) :
      e.father = some (atoi ("AAAA8B".toList ++ strInt (e.father.getD 0))) := by
    rw [hzero]
    rfl
  have hbehind : NoDigit ";.".toList := by
    intro c hc
    obtain rfl : ';' = c := Option.some.inj hc
    decide
  have hall := parse_texts F (by decide) (by decide) hbehind es e
    "AAAA8B".toList he (by decide) hatoi
  have htext := text_ne_nil F (he e List.mem_cons_self)
  unfold stringtosend
  rw [List.map_cons, joined_cons '|' htext, List.flatMap_map, List.append_assoc]
  exact hall

end Record

section Tree

variable {V : Type} (F : FloatText V)

theorem entries_plain (father : Nat) (hfather : father < 2 ^ 31) (t : Classifier V)
    (hids : ∀ i ∈ t.ids, i < 2 ^ 31) (hclasses : ∀ c ∈ t.classes, c < 2 ^ 31)
    (hnames : ∀ n ∈ t.names, ∀ c ∈ n, NameChar c) : ∀ e ∈ entries father t, Plain e := by
  induction t generalizing father with
  | leaf x c =>
    intro e he
    obtain rfl := List.mem_singleton.mp he
    have hleaf : ∀ c ∈ leafName, NameChar c := List.all_iff_forall_prop.mp (by decide)
    exact ⟨⟨father, rfl, hfather⟩, ⟨x, rfl, hids x List.mem_cons_self⟩, hleaf,
      ⟨c, rfl, hclasses c List.mem_cons_self⟩⟩
  | split x n v c l r hl hr =>
    simp only [Classifier.ids, List.forall_mem_cons, List.forall_mem_append] at hids
    simp only [Classifier.classes, List.forall_mem_cons, List.forall_mem_append] at hclasses
    simp only [Classifier.names, List.forall_mem_cons, List.forall_mem_append] at hnames
    intro e he
    rw [entries, List.mem_append, List.mem_append] at he
    rcases he with he | he | he
    · obtain rfl := mem_split_entries he
      exact ⟨⟨father, rfl, hfather⟩, ⟨x, rfl, hids.1⟩, hnames.1, ⟨c, rfl, hclasses.1⟩⟩
    · exact hl x hids.1 hids.2.1 hclasses.2.1 hnames.2.1 e he
    · exact hr x hids.1 hids.2.2 hclasses.2.2 hnames.2.2 e he

theorem entries_records (zero : V) (father : Int) (t : Classifier V)
    (h : ∀ n ∈ t.names, ¬ "class".toList <:+: n) :
    (entries father t).map (Entry.record zero) = t.records zero father := by
  induction t generalizing father with
  | leaf x c => rfl
  | split x n v c l r hl hr =>
    simp only [Classifier.names, List.forall_mem_cons, List.forall_mem_append] at h
    rw [entries, split_entries_kept h.1, List.map_append, List.map_append, hl x h.2.1,
      hr x h.2.2]
    rfl

theorem entries_length_le (father : Int) (t : Classifier V) :
    (entries father t).length ≤ t.ids.length := by
  induction t generalizing father with
  | leaf x c => rfl
  | split x n v c l r hl hr =>
    have hown : (splitEntries (V := V) father x n v c).length ≤ 1 := by
      by_cases hclass : "class".toList <:+: n
      · simp [split_entries_dropped hclass]
      · simp [split_entries_kept hclass]
    have hleft := hl x
    have hright := hr x
    simp only [entries, Classifier.ids, List.length_append, List.length_cons]
    omega

/-- Where a tuple stands for every node, no feature was named after a class. -/
theorem entries_length_eq (father : Int) (t : Classifier V)
    (h : t.ids.length ≤ (entries father t).length) :
    ∀ n ∈ t.names, ¬ "class".toList <:+: n := by
  induction t generalizing father with
  | leaf x c => simp [Classifier.names]
  | split x n v c l r hl hr =>
    have hleft := entries_length_le x l
    have hright := entries_length_le x r
    simp only [Classifier.names, List.forall_mem_cons, List.forall_mem_append]
    simp only [entries, Classifier.ids, List.length_append, List.length_cons] at h
    by_cases hclass : "class".toList <:+: n
    · rw [split_entries_dropped hclass, List.length_nil] at h
      omega
    · rw [split_entries_kept hclass, List.length_singleton] at h
      exact ⟨hclass, hl x (by omega), hr x (by omega)⟩

theorem entries_ne_nil (father : Int) (t : Classifier V) : entries father t ≠ [] := by
  induction t generalizing father with
  | leaf x c => simp [entries]
  | split x n v c l r hl hr => simp [entries, hl x]

theorem recorded_mem {fathered : Prop} {es : List (Entry V)} {rs : List (Rawdata V)}
    (h : List.Forall₂ (Recorded F fathered) es rs) {r : Rawdata V} (hr : r ∈ rs) :
    ∃ e ∈ es, Recorded F fathered e r := by
  induction h with
  | nil => cases hr
  | cons hone _ ih =>
    rcases List.mem_cons.mp hr with rfl | hr
    · exact ⟨_, List.mem_cons_self, hone⟩
    · obtain ⟨e, he, hrecorded⟩ := ih hr
      exact ⟨e, List.mem_cons_of_mem _ he, hrecorded⟩

theorem records_of_named {fathered : Prop} (hfathered : fathered) {es : List (Entry V)}
    {rs : List (Rawdata V)} (h : List.Forall₂ (Recorded F fathered) es rs)
    (hnames : ∀ e ∈ es, e.name ≠ []) : rs = es.map (Entry.record F.zero) := by
  induction h with
  | nil => rfl
  | cons hr _ ih =>
    rw [List.forall_mem_cons] at hnames
    rw [List.map_cons, ← ih hnames.2, hr.all hfathered hnames.1]

theorem entries_name (father : Int) (t : Classifier V) (h : ∀ n ∈ t.names, n ≠ []) :
    ∀ e ∈ entries father t, e.name ≠ [] := by
  induction t generalizing father with
  | leaf x c => simp [entries, leafName]
  | split x n v c l r hl hr =>
    simp only [Classifier.names, List.forall_mem_cons, List.forall_mem_append] at h
    intro e he
    rw [entries, List.mem_append, List.mem_append] at he
    rcases he with he | he | he
    · rw [mem_split_entries he]
      exact h.1
    · exact hl x h.2.1 e he
    · exact hr x h.2.2 e he

/-- The message of a single leaf has no father in front, and its fields are read
one place too early. -/
theorem parse_lone_leaf (c : Nat) : parseRecords F.atof F.zero
    (stringtosend F.str [⟨none, 0, leafName, none, c⟩]) =
      [⟨0, 0, some ['0'], F.atof (Nat.toDigits 10 c ++ ";.".toList), 0⟩] := by
  have htext : stringtosend F.str [⟨none, 0, leafName, none, c⟩] = "AAAA8B0".toList ++ ',' ::
      ("leaf".toList ++ ',' :: (['0'] ++ ',' :: (Nat.toDigits 10 c ++ ";.".toList))) := by
    unfold stringtosend
    simp [joined, Entry.fields, strInt, leafName]
  have hdigits {e : Char} (h : e.isDigit = false) (he : e ∉ ";.".toList) :
      e ∉ Nat.toDigits 10 c ++ ";.".toList := by
    rw [List.mem_append, not_or]
    exact ⟨not_mem_digits h c, he⟩
  have hbar : '|' ∉ stringtosend F.str [⟨none, 0, leafName, none, c⟩] := by
    rw [htext]
    simp only [List.mem_append, List.mem_cons, not_or]
    simpa using hdigits (e := '|') (by decide) (by decide)
  have hne : stringtosend F.str [⟨none, 0, leafName, none, c⟩] ≠ [] := by
    rw [htext]
    simp
  have hfour : tokens ',' (stringtosend F.str [⟨none, 0, leafName, none, c⟩]) =
      ["AAAA8B0".toList, "leaf".toList, ['0'], Nat.toDigits 10 c ++ ";.".toList] := by
    rw [htext, tokens_append (by decide), tokens_append (by decide), tokens_append (by decide),
      tokens_single (hdigits (by decide) (by decide)),
      token_kept (a := "AAAA8B0".toList) (by decide)]
    simp
  rw [parseRecords, tokens_single hbar, token_kept hne, List.map_singleton,
    parse_record_four F hfour]
  rfl

/-- Rebuilding fails for a single leaf. -/
theorem lone_leaf_lost (x c : Nat) :
    createTree [(⟨0, 0, some ['0'], F.atof (Nat.toDigits 10 c ++ ";.".toList), 0⟩ : Rawdata V)] ≠
      .ok ((Classifier.leaf x c : Classifier V).linked F.zero) := by
  intro h
  obtain ⟨_, hnames, _⟩ := create_tree_made_of _ _ h
  obtain ⟨r, hr, hname⟩ := hnames Createtree.leaf List.mem_cons_self
  rw [List.mem_singleton.mp hr] at hname
  cases hname

end Tree

section Exchange

variable {V : Type} (F : FloatText V) (g : Drawing) (T : Fitted V)

/-- A tree read back has a record for each of its nodes, and each of its features
is named by one. -/
theorem kept_of_read {e : Entry V} {es : List (Entry V)} (he : ∀ q ∈ e :: es, Plain q)
    (hentries : e :: es = entries 0 T.tree)
    (h : createTree (parseRecords F.atof F.zero (stringtosend F.str (e :: es))) =
      .ok (T.tree.linked F.zero)) :
    ∀ n ∈ T.tree.names, n ≠ [] ∧ n ≠ Createtree.leaf ∧ ¬ "class".toList <:+: n := by
  have hrecords := parse_sent F he
  obtain ⟨hids, hnames, hend⟩ := create_tree_made_of _ _ h
  have hitself : T.tree.ids.map ((↑) : Nat → Int) ⊆ (e :: es).map Entry.x := by
    intro i hi
    obtain ⟨k, hk, rfl⟩ := List.mem_map.mp hi
    obtain ⟨r, hr, hri⟩ := hids k (T.tree.linked_ids F.zero k hk)
    obtain ⟨q, hq, hqr⟩ := recorded_mem F hrecords hr
    exact List.mem_map.mpr ⟨q, hq, hqr.itself.symm.trans hri⟩
  have hlength : T.tree.ids.length ≤ (entries 0 T.tree).length := by
    have hnodup : (T.tree.ids.map ((↑) : Nat → Int)).Nodup :=
      T.distinct.map fun _ _ => Int.ofNat_inj.mp
    have hle := (List.subperm_of_subset hnodup hitself).length_le
    rwa [List.length_map, List.length_map, hentries] at hle
  intro n hn
  refine ⟨?_, T.tree.leaves_end_names F.zero hend n hn, entries_length_eq 0 T.tree hlength n hn⟩
  intro hempty
  obtain ⟨r, hr, hrn⟩ := hnames n (T.tree.linked_names F.zero n hn)
  obtain ⟨q, hq, hqr⟩ := recorded_mem F hrecords hr
  exact hqr.name (hempty ▸ hrn)

end Exchange

section SingleLeaf

def oneDecimal (n : Nat) : Str := Nat.toDigits 10 n ++ ".0".toList

theorem one_decimal_number (n : Nat) : NumberText (oneDecimal n) := by
  refine ⟨by simp [oneDecimal], ?_⟩
  intro c hc
  rcases List.mem_append.mp hc with h | h
  · exact Or.inl (to_digits_digit c h)
  · have hpoint : ∀ c ∈ ".0".toList, c.isDigit = true ∨ c ∈ ['.', '-', '+', 'e'] :=
      List.all_iff_forall_prop.mp (by decide)
    exact hpoint c h

theorem digits_from_one_decimal (n : Nat) : digitsFrom 0 (oneDecimal n) = n := by
  have hpoint : NoDigit ".0".toList := by
    intro c hc
    obtain rfl : '.' = c := Option.some.inj hc
    decide
  rw [oneDecimal, digits_from_text hpoint]

/-- Whole numbers, written with one decimal. -/
def wholeText : FloatText Nat where
  zero := 0
  dot := oneDecimal
  float s := some (digitsFrom 0 s)
  str := oneDecimal
  atof := digitsFrom 0
  dot_number := one_decimal_number
  str_number := one_decimal_number
  float_dot n := congrArg some (digits_from_one_decimal n)
  atof_str := digits_from_one_decimal
  atof_zero := rfl

def sketch : Drawing where
  before := ["digraph Tree \x7b".toList, "node [shape=box, style=\"filled, rounded\"] ;".toList]
  after := ["\x7d".toList, []]
  decor _ :=
    { color := "#ffffff".toList
      entropy := "0.0".toList
      samples := "8000".toList
      value := "[8000, 0]".toList
      color_plain := List.all_iff_forall_prop.mp (by decide)
      numbers_plain := List.all_iff_forall_prop.mp (by decide) }
  edge _ := " ;".toList
  around_plain := List.all_iff_forall_prop.mp (by decide)
  edge_plain _ := by decide

def singleLeaf : Fitted Nat where
  tree := .leaf 0 1
  root := rfl
  distinct := by decide
  ids_lt := by decide
  classes_lt := by decide
  names_plain := by simp [Classifier.names]

end SingleLeaf

end ApTelemetry.Newanalysis
