import Mathlib.Data.Bool.AllAny
import Mathlib.Data.List.Infix
import Mathlib.Data.List.TakeWhile
import ApTelemetry.Lib.Scan

namespace ApTelemetry.Lib

/-- Where a text first occurs in another. -/
def indexOf (sub : List Char) : List Char → Option Nat
  | [] => if sub = [] then some 0 else none
  | c :: s => if sub.isPrefixOf (c :: s) then some 0 else (indexOf sub s).map (· + 1)

/-- The strings of Python, as far as they are text. -/
abbrev Str := List Char

namespace Str

/-- An index, which counts from the end when it is negative, cut to the string. -/
def position (s : Str) (i : Int) : Nat :=
  if i < 0 then (s.length + i).toNat else min i.toNat s.length

/-- `s.find(sub, start)`. -/
def findFrom (s sub : Str) (start : Int) : Int :=
  match indexOf sub (s.drop (position s start)) with
  | some k => position s start + k
  | none => -1

/-- `s.find(sub)`. -/
def find (s sub : Str) : Int := findFrom s sub 0

/-- `s[i:j]`. -/
def slice (s : Str) (i j : Int) : Str := (s.take (position s j)).drop (position s i)

/-- `s.replace(c, text)` for a single character. -/
def replaceChar (s : Str) (c : Char) (text : Str) : Str :=
  s.flatMap fun d => if d = c then text else [d]

/-- `s.replace("  ", " ")`. -/
def replaceSpaces : Str → Str
  | [] => []
  | [c] => [c]
  | c :: d :: rest =>
    if c = ' ' ∧ d = ' ' then ' ' :: replaceSpaces rest else c :: replaceSpaces (d :: rest)

def strip (s : Str) : Str := ((s.dropWhile isspace).reverse.dropWhile isspace).reverse

def toNat? (s : Str) : Option Nat :=
  if s ≠ [] ∧ s.all Char.isDigit then some (digitsFrom 0 s) else none

/-- `int(s)`, `none` where it raises. -/
def toInt? (s : Str) : Option Int :=
  match strip s with
  | '-' :: digits => (toNat? digits).map fun n => -(n : Int)
  | '+' :: digits => (toNat? digits).map fun n => (n : Int)
  | digits => (toNat? digits).map fun n => (n : Int)

def reprChar (quote c : Char) : Str :=
  if c = quote ∨ c = '\\' then ['\\', c]
  else if c = '\n' then ['\\', 'n']
  else if c = '\t' then ['\\', 't']
  else if c = '\r' then ['\\', 'r']
  else if 32 ≤ c.toNat ∧ c.toNat < 127 then [c]
  else ['\\', 'x', Nat.digitChar (c.toNat / 16), Nat.digitChar (c.toNat % 16)]

def repr (s : Str) : Str :=
  let quote := if '\'' ∈ s ∧ '"' ∉ s then '"' else '\''
  quote :: (s.flatMap (reprChar quote) ++ [quote])

/-- `str` of a list of strings. -/
def reprList (xs : List Str) : Str := '[' :: ([',', ' '].intercalate (xs.map repr) ++ [']'])

end Str

section Find

variable {sub a b : List Char}

theorem index_of_here : indexOf sub (sub ++ b) = some 0 := by
  cases h : sub ++ b with
  | nil =>
    rw [indexOf, if_pos (List.append_eq_nil_iff.mp h).1]
  | cons c s =>
    rw [indexOf, if_pos]
    exact List.isPrefixOf_iff_prefix.mpr (h ▸ List.prefix_append sub b)

theorem index_of_skip_one {c : Char} {s : List Char} (h : ¬ sub <+: c :: s) :
    indexOf sub (c :: s) = (indexOf sub s).map (· + 1) := by
  rw [indexOf, if_neg (mt List.isPrefixOf_iff_prefix.mp h)]

/-- The text sought does not start inside a part, whatever stands behind it. -/
def Passes (sub a : List Char) : Prop :=
  ∀ b, indexOf sub (a ++ b) = (indexOf sub b).map (a.length + ·)

theorem Passes.append (ha : Passes sub a) (hb : Passes sub b) : Passes sub (a ++ b) := by
  intro rest
  rw [List.append_assoc, ha, hb, Option.map_map, List.length_append]
  congr 1
  funext k
  exact (Nat.add_assoc a.length b.length k).symm

theorem Passes.cons {c : Char} (hc : ∀ rest, ¬ sub <+: c :: (a ++ rest)) (ha : Passes sub a) :
    Passes sub (c :: a) := by
  intro rest
  rw [List.cons_append, index_of_skip_one (hc rest), ha, Option.map_map]
  congr 1
  funext k
  simp only [Function.comp_apply, List.length_cons]
  omega

theorem Passes.nil : Passes sub [] := by
  intro rest
  simp

/-- A part without the first character sought. -/
theorem passes_of_head {c : Char} (h : c ∉ a) : Passes (c :: sub) a := by
  induction a with
  | nil => exact Passes.nil
  | cons d a ih =>
    simp only [List.mem_cons, not_or] at h
    exact Passes.cons (fun _ hp => h.1 (List.cons_prefix_cons.mp hp).1) (ih h.2)

/-- A part without the text that ends in a character the text does not have. -/
theorem passes_of_end {d : Char} (h : ¬ sub <:+: a) (hd : d ∉ sub) (hne : sub ≠ []) :
    Passes sub (a ++ [d]) := by
  induction a with
  | nil =>
    cases sub with
    | nil => exact absurd rfl hne
    | cons c sub => exact passes_of_head (by simpa [eq_comm] using fun he => hd (by simp [he]))
  | cons c a ih =>
    refine Passes.cons ?_ (ih fun hi => h (hi.trans (List.suffix_cons c a).isInfix))
    intro rest hp
    rcases Nat.lt_or_ge (a.length + 1) sub.length with hlt | hge
    · -- the text would reach over `d`
      obtain ⟨more, hmore⟩ := hp
      have hget : (sub ++ more)[a.length + 1]? = some d := by
        rw [hmore]
        simp
      rw [List.getElem?_append_left hlt] at hget
      exact hd (List.mem_of_getElem? hget)
    · have hp' : sub <+: (c :: a) ++ ([d] ++ rest) := by simpa using hp
      exact h (List.prefix_of_prefix_length_le hp' (List.prefix_append (c :: a) _) hge).isInfix

theorem index_of_after (ha : Passes sub a) : indexOf sub (a ++ (sub ++ b)) = some a.length := by
  rw [ha, index_of_here]
  rfl

theorem index_of_missing {s : List Char} (h : ¬ sub <:+: s) : indexOf sub s = none := by
  induction s with
  | nil => exact if_neg fun he => h (by rw [he])
  | cons c s ih =>
    have htail : ¬ sub <:+: s := fun hi => h (hi.trans (List.suffix_cons c s).isInfix)
    rw [index_of_skip_one fun hp => h hp.isInfix, ih htail]
    rfl

/-- Where a text occurs in the front part, its first place depends on that part alone. -/
theorem index_of_infix (h : sub <:+: a) : ∃ before after, a = before ++ (sub ++ after) ∧
    ∀ rest, indexOf sub (a ++ rest) = some before.length := by
  induction a with
  | nil =>
    obtain rfl := List.infix_nil.mp h
    exact ⟨[], [], rfl, fun rest => (index_of_here : indexOf [] ([] ++ rest) = some 0)⟩
  | cons c a ih =>
    by_cases hp : sub <+: c :: a
    · obtain ⟨after, hafter⟩ := hp
      refine ⟨[], after, hafter.symm, ?_⟩
      intro rest
      rw [← hafter, List.append_assoc]
      exact index_of_here
    · have hin : sub <:+: a := (List.infix_cons_iff.mp h).resolve_left hp
      obtain ⟨before, after, ha, hindex⟩ := ih hin
      refine ⟨c :: before, after, by rw [ha]; rfl, ?_⟩
      intro rest
      have hnot : ¬ sub <+: c :: (a ++ rest) := fun hp' =>
        hp (List.prefix_of_prefix_length_le hp' (List.prefix_append (c :: a) rest)
          (hin.length_le.trans (Nat.le_succ _)))
      rw [List.cons_append, index_of_skip_one hnot, hindex]
      rfl

/-- The index found is the least one. -/
theorem index_of_some {s : List Char} {k : Nat} (h : indexOf sub s = some k) :
    sub <+: s.drop k ∧ ∀ j < k, ¬ sub <+: s.drop j := by
  induction s generalizing k with
  | nil =>
    rw [indexOf] at h
    split at h
    · rename_i hsub
      cases h
      exact ⟨by rw [hsub]; exact List.nil_prefix, fun j hj => absurd hj (Nat.not_lt_zero j)⟩
    · cases h
  | cons c s ih =>
    by_cases hp : sub <+: c :: s
    · rw [indexOf, if_pos (List.isPrefixOf_iff_prefix.mpr hp)] at h
      cases h
      exact ⟨hp, fun j hj => absurd hj (Nat.not_lt_zero j)⟩
    · rw [index_of_skip_one hp] at h
      obtain ⟨k', hk', rfl⟩ := Option.map_eq_some_iff.mp h
      obtain ⟨hhere, hbefore⟩ := ih hk'
      refine ⟨hhere, ?_⟩
      intro j hj
      cases j with
      | zero => exact hp
      | succ j => exact hbefore j (Nat.lt_of_succ_lt_succ hj)

theorem index_of_none {s : List Char} (h : indexOf sub s = none) : ¬ sub <:+: s := by
  intro hin
  obtain ⟨before, after, hs, hindex⟩ := index_of_infix hin
  have hfound := hindex []
  rw [List.append_nil, h] at hfound
  cases hfound

end Find

namespace Str

variable {s : Str}

theorem find_eq {sub : Str} {k : Nat} (h : indexOf sub s = some k) : find s sub = k := by
  simp [find, findFrom, position, h]

theorem find_none {sub : Str} (h : indexOf sub s = none) : find s sub = -1 := by
  simp [find, findFrom, position, h]

theorem position_nat (s : Str) (k : Nat) : position s k = min k s.length := by
  rw [position, if_neg (by omega), Int.toNat_natCast]

theorem find_from_append {sub a b : Str} {k : Nat} (h : indexOf sub b = some k) :
    findFrom (a ++ b) sub a.length = a.length + k := by
  have hpos : position (a ++ b) a.length = a.length := by
    rw [position_nat, Nat.min_eq_left (by simp)]
  rw [findFrom, hpos, List.drop_left, h]

theorem slice_append (a m b : Str) :
    slice (a ++ (m ++ b)) a.length ((a ++ m).length : Nat) = m := by
  rw [slice, position_nat, position_nat, Nat.min_eq_left (by simp), Nat.min_eq_left (by simp),
    ← List.append_assoc, List.take_left, List.drop_left]

theorem replace_char_append (a b : Str) (c : Char) (text : Str) :
    replaceChar (a ++ b) c text = replaceChar a c text ++ replaceChar b c text :=
  List.flatMap_append

theorem replace_char_absent {c : Char} (h : c ∉ s) (text : Str) : replaceChar s c text = s := by
  have hone : ∀ d ∈ s, (if d = c then text else [d]) = [d] := fun d hd =>
    if_neg fun he : d = c => h (he ▸ hd)
  rw [replaceChar, List.flatMap_congr hone]
  simp

theorem replace_char_between {a b : Str} {c : Char} (ha : c ∉ a) (hb : c ∉ b) (m text : Str) :
    replaceChar (a ++ (m ++ b)) c text = a ++ (replaceChar m c text ++ b) := by
  rw [replace_char_append, replace_char_append, replace_char_absent ha, replace_char_absent hb]

theorem replace_spaces_absent (h : ' ' ∉ s) : replaceSpaces s = s := by
  induction s using replaceSpaces.induct with
  | case1 => rfl
  | case2 c => rfl
  | case3 c d rest hspaces => exact absurd (hspaces.1 ▸ List.mem_cons_self) h
  | case4 c d rest hspaces ih =>
    rw [replaceSpaces, if_neg hspaces, ih fun hm => h (List.mem_cons_of_mem c hm)]

theorem replace_spaces_append {a b : Str} (h : ' ' ∉ a) :
    replaceSpaces (a ++ ' ' :: ' ' :: b) = a ++ ' ' :: replaceSpaces b := by
  induction a with
  | nil => rw [List.nil_append, replaceSpaces, if_pos ⟨rfl, rfl⟩, List.nil_append]
  | cons c a ih =>
    simp only [List.mem_cons, not_or] at h
    have hrest := ih h.2
    cases a with
    | nil =>
      rw [List.cons_append, List.nil_append, replaceSpaces, if_neg fun hsp => h.1 hsp.1.symm]
      rw [List.nil_append] at hrest
      rw [hrest]
      rfl
    | cons d a =>
      rw [List.cons_append, List.cons_append, replaceSpaces, if_neg fun hsp => h.1 hsp.1.symm,
        ← List.cons_append, hrest]
      rfl

theorem strip_eq (h : ∀ c ∈ s, isspace c = false) : strip s = s := by
  have hdrop : ∀ t : Str, (∀ c ∈ t, isspace c = false) → t.dropWhile isspace = t := by
    intro t ht
    cases t with
    | nil => rfl
    | cons c t => exact List.dropWhile_cons_of_neg (by simp [ht c List.mem_cons_self])
  rw [strip, hdrop s h, hdrop _ fun c hc => h c (List.mem_reverse.mp hc), List.reverse_reverse]

theorem to_nat_decimal (n : Nat) : toNat? (Nat.toDigits 10 n) = some n := by
  have hdigits := List.all_eq_true.mpr (to_digits_digit (n := n))
  rw [toNat?, if_pos ⟨Nat.toDigits_ne_nil, hdigits⟩, digits_from_decimal]

theorem to_int_decimal (n : Nat) : toInt? (Nat.toDigits 10 n) = some (n : Int) := by
  have hdigits := to_digits_digit (n := n)
  rw [toInt?, strip_eq fun c hc => (digit_plain (hdigits c hc)).1]
  split
  · rename_i heq
    exact absurd (hdigits '-' (heq ▸ List.mem_cons_self)) (by decide)
  · rename_i heq
    exact absurd (hdigits '+' (heq ▸ List.mem_cons_self)) (by decide)
  · rw [to_nat_decimal]
    rfl

/-- A text with a character that is no digit, sign or blank is no number. -/
theorem to_int_none {c : Char} (hc : c ∈ s) (hdigit : c.isDigit = false)
    (hspace : isspace c = false) (hminus : c ≠ '-') (hplus : c ≠ '+') : toInt? s = none := by
  have hkept : c ∈ strip s := by
    have hdrop : ∀ t : Str, c ∈ t → c ∈ t.dropWhile isspace := by
      intro t ht
      rw [← List.takeWhile_append_dropWhile (p := isspace) (l := t)] at ht
      rcases List.mem_append.mp ht with htake | hrest
      · exact absurd (List.mem_takeWhile_imp htake) (by simp [hspace])
      · exact hrest
    exact List.mem_reverse.mpr (hdrop _ (List.mem_reverse.mpr (hdrop s hc)))
  have hnone : ∀ t : Str, c ∈ t → toNat? t = none := fun t ht =>
    if_neg fun hall => by simp [List.all_eq_true.mp hall.2 c ht] at hdigit
  unfold toInt?
  split
  · rename_i heq
    rw [heq] at hkept
    rw [hnone _ ((List.mem_cons.mp hkept).resolve_left hminus)]
    rfl
  · rename_i heq
    rw [heq] at hkept
    rw [hnone _ ((List.mem_cons.mp hkept).resolve_left hplus)]
    rfl
  · rw [hnone _ hkept]
    rfl

/-- A character that stands for itself between quotes. -/
def Shown (c : Char) : Prop := c ≠ '\'' ∧ c ≠ '\\' ∧ 32 ≤ c.toNat ∧ c.toNat < 127

instance : DecidablePred Shown := fun c =>
  inferInstanceAs (Decidable (c ≠ '\'' ∧ c ≠ '\\' ∧ 32 ≤ c.toNat ∧ c.toNat < 127))

theorem repr_shown (h : ∀ c ∈ s, Shown c) : repr s = '\'' :: (s ++ ['\'']) := by
  have hquote : '\'' ∉ s := fun hm => (h _ hm).1 rfl
  have hchars : s.flatMap (reprChar '\'') = s := by
    have hone : ∀ c ∈ s, reprChar '\'' c = [c] := by
      intro c hc
      obtain ⟨hq, hb, hlow, hhigh⟩ := h c hc
      have hn : c ≠ '\n' := by rintro rfl; exact absurd hlow (by decide)
      have ht : c ≠ '\t' := by rintro rfl; exact absurd hlow (by decide)
      have hr : c ≠ '\r' := by rintro rfl; exact absurd hlow (by decide)
      simp [reprChar, hq, hb, hn, ht, hr, hlow, hhigh]
    rw [List.flatMap_congr hone]
    simp
  simp only [repr, hquote, false_and, if_false, hchars]

theorem mem_split {x : Str} {c : Char} (hx : x ∈ s.splitOn ' ') (hc : c ∈ x) : c ∈ s := by
  induction s generalizing x with
  | nil =>
    rw [List.splitOn_nil, List.mem_singleton] at hx
    simp [hx] at hc
  | cons d s ih =>
    rw [List.splitOn_cons_eq_if_modifyHead] at hx
    split at hx
    · rcases List.mem_cons.mp hx with rfl | hx
      · simp at hc
      · exact List.mem_cons_of_mem d (ih hx hc)
    · cases hs : s.splitOn ' ' with
      | nil => exact absurd hs (List.splitOn_ne_nil ' ' s)
      | cons y ys =>
        rw [hs, List.modifyHead_cons] at hx
        rcases List.mem_cons.mp hx with rfl | hx
        · rcases List.mem_cons.mp hc with rfl | hc
          · exact List.mem_cons_self
          · exact List.mem_cons_of_mem d (ih (hs ▸ List.mem_cons_self) hc)
        · exact List.mem_cons_of_mem d (ih (hs ▸ List.mem_cons_of_mem y hx) hc)

/-- What stands for a blank in the text of the list of words. -/
def between : Str := ['\'', ',', ' ', '\'']

theorem quoted_split (s : Str) :
    [',', ' '].intercalate ((s.splitOn ' ').map fun x => '\'' :: (x ++ ['\''])) =
      '\'' :: (s.replaceChar ' ' between ++ ['\'']) := by
  induction s with
  | nil => simp [replaceChar]
  | cons d s ih =>
    rw [List.splitOn_cons_eq_if_modifyHead]
    cases hs : s.splitOn ' ' with
    | nil => exact absurd hs (List.splitOn_ne_nil ' ' s)
    | cons y ys =>
      rw [hs] at ih
      by_cases hd : d = ' '
      · subst hd
        have hcons := congrArg (fun t => '\'' :: '\'' :: ',' :: ' ' :: t) ih
        simpa [replaceChar, between, List.intercalate] using hcons
      · have hcons := congrArg (fun t => '\'' :: d :: t.tail) ih
        cases ys <;> simpa [replaceChar, hd, List.intercalate] using hcons

/-- The text of the list of words of a line. -/
theorem repr_list_split (h : ∀ c ∈ s, Shown c) :
    reprList (s.splitOn ' ') = ['[', '\''] ++ (s.replaceChar ' ' between ++ ['\'', ']']) := by
  have hwords : (s.splitOn ' ').map repr = (s.splitOn ' ').map fun x => '\'' :: (x ++ ['\'']) :=
    List.map_congr_left fun x hx => repr_shown fun c hc => h c (mem_split hx hc)
  rw [reprList, hwords, quoted_split]
  simp

end Str

end ApTelemetry.Lib
