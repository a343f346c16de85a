import ApTelemetry.Lib.Text
import Mathlib.Algebra.Order.Field.Rat
import Mathlib.Tactic.FieldSimp
import Mathlib.Tactic.Ring

namespace ApTelemetry.Lib

/-- An argument of `printf`, as its conversion reads it: `%d`, `%u`, `%s` and `%f`,
which is given as the number of millionths it shows. -/
inductive Arg where
  | d (n : Int)
  | u (n : Nat)
  | s (text : Str)
  | f (millionths : Nat)
  deriving DecidableEq

def intText (n : Int) : Str :=
  if n < 0 then '-' :: Nat.toDigits 10 n.natAbs else Nat.toDigits 10 n.natAbs

/-- The last digits of a number, this many. -/
def lowDigits : Nat → Nat → Str
  | 0, _ => []
  | k + 1, n => lowDigits k (n / 10) ++ [Nat.digitChar (n % 10)]

def Arg.text : Arg → Str
  | d n => intText n
  | u n => Nat.toDigits 10 n
  | s text => text
  | f m => Nat.toDigits 10 (m / 1000000) ++ '.' :: lowDigits 6 m

/-- What `fprintf` writes for a format of conversions with commas between them. -/
def printLine (args : List Arg) : Str := [',', ' '].intercalate (args.map Arg.text) ++ ['\n']

namespace Str

/-- `readlines()`: each line with the line feed that ends it. -/
def readlines : Str → List Str
  | [] => []
  | c :: s =>
    if c = '\n' then [c] :: readlines s
    else match readlines s with
      | [] => [[c]]
      | line :: lines => (c :: line) :: lines

/-- What calls of `fgets` return one after another, each line cut where `room`
characters are read. The number is what room is left. -/
def fgetsAll (room : Nat) : Nat → Str → List Str
  | _, [] => []
  | left, c :: s =>
    if c = '\n' ∨ left ≤ 1 then [c] :: fgetsAll room room s
    else match fgetsAll room (left - 1) s with
      | [] => [[c]]
      | line :: lines => (c :: line) :: lines

/-- `re.split` at each place where two characters stand. -/
def splitPair (c d : Char) : Str → List Str
  | [] => [[]]
  | [x] => [[x]]
  | x :: y :: s =>
    if x = c ∧ y = d then [] :: splitPair c d s
    else (splitPair c d (y :: s)).modifyHead (x :: ·)

/-- `float(s)` without a sign, `none` where it raises. -/
def decimal? (s : Str) : Option ℚ :=
  let whole := s.takeWhile Char.isDigit
  match s.dropWhile Char.isDigit with
  | [] => if whole = [] then none else some (digitsFrom 0 whole)
  | '.' :: part =>
    if part.all Char.isDigit ∧ (whole ≠ [] ∨ part ≠ []) then
      some (digitsFrom 0 whole + digitsFrom 0 part / 10 ^ part.length)
    else none
  | _ => none

/-- `float(s)` taken as exact, for numbers without an exponent. -/
def toFloat? (s : Str) : Option ℚ :=
  match strip s with
  | '-' :: number => (decimal? number).map fun x => -x
  | '+' :: number => decimal? number
  | number => decimal? number

end Str

section Split

variable {a : Str} {c d : Char}

theorem readlines_line (h : '\n' ∉ a) (rest : Str) :
    Str.readlines (a ++ '\n' :: rest) = (a ++ ['\n']) :: Str.readlines rest := by
  induction a with
  | nil => rfl
  | cons x a ih =>
    simp only [List.mem_cons, not_or] at h
    rw [List.cons_append, Str.readlines, if_neg (Ne.symm h.1), ih h.2]
    rfl

theorem readlines_lines {lines : List Str} (h : ∀ a ∈ lines, '\n' ∉ a) :
    Str.readlines (lines.flatMap (· ++ ['\n'])) = lines.map (· ++ ['\n']) := by
  induction lines with
  | nil => rfl
  | cons a lines ih =>
    rw [List.flatMap_cons, List.append_assoc, List.singleton_append,
      readlines_line (h a List.mem_cons_self),
      ih fun b hb => h b (List.mem_cons_of_mem a hb), List.map_cons]

theorem fgets_all_flatten (room left : Nat) (s : Str) :
    (Str.fgetsAll room left s).flatten = s := by
  induction s generalizing left with
  | nil => rfl
  | cons c s ih =>
    rw [Str.fgetsAll]
    split
    · simp [ih]
    · have hrest := ih (left - 1)
      split
      · rename_i heq
        rw [heq] at hrest
        simp [← hrest]
      · rename_i heq
        rw [heq] at hrest
        simpa using hrest

/-- A line that fits is returned as it is. -/
theorem fgets_all_line {room left : Nat} (h : '\n' ∉ a) (hfit : a.length < left) (rest : Str) :
    Str.fgetsAll room left (a ++ '\n' :: rest) =
      (a ++ ['\n']) :: Str.fgetsAll room room rest := by
  induction a generalizing left with
  | nil =>
    rw [List.nil_append, Str.fgetsAll, if_pos (.inl rfl)]
    rfl
  | cons x a ih =>
    simp only [List.mem_cons, not_or] at h
    rw [List.length_cons] at hfit
    have hopen : ¬ (x = '\n' ∨ left ≤ 1) := fun he => he.elim (Ne.symm h.1) (by omega)
    rw [List.cons_append, Str.fgetsAll, if_neg hopen, ih h.2 (by omega)]
    rfl

/-- The next line starts with all the room. -/
theorem fgets_all_append {room left : Nat} (h : '\n' ∉ a) (rest : Str) :
    Str.fgetsAll room left (a ++ '\n' :: rest) =
      Str.fgetsAll room left (a ++ ['\n']) ++ Str.fgetsAll room room rest := by
  induction a generalizing left with
  | nil => simp [Str.fgetsAll]
  | cons x a ih =>
    simp only [List.mem_cons, not_or] at h
    rw [List.cons_append, List.cons_append, Str.fgetsAll, Str.fgetsAll]
    split
    · rw [ih h.2]
      rfl
    · rw [ih h.2]
      have hsome : Str.fgetsAll room (left - 1) (a ++ ['\n']) ≠ [] := by
        intro he
        have hflat := fgets_all_flatten room (left - 1) (a ++ ['\n'])
        simp [he] at hflat
      cases hp : Str.fgetsAll room (left - 1) (a ++ ['\n']) with
      | nil => exact absurd hp hsome
      | cons p ps => rfl

theorem split_pair_absent (h : c ∉ a) : Str.splitPair c d a = [a] := by
  induction a with
  | nil => rfl
  | cons x a ih =>
    simp only [List.mem_cons, not_or] at h
    cases a with
    | nil => rfl
    | cons y a => rw [Str.splitPair, if_neg fun he => h.1 he.1.symm, ih h.2, List.modifyHead_cons]

theorem split_pair_append (h : c ∉ a) (rest : Str) :
    Str.splitPair c d (a ++ c :: d :: rest) = a :: Str.splitPair c d rest := by
  induction a with
  | nil => rw [List.nil_append, Str.splitPair, if_pos ⟨rfl, rfl⟩]
  | cons x a ih =>
    simp only [List.mem_cons, not_or] at h
    obtain ⟨y, s, hs⟩ : ∃ y s, a ++ c :: d :: rest = y :: s := by
      cases a <;> exact ⟨_, _, rfl⟩
    have ih := ih h.2
    rw [hs] at ih
    rw [List.cons_append, hs, Str.splitPair, if_neg fun he => h.1 he.1.symm, ih,
      List.modifyHead_cons]

/-- Splitting takes apart what was joined, where no part has the first character. -/
theorem split_pair_join (parts : List Str) (hne : parts ≠ []) (h : ∀ a ∈ parts, c ∉ a) :
    Str.splitPair c d ([c, d].intercalate parts) = parts := by
  induction parts with
  | nil => exact absurd rfl hne
  | cons a parts ih =>
    have ha := h a List.mem_cons_self
    cases parts with
    | nil => simpa using split_pair_absent ha
    | cons b parts =>
      rw [List.intercalate_cons_cons]
      simp only [List.append_assoc, List.cons_append, List.nil_append]
      rw [split_pair_append ha, ih (by simp) fun b hb => h b (List.mem_cons_of_mem a hb)]

/-- What holds of every character of the parts and the separator holds of what they
are joined to. -/
theorem join_forall {P : Char → Prop} {sep : Str} (hsep : ∀ c ∈ sep, P c) {parts : List Str}
    (h : ∀ a ∈ parts, ∀ c ∈ a, P c) : ∀ c ∈ sep.intercalate parts, P c := by
  induction parts with
  | nil => simp
  | cons a parts ih =>
    cases parts with
    | nil => simpa using h
    | cons b parts =>
      intro c hc
      rw [List.intercalate_cons_cons] at hc
      rcases List.mem_append.mp hc with hc | hc
      · rcases List.mem_append.mp hc with hc | hc
        · exact h a List.mem_cons_self c hc
        · exact hsep c hc
      · exact ih (fun d hd => h d (List.mem_cons_of_mem a hd)) c hc

end Split

section Numbers

theorem low_digits_digit {k n : Nat} : ∀ c ∈ lowDigits k n, c.isDigit = true := by
  induction k generalizing n with
  | zero => simp [lowDigits]
  | succ k ih =>
    intro c hc
    rcases List.mem_append.mp hc with hc | hc
    · exact ih c hc
    · rw [List.mem_singleton.mp hc, Nat.isDigit_digitChar]
      exact decide_eq_true (Nat.mod_lt n (by omega))

theorem low_digits_length (k n : Nat) : (lowDigits k n).length = k := by
  induction k generalizing n with
  | zero => rfl
  | succ k ih => simp [lowDigits, ih]

theorem digits_from_split {ds : List Char} (hd : ∀ c ∈ ds, c.isDigit = true) (n : Nat)
    (rest : List Char) : digitsFrom n (ds ++ rest) = digitsFrom (digitsFrom n ds) rest := by
  induction ds generalizing n with
  | nil => rfl
  | cons d ds ih =>
    rw [List.cons_append, digitsFrom, digitsFrom, if_pos (hd d List.mem_cons_self),
      if_pos (hd d List.mem_cons_self), ih fun c hc => hd c (List.mem_cons_of_mem d hc)]

theorem digits_from_low (k n m : Nat) :
    digitsFrom m (lowDigits k n) = m * 10 ^ k + n % 10 ^ k := by
  induction k generalizing n with
  | zero => simp [lowDigits, digitsFrom, Nat.mod_one]
  | succ k ih =>
    have hlt : n % 10 < 10 := Nat.mod_lt n (by omega)
    have hone : ∀ x, digitsFrom x [Nat.digitChar (n % 10)] = 10 * x + n % 10 := by
      intro x
      have hdigit : (Nat.digitChar (n % 10)).isDigit = true := by
        rw [Nat.isDigit_digitChar]
        exact decide_eq_true hlt
      rw [digitsFrom, if_pos hdigit, digitsFrom]
      exact congrArg (10 * x + ·) (Nat.toNat_digitChar_sub_48_of_lt_ten hlt)
    rw [lowDigits, digits_from_split low_digits_digit, ih, hone, Nat.pow_succ', Nat.mod_mul]
    ring

theorem to_int_int (n : Int) : Str.toInt? (intText n) = some n := by
  unfold intText
  split
  · rename_i hneg
    have hspace : ∀ c ∈ '-' :: Nat.toDigits 10 n.natAbs, isspace c = false := by
      intro c hc
      rcases List.mem_cons.mp hc with rfl | hc
      · decide
      · exact (digit_plain (to_digits_digit c hc)).1
    rw [Str.toInt?, Str.strip_eq hspace]
    simp only [Str.to_nat_decimal]
    change some (-(n.natAbs : Int)) = some n
    rw [Option.some.injEq]
    omega
  · rename_i hpos
    rw [Str.to_int_decimal, Option.some.injEq]
    omega

/-- The text of a number with decimals is read as the number it shows. -/
theorem to_float_text (m : Nat) : Str.toFloat? (Arg.f m).text = some (m / 1000000 : ℚ) := by
  have hdot : ∀ c : Char, c.isDigit = true ∨ c = '.' → isspace c = false ∧ c ≠ '-' ∧ c ≠ '+' := by
    rintro c (hc | rfl)
    · exact digit_plain hc
    · decide
  have hchars : ∀ c ∈ (Arg.f m).text, c.isDigit = true ∨ c = '.' := by
    intro c hc
    rcases List.mem_append.mp hc with hc | hc
    · exact .inl (to_digits_digit c hc)
    · exact (List.mem_cons.mp hc).symm.imp_left (low_digits_digit c)
  have hdecimal : Str.decimal? (Arg.f m).text = some (m / 1000000 : ℚ) := by
    have htake : (Arg.f m).text.takeWhile Char.isDigit = Nat.toDigits 10 (m / 1000000) := by
      rw [Arg.text, List.takeWhile_append_of_pos to_digits_digit,
        List.takeWhile_cons_of_neg (by decide), List.append_nil]
    have hdrop : (Arg.f m).text.dropWhile Char.isDigit = '.' :: lowDigits 6 m := by
      rw [Arg.text, List.dropWhile_append_of_pos to_digits_digit,
        List.dropWhile_cons_of_neg (by decide)]
    rw [Str.decimal?, htake, hdrop]
    simp only [List.all_eq_true.mpr low_digits_digit, Nat.toDigits_ne_nil, ne_eq,
      not_false_eq_true, true_or, and_self, if_true, digits_from_decimal, digits_from_low,
      low_digits_length, Option.some.injEq]
    have hsum : (m : ℚ) = (m / 1000000 : Nat) * 1000000 + (m % 1000000 : Nat) := by
      exact_mod_cast (Nat.div_add_mod' m 1000000).symm
    rw [hsum]
    norm_num
    field_simp
  rw [Str.toFloat?, Str.strip_eq fun c hc => (hdot c (hchars c hc)).1]
  split
  · rename_i heq
    exact absurd rfl (hdot '-' (hchars '-' (heq ▸ List.mem_cons_self))).2.1
  · rename_i heq
    exact absurd rfl (hdot '+' (hchars '+' (heq ▸ List.mem_cons_self))).2.2
  · exact hdecimal

end Numbers

end ApTelemetry.Lib
