import Mathlib.Algebra.Group.Int.Defs
import Mathlib.Algebra.GroupWithZero.Nat
import Mathlib.Data.List.Basic

namespace ApTelemetry.Lib

/-- The tokens a loop around `strtok_r` meets: what stands between separators,
where that is not empty. -/
def tokens (sep : Char) (s : List Char) : List (List Char) :=
  (s.splitOn sep).filter fun token => token ≠ []

def isspace (c : Char) : Bool := c = ' ' ∨ '\t' ≤ c ∧ c ≤ '\r'

/-- The number the leading digits make, read on from `n`. -/
def digitsFrom (n : Nat) : List Char → Nat
  | [] => n
  | c :: rest => if c.isDigit then digitsFrom (10 * n + (c.toNat - '0'.toNat)) rest else n

/-- `strtol` in base ten, without the limits of `long`. -/
def strtol (s : List Char) : Int :=
  match s.dropWhile isspace with
  | '-' :: rest => -(digitsFrom 0 rest : Int)
  | '+' :: rest => digitsFrom 0 rest
  | rest => digitsFrom 0 rest

/-- `(int) strtol (s, NULL, 10)`, with a `long` of 64 bits. -/
def atoi (s : List Char) : Int :=
  (max (-2 ^ 63) (min (2 ^ 63 - 1) (strtol s))).bmod (2 ^ 32)

theorem tokens_single {sep : Char} {a : List Char} (ha : sep ∉ a) :
    tokens sep a = [a].filter fun token => token ≠ [] := by
  rw [tokens, List.splitOn_eq_singleton ha]

theorem token_kept {a : List Char} (h : a ≠ []) :
    ([a].filter fun token => token ≠ []) = [a] := by
  simp [h]

/-- What stands before a separator is a token, unless it is empty. -/
theorem tokens_append {sep : Char} {a : List Char} (ha : sep ∉ a) (b : List Char) :
    tokens sep (a ++ sep :: b) = ([a].filter fun token => token ≠ []) ++ tokens sep b := by
  rw [tokens, List.splitOn_append_cons_of_beq a b (beq_self_eq_true sep),
    List.splitOn_eq_singleton ha, List.filter_append]
  rfl

/-- Parts with the separator between them are the tokens again. -/
theorem tokens_intercalate {sep : Char} {parts : List (List Char)}
    (h : ∀ a ∈ parts, a ≠ [] ∧ sep ∉ a) : tokens sep ([sep].intercalate parts) = parts := by
  induction parts with
  | nil => rfl
  | cons a parts ih =>
    obtain ⟨⟨hne, ha⟩, hrest⟩ := List.forall_mem_cons.mp h
    cases parts with
    | nil => rw [List.intercalate_singleton, tokens_single ha, token_kept hne]
    | cons b parts =>
      rw [List.intercalate_cons_cons, List.append_assoc, List.singleton_append, tokens_append ha,
        token_kept hne, ih hrest, List.singleton_append]

/-- A digit is neither a blank nor a sign. -/
theorem digit_plain {d : Char} (h : d.isDigit = true) :
    isspace d = false ∧ d ≠ '-' ∧ d ≠ '+' := by
  refine ⟨?_, ?_, ?_⟩
  · simp only [Char.isDigit, Bool.and_eq_true, decide_eq_true_eq] at h
    have hlow : 48 ≤ d.toNat := h.1
    rw [isspace, decide_eq_false_iff_not]
    rintro (rfl | ⟨_, hcr⟩)
    · exact absurd hlow (by decide)
    · have hhigh : d.toNat ≤ 13 := hcr
      omega
  · rintro rfl
    exact absurd h (by decide)
  · rintro rfl
    exact absurd h (by decide)

theorem to_digits_digit {n : Nat} : ∀ c ∈ Nat.toDigits 10 n, c.isDigit = true := fun _ hc =>
  Nat.isDigit_of_mem_toDigits (by omega) (by omega) hc

/-- A number that fits an `int` is not cut. -/
theorem atoi_eq {s : List Char} {n : Int} (h : strtol s = n) (hlow : -2 ^ 31 ≤ n)
    (hhigh : n < 2 ^ 31) : atoi s = n := by
  have hcut : max (-2 ^ 63 : Int) (min (2 ^ 63 - 1) n) = n := by omega
  rw [atoi, h, hcut]
  exact Int.bmod_eq_of_le (by omega) (by omega)

section Digits

/-- A text that does not go on with a digit. -/
def NoDigit (rest : List Char) : Prop := ∀ c, rest.head? = some c → c.isDigit = false

theorem no_digit_nil : NoDigit [] := by simp [NoDigit]

variable {rest : List Char} (hrest : NoDigit rest)

include hrest

theorem digits_from_append {ds : List Char} (hd : ∀ c ∈ ds, c.isDigit = true) (n : Nat) :
    digitsFrom n (ds ++ rest) = Nat.ofDigitChars 10 ds n := by
  induction ds generalizing n with
  | nil =>
    cases rest with
    | nil => rfl
    | cons c rest => simp [digitsFrom, hrest c rfl]
  | cons d ds ih =>
    rw [List.cons_append, digitsFrom, if_pos (hd d List.mem_cons_self),
      ih fun c hc => hd c (List.mem_cons_of_mem d hc), Nat.ofDigitChars_cons]

theorem digits_from_text (n : Nat) : digitsFrom 0 (Nat.toDigits 10 n ++ rest) = n := by
  rw [digits_from_append hrest to_digits_digit, Nat.ofDigitChars_ten_toDigits]

theorem strtol_decimal (n : Nat) : strtol (Nat.toDigits 10 n ++ rest) = n := by
  have hvalue := digits_from_text hrest n
  cases hn : Nat.toDigits 10 n with
  | nil => exact absurd hn Nat.toDigits_ne_nil
  | cons d ds =>
    have hdigit : d.isDigit = true := to_digits_digit d (hn ▸ List.mem_cons_self)
    rw [hn] at hvalue
    obtain ⟨hspace, hminus, hplus⟩ := digit_plain hdigit
    rw [strtol, List.cons_append, List.dropWhile_cons_of_neg (by simp [hspace])]
    split
    · rename_i heq
      exact absurd (List.cons.inj heq).1 hminus
    · rename_i heq
      exact absurd (List.cons.inj heq).1 hplus
    · exact congrArg Nat.cast hvalue

theorem strtol_negative (n : Nat) : strtol ('-' :: (Nat.toDigits 10 n ++ rest)) = -n := by
  rw [strtol, List.dropWhile_cons_of_neg (by decide)]
  simp only [digits_from_text hrest]

theorem atoi_decimal {n : Nat} (hn : n < 2 ^ 31) : atoi (Nat.toDigits 10 n ++ rest) = n :=
  atoi_eq (strtol_decimal hrest n) (by omega) (by omega)

end Digits

theorem digits_from_decimal (n : Nat) : digitsFrom 0 (Nat.toDigits 10 n) = n := by
  have hvalue := digits_from_text no_digit_nil n
  rwa [List.append_nil] at hvalue

end ApTelemetry.Lib
