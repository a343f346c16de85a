import ApTelemetry.Lib.Scan
import ApTelemetry.Newanalysis.Dot
import ApTelemetry.Ofproto.MainLinger

namespace ApTelemetry.Ofproto
open Lib ApTelemetry.Tree Controller

abbrev Token := Option (List Char)

/-- The array `p` and the counter `in` that both `strtok_r` loops write. An entry
is `none` where the array holds NULL or nothing yet. -/
structure Tokens where
  p : List Token
  count : Nat

/-- `p[in] = token`. -/
def Tokens.assign (s : Tokens) (token : Token) : Except Fault Tokens := do
  let p ← save s.p s.count token
  .ok { s with p }

/-- A turn of the inner loop. -/
def Tokens.push (s : Tokens) (token : List Char) : Except Fault Tokens := do
  let s ← s.assign (some token)
  .ok { s with count := s.count + 1 }

/-- A turn of the outer loop. The inner one ends by assigning NULL. -/
def Tokens.cut (s : Tokens) (item : List Char) : Except Fault Tokens := do
  let s ← s.assign (some item)
  let s ← (tokens ',' item).foldlM Tokens.push s
  s.assign none

def Tokens.read (buffer : List Char) : Except Fault Tokens := do
  let s ← (tokens ';' buffer).foldlM Tokens.cut ⟨List.replicate 40 none, 0⟩
  s.assign none

/-- The text at `p[j]`. -/
def Tokens.text (s : Tokens) (j : Nat) : Except Fault (List Char) := do
  match ← load s.p j with
  | none => .error .null
  | some text => .ok text

/-- `items_list` and `index` while the texts are read. -/
structure Filling (V : Type) where
  itemsList : List (ItemValue V)
  index : Nat

section Fill

variable {V : Type}

def Filling.update (s : Filling V) (f : ItemValue V → ItemValue V) : Except Fault (Filling V) := do
  let item ← load s.itemsList s.index
  let itemsList ← save s.itemsList s.index (f item)
  .ok { s with itemsList }

variable (atof : List Char → V) (t : Tokens)

/-- The loop over the texts from `j` on, and whether it left through `outrage`. The
first argument counts the turns left. -/
def Filling.fill : Nat → Nat → Filling V → Except Fault (Filling V × Bool)
  | 0, _, s => .ok (s, false)
  | left + 1, j, s => do
    let text ← t.text j
    if j % 2 = 0 then
      let s ← s.update fun item => { item with name := atoi text }
      fill left (j + 1) s
    else
      let s ← s.update fun item => { item with value := atof text }
      if s.index ≥ 100 then .ok (s, true)
      else fill left (j + 1) { s with index := s.index + 1 }

variable (ops : FloatOps V)

/-- `create_items`: its result, and what it leaves in `items_list` and in the globals
that `destroy_everything` clears. -/
def createItems (buffer : List Char) (g : Globals V) (itemsList : List (ItemValue V)) :
    Except Fault (Int × List (ItemValue V) × Globals V) := do
  let t ← Tokens.read buffer
  let (s, outrage) ← Filling.fill atof t t.count 0 ⟨itemsList, 0⟩
  if outrage then
    let itemsList ← blit s.itemsList 0 (List.replicate 31 ⟨0, ops.cast 0⟩)
    let g ← destroyEverything g
    .ok (-1, itemsList, g)
  else .ok (0, s.itemsList, g)

end Fill

/-- A text that the tokenisers leave in one piece. -/
def OnePiece (text : List Char) : Prop := text ≠ [] ∧ ',' ∉ text ∧ ';' ∉ text

/-- How names and values are printed, and values read back. -/
structure ItemText (V : Type) where
  name : Int → List Char
  value : V → List Char
  atof : List Char → V
  name_piece : ∀ n, OnePiece (name n)
  value_piece : ∀ v, OnePiece (value v)
  atoi_name : ∀ n, -2 ^ 31 ≤ n → n < 2 ^ 31 → atoi (name n) = n
  atof_value : ∀ v, atof (value v) = v

section Printed

variable {V : Type} (F : ItemText V)

def ItemText.pair (q : ItemValue V) : List Char := F.name q.name ++ ',' :: F.value q.value

/-- The text `n1,v1;n2,v2;...`. -/
def ItemText.print (pairs : List (ItemValue V)) : List Char := [';'].intercalate (pairs.map F.pair)

/-- `create_items` stores the pairs that were printed, in front of the entries of
`items_list` that it leaves alone. -/
def ReadsBack (ops : FloatOps V) (pairs : List (ItemValue V)) : Prop :=
  ∀ (g : Globals V) (itemsList : List (ItemValue V)), itemsList.length = 100 →
    createItems F.atof ops (F.print pairs) g itemsList =
      .ok (0, pairs ++ itemsList.drop pairs.length, g)

end Printed

/-- The texts assigned and counted so far. -/
structure Tokens.Holds (s : Tokens) (texts : List (List Char)) : Prop where
  count : s.count = texts.length
  length : s.p.length = 40
  texts : s.p.take texts.length = texts.map some

namespace Tokens.Holds

variable {s : Tokens} {texts : List (List Char)}

theorem assign (h : s.Holds texts) (hroom : texts.length < 40) (token : Token) :
    ∃ s', s.assign token = .ok s' ∧ s'.Holds texts ∧ s'.p[texts.length]? = some token := by
  have hslot : s.count < s.p.length := by
    rw [h.count, h.length]
    exact hroom
  refine ⟨{ s with p := s.p.set s.count token }, ?_, ⟨h.count, ?_, ?_⟩, ?_⟩
  · simp only [Tokens.assign, save_lt hslot, bind, Except.bind]
  · rw [List.length_set, h.length]
  · rw [List.take_set_of_le (Nat.le_of_eq h.count.symm), h.texts]
  · rw [← h.count, List.getElem?_set_self hslot]

theorem assign_full (h : s.Holds texts) (hfull : texts.length = 40) (token : Token) :
    s.assign token = .error .outside := by
  have hslot : ¬ s.count < s.p.length := by
    rw [h.count, h.length, hfull]
    exact Nat.lt_irrefl 40
  simp only [Tokens.assign, save, if_neg hslot, bind, Except.bind]

theorem push (h : s.Holds texts) (hroom : texts.length < 40) (token : List Char) :
    ∃ s', s.push token = .ok s' ∧ s'.Holds (texts ++ [token]) := by
  obtain ⟨s', hrun, hs', htoken⟩ := h.assign hroom (some token)
  refine ⟨{ s' with count := s'.count + 1 }, ?_, ⟨?_, hs'.length, ?_⟩⟩
  · simp only [Tokens.push, hrun, bind, Except.bind]
  · rw [List.length_append, List.length_singleton, hs'.count]
  · rw [List.length_append, List.length_singleton, List.take_add_one, hs'.texts, htoken,
      List.map_append]
    rfl

theorem start : Tokens.Holds ⟨List.replicate 40 none, 0⟩ [] := ⟨rfl, List.length_replicate, rfl⟩

theorem push_full (h : s.Holds texts) (hfull : texts.length = 40) (token : List Char) :
    s.push token = .error .outside := by
  rw [Tokens.push, h.assign_full hfull]
  rfl

theorem text (h : s.Holds texts) {j : Nat} {text : List Char} (hj : texts[j]? = some text) :
    s.text j = .ok text := by
  have hlt := (List.getElem?_eq_some_iff.mp hj).1
  have hslot : s.p[j]? = some (some text) := by
    rw [← List.getElem?_take_of_lt hlt, h.texts, List.getElem?_map, hj, Option.map_some]
  simp only [Tokens.text, load_ok_iff.mpr hslot, bind, Except.bind]

end Tokens.Holds

section Read

variable {V : Type} (F : ItemText V)

theorem print_tokens (pairs : List (ItemValue V)) :
    tokens ';' (F.print pairs) = pairs.map F.pair := by
  refine tokens_intercalate ?_
  intro text htext
  obtain ⟨q, -, rfl⟩ := List.mem_map.mp htext
  obtain ⟨-, -, hname⟩ := F.name_piece q.name
  obtain ⟨-, -, hvalue⟩ := F.value_piece q.value
  refine ⟨?_, ?_⟩
  · simp [ItemText.pair]
  · simp [ItemText.pair, hname, hvalue]

theorem pair_tokens (q : ItemValue V) :
    tokens ',' (F.pair q) = [F.name q.name, F.value q.value] := by
  obtain ⟨hname, hcomma, -⟩ := F.name_piece q.name
  obtain ⟨hvalue, hlast, -⟩ := F.value_piece q.value
  rw [ItemText.pair, tokens_append hcomma, token_kept hname, tokens_single hlast,
    token_kept hvalue, List.singleton_append]

/-- The texts of the pairs, one after the other. -/
def ItemText.texts (pairs : List (ItemValue V)) : List (List Char) :=
  pairs.flatMap fun q => [F.name q.name, F.value q.value]

variable {s : Tokens} {texts : List (List Char)}

theorem cut_room (h : s.Holds texts) (hroom : texts.length + 2 < 40) (q : ItemValue V) :
    ∃ s', s.cut (F.pair q) = .ok s' ∧
      s'.Holds (texts ++ [F.name q.name, F.value q.value]) := by
  obtain ⟨s₁, hitem, h₁, -⟩ := h.assign (by omega) (some (F.pair q))
  obtain ⟨s₂, hname, h₂⟩ := h₁.push (by omega) (F.name q.name)
  obtain ⟨s₃, hvalue, h₃⟩ := h₂.push (by simp; omega) (F.value q.value)
  obtain ⟨s₄, hend, h₄, -⟩ := h₃.assign (by simp; omega) none
  refine ⟨s₄, ?_, ?_⟩
  · simp only [Tokens.cut, hitem, pair_tokens, List.foldlM_cons, List.foldlM_nil, hname, hvalue,
      hend, bind, pure, Except.bind, Except.pure]
  · simpa using h₄

/-- A pair that does not fit leaves the array at the latest with its NULL. -/
theorem cut_full (h : s.Holds texts) (hlt : texts.length < 40) (hfull : 40 ≤ texts.length + 2)
    (q : ItemValue V) : s.cut (F.pair q) = .error .outside := by
  obtain ⟨s₁, hitem, h₁, -⟩ := h.assign hlt (some (F.pair q))
  obtain ⟨s₂, hname, h₂⟩ := h₁.push hlt (F.name q.name)
  simp only [Tokens.cut, pair_tokens, List.foldlM_cons, List.foldlM_nil, hitem, hname, bind,
    Except.bind]
  by_cases hvalue : texts.length + 1 < 40
  · obtain ⟨s₃, hrun, h₃⟩ := h₂.push (by simp; omega) (F.value q.value)
    have hnull := h₃.assign_full (by simp; omega) none
    simp only [hrun, hnull, pure, Except.pure]
  · have hrun := h₂.push_full (by simp; omega) (F.value q.value)
    simp only [hrun]

theorem cuts_room (pairs : List (ItemValue V)) (h : s.Holds texts)
    (hroom : texts.length + 2 * pairs.length < 40) :
    ∃ s', (pairs.map F.pair).foldlM Tokens.cut s = .ok s' ∧ s'.Holds (texts ++ F.texts pairs) := by
  induction pairs generalizing s texts with
  | nil => exact ⟨s, rfl, by simpa [ItemText.texts] using h⟩
  | cons q pairs ih =>
    rw [List.length_cons] at hroom
    obtain ⟨s₁, hcut, h₁⟩ := cut_room F h (by omega) q
    obtain ⟨s₂, hrest, h₂⟩ := ih h₁ (by simp; omega)
    refine ⟨s₂, ?_, ?_⟩
    · simp only [List.map_cons, List.foldlM_cons, hcut, hrest, bind, Except.bind]
    · simpa [ItemText.texts] using h₂

theorem cuts_full (pairs : List (ItemValue V)) (h : s.Holds texts) (hlt : texts.length < 40)
    (hfull : 40 ≤ texts.length + 2 * pairs.length) :
    (pairs.map F.pair).foldlM Tokens.cut s = .error .outside := by
  induction pairs generalizing s texts with
  | nil =>
    rw [List.length_nil] at hfull
    omega
  | cons q pairs ih =>
    rw [List.length_cons] at hfull
    rw [List.map_cons, List.foldlM_cons]
    by_cases hroom : texts.length + 2 < 40
    · obtain ⟨s₁, hcut, h₁⟩ := cut_room F h hroom q
      rw [hcut]
      exact ih h₁ (by simp; omega) (by simp; omega)
    · rw [cut_full F h hlt (by omega)]
      rfl

theorem texts_length (pairs : List (ItemValue V)) : (F.texts pairs).length = 2 * pairs.length := by
  induction pairs with
  | nil => rfl
  | cons q pairs ih =>
    rw [ItemText.texts, List.flatMap_cons, List.length_append]
    change 2 + (F.texts pairs).length = _
    rw [ih, List.length_cons]
    omega

/-- All texts are cut out exactly if the array has an entry for the NULL behind them. -/
theorem read_room {pairs : List (ItemValue V)} (h : pairs.length ≤ 19) :
    ∃ t, Tokens.read (F.print pairs) = .ok t ∧ t.Holds (F.texts pairs) := by
  obtain ⟨s, hcuts, hs⟩ := cuts_room F pairs .start (by simp; omega)
  rw [List.nil_append] at hs
  obtain ⟨t, hnull, ht, -⟩ := hs.assign (by rw [texts_length]; omega) none
  refine ⟨t, ?_, ht⟩
  simp only [Tokens.read, print_tokens, hcuts, hnull, bind, Except.bind]

theorem read_full {pairs : List (ItemValue V)} (h : 20 ≤ pairs.length) :
    Tokens.read (F.print pairs) = .error .outside := by
  have hcuts := cuts_full F pairs .start (by simp) (by simp; omega)
  simp only [Tokens.read, print_tokens, hcuts, bind, Except.bind]

end Read

section Stored

variable {V : Type} (F : ItemText V)

theorem texts_at {pairs : List (ItemValue V)} {k : Nat} {q : ItemValue V}
    (h : pairs[k]? = some q) : (F.texts pairs)[2 * k]? = some (F.name q.name) ∧
      (F.texts pairs)[2 * k + 1]? = some (F.value q.value) := by
  induction pairs generalizing k with
  | nil => cases h
  | cons r pairs ih =>
    cases k with
    | zero =>
      obtain rfl := Option.some.inj h
      exact ⟨rfl, rfl⟩
    | succ k => exact ih h

theorem update_at (pre post : List (ItemValue V)) (item : ItemValue V)
    (f : ItemValue V → ItemValue V) : Filling.update ⟨pre ++ item :: post, pre.length⟩ f =
      .ok ⟨pre ++ f item :: post, pre.length⟩ := by
  have hitem : (pre ++ item :: post)[pre.length]? = some item := by simp
  have hslot : pre.length < (pre ++ item :: post).length := by simp
  simp only [Filling.update, load_ok_iff.mpr hitem, save_lt hslot, bind, Except.bind]
  rw [List.set_append_right _ _ (Nat.le_refl _), Nat.sub_self, List.set_cons_zero]

variable {t : Tokens} {done rest : List (ItemValue V)}

/-- The turns for the pairs that are left, from the entry the first of them gets. -/
theorem fill_pairs (ht : t.Holds (F.texts (done ++ rest)))
    (hfits : ∀ q ∈ rest, -2 ^ 31 ≤ q.name ∧ q.name < 2 ^ 31) (before : List (ItemValue V))
    (hroom : rest.length ≤ before.length) (hbound : done.length + rest.length ≤ 100) :
    Filling.fill F.atof t (2 * rest.length) (2 * done.length) ⟨done ++ before, done.length⟩ =
      .ok (⟨done ++ rest ++ before.drop rest.length, done.length + rest.length⟩, false) := by
  induction rest generalizing done before with
  | nil => simp [Filling.fill]
  | cons q rest ih =>
    obtain ⟨⟨hlow, hhigh⟩, hfits⟩ := List.forall_mem_cons.mp hfits
    cases before with
    | nil => exact absurd hroom (Nat.not_succ_le_zero _)
    | cons item before =>
      have hq : (done ++ q :: rest)[done.length]? = some q := by simp
      obtain ⟨hname, hvalue⟩ := texts_at F hq
      have heven : 2 * done.length % 2 = 0 := by omega
      have hodd : (2 * done.length + 1) % 2 ≠ 0 := by omega
      rw [List.length_cons] at hbound
      rw [List.length_cons, List.length_cons] at hroom
      have hindex : ¬ done.length ≥ 100 := by omega
      have hleft : 2 * (q :: rest).length = 2 * rest.length + 1 + 1 := by
        rw [List.length_cons]
        omega
      have hnext : (done ++ [q]).length = done.length + 1 := by simp
      have hall : done ++ q :: rest = done ++ [q] ++ rest := by simp
      have hrun := ih (hall ▸ ht) hfits before (by omega) (by rw [hnext]; omega)
      rw [hnext, Nat.mul_add, List.append_assoc done, List.singleton_append] at hrun
      simp only [hleft, Filling.fill, ht.text hname, ht.text hvalue, if_pos heven, if_neg hodd,
        if_neg hindex, update_at, F.atoi_name q.name hlow hhigh, F.atof_value, bind, Except.bind]
      rw [hrun, hall, List.length_cons, List.drop_succ_cons, Nat.add_assoc, Nat.add_comm 1]

/-- Printed pairs are read back exactly if there are at most 19. -/
theorem reads_back_iff (ops : FloatOps V) {pairs : List (ItemValue V)}
    (hfits : ∀ q ∈ pairs, -2 ^ 31 ≤ q.name ∧ q.name < 2 ^ 31) :
    ReadsBack F ops pairs ↔ pairs.length ≤ 19 := by
  constructor
  · intro h
    by_contra hlong
    have hrun := h ⟨∅, none, .null, false⟩ (List.replicate 100 ⟨-1, ops.cast 0⟩)
      List.length_replicate
    rw [createItems, read_full F (by omega)] at hrun
    cases hrun
  · intro h g itemsList hlength
    obtain ⟨t, hread, ht⟩ := read_room F h
    have hfill := fill_pairs F (show t.Holds (F.texts ([] ++ pairs)) from ht) hfits itemsList
      (by omega) (by simp; omega)
    have hcount : t.count = 2 * pairs.length := by rw [ht.count, texts_length]
    simp only [List.length_nil, Nat.mul_zero, List.nil_append] at hfill
    simp only [createItems, hread, hcount, hfill, bind, Except.bind, Bool.false_eq_true, if_false]

end Stored

section Decimal
open Newanalysis (strInt not_mem_digits)

theorem str_int_piece (n : Int) : OnePiece (strInt n) := by
  cases n with
  | ofNat n =>
    exact ⟨Nat.toDigits_ne_nil, not_mem_digits (by decide) n, not_mem_digits (by decide) n⟩
  | negSucc n =>
    refine ⟨List.cons_ne_nil _ _, ?_, ?_⟩
    · exact List.not_mem_cons_of_ne_of_not_mem (by decide) (not_mem_digits (by decide) (n + 1))
    · exact List.not_mem_cons_of_ne_of_not_mem (by decide) (not_mem_digits (by decide) (n + 1))

theorem strtol_str_int (n : Int) : strtol (strInt n) = n := by
  cases n with
  | ofNat n =>
    have hdigits := strtol_decimal no_digit_nil n
    rwa [List.append_nil] at hdigits
  | negSucc n =>
    have hdigits := strtol_negative no_digit_nil (n + 1)
    rwa [List.append_nil] at hdigits

/-- Names and whole values in decimal. -/
def decimal : ItemText Int where
  name := strInt
  value := strInt
  atof := strtol
  name_piece := str_int_piece
  value_piece := str_int_piece
  atoi_name n hlow hhigh := atoi_eq (strtol_str_int n) hlow hhigh
  atof_value := strtol_str_int

def integers : FloatOps Int := ⟨id, (· * ·), 1⟩

theorem reads_back_iff_noise : ReadsBack decimal integers [⟨6, -91⟩, ⟨12, 18⟩] :=
  (reads_back_iff decimal integers (by decide)).mpr (by decide)

/-- The NULL behind the texts of twenty pairs goes past the array. -/
theorem twenty_pairs : ¬ ∀ pairs : List (ItemValue Int), pairs.length ≤ 100 →
    (∀ q ∈ pairs, -2 ^ 31 ≤ q.name ∧ q.name < 2 ^ 31) → ReadsBack decimal integers pairs := by
  intro h
  have hfits : ∀ q ∈ List.replicate 20 (⟨6, -91⟩ : ItemValue Int),
      -2 ^ 31 ≤ q.name ∧ q.name < 2 ^ 31 := by decide
  have hrun := h (List.replicate 20 ⟨6, -91⟩) (by rw [List.length_replicate]; decide) hfits
    ⟨∅, none, .null, false⟩ (List.replicate 100 ⟨-1, 0⟩) List.length_replicate
  rw [createItems, read_full decimal (Nat.le_of_eq List.length_replicate.symm)] at hrun
  cases hrun

end Decimal

end ApTelemetry.Ofproto
