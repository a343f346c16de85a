import ApTelemetry.Lib.Buffer
import ApTelemetry.TcpInfo.Server

namespace ApTelemetry.TcpInfo.Cursor
open Lib

/-- A string as C passes it: characters that are not NUL, then one NUL. -/
structure CString where
  text : Str
  unbroken : '\x00' ∉ text

/-- The readable memory. A read past the terminator leaves the array. -/
def CString.memory (s : CString) : List Char := s.text ++ ['\x00']

/-- The loop around `*bp++ == *sp++`. It is true where `!*sp` ends it. -/
def compare (buf sub : List Char) (bp sp : Nat) : Except Fault Bool :=
  if h : sp < sub.length then
    if sub[sp] = '\x00' then .ok true
    else do
      let c ← load buf bp
      if c = sub[sp] then compare buf sub (bp + 1) (sp + 1) else .ok false
  else .error .outside
termination_by sub.length - sp

/-- The loop around `*buf`, with the cursor and the index after some turns. -/
def search (mem sub : List Char) (buf : Nat) (ind : Int) : Except Fault Int :=
  if h : buf < mem.length then
    if mem[buf] = '\x00' then .ok (-1)
    else do
      if ← compare mem sub buf 0 then .ok ind else search mem sub (buf + 1) (ind + 1)
  else .error .outside
termination_by mem.length - buf

def strlinger (buf sub : List Char) : Except Fault Int := do
  if (← load sub 0) = '\x00' then .ok (-1) else search buf sub 0 0

/-- What the cursors have passed stands before them; `post` and `rest` are what is
left of the two texts. At the end of the text the terminator is read and differs
from every character of the pattern, so the loop stops on it. -/
theorem compare_eq (pre post seen : Str) {rest : Str} (h : '\x00' ∉ rest) :
    compare (pre ++ post ++ ['\x00']) (seen ++ rest ++ ['\x00']) pre.length seen.length =
      .ok (rest.isPrefixOf post) := by
  induction rest generalizing pre post seen with
  | nil =>
    rw [compare, dif_pos (by simp), if_pos (by simp), List.isPrefixOf_nil_left]
  | cons d rest ih =>
    obtain ⟨hd, hrest⟩ := List.ne_and_not_mem_of_not_mem_cons h
    have hin : seen.length < (seen ++ d :: rest ++ ['\x00']).length := by simp
    have hread : (seen ++ d :: rest ++ ['\x00'])[seen.length] = d := by simp
    rw [compare, dif_pos hin, hread, if_neg (Ne.symm hd)]
    cases post with
    | nil =>
      have hend : load (pre ++ [] ++ ['\x00']) pre.length = .ok '\x00' :=
        load_ok_iff.mpr (by simp)
      rw [hend]
      exact if_neg hd
    | cons c post =>
      have hhere : load (pre ++ c :: post ++ ['\x00']) pre.length = .ok c :=
        load_ok_iff.mpr (by simp)
      rw [hhere]
      change (if c = d then _ else _) = _
      by_cases he : c = d
      · subst he
        have hnext := ih (pre ++ [c]) post (seen ++ [c]) hrest
        simp only [List.append_assoc, List.singleton_append, List.length_append,
          List.length_singleton] at hnext
        rw [if_pos rfl, List.isPrefixOf_cons_cons_self]
        simpa using hnext
      · rw [if_neg he, List.isPrefixOf_cons_cons, beq_false_of_ne (Ne.symm he), Bool.false_and]

theorem search_eq (pre : Str) {post : Str} (sub : CString) (ind : Int) (h : '\x00' ∉ post) :
    search (pre ++ post ++ ['\x00']) sub.memory pre.length ind =
      .ok (strlingerFrom sub.text ind post) := by
  induction post generalizing pre ind with
  | nil =>
    rw [search, dif_pos (by simp), if_pos (by simp), strlingerFrom]
  | cons c post ih =>
    obtain ⟨hc, hpost⟩ := List.ne_and_not_mem_of_not_mem_cons h
    have hin : pre.length < (pre ++ c :: post ++ ['\x00']).length := by simp
    have hread : (pre ++ c :: post ++ ['\x00'])[pre.length] = c := by simp
    have hcompare : compare (pre ++ c :: post ++ ['\x00']) sub.memory pre.length 0 =
        .ok (sub.text.isPrefixOf (c :: post)) :=
      compare_eq pre (c :: post) [] sub.unbroken
    have hnext := ih (pre ++ [c]) (ind + 1) hpost
    rw [search, dif_pos hin, hread, if_neg (Ne.symm hc), hcompare, strlingerFrom]
    change (if _ then _ else _) = _
    split
    · rfl
    · simpa using hnext

/-- The function on memory computes the function on texts. -/
theorem strlinger_memory (buf sub : CString) :
    strlinger buf.memory sub.memory = .ok (TcpInfo.strlinger buf.text sub.text) := by
  cases hsub : sub.text with
  | nil => simp [strlinger, TcpInfo.strlinger, CString.memory, hsub, load, bind, Except.bind]
  | cons d rest =>
    have hd : '\x00' ≠ d := (List.ne_and_not_mem_of_not_mem_cons (hsub ▸ sub.unbroken)).1
    have hfirst : load sub.memory 0 = .ok d := load_ok_iff.mpr (by simp [CString.memory, hsub])
    have hsearch : search buf.memory sub.memory 0 0 = .ok (strlingerFrom sub.text 0 buf.text) :=
      search_eq [] sub 0 buf.unbroken
    rw [strlinger, hfirst, TcpInfo.strlinger, if_neg (List.cons_ne_nil d rest), ← hsub, ← hsearch]
    exact if_neg (Ne.symm hd)

/-- `strlinger` never leaves the two strings and returns the least index at which the
pattern stands, an index of the text, or `-1`. -/
theorem strlinger_exact (buf sub : CString) :
    ∃ ind : Int, strlinger buf.memory sub.memory = .ok ind ∧
      ((ind = -1 ∧ (sub.text = [] ∨ ¬ sub.text <:+: buf.text)) ∨
        ∃ k : Nat, ind = k ∧ k < buf.text.length ∧ sub.text ≠ [] ∧
          sub.text <+: buf.text.drop k ∧ ∀ j < k, ¬ sub.text <+: buf.text.drop j) := by
  refine ⟨_, strlinger_memory buf sub, ?_⟩
  by_cases hempty : sub.text = []
  · exact Or.inl ⟨by rw [hempty]; rfl, Or.inl hempty⟩
  cases hindex : indexOf sub.text buf.text with
  | none => exact Or.inl ⟨strlinger_none hempty hindex, Or.inr (index_of_none hindex)⟩
  | some k =>
    obtain ⟨hhere, hbefore⟩ := index_of_some hindex
    refine Or.inr ⟨k, strlinger_some hempty hindex, ?_, hempty, hhere, hbefore⟩
    by_contra hk
    rw [List.drop_eq_nil_of_le (Nat.le_of_not_lt hk)] at hhere
    exact hempty (List.prefix_nil.mp hhere)

theorem plain_line : '\x00' ∉ ['r', 't', 't', ':', 't', ':', '9'] := by decide
theorem plain_mark : '\x00' ∉ ['t', ':', '9'] := by decide

/-- The search goes on after a partial match. -/
theorem strlinger_exact_later : ∃ ind : Int,
    strlinger (CString.memory ⟨_, plain_line⟩) (CString.memory ⟨_, plain_mark⟩) = .ok ind ∧
      ind = 4 := by
  obtain ⟨ind, hrun, hfound⟩ := strlinger_exact ⟨_, plain_line⟩ ⟨_, plain_mark⟩
  refine ⟨ind, hrun, ?_⟩
  rcases hfound with ⟨-, hempty | hnone⟩ | ⟨k, rfl, -, -, hhere, hbefore⟩
  · cases hempty
  · exact absurd (by decide) hnone
  · have hle : k ≤ 4 := Nat.le_of_not_lt fun hk => hbefore 4 hk (by decide)
    interval_cases k
    · exact absurd hhere (by decide)
    · exact absurd hhere (by decide)
    · exact absurd hhere (by decide)
    · exact absurd hhere (by decide)
    · rfl

end ApTelemetry.TcpInfo.Cursor
