import ApTelemetry.Lib.Lines
import ApTelemetry.Ofproto.TcpSs

namespace ApTelemetry.TcpInfo
open Lib Ofproto

/-- The outer loop of `strlinger`, `ind` characters into the text. -/
def strlingerFrom (sub : Str) : Int → Str → Int
  | _, [] => -1
  | ind, c :: buf => if sub.isPrefixOf (c :: buf) then ind else strlingerFrom sub (ind + 1) buf

def strlinger (buf sub : Str) : Int := if sub = [] then -1 else strlingerFrom sub 0 buf

/-- `line + i` -/
def pointer (line : Str) (i : Int) : Str := line.drop i.toNat

/-- The text from a place to the next blank, copied where `length_tmp > 0`. -/
def cut (line : Str) (index3 : Int) : Option Str :=
  let index4 := strlinger (pointer line index3) [' '] + index3
  let lengthTmp := index4 - index3
  if lengthTmp > 0 then some ((pointer line index3).take lengthTmp.toNat) else none

/-- The copies are not terminated: what stands on the heap behind each of the four,
up to the next NUL. -/
structure Behind where
  src : Str
  dst : Str
  cwnd : Str
  mss : Str

/-- The port a string names. -/
def portDst (str : Str) : Int :=
  if str = "http".toList then 80 else if str = "https".toList then 8089 else atoi str

/-- The tests that a line passes before the next one is read. -/
def takes (tmp : Ends) (behind : Behind) (line : Str) : Bool :=
  let index1 := strlinger line tmp.ipSrc
  let index2 := strlinger line tmp.ipDst
  if index1 > 0 ∧ index2 > 0 then
    let index3 := strlinger (pointer line index1) [':'] + 1 + index1
    match cut line index3 with
    | none => false
    | some str =>
      let index4 := index3 + str.length
      if atoi (str ++ behind.src) ≠ tmp.srcPort.toNat then false else
      let index3 := strlinger (pointer line index4) [':'] + index4 + 1
      match cut line index3 with
      | none => false
      | some str => portDst (str ++ behind.dst) = tmp.dstPort.toNat
  else false

structure Found where
  foundCwnd : Bool
  cwnd : Int
  mss : Int
  deriving DecidableEq

/-- The text behind `cwnd:`. Where the line has no `cwnd`, the search goes on from
the fifth character. -/
def cwndText (line : Str) : Option Str := cut line (strlinger line "cwnd".toList + 5)

def mssText (line : Str) : Option Str := cut line (strlinger line "mss".toList + 4)

/-- What is read from an information line, and whether the loop goes on. -/
def readInfo (behind : Behind) (s : Found) (line : Str) : Found × Bool :=
  match cwndText line with
  | none => (s, false)
  | some str =>
    let s := { s with cwnd := atoi (str ++ behind.cwnd), foundCwnd := true }
    match mssText line with
    | none => (s, false)
    | some str => ({ s with mss := atoi (str ++ behind.mss) }, true)

/-- The loop over the lines; `i` is the number of the next one. -/
def scan (tmp : Ends) (behind : Nat → Behind) : Nat → Found → List Str → Found
  | _, s, [] => s
  | i, s, line :: rest =>
    if takes tmp (behind i) line then
      match rest with
      | [] => s
      | info :: rest =>
        let (s, go) := readInfo (behind i) s info
        if go then scan tmp behind (i + 2) s rest else s
    else scan tmp behind (i + 1) s rest

structure CwndMss where
  cwnd : Int
  mss : Int
  deriving DecidableEq

def answer (s : Found) : CwndMss := if s.foundCwnd then ⟨s.cwnd, s.mss⟩ else ⟨-1, -1⟩

/-- A turn of `ppp`: the reply to a request, from what `ss` prints. -/
def ppp (behind : Nat → Behind) (tmp : Ends) (file : Str) : CwndMss :=
  answer (scan tmp behind 0 ⟨false, 0, 0⟩ (Str.fgetsAll 299 299 file))

/-- What `check_cwnd` makes of the reply. -/
def checkCwnd (tmp : CwndMss) : Int := (tmp.cwnd * tmp.mss).bmod 4294967296

section Search

variable {sub buf : Str}

theorem strlinger_from_eq (ind : Int) (h : sub ≠ []) : strlingerFrom sub ind buf =
    match indexOf sub buf with
    | some k => ind + k
    | none => -1 := by
  induction buf generalizing ind with
  | nil => simp [strlingerFrom, indexOf, h]
  | cons c buf ih =>
    rw [strlingerFrom, indexOf]
    split
    · simp
    · rw [ih]
      cases indexOf sub buf with
      | none => rfl
      | some k =>
        simp only [Option.map_some]
        push_cast
        ring

theorem strlinger_some {k : Nat} (h : sub ≠ []) (hk : indexOf sub buf = some k) :
    strlinger buf sub = k := by
  rw [strlinger, if_neg h, strlinger_from_eq 0 h, hk]
  simp

theorem strlinger_none (h : sub ≠ []) (hk : indexOf sub buf = none) : strlinger buf sub = -1 := by
  rw [strlinger, if_neg h, strlinger_from_eq 0 h, hk]

theorem pointer_append (a b : Str) : pointer (a ++ b) a.length = b := by
  rw [pointer, Int.toNat_natCast, List.drop_left]

theorem index_of_char {c : Char} {a : Str} (h : c ∉ a) (b : Str) :
    indexOf [c] (a ++ c :: b) = some a.length :=
  (index_of_after (passes_of_head h) : indexOf [c] (a ++ ([c] ++ b)) = some a.length)

theorem index_of_absent {c : Char} {a : Str} (h : c ∉ a) : indexOf [c] a = none := by
  have hpass : indexOf [c] (a ++ []) = (indexOf [c] []).map (a.length + ·) := passes_of_head h []
  simpa [indexOf] using hpass

/-- A text between a place and a blank is copied. -/
theorem cut_text {a m : Str} (hm : m ≠ []) (hblank : ' ' ∉ m) (b : Str) :
    cut (a ++ (m ++ ' ' :: b)) a.length = some m := by
  have hindex : strlinger (m ++ ' ' :: b) [' '] = m.length :=
    strlinger_some (by simp) (index_of_char hblank b)
  have hpos : 0 < m.length := List.length_pos_iff.mpr hm
  rw [cut, pointer_append, hindex, if_pos (by omega)]
  simp

/-- Nothing is copied where no blank follows, or at a blank. -/
theorem cut_end {a m : Str} (hblank : ' ' ∉ m) : cut (a ++ m) a.length = none := by
  have hindex : strlinger m [' '] = -1 := strlinger_none (by simp) (index_of_absent hblank)
  rw [cut, pointer_append, hindex, if_neg (by omega)]

theorem cut_blank (a b : Str) : cut (a ++ ' ' :: b) a.length = none := by
  have hindex : strlinger (' ' :: b) [' '] = 0 :=
    strlinger_some (by simp) (index_of_char (by simp : ' ' ∉ []) b)
  rw [cut, pointer_append, hindex, if_neg (by omega)]

end Search

section Loop

variable {tmp : Ends} {behind : Nat → Behind} {line : Str}

theorem scan_pass {i : Nat} (h : takes tmp (behind i) line = false) (s : Found)
    (rest : List Str) : scan tmp behind i s (line :: rest) = scan tmp behind (i + 1) s rest := by
  rw [scan.eq_def]
  simp only [h, Bool.false_eq_true, if_false]

theorem scan_take {i : Nat} (h : takes tmp (behind i) line = true) (s : Found) (info : Str)
    (rest : List Str) : scan tmp behind i s (line :: info :: rest) =
      if (readInfo (behind i) s info).2 then
        scan tmp behind (i + 2) (readInfo (behind i) s info).1 rest
      else (readInfo (behind i) s info).1 := by
  rw [scan.eq_def]
  simp only [h, if_true]

end Loop

end ApTelemetry.TcpInfo
