import ApTelemetry.Lib.Text

namespace ApTelemetry.Newanalysis
open Lib

/-- A tuple of `nodes`, without a father while it has four fields. The value of
a leaf is the integer 0. -/
structure Entry (V : Type) where
  father : Option Int
  x : Int
  name : Str
  value : Option V
  class_ : Int
  deriving DecidableEq

/-- What the loop over the lines of the DOT text keeps. -/
structure Exporter (V : Type) where
  nodes : List (Entry V)
  begin : Bool

def leafName : Str := "leaf".toList

/-- The text between `class =` and `>]`, blanks removed. -/
def className (tmp : Str) : Str :=
  let index5 := tmp.find "class".toList
  let index5 := tmp.findFrom "=".toList index5 + 5
  let index6 := tmp.find ">]".toList
  (tmp.slice index5 index6).replaceChar ' ' []

/-- The words between `=<` and `<br/>`. -/
def testWords (tmp : Str) : List Str :=
  let index1 := tmp.find "=<".toList + 2
  let index2 := tmp.find "<br/>".toList
  let tmp1 := tmp.slice index1 index2
  let tmp1 := tmp1.replaceChar '\'' []
  let tmp1 := tmp1.replaceChar ',' [' ']
  (tmp1.replaceSpaces).splitOn ' '

section Loop

variable {V : Type} (float : Str → Option V)

/-- An exception on the way leaves the node out. -/
def addSplit (s : Exporter V) (x : Int) (words : List Str) : Exporter V :=
  let tmp := Str.reprList words
  let tmp1 := testWords tmp
  match tmp1[0]?, tmp1[2]?.bind float, Str.toInt? (className tmp) with
  | some left, some right, some tmp3 =>
    if x = 0 ∧ s.begin = false then
      { nodes := s.nodes ++ [⟨some 0, x, left, some right, tmp3⟩], begin := true }
    else { s with nodes := s.nodes ++ [⟨none, x, left, some right, tmp3⟩] }
  | _, _, _ => s

def addLeaf (s : Exporter V) (x : Int) (words : List Str) : Exporter V :=
  match Str.toInt? (className (Str.reprList words)) with
  | some tmp3 => { s with nodes := s.nodes ++ [⟨none, x, leafName, none, tmp3⟩] }
  | none => s

/-- An edge gives its source to the last tuple, if that has four fields. -/
def addFather (s : Exporter V) (x : Int) : Exporter V :=
  match s.nodes.getLast? with
  | none => s
  | some last =>
    if last.father = none then
      { s with nodes := s.nodes.dropLast ++ [{ last with father := some x }] }
    else s

/-- The loop body for one line. -/
def readLine (s : Exporter V) (i : Str) : Exporter V :=
  let lief := ¬ 0 < i.find "&le".toList
  let words := i.splitOn ' '
  match Str.toInt? (words.headD []) with
  | none => s
  | some x =>
    match words with
    | _ :: y :: _ :: _ =>
      if y = "->".toList then addFather s x
      else if lief then addLeaf s x words
      else addSplit float s x words
    | _ => s

def readLines (lines : List Str) : Exporter V := lines.foldl (readLine float) ⟨[], false⟩

end Loop

def strInt : Int → Str
  | .ofNat n => Nat.toDigits 10 n
  | .negSucc n => '-' :: Nat.toDigits 10 (n + 1)

/-- The loops that build the message put a separator in front of every part that
finds the text not empty. -/
def joined (sep : Char) (parts : List Str) : Str :=
  parts.foldl (fun text part => if text = [] then part else text ++ sep :: part) []

variable {V : Type} (str : V → Str)

def Entry.fields (i : Entry V) : List Str :=
  (match i.father with
    | none => []
    | some father => [strInt father]) ++
  [strInt i.x, i.name, (match i.value with
    | none => ['0']
    | some v => str v), strInt i.class_]

/-- `stringtosend`. -/
def stringtosend (nodes : List (Entry V)) : Str :=
  "AAAA8B".toList ++ (joined '|' (nodes.map fun i => joined ',' (i.fields str)) ++ ";.".toList)

/-- The message made of the DOT text of a tree. -/
def exported (float : Str → Option V) (strtree : Str) : Str :=
  stringtosend str (readLines float (strtree.splitOn '\n')).nodes

end ApTelemetry.Newanalysis
