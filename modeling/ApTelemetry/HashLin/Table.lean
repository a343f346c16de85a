import ApTelemetry.Lib.Buckets
import ApTelemetry.Lib.Machine
import ApTelemetry.Structs

namespace ApTelemetry.HashLin
open Lib

def hashTableMaxSize : Nat := 10000

/-- `HashNode` without its link `pNext`. `sKey` is the block of the key, which is
released with the node. -/
structure HashNode where
  sKey : List U8
  time : U64
  nValue : U32
  deriving DecidableEq

/-- `hashTable`, `hash_table_size` and the memory of the nodes. -/
structure Table where
  heap : Heap HashNode
  hashTable : Fin hashTableMaxSize → Option Addr
  hashTableSize : Int
  printed : List String

/-- Six bytes are read from both blocks, whatever they hold. -/
def strcmpLin (s t : List U8) : Except Fault Nat := do
  let condition ← (List.range 6).foldlM (fun condition i => do
    let a ← load s i
    let b ← load t i
    .ok (if a.toInt - b.toInt = 0 then condition + 1 else condition)) 0
  .ok (if condition = 6 then 0 else 1)

/-- `h = (h << 5) - h + *p` up to the NUL, `char` being signed. -/
def hashLoop (h : U32) : List U8 → Except Fault U32
  | [] => .error .outside
  | p :: rest => if p = 0 then .ok h else hashLoop ((h <<< 5) - h + p.signExtend 32) rest

def hashTableHashStr : List U8 → Except Fault U32
  | [] => .error .outside
  | p :: rest => if p.signExtend 32 ≠ 0#32 then hashLoop (p.signExtend 32) rest else .ok 0

def bucket (h : U32) : Fin hashTableMaxSize :=
  ⟨h.toNat % hashTableMaxSize, Nat.mod_lt _ (by decide)⟩

/-- `hash_table_hash_str(skey) % HASH_TABLE_MAX_SIZE`. -/
def hashPos (skey : List U8) : Except Fault (Fin hashTableMaxSize) := do
  let h ← hashTableHashStr skey
  .ok (bucket h)

/-- What `strcpy` copies: the characters and the NUL behind them. -/
def strcpy : List U8 → Except Fault (List U8)
  | [] => .error .outside
  | c :: rest => if c = 0 then .ok [0] else do
    let copy ← strcpy rest
    .ok (c :: copy)

/-- The loop the three operations have, up to its `break`: the node in front of
the match, and the match. Chains that close on themselves run out of turns. -/
def findNode (heap : Heap HashNode) (compare : List U8 → Except Fault Nat) :
    Nat → Option Addr → Option Addr → Except Fault (Option Addr × Option Addr)
  | _, pLast, none => .ok (pLast, none)
  | 0, _, some _ => .error .endless
  | turns + 1, pLast, some pHead => do
    let node ← heap.read (some pHead)
    let differ ← compare node.item.sKey
    if differ = 0 then .ok (pLast, some pHead)
    else findNode heap compare turns (some pHead) node.next

def hashTableInit (s : Table) : Table :=
  { s with hashTable := fun _ => none, hashTableSize := 0 }

/-- `block` is what `malloc` returns for the node. -/
def hashTableInsert (block : Addr) (skey : List U8) (nvalue : U32) (time : U64) (s : Table) :
    Except Fault Table :=
  if hashTableMaxSize ≤ s.hashTableSize then
    .ok { s with printed := s.printed ++ ["out of hash table memory!\n"] }
  else do
    let pos ← hashPos skey
    let (_, found) ← findNode s.heap (fun sKey => strcmpLin sKey skey)
      s.heap.entries.length none (s.hashTable pos)
    match found with
    | some pHead =>
      let heap ← s.heap.setItem (some pHead) fun node =>
        { node with nValue := nvalue, time := time }
      .ok { s with heap }
    | none =>
      let sKey ← strcpy skey
      .ok { s with
        heap := s.heap.insert block ⟨⟨sKey, time, nvalue⟩, s.hashTable pos⟩
        hashTable := Function.update s.hashTable pos (some block)
        hashTableSize := s.hashTableSize + 1 }

def hashTableRemove (skey : List U8) (s : Table) : Except Fault Table := do
  let pos ← hashPos skey
  let (pLast, found) ← findNode s.heap (fun sKey => strcmpLin skey sKey)
    s.heap.entries.length none (s.hashTable pos)
  match found with
  | none => .ok s
  | some pRemove =>
    let node ← s.heap.read (some pRemove)
    match pLast with
    | some _ =>
      let linked ← s.heap.setNext pLast node.next
      let heap ← linked.free (some pRemove)
      .ok { s with heap, hashTableSize := s.hashTableSize - 1 }
    | none =>
      let heap ← s.heap.free (some pRemove)
      .ok { s with
        heap
        hashTable := Function.update s.hashTable pos node.next
        hashTableSize := s.hashTableSize - 1 }

def hashTableLookup (skey : List U8) (s : Table) : Except Fault (Option Addr) := do
  let pos ← hashPos skey
  let (_, found) ← findNode s.heap (fun sKey => strcmpLin skey sKey)
    s.heap.entries.length none (s.hashTable pos)
  .ok found

/-- What the hash makes of the characters in front of the NUL. -/
def hashChars (chars : List U8) : U32 :=
  chars.tail.foldl (fun h p => (h <<< 5) - h + p.signExtend 32) ((chars.headD 0).signExtend 32)

/-- A string whose copy has the six bytes `strcmp_lin` compares. -/
structure Key where
  chars : List U8
  noNul : 0 ∉ chars
  long : 5 ≤ chars.length
  deriving DecidableEq

namespace Key

def bytes (k : Key) : List U8 := k.chars ++ [0]

/-- The string is what a pointer to this memory points to. -/
def At (k : Key) (skey : List U8) : Prop := k.bytes <+: skey

theorem at_bytes (k : Key) : k.At k.bytes := List.prefix_rfl

/-- The part of the key that `strcmp_lin` looks at. -/
def front (k : Key) : List U8 := k.bytes.take 6

def hash (k : Key) : U32 := hashChars k.chars

def pos (k : Key) : Fin hashTableMaxSize := bucket k.hash

variable {k k' : Key} {skey skey' : List U8}

theorem bytes_inj (h : k.bytes = k'.bytes) : k = k' := by
  cases k
  cases k'
  simpa [bytes] using h

theorem front_eq (h : k.At skey) : skey.take 6 = k.front := by
  obtain ⟨rest, rfl⟩ := h
  have := k.long
  rw [front, List.take_append_of_le_length]
  simp [bytes]
  omega

theorem six_le (h : k.At skey) : 6 ≤ skey.length := by
  have hlong := k.long
  have := h.length_le
  simp [bytes] at this
  omega

end Key

theorem hash_loop_chars (chars rest : List U8) (hnul : 0 ∉ chars) (h : U32) :
    hashLoop h (chars ++ 0 :: rest) =
      .ok (chars.foldl (fun h p => (h <<< 5) - h + p.signExtend 32) h) := by
  induction chars generalizing h with
  | nil => rfl
  | cons p chars ih =>
    simp only [List.mem_cons, not_or] at hnul
    rw [List.cons_append, hashLoop, if_neg (Ne.symm hnul.1), ih hnul.2]
    rfl

theorem sign_extend_ne_zero {p : U8} (hp : p ≠ 0) : p.signExtend 32 ≠ 0#32 := by
  intro hzero
  have hint := congrArg BitVec.toInt hzero
  rw [BitVec.toInt_signExtend_of_le (by decide)] at hint
  exact hp (BitVec.toInt_inj.mp hint)

theorem hash_table_hash_str {k : Key} {skey : List U8} (h : k.At skey) :
    hashTableHashStr skey = .ok k.hash := by
  obtain ⟨rest, rfl⟩ := h
  have hbytes : k.bytes ++ rest = k.chars ++ 0 :: rest := by simp [Key.bytes]
  rw [hbytes]
  have hlong := k.long
  have hnul := k.noNul
  cases hchars : k.chars with
  | nil => simp [hchars] at hlong
  | cons p chars =>
    simp only [hchars, List.mem_cons, not_or] at hnul
    rw [List.cons_append, hashTableHashStr, if_pos (sign_extend_ne_zero (Ne.symm hnul.1)),
      hash_loop_chars chars rest hnul.2, Key.hash, hchars]
    rfl

/-- Without a NUL the hash reads behind the end of its key. -/
theorem hash_loop_unterminated (skey : List U8) (hnul : 0 ∉ skey) (h : U32) :
    hashLoop h skey = .error .outside := by
  induction skey generalizing h with
  | nil => rfl
  | cons p rest ih =>
    simp only [List.mem_cons, not_or] at hnul
    rw [hashLoop, if_neg (Ne.symm hnul.1), ih hnul.2]

theorem hash_pos_unterminated {skey : List U8} (hnul : 0 ∉ skey) :
    hashPos skey = .error .outside := by
  cases skey with
  | nil => rfl
  | cons p rest =>
    simp only [List.mem_cons, not_or] at hnul
    have hstr : hashTableHashStr (p :: rest) = .error .outside := by
      rw [hashTableHashStr, if_pos (sign_extend_ne_zero (Ne.symm hnul.1)),
        hash_loop_unterminated rest hnul.2]
    simp only [hashPos, hstr, bind, Except.bind]

theorem hash_pos {k : Key} {skey : List U8} (h : k.At skey) : hashPos skey = .ok k.pos := by
  rw [hashPos, hash_table_hash_str h]
  rfl

theorem strcpy_chars (chars rest : List U8) (hnul : 0 ∉ chars) :
    strcpy (chars ++ 0 :: rest) = .ok (chars ++ [0]) := by
  induction chars with
  | nil => rfl
  | cons c chars ih =>
    simp only [List.mem_cons, not_or] at hnul
    rw [List.cons_append, strcpy, if_neg (Ne.symm hnul.1), ih hnul.2]
    rfl

theorem strcpy_at {k : Key} {skey : List U8} (h : k.At skey) : strcpy skey = .ok k.bytes := by
  obtain ⟨rest, rfl⟩ := h
  rw [Key.bytes, List.append_assoc, List.singleton_append]
  exact strcpy_chars k.chars rest k.noNul

/-- The loop counts the places where both blocks agree. -/
theorem count_equal (s t : List U8) (n : Nat) (hs : n ≤ s.length) (ht : n ≤ t.length) :
    (List.range n).foldlM (fun condition i => do
      let a ← load s i
      let b ← load t i
      Except.ok (if a.toInt - b.toInt = 0 then condition + 1 else condition)) 0 =
    Except.ok (ε := Fault) ((List.range n).countP fun i => s[i]? = t[i]?) := by
  induction n with
  | zero => rfl
  | succ n ih =>
    have hsn : n < s.length := hs
    have htn : n < t.length := ht
    rw [List.range_succ, List.foldlM_append, ih (by omega) (by omega), List.countP_append]
    simp only [List.foldlM_cons, List.foldlM_nil, bind, Except.bind, load_lt hsn, load_lt htn,
      Int.sub_eq_zero, BitVec.toInt_inj, pure, Except.pure]
    split <;> simp_all

theorem strcmp_lin_take (s t : List U8) (hs : 6 ≤ s.length) (ht : 6 ≤ t.length) :
    strcmpLin s t = .ok (if s.take 6 = t.take 6 then 0 else 1) := by
  have hcount : (List.range 6).countP (fun i => s[i]? = t[i]?) = 6 ↔ s.take 6 = t.take 6 := by
    have hall := List.countP_eq_length (p := fun i => decide (s[i]? = t[i]?)) (l := List.range 6)
    rw [List.length_range] at hall
    rw [hall, List.ext_getElem?_iff]
    constructor
    · intro h i
      by_cases hi : i < 6
      · rw [List.getElem?_take_of_lt hi, List.getElem?_take_of_lt hi]
        simpa using h i (List.mem_range.mpr hi)
      · simp [hi]
    · intro h i hi
      have hi6 := List.mem_range.mp hi
      have := h i
      rw [List.getElem?_take_of_lt hi6, List.getElem?_take_of_lt hi6] at this
      simpa using this
  rw [strcmpLin, count_equal s t 6 hs ht]
  simp only [bind, Except.bind, hcount]

theorem strcmp_lin {k k' : Key} {s t : List U8} (hs : k.At s) (ht : k'.At t) :
    strcmpLin s t = .ok (if k.front = k'.front then 0 else 1) := by
  rw [strcmp_lin_take s t (Key.six_le hs) (Key.six_le ht), Key.front_eq hs, Key.front_eq ht]

end ApTelemetry.HashLin
