import Mathlib.Tactic.IntervalCases

namespace ApTelemetry.Lib

/-- Byte `i` of a word, counted from the least significant. -/
def byte {w : Nat} (v : BitVec w) (i : Nat) : BitVec 8 := v.extractLsb' (8 * i) 8

def high (v : BitVec 64) : BitVec 32 := v.extractLsb' 32 32
def low (v : BitVec 64) : BitVec 32 := v.extractLsb' 0 32

/-- The bytes of a word in the memory of a big-endian machine. -/
def be16 (v : BitVec 16) : List (BitVec 8) := [byte v 1, byte v 0]
def be32 (v : BitVec 32) : List (BitVec 8) := [byte v 3, byte v 2, byte v 1, byte v 0]
def be64 (v : BitVec 64) : List (BitVec 8) := be32 (high v) ++ be32 (low v)

/-- The word a little-endian machine sees in bytes at rising addresses. -/
def le16 (b0 b1 : BitVec 8) : BitVec 16 := b0.setWidth 16 ||| b1.setWidth 16 <<< 8
def le32 (b0 b1 b2 b3 : BitVec 8) : BitVec 32 :=
  b0.setWidth 32 ||| b1.setWidth 32 <<< 8 ||| b2.setWidth 32 <<< 16 ||| b3.setWidth 32 <<< 24
def le64 (w0 w1 : BitVec 32) : BitVec 64 := w0.setWidth 64 ||| w1.setWidth 64 <<< 32

/-- The word at the front of a block of bytes; missing bytes count as zero. -/
def first8 : List (BitVec 8) → BitVec 8
  | b0 :: _ => b0
  | [] => 0
def first16 : List (BitVec 8) → BitVec 16
  | b0 :: rest => le16 b0 (first8 rest)
  | [] => 0
def first32 : List (BitVec 8) → BitVec 32
  | b0 :: b1 :: b2 :: rest => le32 b0 b1 b2 (first8 rest)
  | b0 :: rest => le32 b0 (first8 rest) 0 0
  | [] => 0

def load8 (bytes : List (BitVec 8)) (i : Nat) : BitVec 8 := first8 (bytes.drop i)
def load16 (bytes : List (BitVec 8)) (i : Nat) : BitVec 16 := first16 (bytes.drop i)
def load32 (bytes : List (BitVec 8)) (i : Nat) : BitVec 32 := first32 (bytes.drop i)
def load64 (bytes : List (BitVec 8)) (i : Nat) : BitVec 64 :=
  le64 (load32 bytes i) (load32 bytes (i + 4))

/-- What a little-endian load makes of a big-endian word. -/
def swap16 (v : BitVec 16) : BitVec 16 := le16 (byte v 1) (byte v 0)
def swap32 (v : BitVec 32) : BitVec 32 := le32 (byte v 3) (byte v 2) (byte v 1) (byte v 0)

/-- The byte order of a machine. -/
inductive ByteOrder where
  | little
  | big
  deriving DecidableEq

namespace ByteOrder

def read16 : ByteOrder → List (BitVec 8) → Nat → BitVec 16
  | little, bytes, i => load16 bytes i
  | big, bytes, i => swap16 (load16 bytes i)

def read32 : ByteOrder → List (BitVec 8) → Nat → BitVec 32
  | little, bytes, i => load32 bytes i
  | big, bytes, i => swap32 (load32 bytes i)

def read64 (o : ByteOrder) (bytes : List (BitVec 8)) (i : Nat) : BitVec 64 :=
  match o with
  | little => le64 (o.read32 bytes i) (o.read32 bytes (i + 4))
  | big => le64 (o.read32 bytes (i + 4)) (o.read32 bytes i)

/-- The bytes of a word in memory. -/
def bytes16 : ByteOrder → BitVec 16 → List (BitVec 8)
  | little, v => (be16 v).reverse
  | big, v => be16 v

def bytes32 : ByteOrder → BitVec 32 → List (BitVec 8)
  | little, v => (be32 v).reverse
  | big, v => be32 v

end ByteOrder

@[simp] theorem length_be16 (v : BitVec 16) : (be16 v).length = 2 := rfl
@[simp] theorem length_be32 (v : BitVec 32) : (be32 v).length = 4 := rfl
@[simp] theorem length_be64 (v : BitVec 64) : (be64 v).length = 8 := rfl

section Loads

variable (rest : List (BitVec 8)) (i : Nat)

theorem drop_be16 (v : BitVec 16) : (be16 v ++ rest).drop (i + 2) = rest.drop i := by
  simp [be16]

theorem drop_be32 (v : BitVec 32) : (be32 v ++ rest).drop (i + 4) = rest.drop i := by
  simp [be32]

theorem first8_cons (b : BitVec 8) : first8 (b :: rest) = b := by
  rw [first8]

theorem first16_be16 (v : BitVec 16) : first16 (be16 v ++ rest) = swap16 v := by
  rw [be16, List.cons_append, first16, List.cons_append, first8, swap16]

theorem first32_be32 (v : BitVec 32) : first32 (be32 v ++ rest) = swap32 v := by
  simp only [be32, List.cons_append, first32, first8, swap32]

theorem load16_eq (bytes : List (BitVec 8)) :
    load16 bytes i = le16 (load8 bytes i) (load8 bytes (i + 1)) := by
  have hnext : bytes.drop (i + 1) = (bytes.drop i).drop 1 := by rw [List.drop_drop]
  simp only [load16, load8, hnext]
  match bytes.drop i with
  | [] => rfl
  | b0 :: rest => rfl

theorem load32_eq (bytes : List (BitVec 8)) :
    load32 bytes i =
      le32 (load8 bytes i) (load8 bytes (i + 1)) (load8 bytes (i + 2)) (load8 bytes (i + 3)) := by
  have hnext (k : Nat) : bytes.drop (i + k) = (bytes.drop i).drop k := by rw [List.drop_drop]
  simp only [load32, load8, hnext]
  match bytes.drop i with
  | [] => rfl
  | [b0] => rfl
  | [b0, b1] => rfl
  | b0 :: b1 :: b2 :: rest => rfl

end Loads

section Bytes

variable (b0 b1 b2 b3 : BitVec 8)

theorem be16_le16 : be16 (le16 b0 b1) = [b1, b0] := by
  simp only [be16, List.cons.injEq, and_true]
  constructor
  all_goals
    apply BitVec.eq_of_getLsbD_eq
    intro i hi
    simp only [byte, le16]
    interval_cases i <;> simp

theorem be32_le32 : be32 (le32 b0 b1 b2 b3) = [b3, b2, b1, b0] := by
  simp only [be32, List.cons.injEq, and_true]
  refine ⟨?_, ?_, ?_, ?_⟩
  all_goals
    apply BitVec.eq_of_getLsbD_eq
    intro i hi
    simp only [byte, le32]
    interval_cases i <;> simp

theorem swap16_le16 : swap16 (le16 b0 b1) = le16 b1 b0 := by
  have h := be16_le16 b0 b1
  simp only [be16, List.cons.injEq, and_true] at h
  rw [swap16, h.1, h.2]

theorem swap32_le32 : swap32 (le32 b0 b1 b2 b3) = le32 b3 b2 b1 b0 := by
  have h := be32_le32 b0 b1 b2 b3
  simp only [be32, List.cons.injEq, and_true] at h
  rw [swap32, h.1, h.2.1, h.2.2.1, h.2.2.2]

end Bytes

namespace ByteOrder

variable (o : ByteOrder) (bytes : List (BitVec 8)) (i : Nat)

/-- A word reversed on the machine stands in memory the other way round. -/
theorem bytes16_swap_read :
    o.bytes16 (swap16 (o.read16 bytes i)) = [load8 bytes (i + 1), load8 bytes i] := by
  cases o <;> simp [bytes16, read16, load16_eq, swap16_le16, be16_le16]

theorem bytes32_swap_read :
    o.bytes32 (swap32 (o.read32 bytes i)) =
      [load8 bytes (i + 3), load8 bytes (i + 2), load8 bytes (i + 1), load8 bytes i] := by
  cases o <;> simp [bytes32, read32, load32_eq, swap32_le32, be32_le32]

end ByteOrder

theorem low_le64 (w0 w1 : BitVec 32) : low (le64 w0 w1) = w0 := by
  apply BitVec.eq_of_getLsbD_eq
  intro i hi
  simp only [low, le64]
  interval_cases i <;> simp

theorem high_le64 (w0 w1 : BitVec 32) : high (le64 w0 w1) = w1 := by
  apply BitVec.eq_of_getLsbD_eq
  intro i hi
  simp only [high, le64]
  interval_cases i <;> simp

theorem le64_low_high (v : BitVec 64) : le64 (low v) (high v) = v := by
  apply BitVec.eq_of_getLsbD_eq
  intro i hi
  simp only [low, high, le64]
  interval_cases i <;> simp

end ApTelemetry.Lib
