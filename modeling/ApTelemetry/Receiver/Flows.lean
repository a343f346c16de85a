import ApTelemetry.Lib.Buffer
import ApTelemetry.Lib.Machine
import ApTelemetry.Structs
import Mathlib.Algebra.GroupWithZero.Nat
import Mathlib.Data.Fin.Tuple.Basic
import Mathlib.Data.Fintype.Basic

namespace ApTelemetry.Receiver.Flows
open Lib

def thundred : Nat := 100000

instance : NeZero thundred := ⟨by decide⟩

-- the size `SEQLIST` of both tables is a parameter; the source has 10000
variable {seqlist : Nat} [NeZero seqlist]

structure Time where
  sec : U32
  usec : U32
  deriving DecidableEq

/-- An array of times with the index of its next place. -/
structure Times where
  times : Fin thundred → Time
  head : Fin thundred

def Times.push (x : Times) (time : Time) : Times :=
  ⟨Function.update x.times x.head time, x.head + 1⟩

structure SeqInfo where
  seq : U32
  sec : U32
  usec : U32
  deriving DecidableEq

/-- `struct winsize_record` without `ack_seq`, which only `memset` writes. -/
structure WinsizeRecord (seqlist : Nat) where
  tuple : FourTuple
  seqList : Fin seqlist → SeqInfo
  sec : U32

structure State (seqlist : Nat) where
  flowSeqList : Fin seqlist → WinsizeRecord seqlist
  retransTimes : Times
  winsizeTimes : Times
  countRetrans : U32

def zeroRecord : WinsizeRecord seqlist := ⟨⟨0, 0, 0, 0⟩, fun _ => ⟨0, 0, 0⟩, 0⟩

/-- The entry with the least `sec`, the first of them; the first entry of all
stands when none is less. -/
def oldest (s : State seqlist) : Fin seqlist :=
  (List.finRange seqlist).tail.foldl
    (fun best i => if (s.flowSeqList i).sec < (s.flowSeqList best).sec then i else best) 0

/-- The entry `insert_flow_info` takes. A source port of zero marks a free one. -/
def insertPlace (s : State seqlist) : Fin seqlist :=
  match Fin.find? fun i => (s.flowSeqList i).tuple.sourceaddr = 0 with
  | some i => i
  | none => oldest s

/-- Of the sequence numbers only the first is written. -/
def insertFlowInfo (ptr : DataWinsize) (s : State seqlist) : State seqlist :=
  let tmp := s.flowSeqList (insertPlace s)
  { s with
    flowSeqList := Function.update s.flowSeqList (insertPlace s)
      ⟨ptr.tuple, Function.update tmp.seqList 0 ⟨ptr.sequence, ptr.sec, ptr.usec⟩, ptr.sec⟩ }

def clearFlowInfo (ptr : DataWinsize) (s : State seqlist) : State seqlist :=
  match Fin.find? fun i => (s.flowSeqList i).tuple = ptr.tuple with
  | some i => { s with flowSeqList := Function.update s.flowSeqList i zeroRecord }
  | none => s

def findFlow (tuple : FourTuple) (s : State seqlist) : Option (Fin seqlist) :=
  Fin.find? fun i => (s.flowSeqList i).sec ≠ 0 ∧ (s.flowSeqList i).tuple = tuple

/-- What the loop over `seq_list` changes. -/
structure Search (seqlist : Nat) where
  seqList : Fin seqlist → SeqInfo
  retransTimes : Times
  countRetrans : U32
  insert : Bool

/-- A retransmission, found at one index. -/
def Search.hit (ptr : DataWinsize) (x : Search seqlist) (i : Fin seqlist) : Search seqlist where
  seqList := Function.update x.seqList i ⟨(x.seqList i).seq, ptr.sec, ptr.usec⟩
  retransTimes := x.retransTimes.push ⟨(x.seqList i).sec, (x.seqList i).usec⟩
  countRetrans := x.countRetrans + 1
  insert := true

def Search.step (ptr : DataWinsize) (x : Search seqlist) (i : Fin seqlist) : Search seqlist :=
  if (x.seqList i).seq = -1 then x
  else if (x.seqList i).seq = ptr.sequence then x.hit ptr i
  else x

/-- The loop goes on behind a match. -/
def searchSequence (ptr : DataWinsize) (x : Search seqlist) : Search seqlist :=
  (List.finRange seqlist).foldl (Search.step ptr) x

def SeqInfo.Unused (tmps : SeqInfo) : Prop := tmps.seq = 0 ∨ tmps.seq = -1

instance (tmps : SeqInfo) : Decidable tmps.Unused :=
  inferInstanceAs (Decidable (tmps.seq = 0 ∨ tmps.seq = -1))

def insertSequence (ptr : DataWinsize) (seqList : Fin seqlist → SeqInfo) :
    Fin seqlist → SeqInfo :=
  match Fin.find? fun i => (seqList i).Unused with
  | some i => Function.update seqList i ⟨ptr.sequence, ptr.sec, ptr.usec⟩
  | none => seqList

/-- The first half of `ack_flow_info`. -/
def recordData (ptr : DataWinsize) (s : State seqlist) : State seqlist :=
  if ptr.datalength ≠ 0 then
    match findFlow ptr.tuple s with
    | some found =>
      let tmp := s.flowSeqList found
      let x := searchSequence ptr ⟨tmp.seqList, s.retransTimes, s.countRetrans, false⟩
      let seqList := if x.insert then x.seqList else insertSequence ptr x.seqList
      { s with
        flowSeqList := Function.update s.flowSeqList found { tmp with seqList }
        retransTimes := x.retransTimes
        countRetrans := x.countRetrans }
    | none => insertFlowInfo ptr s
  else s

def SeqInfo.Acknowledged (ptr : DataWinsize) (tmps : SeqInfo) : Prop :=
  tmps.seq < ptr.ackSequence ∧ 5 < ptr.sec - tmps.sec

instance (ptr : DataWinsize) (tmps : SeqInfo) : Decidable (tmps.Acknowledged ptr) :=
  inferInstanceAs (Decidable (tmps.seq < ptr.ackSequence ∧ 5 < ptr.sec - tmps.sec))

/-- The second half: `clear seq < r.ack` in the reverse flow. -/
def clearAcknowledged (ptr : DataWinsize) (s : State seqlist) : State seqlist :=
  match findFlow ptr.tuple.reverse s with
  | some found =>
    let tmp := s.flowSeqList found
    { s with
      flowSeqList := Function.update s.flowSeqList found { tmp with
        seqList := fun i =>
          if (tmp.seqList i).Acknowledged ptr then ⟨0, 0, 0⟩ else tmp.seqList i } }
  | none => s

def ackFlowInfo (ptr : DataWinsize) (s : State seqlist) : State seqlist :=
  clearAcknowledged ptr (recordData ptr s)

/-- The branches of `decode_winsize` on the flags of a packet. -/
def handleFlags (rdata : DataWinsize) (s : State seqlist) : State seqlist :=
  let flags := rdata.flags &&& 0x0017
  if flags = 2 ∨ flags = 18 then insertFlowInfo rdata s
  else if flags = 17 ∨ flags &&& 0x0004 = 1 then clearFlowInfo rdata s
  else if flags = 16 then ackFlowInfo rdata s
  else s

def logTime (rdata : DataWinsize) (s : State seqlist) : State seqlist :=
  { s with winsizeTimes := s.winsizeTimes.push ⟨rdata.sec, rdata.usec⟩ }

/-- What `decode_winsize` does with a decoded packet. -/
def decodeWinsize (rdata : DataWinsize) (s : State seqlist) : State seqlist :=
  handleFlags rdata (logTime rdata s)

def initial : State seqlist :=
  ⟨fun _ => zeroRecord, ⟨fun _ => ⟨0, 0⟩, 0⟩, ⟨fun _ => ⟨0, 0⟩, 0⟩, 0⟩

end ApTelemetry.Receiver.Flows
