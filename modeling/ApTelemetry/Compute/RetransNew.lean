import ApTelemetry.Lib.Buffer
import ApTelemetry.Lib.Dict
import ApTelemetry.Training.Alignment

namespace ApTelemetry.Compute.RetransNew
open Lib
open Training (sortedBy sorted_by_pairwise)

/-- A data packet's columns in the log, as far as they are used. The addresses and
ports are text throughout. -/
structure Packet where
  timex : Int
  ipSrc : Str
  ipDst : Str
  sourceaddr : Str
  destination : Str
  sequence : Nat
  datalength : Nat
  deriving DecidableEq

/-- A line of the log. One that does not fall into nineteen columns may still have a
number in its second. -/
inductive Line where
  | packet (p : Packet)
  | broken (second : Option Int)

def Line.second : Line → Option Int
  | packet p => some p.timex
  | broken second => second

/-- `int(line[1])` of the first line. -/
def timeWinsize (lines : List Line) : Except Fault Int :=
  match lines.head?.bind Line.second with
  | some t => .ok t
  | none => .error .outside

/-- A packet filed under its key, the text of its sequence number. -/
def file (timeNeed : Int) (retransDic : Dict Str Int) (p : Packet) : Dict Str Int :=
  if p.timex < timeNeed then retransDic
  else if p.datalength = 0 then retransDic
  else retransDic.append (Nat.toDigits 10 p.sequence) p.timex

/-- The loop over the log, which ends at the first line it cannot split. -/
def read (timeNeed : Int) (retransDic : Dict Str Int) : List Line → Dict Str Int
  | [] => retransDic
  | .broken _ :: _ => retransDic
  | .packet p :: rest => read timeNeed (file timeNeed retransDic p) rest

/-- `retrans_pkt`, all times of a key but the last. -/
def retransPkt (retransDic : Dict Str Int) : List Int :=
  retransDic.flatMap fun e => if e.2.length > 1 then e.2.take (e.2.length - 1) else []

/-- The rows written for one log. `timeOther` is the first time of the file it is
paired with. -/
def retransnew (lines : List Line) (timeOther : Int) : Except Fault (List Int) := do
  let timeNeed := max (← timeWinsize lines) timeOther
  return sortedBy id (retransPkt (read timeNeed [] lines))

/-- The data packets of a log from the common start on. -/
def dataPackets (log : List Packet) (timeOther : Int) : List Packet :=
  match log with
  | [] => []
  | p :: _ => log.filter fun q => ¬ q.timex < max p.timex timeOther ∧ 0 < q.datalength

def Packet.flow (p : Packet) : Str × Str × Str × Str :=
  (p.ipSrc, p.ipDst, p.sourceaddr, p.destination)

/-- Two packets of one flow with one sequence number. -/
def sameSegment (p q : Packet) : Bool := decide (q.flow = p.flow ∧ q.sequence = p.sequence)

/-- What the script is to write: in order, the times of the data packets that are
followed by another one of the same flow and sequence number. -/
def PerFlow (log : List Packet) (timeOther : Int) : Prop :=
  ∃ rows, retransnew (log.map .packet) timeOther = .ok rows ∧ rows.Pairwise (· ≤ ·) ∧
    rows.Perm ((repeated sameSegment (dataPackets log timeOther)).map Packet.timex)

/-- A data packet whose sequence number comes again comes again in its own flow. -/
def OwnRepeats (data : List Packet) : Prop :=
  ∀ pre p post, data = pre ++ p :: post → (∃ q ∈ post, q.sequence = p.sequence) →
    ∃ q ∈ post, q.flow = p.flow ∧ q.sequence = p.sequence

def key (p : Packet) : Str := Nat.toDigits 10 p.sequence

theorem key_eq_iff {p q : Packet} : key p = key q ↔ p.sequence = q.sequence := by
  refine ⟨fun h => ?_, fun h => by rw [key, key, h]⟩
  rw [← digits_from_decimal p.sequence, ← digits_from_decimal q.sequence]
  exact congrArg (digitsFrom 0) h

section Run

variable {timeNeed : Int}

theorem read_files {done : List Packet} {dic : Dict Str Int} (log : List Packet)
    (h : Dict.Files key Packet.timex done dic) :
    Dict.Files key Packet.timex
      (done ++ log.filter fun q => ¬ q.timex < timeNeed ∧ 0 < q.datalength)
      (read timeNeed dic (log.map .packet)) := by
  induction log generalizing done dic with
  | nil => simpa [read] using h
  | cons p log ih =>
    rw [List.map_cons, read, file]
    split
    · rename_i hearly
      rw [List.filter_cons_of_neg (by simp [hearly])]
      exact ih h
    · rename_i htime
      split
      · rename_i hempty
        rw [List.filter_cons_of_neg (by simp [hempty])]
        exact ih h
      · rename_i hdata
        have hnext := ih (h.append p)
        rw [List.filter_cons_of_pos (by simp [htime, Nat.pos_of_ne_zero hdata])]
        rwa [List.append_assoc] at hnext

theorem retrans_pkt_eq (dic : Dict Str Int) :
    retransPkt dic = dic.flatMap fun e => e.2.dropLast := by
  refine List.flatMap_congr fun e _ => ?_
  split
  · exact List.dropLast_eq_take.symm
  · rename_i hshort
    match h : e.2 with
    | [] => rfl
    | [_] => rfl
    | _ :: _ :: _ => simp [h] at hshort

/-- The times taken from the dictionary are those of the packets whose sequence number
comes again, in whatever flow. -/
theorem retrans_pkt_perm {data : List Packet} {dic : Dict Str Int}
    (h : Dict.Files key Packet.timex data dic) : (retransPkt dic).Perm
      ((repeated (fun p q => decide (key q = key p)) data).map Packet.timex) := by
  rw [retrans_pkt_eq, h.flat_map List.dropLast]
  have hdrop : (dic.keys.flatMap fun k =>
      ((data.filter fun p => key p = k).map Packet.timex).dropLast) =
      (dic.keys.flatMap fun k => (data.filter fun p => key p = k).dropLast).map Packet.timex := by
    rw [List.map_flatMap]
    exact List.flatMap_congr fun k _ => List.map_dropLast.symm
  rw [hdrop]
  exact (repeated_perm key h.nodup h.complete).map _

end Run

theorem retransnew_ok (p : Packet) (log : List Packet) (timeOther : Int) :
    ∃ rows, retransnew ((p :: log).map .packet) timeOther = .ok rows ∧
      rows.Pairwise (· ≤ ·) ∧
      rows.Perm ((repeated (fun p q => decide (key q = key p))
        (dataPackets (p :: log) timeOther)).map Packet.timex) := by
  refine ⟨_, rfl, sorted_by_pairwise id _, ?_⟩
  refine (List.perm_insertionSort _ _).trans (retrans_pkt_perm ?_)
  exact read_files (p :: log) Dict.Files.nil

/-- The script writes the retransmissions of each flow exactly if the log is not empty
and no data packet is repeated in other flows only. -/
theorem retransnew_iff (log : List Packet) (timeOther : Int) :
    PerFlow log timeOther ↔ log ≠ [] ∧ OwnRepeats (dataPackets log timeOther) := by
  cases log with
  | nil =>
    refine iff_of_false ?_ fun h => h.1 rfl
    rintro ⟨rows, hrun, -⟩
    cases hrun
  | cons p log =>
    obtain ⟨rows, hrun, hsorted, hperm⟩ := retransnew_ok p log timeOther
    have hwide : ∀ q r : Packet, sameSegment q r = true → decide (key r = key q) = true :=
      fun q r h => decide_eq_true (key_eq_iff.mpr (of_decide_eq_true h).2)
    have hlength := repeated_length_iff hwide (dataPackets (p :: log) timeOther)
    have hown : OwnRepeats (dataPackets (p :: log) timeOther) ↔
        (repeated sameSegment (dataPackets (p :: log) timeOther)).length =
          (repeated (fun q r => decide (key r = key q))
            (dataPackets (p :: log) timeOther)).length := by
      rw [hlength]
      simp only [OwnRepeats, sameSegment, decide_eq_true_eq, key_eq_iff]
    rw [hown]
    constructor
    · rintro ⟨rows', hrun', -, hperm'⟩
      rw [hrun] at hrun'
      obtain rfl := Except.ok.inj hrun'
      have hcount := (hperm'.symm.trans hperm).length_eq
      rw [List.length_map, List.length_map] at hcount
      exact ⟨List.cons_ne_nil p log, hcount⟩
    · rintro ⟨-, hcount⟩
      have hequal := (repeated_sublist hwide (dataPackets (p :: log) timeOther)).eq_of_length hcount
      exact ⟨rows, hrun, hsorted, by rwa [hequal]⟩

/-- Two flows that happen to send the same sequence number. -/
theorem retransnew_crosses_flows : ¬ PerFlow
    [⟨10, "10.0.0.1".toList, "10.0.0.9".toList, "80".toList, "5000".toList, 7, 100⟩,
      ⟨11, "10.0.0.2".toList, "10.0.0.9".toList, "80".toList, "5001".toList, 7, 100⟩] 0 := by
  rintro ⟨rows, hrun, -, hperm⟩
  have hwritten : retransnew
      [.packet ⟨10, "10.0.0.1".toList, "10.0.0.9".toList, "80".toList, "5000".toList, 7, 100⟩,
        .packet ⟨11, "10.0.0.2".toList, "10.0.0.9".toList, "80".toList, "5001".toList, 7, 100⟩]
      0 = .ok [10] := by decide
  obtain rfl := Except.ok.inj (hwritten.symm.trans hrun)
  exact absurd hperm.length_eq (by decide)

end ApTelemetry.Compute.RetransNew
