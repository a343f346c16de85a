import ApTelemetry.DropLog.Codel
import ApTelemetry.DropLog.Mac80211
import ApTelemetry.Wire.Decoders
import Mathlib.Algebra.GroupWithZero.Nat

namespace ApTelemetry.Receiver.DropWindow
open Lib DropLog Wire

structure DropTime where
  sec : U32
  usec : U32
  count : U32

/-- The globals `drop_count` and `last_100_ms_drop`. -/
structure State where
  dropCount : U32
  lastDrop : DropTime

def initial : State := ⟨0, ⟨0, 0, 0⟩⟩

def microseconds (sec usec : U32) : U64 := sec.setWidth 64 * 1000000 + usec.setWidth 64

/-- The difference is unsigned, so an earlier record closes a window too. -/
def Closes (s : State) (rdata : DpPacket) : Prop :=
  900000 ≤ microseconds rdata.sec rdata.usec - microseconds s.lastDrop.sec s.lastDrop.usec

instance (s : State) (rdata : DpPacket) : Decidable (Closes s rdata) :=
  inferInstanceAs (Decidable (_ ≤ _))

/-- What `decode_drops` does behind its log line. -/
def decodeDrops (rdata : DpPacket) (s : State) : State :=
  if Closes s rdata then
    { dropCount := rdata.dropCount - s.lastDrop.count
      lastDrop := ⟨rdata.sec, rdata.usec, rdata.dropCount⟩ }
  else s

inductive Logger where
  | codelDequeue
  | ieee80211TxStatus

def Logger.log : Logger → Variant
  | codelDequeue => Codel.codelLog
  | ieee80211TxStatus => Mac80211.macLog

/-- A dropped packet as one of the two logs notes it down, and the word of the
list pointer that is sent along. -/
structure Logged where
  logger : Logger
  skb : Skb
  now : Clock
  next : U32

def Logged.packet (d : Logged) : DpPacket := droppedPacket d.logger.log.dpl d.skb d.now

/-- The record as `decode_drops` has it behind the copy and the byte swaps. -/
def Logged.rdata (d : Logged) : DpPacket := swapDrops (loadDrops (dropsBytes d.packet d.next))

/-- The server with the number of records received in all and since the last
window was closed, which nothing reads. -/
structure Run where
  server : State
  total : Nat
  since : Nat

def exec (s : Run) (d : Logged) : Except Fault Run :=
  .ok
    { server := decodeDrops d.rdata s.server
      total := s.total + 1
      since := if Closes s.server d.rdata then 0 else s.since + 1 }

def machine : Machine Run Logged Fault := ⟨⟨initial, 0, 0⟩, fun _ _ => True, exec⟩

/-- A window that closes is given the number of its records. -/
def Counted (s : Run) (d : Logged) (r : Except Fault Run) : Prop :=
  ∃ t, r = .ok t ∧ (Closes s.server d.rdata → t.server.dropCount.toNat = s.since + 1)

/-- Only the first record of all closes a window. -/
def OnlyFirst (s : Run) (d : Logged) : Prop := Closes s.server d.rdata → s.total = 0

theorem rdata_drop_count (d : Logged) : d.rdata.dropCount = 1 := by
  rw [Logged.rdata, decode_drops_bytes]
  rfl

/-- The count of the last window is that of its last record, which is always one. -/
def Invariant (s : Run) : Prop :=
  s.server.lastDrop.count = 0 ∧ s.since = s.total ∨
    s.server.lastDrop.count = 1 ∧ s.since < s.total

theorem invariant_exec {s t : Run} {d : Logged} (h : Invariant s) (ht : exec s d = .ok t) :
    Invariant t := by
  obtain rfl := Except.ok.inj ht
  by_cases hcloses : Closes s.server d.rdata
  · right
    simp only [decodeDrops, if_pos hcloses, rdata_drop_count, true_and]
    exact Nat.succ_pos _
  · simp only [Invariant, decodeDrops, if_neg hcloses]
    rcases h with ⟨hcount, hsince⟩ | ⟨hcount, hsince⟩
    · exact .inl ⟨hcount, congrArg (· + 1) hsince⟩
    · exact .inr ⟨hcount, Nat.succ_lt_succ hsince⟩

theorem counted_iff {s : Run} (h : Invariant s) (d : Logged) :
    Counted s d (exec s d) ↔ OnlyFirst s d := by
  have hvalue : Closes s.server d.rdata →
      (decodeDrops d.rdata s.server).dropCount = 1 - s.server.lastDrop.count := by
    intro hcloses
    rw [decodeDrops, if_pos hcloses, rdata_drop_count]
  have hcounted : Counted s d (exec s d) ↔
      (Closes s.server d.rdata →
        (1 - s.server.lastDrop.count).toNat = s.since + 1) := by
    constructor
    · rintro ⟨t, ht, hcount⟩ hcloses
      obtain rfl := Except.ok.inj ht
      exact hvalue hcloses ▸ hcount hcloses
    · intro hcount
      exact ⟨_, rfl, fun hcloses => hvalue hcloses ▸ hcount hcloses⟩
  rw [hcounted]
  refine imp_congr_right fun _ => ?_
  rcases h with ⟨hcount, hsince⟩ | ⟨hcount, hsince⟩
  · rw [hcount]
    have hone : ((1 : U32) - 0).toNat = 1 := by decide
    omega
  · rw [hcount]
    have hzero : ((1 : U32) - 1).toNat = 0 := by decide
    omega

/-- The values of a run are numbers of drops exactly if no record but the first
of all closes a window. -/
theorem drop_count_iff (records : List Logged) :
    machine.Throughout Counted machine.start records ↔
    machine.Throughout (fun s d _ => OnlyFirst s d) machine.start records :=
  Machine.throughout_iff Invariant (fun _ d hs _ => counted_iff hs d)
    (fun _ _ _ hs _ _ ht => invariant_exec hs ht) (.inl ⟨rfl, rfl⟩) records

def dropAt (sec : U32) : Logged := ⟨.codelDequeue, ⟨1, 2, 80, 8080, 5, 6⟩, ⟨sec, 0, 0⟩, 0⟩

/-- The second of two drops closes a window of one record with zero. -/
theorem second_window_zero : ¬ ∀ records : List Logged,
    records.Pairwise (fun d d' => d.now.stamp ≤ d'.now.stamp) →
    machine.Throughout Counted machine.start records := by
  intro h
  have hordered : [dropAt 1, dropAt 2].Pairwise fun d d' => d.now.stamp ≤ d'.now.stamp := by
    refine List.pairwise_pair.mpr (le_of_lt ((stamp_lt_iff ..).mpr (.inl ?_)))
    exact show (1 : U32) < 2 by decide
  obtain ⟨-, hnext⟩ := h [dropAt 1, dropAt 2] hordered trivial
  obtain ⟨⟨t, ht, hcount⟩, -⟩ := hnext _ rfl trivial
  obtain rfl := Except.ok.inj ht
  exact absurd (hcount (by decide)) (by decide)

end ApTelemetry.Receiver.DropWindow
