import ApTelemetry.Lib.Lines
import ApTelemetry.Wire.Decoders

namespace ApTelemetry.ServerLog
open Lib Wire

def hexByte (b : U8) : Str := [Nat.digitChar (b.toNat / 16), Nat.digitChar (b.toNat % 16)]

/-- `mac_tranADDR_toString_r` -/
def macText (m : Mac) : Str := [':'].intercalate ([m.b0, m.b1, m.b2, m.b3, m.b4, m.b5].map hexByte)

/-- A byte of a word in the receiver's memory. -/
def byteAt (v : U32) (k : Nat) : U8 := v.extractLsb' (8 * k) 8

/-- `"%u.%u.%u.%u"` of the bytes of an address. -/
def ipText (v : U32) : Str :=
  ['.'].intercalate ([byteAt v 3, byteAt v 2, byteAt v 1, byteAt v 0].map fun b =>
    Nat.toDigits 10 b.toNat)

/-- `timex`, in microseconds. -/
def timex (sec usec : U32) : U64 := sec.setWidth 64 * 1000000 + usec.setWidth 64

/-- `%.18s` -/
def upTo18 (s : Str) : Arg := .s (s.take 18)

/-- The category, printed with `%d`. -/
def category (c : DataCategory) : Arg := .d c.code.toNat

def decodeDropsLine (mac : Mac) (rdata : DpPacket) : List Arg :=
  [category .drops, .d (timex rdata.sec rdata.usec).toInt, upTo18 (macText mac),
    .s (ipText rdata.ipSrc), .s (ipText rdata.ipDst), .u rdata.portSrc.toNat,
    .u rdata.portDst.toNat, .u rdata.sequence.toNat, .u rdata.ackSequence.toNat,
    .u rdata.inTime.toNat, .u rdata.dpl.toNat, .u rdata.dropCount.toNat]

/-- The last column is `expected_throughput`, a float: `shown` is the number of
millionths that `%f` shows of it. -/
def decodeIwLine (shown : U32 → Nat) (mac : Mac) (rdata : DataIw) : List Arg :=
  [category .iw, .d (timex rdata.sec rdata.usec).toInt, upTo18 (macText mac),
    upTo18 (macText rdata.station), .u rdata.device.toNat, .u rdata.inactiveTime.toNat,
    .u rdata.rxBytes.toNat, .u rdata.rxPackets.toNat, .u rdata.txBytes.toNat,
    .u rdata.txPackets.toNat, .u rdata.txRetries.toNat, .u rdata.txFailed.toNat,
    .d rdata.signal.toInt, .d rdata.signalAvg.toInt, .f (shown rdata.expectedThroughput)]

def decodeQueueLine (mac : Mac) (rdata : DataQueue) : List Arg :=
  [category .queue, .d (timex rdata.sec rdata.usec).toInt, upTo18 (macText mac),
    .u rdata.queueId.toNat, .u rdata.bytes.toNat, .u rdata.packets.toNat, .u rdata.qlen.toNat,
    .u rdata.backlog.toNat, .u rdata.drops.toNat, .u rdata.requeues.toNat,
    .u rdata.overlimits.toNat]

/-- `signal1` is the signal as an `int`, printed as unsigned. -/
def decodeBeaconLine (mac : Mac) (beacon : DataBeacon) : List Arg :=
  [category .beacon, .d (timex beacon.sec beacon.usec).toInt, upTo18 (macText mac),
    .u beacon.dataRate.toNat, .u beacon.freq.toNat, .u (beacon.signal.signExtend 32).toNat,
    upTo18 (macText beacon.bssid)]

def decodeSurveyLine (mac : Mac) (rdata : DataSurvey) : List Arg :=
  [category .survey, .d (timex rdata.sec rdata.usec).toInt, upTo18 (macText mac),
    .u rdata.time.toNat, .u rdata.timeBusy.toNat, .u rdata.timeExtBusy.toNat, .u rdata.timeRx.toNat,
    .u rdata.timeTx.toNat, .u rdata.timeScan.toNat, .u rdata.centerFreq.toNat,
    .d rdata.noise.toInt]

/-- What the decoder of a record writes to `fp`. The window sizes go to a file of
their own. -/
def lineOf (shown : U32 → Nat) : Decoded → Option (List Arg)
  | .winsize _ _ => none
  | .drops mac rdata => some (decodeDropsLine mac rdata)
  | .iw mac rdata => some (decodeIwLine shown mac rdata)
  | .queue mac rdata => some (decodeQueueLine mac rdata)
  | .beacon mac beacon => some (decodeBeaconLine mac beacon)
  | .survey mac rdata => some (decodeSurveyLine mac rdata)

/-- The log after some records. -/
def logFile (shown : U32 → Nat) (records : List Decoded) : Str :=
  (records.filterMap (lineOf shown)).flatMap printLine

section Plain

/-- A text in which no separator and no line end stands. -/
def Plain (s : Str) : Prop := ',' ∉ s ∧ '\n' ∉ s

theorem Plain.of_forall {s : Str} (h : ∀ c ∈ s, c ≠ ',' ∧ c ≠ '\n') : Plain s :=
  ⟨fun hm => (h _ hm).1 rfl, fun hm => (h _ hm).2 rfl⟩

theorem digit_char_plain :
    ∀ n : Nat, Nat.digitChar n ≠ ',' ∧ Nat.digitChar n ≠ '\n'
  | 0 | 1 | 2 | 3 | 4 | 5 | 6 | 7 | 8 | 9 | 10 | 11 | 12 | 13 | 14 | 15 => by decide
  | _ + 16 => by simp [Nat.digitChar]

theorem digits_plain {s : Str} (h : ∀ c ∈ s, c.isDigit = true) :
    ∀ c ∈ s, c ≠ ',' ∧ c ≠ '\n' := by
  intro c hc
  constructor
  · rintro rfl
    exact absurd (h _ hc) (by decide)
  · rintro rfl
    exact absurd (h _ hc) (by decide)

theorem int_text_plain (n : Int) : Plain (intText n) := by
  refine Plain.of_forall fun c hc => ?_
  unfold intText at hc
  split at hc
  · rcases List.mem_cons.mp hc with rfl | hc
    · decide
    · exact digits_plain to_digits_digit c hc
  · exact digits_plain to_digits_digit c hc

theorem float_text_plain (m : Nat) : Plain (Arg.f m).text := by
  refine Plain.of_forall fun c hc => ?_
  rcases List.mem_append.mp hc with hc | hc
  · exact digits_plain to_digits_digit c hc
  · rcases List.mem_cons.mp hc with rfl | hc
    · decide
    · exact digits_plain low_digits_digit c hc

theorem mac_text_plain (m : Mac) : Plain ((macText m).take 18) := by
  refine Plain.of_forall fun c hc => ?_
  refine join_forall (P := fun c => c ≠ ',' ∧ c ≠ '\n') (by simp) (fun a ha => ?_) c
    (List.mem_of_mem_take hc)
  obtain ⟨b, -, rfl⟩ := List.mem_map.mp ha
  intro c hc
  rcases List.mem_cons.mp hc with rfl | hc
  · exact digit_char_plain _
  · rw [List.mem_singleton.mp hc]
    exact digit_char_plain _

theorem ip_text_plain (v : U32) : Plain (ipText v) := by
  refine Plain.of_forall (join_forall (P := fun c => c ≠ ',' ∧ c ≠ '\n') (by simp) ?_)
  intro a ha
  obtain ⟨b, -, rfl⟩ := List.mem_map.mp ha
  exact digits_plain to_digits_digit

/-- The text of an address is no number. -/
theorem mac_text_no_int (m : Mac) : Str.toInt? ((macText m).take 18) = none := by
  have hcolon : ':' ∈ (macText m).take 18 := by
    simp [macText, hexByte, List.intercalate_cons_cons]
  exact Str.to_int_none hcolon (by decide) (by decide) (by decide) (by decide)

/-- The columns of every line are plain text. -/
theorem line_plain (shown : U32 → Nat) (r : Decoded) {line : List Arg}
    (h : lineOf shown r = some line) : ∀ a ∈ line, Plain a.text := by
  have hd : ∀ n, Plain (Arg.d n).text := int_text_plain
  have hc : ∀ c, Plain (category c).text := fun c => int_text_plain _
  have hu : ∀ n, Plain (Arg.u n).text := fun n =>
    Plain.of_forall (digits_plain to_digits_digit)
  have hmac : ∀ m, Plain (upTo18 (macText m)).text := mac_text_plain
  have hip : ∀ v, Plain (Arg.s (ipText v)).text := ip_text_plain
  cases r with
  | winsize => simp [lineOf] at h
  | drops mac rdata =>
    rw [← Option.some.inj h]
    simp [decodeDropsLine, hc, hd, hu, hmac, hip]
  | iw mac rdata =>
    rw [← Option.some.inj h]
    simp [decodeIwLine, hc, hd, hu, hmac, float_text_plain]
  | queue mac rdata =>
    rw [← Option.some.inj h]
    simp [decodeQueueLine, hc, hd, hu, hmac]
  | beacon mac beacon =>
    rw [← Option.some.inj h]
    simp [decodeBeaconLine, hc, hd, hu, hmac]
  | survey mac rdata =>
    rw [← Option.some.inj h]
    simp [decodeSurveyLine, hc, hd, hu, hmac]

end Plain

end ApTelemetry.ServerLog
