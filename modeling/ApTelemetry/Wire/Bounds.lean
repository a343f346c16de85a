import ApTelemetry.Receiver.Pool
import ApTelemetry.Wire.Process

namespace ApTelemetry.Wire
open Lib

/-- The category word at the front of a record, as `process` reads it. -/
def categoryWord (b0 b1 : U8) : U16 := reversebytesUint16t (le16 b0 b1)

/-- Bytes in which every record is there to its last byte, up to the end or to
the first word that names no category. -/
def WholeRecords : List U8 → Prop
  | [] => True
  | [_] => False
  | b0 :: b1 :: rest =>
    match dispatch (categoryWord b0 b1) with
    | none => True
    | some decoder => 6 + decoder.size ≤ rest.length ∧ WholeRecords (rest.drop (6 + decoder.size))
termination_by bytes => bytes.length
decreasing_by simp_wf; omega

theorem whole_records_stop {b0 b1 : U8} {rest : List U8}
    (h : dispatch (categoryWord b0 b1) = none) : WholeRecords (b0 :: b1 :: rest) := by
  rw [WholeRecords, h]
  trivial

theorem whole_records_record {b0 b1 : U8} {rest : List U8} {decoder : Decoder}
    (h : dispatch (categoryWord b0 b1) = some decoder) :
    WholeRecords (b0 :: b1 :: rest) ↔
      6 + decoder.size ≤ rest.length ∧ WholeRecords (rest.drop (6 + decoder.size)) := by
  rw [WholeRecords, h]

/-- A decoder stays inside exactly when the address and the body both do. -/
theorem decoder_run_ok_iff (decoder : Decoder) (buffer : List U8) (offset : Nat) :
    (∃ rdata, decoder.run buffer offset = .ok rdata) ↔
      offset + (6 + decoder.size) ≤ buffer.length := by
  by_cases h : offset + (6 + decoder.size) ≤ buffer.length
  · have hmac : slice buffer offset 6 = .ok _ := slice_ok (by omega)
    have hbody : slice buffer (offset + 6) decoder.size = .ok _ := slice_ok (by omega)
    simp [Decoder.run, hmac, hbody, bind, Except.bind, h]
  · have hbody : slice buffer (offset + 6) decoder.size = .error .outside := if_neg (by omega)
    simp only [Decoder.run, bind, Except.bind, hbody, h, iff_false]
    rintro ⟨rdata, hrun⟩
    split at hrun <;> cases hrun

section Word

variable {before rest : List U8} {b0 b1 : U8} {length : Nat}

theorem read_word : slice (before ++ b0 :: b1 :: rest) before.length 2 = .ok [b0, b1] :=
  slice_append before [b0, b1] rest

theorem process_from_stop (h : dispatch (categoryWord b0 b1) = none)
    (hlt : before.length < length) :
    processFrom (before ++ b0 :: b1 :: rest) length before.length = .ok [] := by
  have hword : reversebytesUint16t (load16 [b0, b1] 0) = categoryWord b0 b1 := rfl
  rw [processFrom, if_pos hlt, read_word]
  simp only [bind, Except.bind, hword, h]

theorem process_from_record {decoder : Decoder} (h : dispatch (categoryWord b0 b1) = some decoder)
    (hlt : before.length < length) :
    processFrom (before ++ b0 :: b1 :: rest) length before.length = (do
      let rdata ← decoder.run (before ++ b0 :: b1 :: rest) (before.length + 2)
      let later ← processFrom (before ++ b0 :: b1 :: rest) length
        (before.length + 2 + (decoder.size + 6))
      .ok (rdata :: later)) := by
  have hword : reversebytesUint16t (load16 [b0, b1] 0) = categoryWord b0 b1 := rfl
  rw [processFrom, if_pos hlt, read_word]
  simp only [bind, Except.bind, hword, h]

end Word

/-- The induction is on the bytes left, for any bytes already passed. -/
theorem process_from_ok_iff (before bytes : List U8) :
    (∃ decoded, processFrom (before ++ bytes) (before ++ bytes).length before.length =
      .ok decoded) ↔ WholeRecords bytes := by
  induction bytes using WholeRecords.induct generalizing before with
  | case1 =>
    rw [processFrom, if_neg (by simp)]
    simp [WholeRecords]
  | case2 b =>
    have hslice : slice (before ++ [b]) before.length 2 = .error .outside := if_neg (by simp)
    rw [processFrom, if_pos (by simp), hslice]
    simp [WholeRecords, bind, Except.bind]
  | case3 b0 b1 rest hnone =>
    rw [process_from_stop hnone (by simp)]
    simp [whole_records_stop hnone]
  | case4 b0 b1 rest decoder hsome ih =>
    rw [process_from_record hsome (by simp), whole_records_record hsome]
    have hdecoder := decoder_run_ok_iff decoder (before ++ b0 :: b1 :: rest) (before.length + 2)
    by_cases hfits : 6 + decoder.size ≤ rest.length
    · obtain ⟨rdata, hrun⟩ := hdecoder.mpr (by simp; omega)
      have hsplit : before ++ b0 :: b1 :: rest =
          (before ++ b0 :: b1 :: rest.take (6 + decoder.size)) ++ rest.drop (6 + decoder.size) := by
        simp
      have hlater := ih (before ++ b0 :: b1 :: rest.take (6 + decoder.size))
      rw [← hsplit] at hlater
      have hoffset : (before ++ b0 :: b1 :: rest.take (6 + decoder.size)).length =
          before.length + 2 + (decoder.size + 6) := by
        simp
        omega
      rw [hoffset] at hlater
      simp only [hrun, bind, Except.bind, hfits, true_and]
      rw [← hlater]
      constructor
      · rintro ⟨decoded, hdecoded⟩
        split at hdecoded
        · cases hdecoded
        · exact ⟨_, by assumption⟩
      · rintro ⟨later, hdecoded⟩
        exact ⟨rdata :: later, by rw [hdecoded]⟩
    · have hnot := mt hdecoder.mp (by simp; omega)
      simp only [hfits, false_and, iff_false]
      rintro ⟨decoded, hdecoded⟩
      simp only [bind, Except.bind] at hdecoded
      split at hdecoded
      · cases hdecoded
      · exact hnot ⟨_, by assumption⟩

theorem process_ok_iff {buffer : List U8} {length : Nat} (h : buffer.length = length) :
    (∃ decoded, process buffer length = .ok decoded) ↔ WholeRecords buffer := by
  have hiff := process_from_ok_iff [] buffer
  rw [List.nil_append, h] at hiff
  exact hiff

/-- Reading the 1024 bytes of a datagram, `process` and its decoders stay inside
exactly when its records are whole. -/
theorem process_within_iff (message : Receiver.Datagram) :
    (∃ decoded, process message.bytes 1024 = .ok decoded) ↔ WholeRecords message.bytes :=
  process_ok_iff message.full

theorem category_word_bytes (c : DataCategory) :
    categoryWord (byte c.code 1) (byte c.code 0) = c.code :=
  reversebytes_uint16t c.code

/-- A batch of records is as whole as what follows it. -/
theorem whole_records_batch (records : List Record) (rest : List U8) :
    WholeRecords (bytesOf records ++ rest) ↔ WholeRecords rest := by
  induction records with
  | nil => rfl
  | cons r later ih =>
    have hdispatch : dispatch (categoryWord (byte r.category.code 1) (byte r.category.code 0)) =
        some r.decoder := by
      rw [category_word_bytes, dispatch_category]
    have hbytes : bytesOf (r :: later) ++ rest = byte r.category.code 1 ::
        byte r.category.code 0 :: (macBytes r.mac ++ r.body ++ (bytesOf later ++ rest)) := by
      simp [bytesOf, Record.bytes, be16]
    have hlength : (macBytes r.mac ++ r.body).length = 6 + r.decoder.size := by
      rw [List.length_append, length_mac_bytes, length_body, decoder_size]
    rw [hbytes, whole_records_record hdispatch, ← hlength, List.drop_left, ih]
    simp

/-- Fourteen survey records and the category of a fifteenth, with sixteen bytes
left for it. -/
def cutSurvey : Receiver.Datagram where
  bytes := bytesOf
    (List.replicate 14 (.survey ⟨2, 0, 0, 0, 0, 1⟩ ⟨1, 2, 3, 4, 5, 6, 7, 8, 9, 0, 0, 0⟩))
    ++ 0 :: 6 :: List.replicate 14 0
  full := by simp [bytesOf, Record.bodySize, Receiver.sendSize]

/-- Its decoder copies 56 bytes from behind the buffer. -/
theorem cut_survey_outside : ¬ ∃ decoded, process cutSurvey.bytes 1024 = .ok decoded := by
  have hdispatch : dispatch (categoryWord 0 6) = some decodeSurvey := rfl
  have hfull : cutSurvey.bytes.length = 1024 := cutSurvey.full
  rw [process_ok_iff hfull, cutSurvey, whole_records_batch, whole_records_record hdispatch]
  simp [decodeSurvey]

end ApTelemetry.Wire
