import Mathlib.Data.List.Forall2
import ApTelemetry.Wire.Decoders

namespace ApTelemetry.Wire
open Lib

/-- The `switch` over the category; every other value ends the loop. -/
def dispatch (value : U16) : Option Decoder :=
  if value = DataCategory.winsize.code then some decodeWinsize
  else if value = DataCategory.drops.code then some decodeDrops
  else if value = DataCategory.iw.code then some decodeIw
  else if value = DataCategory.queue.code then some decodeQueue
  else if value = DataCategory.beacon.code then some decodeBeacon
  else if value = DataCategory.survey.code then some decodeSurvey
  else none

/-- The loop of `process`: the decoder calls made from `offset` on. -/
def processFrom (buffer : List U8) (length offset : Nat) : Except Fault (List Decoded) :=
  if offset < length then do
    let value ← slice buffer offset 2
    match dispatch (reversebytesUint16t (load16 value 0)) with
    | some decoder => do
      let rdata ← decoder.run buffer (offset + 2)
      let later ← processFrom buffer length (offset + 2 + (decoder.size + 6))
      .ok (rdata :: later)
    | none => .ok []
  else .ok []
termination_by length - offset
decreasing_by omega

def process (buffer : List U8) (length : Nat) : Except Fault (List Decoded) :=
  processFrom buffer length 0

def Record.decoder : Record → Decoder
  | .winsize .. => decodeWinsize
  | .drops .. => decodeDrops
  | .iw .. => decodeIw
  | .queue .. => decodeQueue
  | .beacon .. => decodeBeacon
  | .survey .. => decodeSurvey

/-- What arrives of a record: all of it but the list pointer, and the pad words
and `timein` in the sender's byte order. -/
def Record.received : Record → Decoded
  | .winsize m w => .winsize m w
  | .drops m d _ => .drops m { d with pad := swap16 d.pad, pad1 := swap32 d.pad1 }
  | .iw m i _ => .iw m { i with pad := swap32 i.pad }
  | .queue m q => .queue m { q with pad := swap32 q.pad }
  | .beacon m b _ => .beacon m { b with timein := swap32 b.timein, pad1 := swap32 b.pad1 }
  | .survey m s => .survey m s

theorem dispatch_category (r : Record) : dispatch r.category.code = some r.decoder := by
  cases r <;> rfl

theorem decoder_size (r : Record) : r.decoder.size = r.bodySize := by
  cases r <;> rfl

theorem decode_body (r : Record) : r.decoder.decode r.mac r.body = r.received := by
  cases r with
  | winsize m w => exact congrArg (Decoded.winsize m) (decode_winsize_bytes w)
  | drops m d next => exact congrArg (Decoded.drops m) (decode_drops_bytes d next)
  | iw m i next => exact congrArg (Decoded.iw m) (decode_iw_bytes i next)
  | queue m q => exact congrArg (Decoded.queue m) (decode_queue_bytes q)
  | beacon m b next => exact congrArg (Decoded.beacon m) (decode_beacon_bytes b next)
  | survey m s => exact congrArg (Decoded.survey m) (decode_survey_bytes s)

theorem load_mac_bytes (m : Mac) : loadMac (macBytes m) 0 = m := by
  rw [loadMac, List.drop_zero, ← List.append_nil (macBytes m), first_mac]

theorem read_category (c : DataCategory) :
    reversebytesUint16t (load16 (be16 c.code) 0) = c.code := by
  rw [load16, List.drop_zero, ← List.append_nil (be16 c.code), first16_be16, reversebytes_uint16t]

/-- The decoder of a record, called behind the record's category. -/
theorem decoder_run (r : Record) (before after : List U8) :
    r.decoder.run (before ++ (r.bytes ++ after)) (before.length + 2) = .ok r.received := by
  have hmac : slice (before ++ (r.bytes ++ after)) (before.length + 2) 6 =
      .ok (macBytes r.mac) := by
    have hslice := slice_append (before ++ be16 r.category.code) (macBytes r.mac) (r.body ++ after)
    simpa [Record.bytes, List.append_assoc] using hslice
  have hbody : slice (before ++ (r.bytes ++ after)) (before.length + 2 + 6) r.decoder.size =
      .ok r.body := by
    have hslice := slice_append (before ++ be16 r.category.code ++ macBytes r.mac) r.body after
    simpa [Record.bytes, List.append_assoc, decoder_size] using hslice
  simp only [Decoder.run, hmac, hbody, bind, Except.bind, load_mac_bytes, decode_body]

/-- The zeros behind the last record name no category. -/
theorem process_padding (before : List U8) (zeros : Nat) (heven : zeros % 2 = 0) :
    processFrom (before ++ List.replicate zeros 0) (before.length + zeros) before.length =
      .ok [] := by
  rw [processFrom]
  split
  · obtain ⟨more, rfl⟩ : ∃ more, zeros = 2 + more := ⟨zeros - 2, by omega⟩
    have hslice := slice_append before [0, 0] (List.replicate more (0 : U8))
    have hzero : slice (before ++ List.replicate (2 + more) (0 : U8)) before.length 2 =
        .ok [0, 0] := by
      rw [← hslice, Nat.add_comm]
      rfl
    rw [hzero]
    rfl
  · rfl

/-- Every record is passed to its decoder, and the loop goes on behind it. The
induction is on the records left, for any bytes already passed. -/
theorem process_records (before : List U8) (records : List Record) (zeros : Nat)
    (heven : zeros % 2 = 0) :
    processFrom (before ++ (bytesOf records ++ List.replicate zeros 0))
      (before.length + ((bytesOf records).length + zeros)) before.length =
        .ok (records.map Record.received) := by
  induction records generalizing before with
  | nil => simpa [bytesOf] using process_padding before zeros heven
  | cons r rest ih =>
    have hbytes : bytesOf (r :: rest) = r.bytes ++ bytesOf rest := rfl
    have hcategory : slice (before ++ (r.bytes ++ (bytesOf rest ++ List.replicate zeros 0)))
        before.length 2 = .ok (be16 r.category.code) := by
      have hslice := slice_append before (be16 r.category.code)
        (macBytes r.mac ++ r.body ++ (bytesOf rest ++ List.replicate zeros 0))
      simpa [Record.bytes, List.append_assoc] using hslice
    have hnext := ih (before ++ r.bytes)
    rw [List.append_assoc, List.length_append, length_bytes] at hnext
    have hlength : before.length + ((bytesOf (r :: rest)).length + zeros) =
        before.length + (8 + r.bodySize) + ((bytesOf rest).length + zeros) := by
      rw [hbytes, List.length_append, length_bytes]
      omega
    have hoffset : before.length + 2 + (r.bodySize + 6) = before.length + (8 + r.bodySize) := by
      omega
    rw [hlength, hbytes, List.append_assoc, processFrom, if_pos (by omega), hcategory]
    simp only [bind, Except.bind, read_category, dispatch_category, decoder_run, decoder_size,
      hoffset, hnext, List.map_cons]

/-- The address and every field that the decoder logs are the sender's. -/
def SameLogged : Record → Decoded → Prop
  | .winsize m w, .winsize mac rdata =>
    mac = m ∧ rdata.sec = w.sec ∧ rdata.usec = w.usec ∧ rdata.ipSrc = w.ipSrc ∧
      rdata.ipDst = w.ipDst ∧ rdata.sourceaddr = w.sourceaddr ∧
      rdata.destination = w.destination ∧ rdata.sequence = w.sequence ∧
      rdata.ackSequence = w.ackSequence ∧ rdata.windowsize = w.windowsize ∧
      rdata.datalength = w.datalength ∧ rdata.flags = w.flags ∧ rdata.wscale0 = w.wscale0 ∧
      rdata.wscale1 = w.wscale1 ∧ rdata.wscale2 = w.wscale2
  | .drops m d _, .drops mac rdata =>
    mac = m ∧ rdata.sec = d.sec ∧ rdata.usec = d.usec ∧ rdata.ipSrc = d.ipSrc ∧
      rdata.ipDst = d.ipDst ∧ rdata.portSrc = d.portSrc ∧ rdata.portDst = d.portDst ∧
      rdata.sequence = d.sequence ∧ rdata.ackSequence = d.ackSequence ∧
      rdata.inTime = d.inTime ∧ rdata.dpl = d.dpl ∧ rdata.dropCount = d.dropCount
  | .iw m i _, .iw mac rdata =>
    mac = m ∧ rdata.sec = i.sec ∧ rdata.usec = i.usec ∧ rdata.station = i.station ∧
      rdata.device = i.device ∧ rdata.inactiveTime = i.inactiveTime ∧
      rdata.rxBytes = i.rxBytes ∧ rdata.rxPackets = i.rxPackets ∧ rdata.txBytes = i.txBytes ∧
      rdata.txPackets = i.txPackets ∧ rdata.txRetries = i.txRetries ∧
      rdata.txFailed = i.txFailed ∧ rdata.signal = i.signal ∧ rdata.signalAvg = i.signalAvg ∧
      rdata.expectedThroughput = i.expectedThroughput
  | .queue m q, .queue mac rdata =>
    mac = m ∧ rdata.sec = q.sec ∧ rdata.usec = q.usec ∧ rdata.queueId = q.queueId ∧
      rdata.bytes = q.bytes ∧ rdata.packets = q.packets ∧ rdata.qlen = q.qlen ∧
      rdata.backlog = q.backlog ∧ rdata.drops = q.drops ∧ rdata.requeues = q.requeues ∧
      rdata.overlimits = q.overlimits
  | .beacon m b _, .beacon mac rdata =>
    mac = m ∧ rdata.sec = b.sec ∧ rdata.usec = b.usec ∧ rdata.dataRate = b.dataRate ∧
      rdata.freq = b.freq ∧ rdata.signal = b.signal ∧ rdata.bssid = b.bssid
  | .survey m s, .survey mac rdata =>
    mac = m ∧ rdata.sec = s.sec ∧ rdata.usec = s.usec ∧ rdata.time = s.time ∧
      rdata.timeBusy = s.timeBusy ∧ rdata.timeExtBusy = s.timeExtBusy ∧
      rdata.timeRx = s.timeRx ∧ rdata.timeTx = s.timeTx ∧ rdata.timeScan = s.timeScan ∧
      rdata.centerFreq = s.centerFreq ∧ rdata.noise = s.noise
  | _, _ => False

theorem same_logged_received (r : Record) : SameLogged r r.received := by
  cases r <;> simp [SameLogged, Record.received]

/-- A datagram of any records is read back record by record: the right decoders
are called in order, nothing is called on the padding, and what each decoder
logs is what was sent. -/
theorem process_round_trip (records : List Record) (hfits : (bytesOf records).length ≤ 1024) :
    ∃ decoded, process (padded records 1024) 1024 = .ok decoded ∧
      List.Forall₂ SameLogged records decoded := by
  refine ⟨records.map Record.received, ?_, ?_⟩
  · have heven := even_bytes records
    have hrun := process_records [] records (1024 - (bytesOf records).length) (by omega)
    have hlength : (bytesOf records).length + (1024 - (bytesOf records).length) = 1024 := by omega
    rw [process, padded]
    simpa only [List.nil_append, List.length_nil, Nat.zero_add, hlength] using hrun
  · rw [List.forall₂_map_right_iff]
    exact List.forall₂_same.mpr fun r _ => same_logged_received r

/-- A mixed datagram that fills the buffer to its last byte. -/
def fullDatagram : List Record :=
  .winsize ⟨2, 0, 0, 0, 0, 1⟩ ⟨1, 2, 3, 4, 5, 6, 7, 8, 9, 10, 11, 12, 13, 14, 0⟩ ::
    List.replicate 2 (.beacon ⟨2, 0, 0, 0, 0, 1⟩ ⟨1, 2, 3, 4, 5, 6, 0, ⟨2, 0, 0, 0, 0, 3⟩, 0⟩ 0) ++
    List.replicate 16 (.queue ⟨2, 0, 0, 0, 0, 1⟩ ⟨3, 2, 3, 4, 5, 6, 7, 8, 9, 10, 0⟩)

theorem process_round_trip_full : (bytesOf fullDatagram).length = 1024 ∧
    ∃ decoded, process (padded fullDatagram 1024) 1024 = .ok decoded ∧
      List.Forall₂ SameLogged fullDatagram decoded := by
  have hsize : (bytesOf fullDatagram).length = 1024 := by
    simp [bytesOf, fullDatagram, Record.bodySize]
  exact ⟨hsize, process_round_trip fullDatagram hsize.le⟩

end ApTelemetry.Wire
