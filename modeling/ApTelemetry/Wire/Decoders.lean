import ApTelemetry.Lib.Buffer
import ApTelemetry.Wire.Sender

namespace ApTelemetry.Wire
open Lib

def reversebytesUint16t (value : U16) : U16 :=
  (value &&& 0x00FF#16) <<< 8 ||| (value &&& 0xFF00#16) >>> 8

def reversebytesUint32t (value : U32) : U32 :=
  (value &&& 0x000000FF#32) <<< 24 ||| (value &&& 0x0000FF00#32) <<< 8 |||
    (value &&& 0x00FF0000#32) >>> 8 ||| (value &&& 0xFF000000#32) >>> 24

/-- The same text as for unsigned words, applied to an `int`. -/
def reversebytesSint32t (value : U32) : U32 := reversebytesUint32t value

def reversebytesUint64t (value : U64) : U64 :=
  let low := value &&& 0x00000000FFFFFFFF#64
  let high := (value &&& 0xFFFFFFFF00000000#64) >>> 32
  let low32 := reversebytesUint32t (low.setWidth 32)
  let high32 := reversebytesUint32t (high.setWidth 32)
  low32.setWidth 64 <<< 32 ||| high32.setWidth 64

theorem reversebytes_uint16t (v : U16) : reversebytesUint16t (swap16 v) = v := by
  apply BitVec.eq_of_getLsbD_eq
  intro i hi
  simp only [reversebytesUint16t, swap16, le16, byte]
  interval_cases i <;> simp

theorem reversebytes_uint32t (v : U32) : reversebytesUint32t (swap32 v) = v := by
  apply BitVec.eq_of_getLsbD_eq
  intro i hi
  simp only [reversebytesUint32t, swap32, le32, byte]
  interval_cases i <;> simp

theorem low_word (v : U64) : (v &&& 0x00000000FFFFFFFF#64).setWidth 32 = low v := by
  apply BitVec.eq_of_getLsbD_eq
  intro i hi
  simp only [low]
  interval_cases i <;> simp

theorem high_word (v : U64) : ((v &&& 0xFFFFFFFF00000000#64) >>> 32).setWidth 32 = high v := by
  apply BitVec.eq_of_getLsbD_eq
  intro i hi
  simp only [high]
  interval_cases i <;> simp

/-- A 64-bit load finds the halves exchanged and each half swapped. -/
theorem reversebytes_uint64t (v : U64) :
    reversebytesUint64t (le64 (swap32 (high v)) (swap32 (low v))) = v := by
  simp only [reversebytesUint64t, low_word, high_word, low_le64, high_le64, reversebytes_uint32t]
  rw [BitVec.or_comm]
  exact le64_low_high v

/-- What a decoder has in `mac` and `rdata` when it goes on to log them. The
receiver has a pad word where the sender's structures have their list pointer. -/
inductive Decoded where
  | winsize (mac : Mac) (rdata : DataWinsize)
  | drops (mac : Mac) (rdata : DpPacket)
  | iw (mac : Mac) (rdata : DataIw)
  | queue (mac : Mac) (rdata : DataQueue)
  | beacon (mac : Mac) (beacon : DataBeacon)
  | survey (mac : Mac) (rdata : DataSurvey)
  deriving DecidableEq

/-- The structure that the little-endian receiver sees in 40 bytes. -/
def loadWinsize (bytes : List U8) : DataWinsize where
  ipSrc := load32 bytes 0
  ipDst := load32 bytes 4
  sourceaddr := load16 bytes 8
  destination := load16 bytes 10
  sequence := load32 bytes 12
  ackSequence := load32 bytes 16
  flags := load16 bytes 20
  windowsize := load16 bytes 22
  sec := load32 bytes 24
  usec := load32 bytes 28
  datalength := load32 bytes 32
  wscale0 := load8 bytes 36
  wscale1 := load8 bytes 37
  wscale2 := load8 bytes 38
  pad := load8 bytes 39

def swapWinsize (rdata : DataWinsize) : DataWinsize :=
  { rdata with
    datalength := reversebytesUint32t rdata.datalength
    ipSrc := reversebytesUint32t rdata.ipSrc
    ipDst := reversebytesUint32t rdata.ipDst
    sourceaddr := reversebytesUint16t rdata.sourceaddr
    destination := reversebytesUint16t rdata.destination
    sequence := reversebytesUint32t rdata.sequence
    ackSequence := reversebytesUint32t rdata.ackSequence
    flags := reversebytesUint16t rdata.flags
    windowsize := reversebytesUint16t rdata.windowsize
    sec := reversebytesUint32t rdata.sec
    usec := reversebytesUint32t rdata.usec }

def loadDrops (bytes : List U8) : DpPacket where
  ipSrc := load32 bytes 0
  ipDst := load32 bytes 4
  sec := load32 bytes 8
  usec := load32 bytes 12
  portSrc := load16 bytes 16
  portDst := load16 bytes 18
  sequence := load32 bytes 20
  ackSequence := load32 bytes 24
  dropCount := load32 bytes 28
  dpl := load16 bytes 32
  pad := load16 bytes 34
  inTime := load32 bytes 36
  pad1 := load32 bytes 44

def swapDrops (rdata : DpPacket) : DpPacket :=
  { rdata with
    sec := reversebytesUint32t rdata.sec
    usec := reversebytesUint32t rdata.usec
    inTime := reversebytesUint32t rdata.inTime
    sequence := reversebytesUint32t rdata.sequence
    ackSequence := reversebytesUint32t rdata.ackSequence
    ipSrc := reversebytesUint32t rdata.ipSrc
    ipDst := reversebytesUint32t rdata.ipDst
    portSrc := reversebytesUint16t rdata.portSrc
    portDst := reversebytesUint16t rdata.portDst
    dpl := reversebytesUint16t rdata.dpl
    dropCount := reversebytesUint32t rdata.dropCount }

def loadIw (bytes : List U8) : DataIw where
  station := loadMac bytes 0
  device := load16 bytes 6
  sec := load32 bytes 8
  usec := load32 bytes 12
  inactiveTime := load32 bytes 16
  rxBytes := load32 bytes 20
  rxPackets := load32 bytes 24
  txBytes := load32 bytes 28
  txPackets := load32 bytes 32
  txRetries := load32 bytes 36
  txFailed := load32 bytes 40
  signal := load32 bytes 44
  signalAvg := load32 bytes 48
  expectedThroughput := load32 bytes 52
  pad := load32 bytes 60

def swapIw (rdata : DataIw) : DataIw :=
  { rdata with
    sec := reversebytesUint32t rdata.sec
    usec := reversebytesUint32t rdata.usec
    device := reversebytesUint16t rdata.device
    inactiveTime := reversebytesUint32t rdata.inactiveTime
    rxBytes := reversebytesUint32t rdata.rxBytes
    rxPackets := reversebytesUint32t rdata.rxPackets
    txBytes := reversebytesUint32t rdata.txBytes
    txPackets := reversebytesUint32t rdata.txPackets
    txRetries := reversebytesUint32t rdata.txRetries
    txFailed := reversebytesUint32t rdata.txFailed
    signal := reversebytesSint32t rdata.signal
    signalAvg := reversebytesSint32t rdata.signalAvg
    expectedThroughput := reversebytesUint32t rdata.expectedThroughput }

def loadQueue (bytes : List U8) : DataQueue where
  queueId := load32 bytes 0
  packets := load32 bytes 4
  bytes := load64 bytes 8
  sec := load32 bytes 16
  usec := load32 bytes 20
  qlen := load32 bytes 24
  backlog := load32 bytes 28
  drops := load32 bytes 32
  requeues := load32 bytes 36
  overlimits := load32 bytes 40
  pad := load32 bytes 44

def swapQueue (rdata : DataQueue) : DataQueue :=
  { rdata with
    sec := reversebytesUint32t rdata.sec
    usec := reversebytesUint32t rdata.usec
    bytes := reversebytesUint64t rdata.bytes
    queueId := reversebytesUint32t rdata.queueId
    packets := reversebytesUint32t rdata.packets
    qlen := reversebytesUint32t rdata.qlen
    backlog := reversebytesUint32t rdata.backlog
    drops := reversebytesUint32t rdata.drops
    requeues := reversebytesUint32t rdata.requeues
    overlimits := reversebytesUint32t rdata.overlimits }

def loadBeacon (bytes : List U8) : DataBeacon where
  sec := load32 bytes 0
  usec := load32 bytes 4
  dataRate := load16 bytes 8
  freq := load16 bytes 10
  timein := load32 bytes 12
  signal := load8 bytes 16
  pad := load8 bytes 17
  bssid := loadMac bytes 18
  pad1 := load32 bytes 28

/-- `timein` is neither swapped nor logged. -/
def swapBeacon (beacon : DataBeacon) : DataBeacon :=
  { beacon with
    dataRate := reversebytesUint16t beacon.dataRate
    sec := reversebytesUint32t beacon.sec
    usec := reversebytesUint32t beacon.usec
    freq := reversebytesUint16t beacon.freq }

def loadSurvey (bytes : List U8) : DataSurvey where
  time := load64 bytes 0
  sec := load32 bytes 8
  usec := load32 bytes 12
  timeBusy := load64 bytes 16
  timeExtBusy := load64 bytes 24
  timeRx := load64 bytes 32
  timeTx := load64 bytes 40
  timeScan := load64 bytes 48
  filled := load32 bytes 56
  noise := load8 bytes 60
  pad := load8 bytes 61
  centerFreq := load16 bytes 62

def swapSurvey (rdata : DataSurvey) : DataSurvey :=
  { rdata with
    sec := reversebytesUint32t rdata.sec
    usec := reversebytesUint32t rdata.usec
    time := reversebytesUint64t rdata.time
    timeBusy := reversebytesUint64t rdata.timeBusy
    timeExtBusy := reversebytesUint64t rdata.timeExtBusy
    timeRx := reversebytesUint64t rdata.timeRx
    timeTx := reversebytesUint64t rdata.timeTx
    timeScan := reversebytesUint64t rdata.timeScan
    filled := reversebytesUint32t rdata.filled
    centerFreq := reversebytesUint16t rdata.centerFreq }

/-- A decoder: how many bytes it copies into `rdata`, and what it makes of them. -/
structure Decoder where
  size : Nat
  decode : Mac → List U8 → Decoded

/-- The two `memcpy`s that start every decoder. -/
def Decoder.run (d : Decoder) (buffer : List U8) (offset : Nat) : Except Fault Decoded := do
  let mac ← slice buffer offset 6
  let rdata ← slice buffer (offset + 6) d.size
  .ok (d.decode (loadMac mac 0) rdata)

def decodeWinsize : Decoder := ⟨40, fun mac bytes => .winsize mac (swapWinsize (loadWinsize bytes))⟩
def decodeDrops : Decoder := ⟨48, fun mac bytes => .drops mac (swapDrops (loadDrops bytes))⟩
def decodeIw : Decoder := ⟨64, fun mac bytes => .iw mac (swapIw (loadIw bytes))⟩
def decodeQueue : Decoder := ⟨48, fun mac bytes => .queue mac (swapQueue (loadQueue bytes))⟩
def decodeBeacon : Decoder := ⟨32, fun mac bytes => .beacon mac (swapBeacon (loadBeacon bytes))⟩
def decodeSurvey : Decoder := ⟨64, fun mac bytes => .survey mac (swapSurvey (loadSurvey bytes))⟩

theorem decode_winsize_bytes (w : DataWinsize) :
    swapWinsize (loadWinsize (winsizeBytes w)) = w := by
  simp only [swapWinsize, loadWinsize, winsizeBytes, List.flatten_cons, load32, load16, load8,
    drop_be32, drop_be16, List.drop_succ_cons, List.drop_zero, List.cons_append, first32_be32,
    first16_be16, first8_cons, reversebytes_uint32t, reversebytes_uint16t]

/-- The pad words, which no decoder logs, keep the sender's byte order. -/
theorem decode_drops_bytes (d : DpPacket) (next : U32) :
    swapDrops (loadDrops (dropsBytes d next)) =
      { d with pad := swap16 d.pad, pad1 := swap32 d.pad1 } := by
  simp only [swapDrops, loadDrops, dropsBytes, List.flatten_cons, load32, load16, drop_be32,
    drop_be16, List.drop_zero, first32_be32, first16_be16, reversebytes_uint32t,
    reversebytes_uint16t]

theorem decode_iw_bytes (i : DataIw) (next : U32) :
    swapIw (loadIw (iwBytes i next)) = { i with pad := swap32 i.pad } := by
  simp only [swapIw, loadIw, iwBytes, List.flatten_cons, load32, load16, loadMac, drop_mac,
    drop_be32, drop_be16, List.drop_zero, first32_be32, first16_be16, first_mac,
    reversebytesSint32t, reversebytes_uint32t, reversebytes_uint16t]

theorem decode_queue_bytes (q : DataQueue) :
    swapQueue (loadQueue (queueBytes q)) = { q with pad := swap32 q.pad } := by
  simp only [swapQueue, loadQueue, queueBytes, List.flatten_cons, load64, load32, be64,
    List.append_assoc, drop_be32, List.drop_zero, first32_be32, reversebytes_uint32t,
    reversebytes_uint64t]

theorem decode_beacon_bytes (b : DataBeacon) (next : U32) :
    swapBeacon (loadBeacon (beaconBytes b next)) =
      { b with timein := swap32 b.timein, pad1 := swap32 b.pad1 } := by
  simp only [swapBeacon, loadBeacon, beaconBytes, List.flatten_cons, load32, load16, load8,
    loadMac, drop_mac, drop_be32, drop_be16, List.drop_succ_cons, List.drop_zero,
    List.cons_append, List.nil_append, first32_be32, first16_be16, first8_cons, first_mac,
    reversebytes_uint32t, reversebytes_uint16t]

theorem decode_survey_bytes (s : DataSurvey) : swapSurvey (loadSurvey (surveyBytes s)) = s := by
  simp only [swapSurvey, loadSurvey, surveyBytes, List.flatten_cons, load64, load32, load16,
    load8, be64, List.append_assoc, drop_be32, List.drop_succ_cons, List.drop_zero,
    List.cons_append, List.nil_append, first32_be32, first16_be16, first8_cons,
    reversebytes_uint32t, reversebytes_uint16t, reversebytes_uint64t]

end ApTelemetry.Wire
