import ApTelemetry.Lib.Words
import ApTelemetry.Structs

namespace ApTelemetry.Wire
open Lib

/-- A transmission structure `winsize_t` .. `ds_t`, as the access point lays it
out. `next` is the word of the list pointer, which is sent along. -/
inductive Record where
  | winsize (mac : Mac) (winsize : DataWinsize)
  | drops (mac : Mac) (drops : DpPacket) (next : U32)
  | iw (mac : Mac) (iw : DataIw) (next : U32)
  | queue (mac : Mac) (queue : DataQueue)
  | beacon (mac : Mac) (beacon : DataBeacon) (next : U32)
  | survey (mac : Mac) (survey : DataSurvey)

def Record.category : Record → DataCategory
  | .winsize .. => .winsize
  | .drops .. => .drops
  | .iw .. => .iw
  | .queue .. => .queue
  | .beacon .. => .beacon
  | .survey .. => .survey

def Record.mac : Record → Mac
  | .winsize m _ => m
  | .drops m _ _ => m
  | .iw m _ _ => m
  | .queue m _ => m
  | .beacon m _ _ => m
  | .survey m _ => m

/-- The clock fields every body has. -/
def Record.sec : Record → U32
  | .winsize _ w => w.sec
  | .drops _ d _ => d.sec
  | .iw _ i _ => i.sec
  | .queue _ q => q.sec
  | .beacon _ b _ => b.sec
  | .survey _ s => s.sec

def Record.usec : Record → U32
  | .winsize _ w => w.usec
  | .drops _ d _ => d.usec
  | .iw _ i _ => i.usec
  | .queue _ q => q.usec
  | .beacon _ b _ => b.usec
  | .survey _ s => s.usec

def Record.stamp (r : Record) : Stamp := ApTelemetry.stamp r.sec r.usec

def macBytes (m : Mac) : List U8 := [m.b0, m.b1, m.b2, m.b3, m.b4, m.b5]

def winsizeBytes (w : DataWinsize) : List U8 :=
  [be32 w.ipSrc, be32 w.ipDst, be16 w.sourceaddr, be16 w.destination, be32 w.sequence,
    be32 w.ackSequence, be16 w.flags, be16 w.windowsize, be32 w.sec, be32 w.usec,
    be32 w.datalength, [w.wscale0, w.wscale1, w.wscale2, w.pad]].flatten

def dropsBytes (d : DpPacket) (next : U32) : List U8 :=
  [be32 d.ipSrc, be32 d.ipDst, be32 d.sec, be32 d.usec, be16 d.portSrc, be16 d.portDst,
    be32 d.sequence, be32 d.ackSequence, be32 d.dropCount, be16 d.dpl, be16 d.pad,
    be32 d.inTime, be32 next, be32 d.pad1].flatten

def iwBytes (iw : DataIw) (next : U32) : List U8 :=
  [macBytes iw.station, be16 iw.device, be32 iw.sec, be32 iw.usec, be32 iw.inactiveTime,
    be32 iw.rxBytes, be32 iw.rxPackets, be32 iw.txBytes, be32 iw.txPackets,
    be32 iw.txRetries, be32 iw.txFailed, be32 iw.signal, be32 iw.signalAvg,
    be32 iw.expectedThroughput, be32 next, be32 iw.pad].flatten

def queueBytes (q : DataQueue) : List U8 :=
  [be32 q.queueId, be32 q.packets, be64 q.bytes, be32 q.sec, be32 q.usec, be32 q.qlen,
    be32 q.backlog, be32 q.drops, be32 q.requeues, be32 q.overlimits, be32 q.pad].flatten

def beaconBytes (b : DataBeacon) (next : U32) : List U8 :=
  [be32 b.sec, be32 b.usec, be16 b.dataRate, be16 b.freq, be32 b.timein, [b.signal, b.pad],
    macBytes b.bssid, be32 next, be32 b.pad1].flatten

def surveyBytes (s : DataSurvey) : List U8 :=
  [be64 s.time, be32 s.sec, be32 s.usec, be64 s.timeBusy, be64 s.timeExtBusy, be64 s.timeRx,
    be64 s.timeTx, be64 s.timeScan, be32 s.filled, [s.noise, s.pad], be16 s.centerFreq].flatten

def Record.body : Record → List U8
  | .winsize _ w => winsizeBytes w
  | .drops _ d next => dropsBytes d next
  | .iw _ i next => iwBytes i next
  | .queue _ q => queueBytes q
  | .beacon _ b next => beaconBytes b next
  | .survey _ s => surveyBytes s

/-- The record in the memory of the big-endian access point. -/
def Record.bytes (r : Record) : List U8 := be16 r.category.code ++ (macBytes r.mac ++ r.body)

/-- The sizes of the six bodies. -/
def Record.bodySize : Record → Nat
  | .winsize .. => 40
  | .drops .. => 48
  | .iw .. => 64
  | .queue .. => 48
  | .beacon .. => 32
  | .survey .. => 64

/-- `memcpy` of six bytes into a `mac` array. -/
def firstMac : List U8 → Mac
  | b0 :: b1 :: b2 :: b3 :: b4 :: b5 :: _ => ⟨b0, b1, b2, b3, b4, b5⟩
  | _ => ⟨0, 0, 0, 0, 0, 0⟩

def loadMac (bytes : List U8) (i : Nat) : Mac := firstMac (bytes.drop i)

theorem first_mac (m : Mac) (rest : List U8) : firstMac (macBytes m ++ rest) = m := by
  simp only [macBytes, List.cons_append, firstMac]

theorem drop_mac (m : Mac) (rest : List U8) (i : Nat) :
    (macBytes m ++ rest).drop (i + 6) = rest.drop i := by
  simp [macBytes]

@[simp] theorem length_mac_bytes (m : Mac) : (macBytes m).length = 6 := rfl

@[simp] theorem length_body (r : Record) : r.body.length = r.bodySize := by
  cases r with
  | winsize => simp [Record.body, winsizeBytes, Record.bodySize]
  | drops => simp [Record.body, dropsBytes, Record.bodySize]
  | iw => simp [Record.body, iwBytes, Record.bodySize]
  | queue => simp [Record.body, queueBytes, Record.bodySize]
  | beacon => simp [Record.body, beaconBytes, Record.bodySize]
  | survey => simp [Record.body, surveyBytes, Record.bodySize]

@[simp] theorem length_bytes (r : Record) : r.bytes.length = 8 + r.bodySize := by
  simp only [Record.bytes, List.length_append, length_be16, length_mac_bytes, length_body]
  omega

def bytesOf (records : List Record) : List U8 := (records.map Record.bytes).flatten

/-- The receiver's buffer: the records of one datagram and zeros behind them. -/
def padded (records : List Record) (size : Nat) : List U8 :=
  bytesOf records ++ List.replicate (size - (bytesOf records).length) 0

/-- All sizes are even, so no record and no padding starts at an odd place. -/
theorem even_bytes (records : List Record) : (bytesOf records).length % 2 = 0 := by
  induction records with
  | nil => rfl
  | cons r rest ih =>
    have hsize : r.bodySize % 2 = 0 := by cases r <;> simp [Record.bodySize]
    simp only [bytesOf, List.map_cons, List.flatten_cons, List.length_append, length_bytes] at ih ⊢
    omega

end ApTelemetry.Wire
