import Mathlib.Data.Prod.Lex

namespace ApTelemetry

abbrev U8 := BitVec 8
abbrev U16 := BitVec 16
abbrev U32 := BitVec 32
abbrev U64 := BitVec 64

/-- `enum data_category`: the first two bytes of every record. -/
inductive DataCategory where
  | winsize
  | drops
  | iw
  | queue
  | beacon
  | survey
  | keepIw
  | keepBeacon
  deriving DecidableEq

def DataCategory.code : DataCategory → U16
  | winsize => 1
  | drops => 2
  | iw => 3
  | queue => 4
  | beacon => 5
  | survey => 6
  | keepIw => 7
  | keepBeacon => 8

/-- A hardware address, `char mac[6]`. -/
structure Mac where
  b0 : U8
  b1 : U8
  b2 : U8
  b3 : U8
  b4 : U8
  b5 : U8
  deriving DecidableEq

/-- `struct dp_packet` without its list pointer `next`. -/
structure DpPacket where
  ipSrc : U32
  ipDst : U32
  sec : U32
  usec : U32
  portSrc : U16
  portDst : U16
  sequence : U32
  ackSequence : U32
  dropCount : U32
  dpl : U16
  pad : U16
  inTime : U32
  pad1 : U32
  deriving DecidableEq

/-- `struct data_winsize`; the three option bytes are `char wscale[3]`. -/
structure DataWinsize where
  ipSrc : U32
  ipDst : U32
  sourceaddr : U16
  destination : U16
  sequence : U32
  ackSequence : U32
  flags : U16
  windowsize : U16
  sec : U32
  usec : U32
  datalength : U32
  wscale0 : U8
  wscale1 : U8
  wscale2 : U8
  pad : U8
  deriving DecidableEq

/-- A direction of a connection. -/
structure FourTuple where
  ipSrc : U32
  ipDst : U32
  sourceaddr : U16
  destination : U16
  deriving DecidableEq

def FourTuple.reverse (f : FourTuple) : FourTuple :=
  ⟨f.ipDst, f.ipSrc, f.destination, f.sourceaddr⟩

def DataWinsize.tuple (rdata : DataWinsize) : FourTuple :=
  ⟨rdata.ipSrc, rdata.ipDst, rdata.sourceaddr, rdata.destination⟩

/-- `struct data_iw` without its list pointer `next`. -/
structure DataIw where
  station : Mac
  device : U16
  sec : U32
  usec : U32
  inactiveTime : U32
  rxBytes : U32
  rxPackets : U32
  txBytes : U32
  txPackets : U32
  txRetries : U32
  txFailed : U32
  signal : U32
  signalAvg : U32
  expectedThroughput : U32
  pad : U32
  deriving DecidableEq

structure DataQueue where
  queueId : U32
  packets : U32
  bytes : U64
  sec : U32
  usec : U32
  qlen : U32
  backlog : U32
  drops : U32
  requeues : U32
  overlimits : U32
  pad : U32
  deriving DecidableEq

/-- `struct data_beacon` without its list pointer `next`. -/
structure DataBeacon where
  sec : U32
  usec : U32
  dataRate : U16
  freq : U16
  timein : U32
  signal : U8
  pad : U8
  bssid : Mac
  pad1 : U32
  deriving DecidableEq

structure DataSurvey where
  time : U64
  sec : U32
  usec : U32
  timeBusy : U64
  timeExtBusy : U64
  timeRx : U64
  timeTx : U64
  timeScan : U64
  filled : U32
  noise : U8
  pad : U8
  centerFreq : U16
  deriving DecidableEq

/-- `struct apstates`, one sample of the access point's state and also the
reply to the controller. -/
structure Apstates where
  neibours : U8
  noise : U8
  pad : U16
  sec : U32
  usec : U32
  congestion : U32
  noncongestion : U32
  q3packets : U32
  q3qlen : U32
  q3backlog : U32
  q3drops : U32
  q3requeues : U32
  qfpackets : U32
  qfqlen : U32
  qfbacklog : U32
  qfdrops : U32
  qfrequeues : U32
  stationCount : U32
  time : U64
  timeBusy : U64
  timeRx : U64
  timeTx : U64
  q3bytes : U64
  qfbytes : U64
  deriving DecidableEq

structure Linkstates where
  station : Mac
  signal : U8
  signalAvg : U8
  inactiveTime : U32
  rxBytes : U32
  rxPackets : U32
  txBytes : U32
  txPackets : U32
  txRetries : U32
  txFailed : U32
  expectedThroughput : U32
  sec : U32
  usec : U32
  deriving DecidableEq

/-- `struct tcp_flow`, an entry of `flow_linger`. -/
structure TcpFlow where
  ipSrc : U32
  ipDst : U32
  sourceaddr : U16
  destination : U16
  winsize : U16
  wscale : U16
  sec : U32
  usec : U32
  packets : U64
  ethSrc : Mac
  count : U16
  ethDst : Mac
  pad2 : U16
  deriving DecidableEq

/-- `struct dp_t`, the transmission version of a dropped packet. -/
structure DpT where
  category : U16
  mac : Mac
  drops : DpPacket
  deriving DecidableEq

/-- Two clock fields as one time, compared seconds first. -/
abbrev Stamp := ℕ ×ₗ ℕ

def stamp (sec usec : U32) : Stamp := toLex (sec.toNat, usec.toNat)

theorem stamp_lt_iff (s u s' u' : U32) :
    stamp s u < stamp s' u' ↔ s < s' ∨ s = s' ∧ u < u' := by
  rw [stamp, stamp, Prod.Lex.toLex_lt_toLex]
  simp only [BitVec.lt_def, BitVec.toNat_inj]

def DpPacket.stamp (p : DpPacket) : Stamp := ApTelemetry.stamp p.sec p.usec

end ApTelemetry
