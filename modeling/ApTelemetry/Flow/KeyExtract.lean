import ApTelemetry.Flow.FlowTable
import ApTelemetry.Flow.OptionScan
import ApTelemetry.Flow.PublicBuffer

namespace ApTelemetry.Flow.KeyExtract
open Lib Sendudp

/-- A TCP/IPv4 packet in `key_extract`. `headerOk` is `tcphdr_ok (skb) && eth`,
`control` the word with the data offset and the flags, `stale` what the stack
holds in the local `wz_linger`. -/
structure Segment where
  headerOk : Bool
  ipSrc : U32
  ipDst : U32
  totLen : U16
  ihl : BitVec 4
  source : U16
  dest : U16
  seq : U32
  ackSeq : U32
  control : U16
  window : U16
  options : Bytes
  hSource : Mac
  hDest : Mac
  sec : U32
  usec : U32
  laterSec : U32
  laterUsec : U32
  stale : DataWinsize

def Segment.doff (p : Segment) : BitVec 4 := p.control.extractLsb' 12 4

def Segment.syn (p : Segment) : Bool := p.control.getLsbD 1

/-- `TCP_FLAGS_BE16`. -/
def tcpFlags (p : Segment) : U16 := p.control &&& 0x0fff

def dLen (p : Segment) : Int := p.totLen.toNat - (p.doff.toNat + p.ihl.toNat) * 4

/-- `opt_len` is at most 40, so a scan that takes more turns than this stands still. -/
def optionTurns : Nat := 41

def optionScale (p : Segment) : Except Fault Wscale :=
  if p.syn then do
    let (wscale, _) ← extractScale p.options (optLen p.doff) optionTurns
    .ok wscale
  else .ok ⟨0, 0, 0⟩

/-- Every field of `wz_linger` but the padding. -/
def fillWinsize (p : Segment) (wscale : Wscale) : DataWinsize :=
  { p.stale with
    ipSrc := p.ipSrc
    ipDst := p.ipDst
    sourceaddr := p.source
    destination := p.dest
    sequence := p.seq
    ackSequence := p.ackSeq
    flags := tcpFlags p
    windowsize := p.window
    sec := p.sec
    usec := p.usec
    datalength := BitVec.ofInt 32 (dLen p)
    wscale0 := wscale.kind
    wscale1 := wscale.length
    wscale2 := wscale.shift }

/-- The packet as the flow table sees it. -/
def Segment.packet (p : Segment) (wscale : Wscale) : Packet where
  ipSrc := p.ipSrc
  ipDst := p.ipDst
  source := p.source
  dest := p.dest
  window := p.window
  wscale := wscale.shift.signExtend 16
  hSource := p.hSource
  hDest := p.hDest
  sec := p.sec
  usec := p.usec
  laterSec := p.laterSec
  laterUsec := p.laterUsec

/-- The globals of the module. Nothing reads `written`, the records so far. -/
structure Globals where
  table : FlowTable
  sender : Sender
  written : List Wire.Record

/-- `cond == 0`. -/
def Segment.Tracked (p : Segment) : Prop := p.source ≠ 64793 ∧ p.dest ≠ 64793

instance (p : Segment) : Decidable p.Tracked := inferInstanceAs (Decidable (_ ∧ _))

/-- The branch on `cond`, which alone fills `wz_linger`. -/
def track (table : FlowTable) (p : Segment) : Except Fault (DataWinsize × FlowTable) :=
  if p.Tracked then do
    let wscale ← optionScale p
    .ok (fillWinsize p wscale, Flow.keyExtract table (p.packet wscale))
  else .ok (p.stale, table)

def zeroMac : Mac := ⟨0, 0, 0, 0, 0, 0⟩

/-- `t.mac`, which stays as `memset` left it until the socket is open. -/
def recordMac (sender : Sender) : Mac := if sender.sockGlobal then sender.macGlobal else zeroMac

def keyExtract (net : Network) (s : Globals) (p : Segment) : Except Fault Globals :=
  if p.headerOk then do
    let (wzLinger, table) ← track s.table p
    let t := Wire.Record.winsize (recordMac s.sender) wzLinger
    let sender ← write2PublicBuffer net s.sender t.bytes
    .ok ⟨table, sender, s.written ++ [t]⟩
  else .ok s

def machine (net : Network) : Machine Globals Segment Fault where
  start := ⟨emptyTable, loaded, []⟩
  enabled _ _ := True
  exec := keyExtract net

/-- The record is about this packet, and from this access point. -/
def Describes (net : Network) (p : Segment) : Wire.Record → Prop
  | .winsize mac w => net.br0 = some mac ∧ w.tuple = ⟨p.ipSrc, p.ipDst, p.source, p.dest⟩ ∧
      w.sequence = p.seq ∧ w.ackSequence = p.ackSeq ∧ w.flags = tcpFlags p ∧
      w.windowsize = p.window ∧ w.datalength.toInt = dLen p
  | _ => False

theorem size_winsize {t : Wire.Record} (h : t.category = .winsize) : t.bytes.length = 48 := by
  cases t with
  | winsize => simp [Wire.Record.bodySize]
  | drops | iw | queue | beacon | survey => cases h

/-- What a packet adds to the buffer are records that describe it, none if it is
excluded. -/
def WritesOwn (net : Network) (s : Globals) (p : Segment) (r : Except Fault Globals) : Prop :=
  ∀ t, r = .ok t → ∃ added, t.written = s.written ++ added ∧
    Batched (t.written.map sealed) t.sender.buffer ∧
      ∀ record ∈ added, p.Tracked ∧ Describes net p record

def Segment.ScanEnds (p : Segment) : Prop :=
  p.syn = true → ∃ turns found, extractScale p.options (optLen p.doff) turns = .ok found

/-- The packet is not lost in the option scan, and its record can be stored. -/
def Recorded (net : Network) (s : Globals) (p : Segment) : Prop :=
  p.headerOk = true ∧ (p.Tracked → p.ScanEnds) ∧ Writable net s.sender 48

/-- The socket is open, and the address of `br0` known. -/
def KnowsMac (net : Network) (s : Globals) : Prop :=
  ∃ mac, net.br0 = some mac ∧ (s.sender.sockGlobal = true ∨ mac = zeroMac)

/-- A packet that gets a record is tracked and finds the socket open. -/
def InOrder (net : Network) (s : Globals) (p : Segment) : Prop :=
  Recorded net s p → p.Tracked ∧ KnowsMac net s

section Sender

variable {net : Network} {s t : Sender} {data : List U8}

/-- The address is that of `br0` from the first flush on. -/
def HasOwnMac (net : Network) (s : Sender) : Prop :=
  s.macGlobal = if s.sockGlobal then net.br0.getD zeroMac else zeroMac

theorem HasOwnMac.append (h : HasOwnMac net s) (hrun : appendRecord s data = .ok t) :
    HasOwnMac net t := by
  obtain ⟨buffer, -, hok⟩ := bind_ok hrun
  obtain rfl := Except.ok.inj hok
  exact h

theorem HasOwnMac.open_socket (h : HasOwnMac net s) (hrun : openSocket net s = .ok t) :
    HasOwnMac net t := by
  unfold openSocket at hrun
  split at hrun
  · exact Except.ok.inj hrun ▸ h
  · rename_i hsock
    split at hrun
    · obtain rfl := Except.ok.inj hrun
      rw [HasOwnMac, if_neg hsock] at h
      simp [HasOwnMac, h]
    · cases hrun

theorem HasOwnMac.write (h : HasOwnMac net s) (hrun : write2PublicBuffer net s data = .ok t) :
    HasOwnMac net t := by
  unfold write2PublicBuffer at hrun
  split at hrun
  · exact h.append hrun
  · obtain ⟨flushed, hsend, happend⟩ := bind_ok hrun
    obtain ⟨opened, hopen, hbytes⟩ := bind_ok hsend
    obtain ⟨buffer, -, hok⟩ := bind_ok hbytes
    obtain rfl := Except.ok.inj hok
    have hopened : HasOwnMac net opened := h.open_socket hopen
    exact HasOwnMac.append (s := { opened with buffer }) hopened happend

/-- Without room and without a socket the module faults. -/
theorem writable_of_ok (hrun : write2PublicBuffer net s data = .ok t) :
    Writable net s data.length := by
  by_contra hnot
  obtain ⟨hroom, hopen⟩ := not_or.mp hnot
  obtain ⟨hsock, hconnect⟩ := not_or.mp hopen
  have hfault : openSocket net s = .error .null := by
    rw [openSocket, if_neg hsock, if_neg hconnect]
  rw [write2PublicBuffer, if_neg hroom, sendTheBuffer, hfault] at hrun
  cases hrun

theorem record_mac (h : HasOwnMac net s) : net.br0 = some (recordMac s) ↔
    ∃ mac, net.br0 = some mac ∧ (s.sockGlobal = true ∨ mac = zeroMac) := by
  rw [HasOwnMac] at h
  by_cases hsock : s.sockGlobal = true
  · rw [if_pos hsock] at h
    rw [recordMac, if_pos hsock, h]
    cases net.br0 <;> simp [hsock]
  · rw [recordMac, if_neg hsock]
    simp [hsock]

end Sender

section Packet

variable {net : Network} {p : Segment} {table : FlowTable}

theorem option_scale_iff : (∃ wscale, optionScale p = .ok wscale) ↔ p.ScanEnds := by
  unfold optionScale Segment.ScanEnds
  by_cases hsyn : p.syn = true
  · rw [if_pos hsyn, forall_prop_of_true hsyn]
    constructor
    · rintro ⟨wscale, hrun⟩
      obtain ⟨found, hscan, -⟩ := bind_ok hrun
      exact ⟨optionTurns, found, hscan⟩
    · rintro ⟨turns, found, hscan⟩
      obtain ⟨stop, hrun, -⟩ := bind_ok hscan
      have hlen : optLen p.doff ≤ (0 : Nat) + (40 : Nat) := by
        have hdoff := p.doff.isLt
        unfold optLen
        omega
      have hmax : scanOptions p.options (optLen p.doff) optionTurns 0 [] = .ok stop :=
        scan_enough hlen hrun
      exact ⟨_, by rw [extractScale, hmax]; rfl⟩
  · rw [if_neg hsyn]
    simp [hsyn]

theorem track_ok {wzLinger : DataWinsize} {after : FlowTable}
    (h : track table p = .ok (wzLinger, after)) :
    p.Tracked → ∃ wscale, wzLinger = fillWinsize p wscale := by
  intro htracked
  rw [track, if_pos htracked] at h
  obtain ⟨wscale, -, hok⟩ := bind_ok h
  exact ⟨wscale, congrArg Prod.fst (Except.ok.inj hok).symm⟩

theorem track_iff : (∃ found, track table p = .ok found) ↔ (p.Tracked → p.ScanEnds) := by
  by_cases htracked : p.Tracked
  · rw [forall_prop_of_true htracked, ← option_scale_iff, track, if_pos htracked]
    constructor
    · rintro ⟨found, hrun⟩
      obtain ⟨wscale, hscale, -⟩ := bind_ok hrun
      exact ⟨wscale, hscale⟩
    · rintro ⟨wscale, hscale⟩
      exact ⟨_, by rw [hscale]; rfl⟩
  · rw [track, if_neg htracked]
    simp [htracked]

theorem datalength_exact (p : Segment) : (BitVec.ofInt 32 (dLen p)).toInt = dLen p := by
  have htot := p.totLen.isLt
  have hdoff := p.doff.isLt
  have hihl := p.ihl.isLt
  rw [BitVec.toInt_ofInt]
  unfold dLen
  exact Int.bmod_eq_of_le (by omega) (by omega)

/-- A record that was filled describes its packet but for the address. -/
theorem describes_fill (mac : Mac) (wscale : Wscale) :
    Describes net p (.winsize mac (fillWinsize p wscale)) ↔ net.br0 = some mac :=
  and_iff_left ⟨rfl, rfl, rfl, rfl, rfl, datalength_exact p⟩

end Packet

/-- What holds between two packets. -/
structure Sound (net : Network) (s : Globals) : Prop where
  batched : Batched (s.written.map sealed) s.sender.buffer
  mac : HasOwnMac net s.sender

theorem start_sound (net : Network) : Sound net (machine net).start :=
  ⟨empty_batched, rfl⟩

variable {net : Network} {s t : Globals} {p : Segment}

theorem key_extract_recorded (h : Sound net s) (hrecorded : Recorded net s p) :
    ∃ t w, keyExtract net s p = .ok t ∧ Sound net t ∧
      t.written = s.written ++ [.winsize (recordMac s.sender) w] ∧
        (p.Tracked → ∃ wscale, w = fillWinsize p wscale) := by
  obtain ⟨hheader, hends, hwritable⟩ := hrecorded
  obtain ⟨⟨w, table⟩, htrack⟩ := track_iff.mpr hends
  let record := Wire.Record.winsize (recordMac s.sender) w
  have hfits : Writable net s.sender (sealed record).bytes.length := by
    have hsize : (sealed record).bytes.length = 48 := size_winsize rfl
    rwa [hsize]
  obtain ⟨sender, hwrite, hbatched⟩ := write_writable hfits h.batched
  have hrun : keyExtract net s p = .ok ⟨table, sender, s.written ++ [record]⟩ := by
    have hbytes : write2PublicBuffer net s.sender record.bytes = .ok sender := hwrite
    rw [keyExtract, if_pos hheader, htrack]
    simp only [bind, Except.bind, record] at hbytes ⊢
    rw [hbytes]
  refine ⟨_, w, hrun, ⟨?_, h.mac.write hwrite⟩, rfl, track_ok htrack⟩
  simpa using hbatched

theorem key_extract_not_recorded (h : ¬ Recorded net s p) (hrun : keyExtract net s p = .ok t) :
    t = s := by
  unfold keyExtract at hrun
  split at hrun
  · rename_i hheader
    obtain ⟨⟨w, table⟩, htrack, hrest⟩ := bind_ok hrun
    obtain ⟨sender, hwrite, -⟩ := bind_ok hrest
    have hsize : (Wire.Record.winsize (recordMac s.sender) w).bytes.length = 48 := size_winsize rfl
    have hwritable := writable_of_ok hwrite
    rw [hsize] at hwritable
    exact absurd ⟨hheader, track_iff.mp ⟨_, htrack⟩, hwritable⟩ h
  · exact (Except.ok.inj hrun).symm

/-- One packet. -/
theorem writes_own_iff (h : Sound net s) :
    WritesOwn net s p (keyExtract net s p) ↔ InOrder net s p := by
  by_cases hrecorded : Recorded net s p
  · obtain ⟨t, w, hrun, hsound, hwritten, hfilled⟩ := key_extract_recorded h hrecorded
    rw [InOrder, forall_prop_of_true hrecorded, hrun]
    constructor
    · intro hown
      obtain ⟨added, hadded, -, hall⟩ := hown t rfl
      obtain rfl := List.append_cancel_left (hwritten.symm.trans hadded)
      obtain ⟨htracked, hdescribes⟩ := hall _ (List.mem_singleton_self _)
      obtain ⟨wscale, rfl⟩ := hfilled htracked
      exact ⟨htracked, (record_mac h.mac).mp ((describes_fill _ wscale).mp hdescribes)⟩
    · rintro ⟨htracked, hmac⟩ t ht
      obtain rfl := Except.ok.inj ht
      refine ⟨_, hwritten, hsound.batched, fun record hrecord => ⟨htracked, ?_⟩⟩
      obtain ⟨wscale, rfl⟩ := hfilled htracked
      rw [List.mem_singleton.mp hrecord]
      exact (describes_fill _ wscale).mpr ((record_mac h.mac).mpr hmac)
  · refine iff_of_true (fun t ht => ?_) fun hr => absurd hr hrecorded
    obtain rfl := key_extract_not_recorded hrecorded ht
    exact ⟨[], (List.append_nil _).symm, h.batched, by simp⟩

theorem key_extract_sound (h : Sound net s) (hrun : keyExtract net s p = .ok t) : Sound net t := by
  by_cases hrecorded : Recorded net s p
  · obtain ⟨u, -, hu, hsound, -⟩ := key_extract_recorded h hrecorded
    exact Except.ok.inj (hu.symm.trans hrun) ▸ hsound
  · exact key_extract_not_recorded hrecorded hrun ▸ h

/-- Over any sequence of packets, the records describe them exactly if every
packet that gets one is tracked and comes after the first flush. -/
theorem records_describe_iff (net : Network) (packets : List Segment) :
    (machine net).Throughout (WritesOwn net) (machine net).start packets ↔
      (machine net).Throughout (fun s p _ => InOrder net s p) (machine net).start packets :=
  Machine.throughout_iff (Sound net) (fun _ _ h _ => writes_own_iff h)
    (fun _ _ _ h _ _ hrun => key_extract_sound h hrun) (start_sound net) packets

/-- From the excluded port, with nothing but zeros on the stack. -/
def excludedSegment : Segment where
  headerOk := true
  ipSrc := 1
  ipDst := 2
  totLen := 40
  ihl := 5
  source := 64793
  dest := 80
  seq := 7
  ackSeq := 0
  control := 0x5010
  window := 512
  options := fun _ => 0
  hSource := zeroMac
  hDest := zeroMac
  sec := 1
  usec := 0
  laterSec := 1
  laterUsec := 0
  stale := ⟨0, 0, 0, 0, 0, 0, 0, 0, 0, 0, 0, 0, 0, 0, 0⟩

theorem excluded_packet_recorded : ¬ ∀ net packets,
    (machine net).Throughout (WritesOwn net) (machine net).start packets := by
  intro h
  have hown := (h ⟨true, some ⟨2, 0, 0, 0, 0, 1⟩⟩ [excludedSegment] trivial).1
  have horder := (writes_own_iff (start_sound _)).mp hown
  have htracked := (horder ⟨rfl, fun htracked => absurd rfl htracked.1, .inr (.inr rfl)⟩).1
  exact htracked.1 rfl

end ApTelemetry.Flow.KeyExtract
