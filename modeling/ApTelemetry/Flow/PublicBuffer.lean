import ApTelemetry.Sendudp.PublicBuffer

namespace ApTelemetry.Flow
open Lib Sendudp

/-- What the module finds when it opens its socket: whether `get_sock_linger`
gets one, and the address of `br0` if there is such a device. -/
structure Network where
  connects : Bool
  br0 : Option Mac

/-- The globals of `send_the_buffer` in `flow.c`, which has its own buffer and
opens its socket when it first sends. -/
structure Sender where
  buffer : PublicBuffer
  sockGlobal : Bool
  macGlobal : Mac

def openSocket (net : Network) (s : Sender) : Except Fault Sender :=
  if s.sockGlobal then .ok s
  else if net.connects then
    .ok { s with sockGlobal := true, macGlobal := net.br0.getD s.macGlobal }
  else .error .null

def sendTheBuffer (net : Network) (s : Sender) : Except Fault Sender := do
  let s ← openSocket net s
  let buffer ← sendBytes s.buffer
  .ok { s with buffer }

def appendRecord (s : Sender) (data : List U8) : Except Fault Sender := do
  let buffer ← copyRecord s.buffer data
  .ok { s with buffer }

def write2PublicBuffer (net : Network) (s : Sender) (data : List U8) : Except Fault Sender :=
  if s.buffer.writeBegin + data.length ≤ sendSize then appendRecord s data
  else do
    let s ← sendTheBuffer net s
    appendRecord s data

def loaded : Sender := ⟨emptyBuffer, false, ⟨0, 0, 0, 0, 0, 0⟩⟩

theorem append_record {done : List Record} {s : Sender} (h : Batched done s.buffer) {r : Record}
    (hroom : s.buffer.writeBegin + r.bytes.length ≤ bS) :
    ∃ t, appendRecord s r.bytes = .ok t ∧ Batched (done ++ [r]) t.buffer := by
  obtain ⟨buffer, hcopy, hbatched⟩ := h.copy_record hroom
  exact ⟨{ s with buffer }, by rw [appendRecord, hcopy]; rfl, hbatched⟩

/-- The record fits behind the others, or there is a socket to send them on. -/
def Writable (net : Network) (s : Sender) (length : Nat) : Prop :=
  s.buffer.writeBegin + length ≤ sendSize ∨ s.sockGlobal = true ∨ net.connects = true

theorem open_socket {net : Network} {s : Sender} (h : s.sockGlobal = true ∨ net.connects = true) :
    ∃ t, openSocket net s = .ok t ∧ t.buffer = s.buffer := by
  unfold openSocket
  by_cases hsock : s.sockGlobal = true
  · exact ⟨s, if_pos hsock, rfl⟩
  · rw [if_neg hsock, if_pos (h.resolve_left hsock)]
    exact ⟨_, rfl, rfl⟩

/-- Opening the socket on the way does not touch the buffer. -/
theorem write_writable {net : Network} {done : List Record} {s : Sender} {r : Record}
    (hwritable : Writable net s r.bytes.length) (h : Batched done s.buffer) :
    ∃ t, write2PublicBuffer net s r.bytes = .ok t ∧ Batched (done ++ [r]) t.buffer := by
  unfold write2PublicBuffer
  by_cases hroom : s.buffer.writeBegin + r.bytes.length ≤ sendSize
  · rw [if_pos hroom]
    exact append_record h hroom
  · rw [if_neg hroom]
    obtain ⟨opened, hopen, hsame⟩ := open_socket (hwritable.resolve_left hroom)
    obtain ⟨buffer, hsend, hbatched, hzero⟩ := (hsame.symm ▸ h).send_bytes
    have hrun : sendTheBuffer net s = .ok { opened with buffer } := by
      rw [sendTheBuffer, hopen]
      simp only [bind, Except.bind, hsend]
    rw [hrun]
    exact append_record (s := { opened with buffer }) hbatched
      (by rw [hzero, Nat.zero_add]; exact r.fits)

theorem write_2_public_buffer_step {net : Network} (hnet : net.connects = true)
    (done : List Record) (s : Sender) (r : Record) (h : Batched done s.buffer) :
    ∃ t, write2PublicBuffer net s r.bytes = .ok t ∧ Batched (done ++ [r]) t.buffer :=
  write_writable (.inr (.inr hnet)) h

/-- In both modules, however many records were written, every datagram sent is
a group of whole records and no byte is lost. -/
theorem public_buffer_batches (records : List Record) (net : Network)
    (hnet : net.connects = true) :
    (∃ s, records.foldlM (fun s r => Sendudp.write2PublicBuffer s r.bytes) emptyBuffer = .ok s ∧
      Batched records s ∧
        s.sent.flatten ++ s.publicBuffer.take s.writeBegin = bytesOf records) ∧
    ∃ s, records.foldlM (fun s r => write2PublicBuffer net s r.bytes) loaded = .ok s ∧
      Batched records s.buffer ∧
        s.buffer.sent.flatten ++ s.buffer.publicBuffer.take s.buffer.writeBegin =
          bytesOf records := by
  constructor
  · obtain ⟨s, hrun, hbatched⟩ :=
      foldlM_invariant Batched Sendudp.write_2_public_buffer_step [] empty_batched records
    exact ⟨s, hrun, hbatched, hbatched.keeps⟩
  · obtain ⟨s, hrun, hbatched⟩ := foldlM_invariant (fun done s => Batched done s.buffer)
      (write_2_public_buffer_step hnet) [] (s := loaded) empty_batched records
    exact ⟨s, hrun, hbatched, hbatched.keeps⟩

/-- A record of 600 equal bytes; two of them do not share a datagram. -/
def filled (byte : U8) : Record :=
  ⟨List.replicate 600 byte, List.length_replicate.trans_le (by decide)⟩

theorem public_buffer_batches_two : ∃ s,
    [filled 1, filled 2].foldlM (fun s r => write2PublicBuffer ⟨true, none⟩ s r.bytes) loaded =
      .ok s ∧ Batched [filled 1, filled 2] s.buffer :=
  let ⟨s, hrun, hbatched, _⟩ :=
    (public_buffer_batches [filled 1, filled 2] ⟨true, none⟩ rfl).2
  ⟨s, hrun, hbatched⟩

end ApTelemetry.Flow
