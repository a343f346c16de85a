import ApTelemetry.Lib.Buffer
import ApTelemetry.Lib.Machine
import ApTelemetry.Wire.Sender

namespace ApTelemetry.Sendudp
open Lib

/-- `B_S` and `SEND_SIZE`, the size of the public buffer and of the local one
it is sent from. -/
def bS : Nat := 1024
def sendSize : Nat := 1024

/-- The bytes of one transmission structure, of any length the buffer can hold. -/
structure Record where
  bytes : List U8
  fits : bytes.length ≤ bS

/-- A transmission structure as the buffer takes it. -/
def sealed (t : Wire.Record) : Record where
  bytes := t.bytes
  fits := by
    have hbody : t.bodySize ≤ 64 := by cases t <;> simp [Wire.Record.bodySize]
    simp only [Wire.length_bytes, bS]
    omega

/-- `public_buffer` and `write_begin`, and the datagrams `kernel_sendmsg` has
taken. -/
structure PublicBuffer where
  publicBuffer : List U8
  writeBegin : Nat
  sent : List (List U8)

def emptyBuffer : PublicBuffer := ⟨List.replicate bS 0, 0, []⟩

/-- The part of `send_the_buffer` both modules have. -/
def sendBytes (s : PublicBuffer) : Except Fault PublicBuffer := do
  let written ← slice s.publicBuffer 0 s.writeBegin
  let buffer ← blit (List.replicate sendSize 0) 0 written
  let datagram ← slice buffer 0 s.writeBegin
  .ok ⟨List.replicate bS 0, 0, s.sent ++ [datagram]⟩

def copyRecord (s : PublicBuffer) (data : List U8) : Except Fault PublicBuffer := do
  let publicBuffer ← blit s.publicBuffer s.writeBegin data
  .ok { s with publicBuffer, writeBegin := s.writeBegin + data.length }

def sendTheBuffer (s : PublicBuffer) : Except Fault PublicBuffer := sendBytes s

def write2PublicBuffer (s : PublicBuffer) (data : List U8) : Except Fault PublicBuffer :=
  if s.writeBegin + data.length ≤ bS then copyRecord s data
  else do
    let s ← sendTheBuffer s
    copyRecord s data

def bytesOf (records : List Record) : List U8 := (records.map Record.bytes).flatten

/-- The records `done` are the datagrams sent, each a group of whole records, and
then the records waiting in the buffer. -/
structure Batched (done : List Record) (s : PublicBuffer) : Prop where
  size : s.publicBuffer.length = bS
  within : s.writeBegin ≤ bS
  groups : ∃ (sent : List (List Record)) (waiting : List Record),
    done = sent.flatten ++ waiting ∧ s.sent = sent.map bytesOf ∧
      s.publicBuffer.take s.writeBegin = bytesOf waiting
  small : ∀ datagram ∈ s.sent, datagram.length ≤ sendSize

theorem empty_batched : Batched [] emptyBuffer :=
  ⟨List.length_replicate, Nat.zero_le _, ⟨[], [], rfl, rfl, rfl⟩, by simp [emptyBuffer]⟩

namespace Batched

variable {done : List Record} {s : PublicBuffer}

/-- No byte is lost: what was sent and what waits is what was written. -/
theorem keeps (h : Batched done s) :
    s.sent.flatten ++ s.publicBuffer.take s.writeBegin = bytesOf done := by
  obtain ⟨sent, waiting, hdone, hsent, hwaiting⟩ := h.groups
  have hgroups : (sent.map bytesOf).flatten = bytesOf sent.flatten := by
    simp only [bytesOf, List.map_flatten, List.flatten_flatten, List.map_map]
    rfl
  rw [hdone, hsent, hwaiting, hgroups]
  simp only [bytesOf, List.map_append, List.flatten_append]

theorem send_bytes (h : Batched done s) :
    ∃ t, sendBytes s = .ok t ∧ Batched done t ∧ t.writeBegin = 0 := by
  have hlen : (s.publicBuffer.take s.writeBegin).length = s.writeBegin := by
    rw [List.length_take, h.size, Nat.min_eq_left h.within]
  have hread : slice s.publicBuffer 0 s.writeBegin = .ok (s.publicBuffer.take s.writeBegin) := by
    rw [slice_ok (by rw [h.size, Nat.zero_add]; exact h.within), List.drop_zero]
  have hfits : 0 + (s.publicBuffer.take s.writeBegin).length ≤
      (List.replicate sendSize (0 : U8)).length := by
    rw [hlen, Nat.zero_add, List.length_replicate]
    exact h.within
  obtain ⟨buffer, hcopy⟩ : ∃ out, blit (List.replicate sendSize (0 : U8)) 0
      (s.publicBuffer.take s.writeBegin) = .ok out := ⟨_, blit_ok hfits⟩
  have hback := slice_blit_same hcopy
  rw [hlen] at hback
  refine ⟨⟨List.replicate bS 0, 0, s.sent ++ [s.publicBuffer.take s.writeBegin]⟩, ?_, ?_, rfl⟩
  · simp only [sendBytes, hread, hcopy, hback, bind, Except.bind]
  obtain ⟨sent, waiting, hdone, hsent, hwaiting⟩ := h.groups
  refine ⟨List.length_replicate, Nat.zero_le _, ⟨sent ++ [waiting], [], ?_, ?_, rfl⟩, ?_⟩
  · simpa using hdone
  · simp [hsent, hwaiting]
  · intro datagram hmem
    rcases List.mem_append.mp hmem with hmem | hmem
    · exact h.small datagram hmem
    · rw [List.mem_singleton.mp hmem, hlen]
      exact h.within

theorem copy_record (h : Batched done s) {r : Record}
    (hroom : s.writeBegin + r.bytes.length ≤ bS) :
    ∃ t, copyRecord s r.bytes = .ok t ∧ Batched (done ++ [r]) t := by
  obtain ⟨publicBuffer, hcopy⟩ : ∃ out, blit s.publicBuffer s.writeBegin r.bytes = .ok out :=
    ⟨_, blit_ok (h.size.symm ▸ hroom)⟩
  refine ⟨_, by rw [copyRecord, hcopy]; rfl, ?_⟩
  obtain ⟨sent, waiting, hdone, hsent, hwaiting⟩ := h.groups
  refine ⟨(blit_length hcopy).trans h.size, hroom, ⟨sent, waiting ++ [r], ?_, hsent, ?_⟩,
    h.small⟩
  · rw [hdone, List.append_assoc]
  · rw [take_blit hcopy, hwaiting]
    simp [bytesOf]

end Batched

/-- A record that does not fit behind the others fits once they are sent. -/
theorem write_2_public_buffer_step (done : List Record) (s : PublicBuffer) (r : Record)
    (h : Batched done s) :
    ∃ t, write2PublicBuffer s r.bytes = .ok t ∧ Batched (done ++ [r]) t := by
  unfold write2PublicBuffer
  by_cases hroom : s.writeBegin + r.bytes.length ≤ bS
  · rw [if_pos hroom]
    exact h.copy_record hroom
  · rw [if_neg hroom]
    obtain ⟨t, ht, hbatched, hzero⟩ := h.send_bytes
    rw [sendTheBuffer, ht]
    exact hbatched.copy_record (by rw [hzero, Nat.zero_add]; exact r.fits)

end ApTelemetry.Sendudp
