import ApTelemetry.Receiver.Pool
import ApTelemetry.Sendudp.PublicBuffer
import ApTelemetry.Wire.Process

namespace ApTelemetry.EndToEnd
open Lib

/-- Where a datagram in the pool comes from: it is one of those sent here, or any other one, of
the flow module or of another access point. -/
inductive Source where
  | own (i : Nat)
  | other (records : List Wire.Record)

/-- Nothing reads `copied` and `arrived`, the records written and the datagrams stored so far. -/
structure Transport where
  buffer : Sendudp.PublicBuffer
  pool : Receiver.Pool
  decoded : List (List Wire.Decoded)
  copied : List Wire.Record
  arrived : List Source

/-- The network may deliver a datagram late, twice or not at all. -/
inductive Action where
  | write (t : Wire.Record)
  | arrive (i : Nat)
  | other (winsizePort : Bool) (records : List Wire.Record)
  | check
  | take

/-- `memset` and `recvfrom` of at most `SEND_SIZE` bytes. -/
def recvfrom (datagram : List U8) : Receiver.Datagram where
  bytes := (datagram ++ List.replicate Receiver.sendSize 0).take Receiver.sendSize
  full := by simp

def exec (s : Transport) : Action → Except Fault Transport
  | .write t => do
    let buffer ← Sendudp.write2PublicBuffer s.buffer t.bytes
    .ok { s with buffer, copied := s.copied ++ [t] }
  | .arrive i =>
    match s.buffer.sent[i]? with
    | some datagram => do
      let pool ← Receiver.exec s.pool (.receive1 (recvfrom datagram))
      .ok { s with pool, arrived := s.arrived ++ [.own i] }
    | none => .ok s
  | .other winsizePort records => do
    let message := recvfrom (Wire.bytesOf records)
    let pool ← Receiver.exec s.pool (if winsizePort then .receive message else .receive1 message)
    .ok { s with pool, arrived := s.arrived ++ [.other records] }
  | .check => do
    let pool ← Receiver.exec s.pool .check
    .ok { s with pool }
  | .take => do
    let pool ← Receiver.exec s.pool .take
    let decoded ← (pool.processed.drop s.pool.processed.length).mapM (Wire.process · 1024)
    .ok { s with pool, decoded := s.decoded ++ decoded }

def enabled (s : Transport) : Action → Prop
  | .write _ | .check => True
  | .arrive i => i < s.buffer.sent.length
  | .other _ records => (Wire.bytesOf records).length ≤ Receiver.sendSize
  | .take => Receiver.enabled s.pool .take

/-- A datagram finds a free place in the pool. -/
def HasRoom (s : Transport) : Action → Prop
  | .arrive _ | .other .. => s.pool.stored.length < s.pool.processed.length + Receiver.slots
  | .write _ | .check | .take => True

def initial : Transport := ⟨Sendudp.emptyBuffer, Receiver.initial, [], [], []⟩

def transport : Machine Transport Action Fault := ⟨initial, enabled, exec⟩

/-- What the datagram has that comes from `source`. -/
def Carries (sent : List (List U8)) : Source → Receiver.Datagram → Prop
  | .own i, message => ∃ datagram, sent[i]? = some datagram ∧ message = recvfrom datagram
  | .other records, message => (Wire.bytesOf records).length ≤ Receiver.sendSize ∧
    message = recvfrom (Wire.bytesOf records)

def Source.records (groups : List (List Wire.Record)) : Source → List Wire.Record
  | .own i => groups[i]?.getD []
  | .other records => records

structure Inv (s : Transport) : Prop where
  batched : Sendudp.Batched (s.copied.map Sendudp.sealed) s.buffer
  pool : Receiver.Invariant s.pool
  stored : List.Forall₂ (Carries s.buffer.sent) s.arrived s.pool.stored
  decoded : List.Forall₂ (fun buffer records => Wire.process buffer 1024 = .ok records)
    s.pool.processed s.decoded

theorem bytes_of_sealed (records : List Wire.Record) :
    Sendudp.bytesOf (records.map Sendudp.sealed) = Wire.bytesOf records := by
  rw [Sendudp.bytesOf, List.map_map]
  rfl

/-- A list that is mapped into groups has the same groups. -/
theorem map_eq_flatten {α β : Type} {f : α → β} {xs : List α} {groups : List (List β)}
    {waiting : List β} (h : xs.map f = groups.flatten ++ waiting) :
    ∃ (parts : List (List α)) (rest : List α), xs = parts.flatten ++ rest ∧
      groups = parts.map (List.map f) ∧ waiting = rest.map f := by
  induction groups generalizing xs with
  | nil => exact ⟨[], xs, rfl, rfl, h.symm⟩
  | cons group groups ih =>
    rw [List.flatten_cons, List.append_assoc] at h
    obtain ⟨part, later, rfl, rfl, hlater⟩ := List.map_eq_append_iff.mp h
    obtain ⟨parts, rest, rfl, rfl, rfl⟩ := ih hlater
    exact ⟨part :: parts, rest, (List.append_assoc ..).symm, rfl, rfl⟩

/-- What was sent and what waits are groups of the records written. -/
theorem Inv.groups {s : Transport} (h : Inv s) :
    ∃ (groups : List (List Wire.Record)) (waiting : List Wire.Record),
      s.copied = groups.flatten ++ waiting ∧ s.buffer.sent = groups.map Wire.bytesOf ∧
      s.buffer.publicBuffer.take s.buffer.writeBegin = Wire.bytesOf waiting := by
  obtain ⟨sent, rest, hdone, hsent, hrest⟩ := h.batched.groups
  obtain ⟨groups, waiting, hcopied, rfl, rfl⟩ := map_eq_flatten hdone
  refine ⟨groups, waiting, hcopied, ?_, ?_⟩
  · rw [hsent, List.map_map]
    exact List.map_congr_left fun group _ => bytes_of_sealed group
  · rw [hrest, bytes_of_sealed]

/-- Records that fit into a datagram are decoded one by one, whatever the buffer has behind. -/
theorem process_recvfrom {records : List Wire.Record}
    (hfits : (Wire.bytesOf records).length ≤ Receiver.sendSize) :
    Wire.process (recvfrom (Wire.bytesOf records)).bytes 1024 =
      .ok (records.map Wire.Record.received) := by
  have hsize : (Wire.bytesOf records).length ≤ 1024 := hfits
  have heven := Wire.even_bytes records
  have hpadded : (recvfrom (Wire.bytesOf records)).bytes =
      Wire.bytesOf records ++ List.replicate (1024 - (Wire.bytesOf records).length) 0 := by
    change (_ ++ List.replicate 1024 0).take 1024 = _
    rw [List.take_append, List.take_of_length_le hsize, List.take_replicate,
      Nat.min_eq_left (Nat.sub_le ..)]
  have hrun := Wire.process_records [] records (1024 - (Wire.bytesOf records).length) (by omega)
  have hlength : (Wire.bytesOf records).length + (1024 - (Wire.bytesOf records).length) = 1024 := by
    omega
  rw [hpadded, Wire.process]
  simpa only [List.nil_append, List.length_nil, Nat.zero_add, hlength] using hrun

/-- The datagrams of a source hold its records, and `process` finds them. -/
theorem Inv.carried {s : Transport} (h : Inv s) {groups : List (List Wire.Record)}
    (hsent : s.buffer.sent = groups.map Wire.bytesOf) {source : Source}
    {message : Receiver.Datagram} (hcarries : Carries s.buffer.sent source message) :
    Wire.process message.bytes 1024 = .ok ((source.records groups).map Wire.Record.received) := by
  cases source with
  | own i =>
    obtain ⟨datagram, hget, rfl⟩ := hcarries
    have hsmall := h.batched.small datagram (List.mem_of_getElem? hget)
    rw [hsent, List.getElem?_map] at hget
    obtain ⟨group, hgroup, rfl⟩ := Option.map_eq_some_iff.mp hget
    rw [process_recvfrom hsmall, Source.records, hgroup]
    rfl
  | other records =>
    obtain ⟨hfits, rfl⟩ := hcarries
    exact process_recvfrom hfits

/-- What is on its way does not change when more is sent. -/
theorem Carries.mono {sent more : List (List U8)} {source : Source} {message : Receiver.Datagram}
    (h : Carries sent source message) (hmore : sent <+: more) : Carries more source message := by
  cases source with
  | own i =>
    obtain ⟨datagram, hget, hmessage⟩ := h
    obtain ⟨later, rfl⟩ := hmore
    have hlt : i < sent.length := (List.getElem?_eq_some_iff.mp hget).1
    exact ⟨datagram, (List.getElem?_append_left hlt).trans hget, hmessage⟩
  | other => exact h

theorem copy_record_sent {s t : Sendudp.PublicBuffer} {data : List U8}
    (h : Sendudp.copyRecord s data = .ok t) : t.sent = s.sent := by
  obtain ⟨publicBuffer, -, h⟩ := bind_ok h
  cases h
  rfl

theorem write_2_public_buffer_sent {s t : Sendudp.PublicBuffer} {data : List U8}
    (h : Sendudp.write2PublicBuffer s data = .ok t) : s.sent <+: t.sent := by
  unfold Sendudp.write2PublicBuffer at h
  split at h
  · exact (copy_record_sent h).symm ▸ List.prefix_refl s.sent
  · obtain ⟨u, hsend, h⟩ := bind_ok h
    obtain ⟨written, -, hsend⟩ := bind_ok hsend
    obtain ⟨buffer, -, hsend⟩ := bind_ok hsend
    obtain ⟨datagram, -, hsend⟩ := bind_ok hsend
    cases hsend
    rw [copy_record_sent h]
    exact List.prefix_append _ _

theorem store_message_history {s t : Receiver.Pool} {message : Receiver.Datagram}
    (h : Receiver.storeMessage message s = .ok t) :
    t.stored = s.stored ++ [message] ∧ t.processed = s.processed := by
  obtain ⟨bufferPool, -, h⟩ := bind_ok h
  cases h
  exact ⟨rfl, rfl⟩

theorem take_processed {s t : Receiver.Pool} {buffer : List U8}
    (hslice : slice s.bufferPool s.head Receiver.sendSize = .ok buffer)
    (hrun : Receiver.takeBuffer s = .ok t) :
    t.processed = s.processed ++ [buffer] ∧ t.stored = s.stored := by
  rw [Receiver.takeBuffer, hslice] at hrun
  obtain ⟨_, hread, hrun⟩ := bind_ok hrun
  cases hread
  cases hrun
  exact ⟨rfl, rfl⟩

namespace Inv

variable {s : Transport}

theorem write (h : Inv s) (t : Wire.Record) : ∃ u, exec s (.write t) = .ok u ∧ Inv u ∧
    u = { s with buffer := u.buffer, copied := s.copied ++ [t] } := by
  obtain ⟨buffer, hrun, hbatched⟩ :=
    Sendudp.write_2_public_buffer_step _ s.buffer (Sendudp.sealed t) h.batched
  refine ⟨{ s with buffer, copied := s.copied ++ [t] }, ?_, ⟨?_, h.pool, ?_, h.decoded⟩, rfl⟩
  · change Sendudp.write2PublicBuffer s.buffer t.bytes = .ok buffer at hrun
    rw [exec, hrun]
    rfl
  · rw [List.map_append]
    exact hbatched
  · exact h.stored.imp fun _ _ hcarries => hcarries.mono (write_2_public_buffer_sent hrun)

/-- A datagram is stored by either socket thread. -/
theorem store (h : Inv s) {source : Source} {message : Receiver.Datagram}
    (hcarries : Carries s.buffer.sent source message)
    (hroom : s.pool.stored.length < s.pool.processed.length + Receiver.slots) :
    ∃ pool, Receiver.storeMessage message s.pool = .ok pool ∧
      Inv { s with pool, arrived := s.arrived ++ [source] } := by
  obtain ⟨pool, hrun, hpool⟩ := h.pool.store message hroom
  obtain ⟨hstored, hprocessed⟩ := store_message_history hrun
  refine ⟨pool, hrun, h.batched, hpool, ?_, ?_⟩
  · change List.Forall₂ _ (s.arrived ++ [source]) pool.stored
    rw [hstored]
    exact List.rel_append h.stored (.cons hcarries .nil)
  · change List.Forall₂ _ pool.processed s.decoded
    rw [hprocessed]
    exact h.decoded

/-- What is taken from the pool has the records of its source. -/
theorem take (h : Inv s) (allowed : Receiver.enabled s.pool .take) :
    ∃ pool records, exec s .take = .ok { s with pool, decoded := s.decoded ++ [records] } ∧
      Inv { s with pool, decoded := s.decoded ++ [records] } ∧
      ∃ message, s.pool.stored[s.pool.processed.length]? = some message ∧
        Wire.process message.bytes 1024 = .ok records := by
  obtain ⟨pool, hrun, hpool⟩ := h.pool.take allowed
  obtain ⟨u, hu, hlarge⟩ := allowed
  have hwait := h.pool.tested u hu hlarge
  obtain ⟨hprocessed, hstored⟩ := take_processed (h.pool.waiting hwait) hrun
  obtain ⟨groups, waiting, -, hsent, -⟩ := h.groups
  have harrived : s.pool.processed.length < s.arrived.length := h.stored.length_eq ▸ hwait
  obtain ⟨records, hprocess⟩ : ∃ records, Wire.process
      s.pool.stored[s.pool.processed.length].bytes 1024 = .ok records :=
    ⟨_, h.carried hsent (h.stored.get harrived hwait)⟩
  refine ⟨pool, records, ?_, ⟨h.batched, hpool, ?_, ?_⟩,
    _, List.getElem?_eq_getElem hwait, hprocess⟩
  · simp only [exec, Receiver.exec, hrun, hprocessed, bind, Except.bind, List.drop_left,
      List.mapM_cons, List.mapM_nil, hprocess, pure, Except.pure]
  · change List.Forall₂ _ s.arrived pool.stored
    rw [hstored]
    exact h.stored
  · change List.Forall₂ _ pool.processed _
    rw [hprocessed]
    exact List.rel_append h.decoded (.cons hprocess .nil)

end Inv

theorem inv_inductive : (transport.restrict HasRoom).Inductive Inv where
  start := ⟨Sendudp.empty_batched, Receiver.inductive_invariant.start, .nil, .nil⟩
  step s a hs ha := by
    obtain ⟨allowed, room⟩ := ha
    cases a with
    | write t =>
      obtain ⟨u, hrun, hu, -⟩ := hs.write t
      exact ⟨u, hrun, hu⟩
    | arrive i =>
      have hget : s.buffer.sent[i]? = some s.buffer.sent[i] := List.getElem?_eq_getElem allowed
      have hcarries : Carries s.buffer.sent (.own i) (recvfrom s.buffer.sent[i]) := ⟨_, hget, rfl⟩
      obtain ⟨pool, hrun, hnext⟩ := hs.store hcarries room
      refine ⟨_, ?_, hnext⟩
      change exec s (.arrive i) = _
      simp only [exec, hget, Receiver.exec, hrun, bind, Except.bind]
    | other winsizePort records =>
      have hcarries : Carries s.buffer.sent (.other records) (recvfrom (Wire.bytesOf records)) :=
        ⟨allowed, rfl⟩
      obtain ⟨pool, hrun, hnext⟩ := hs.store hcarries room
      refine ⟨_, ?_, hnext⟩
      change exec s (.other winsizePort records) = _
      cases winsizePort with
      | true => simp only [exec, Receiver.exec, if_true, hrun, bind, Except.bind]
      | false => simp only [exec, Receiver.exec, Bool.false_eq_true, if_false, hrun, bind,
          Except.bind]
    | check => exact ⟨_, rfl, hs.batched, hs.pool.check, hs.stored, hs.decoded⟩
    | take =>
      obtain ⟨pool, records, hrun, hnext, -⟩ := hs.take allowed
      exact ⟨_, hrun, hnext⟩

/-- The decoded records are those of the sources of the first datagrams. -/
theorem Inv.decoded_records {s : Transport} (h : Inv s) {groups : List (List Wire.Record)}
    (hsent : s.buffer.sent = groups.map Wire.bytesOf) :
    s.decoded = (s.arrived.take s.decoded.length).map fun source =>
      (source.records groups).map Wire.Record.received := by
  have hlength := h.decoded.length_eq
  have hstored := h.stored.length_eq
  have hle := h.pool.le
  apply List.ext_getElem
  · rw [List.length_map, List.length_take]
    omega
  · intro k hk hk'
    have hprocessed : k < s.pool.processed.length := hlength ▸ hk
    have hwait : k < s.pool.stored.length := Nat.lt_of_lt_of_le hprocessed hle
    have harrived : k < s.arrived.length := hstored ▸ hwait
    have hdecoded : Wire.process s.pool.processed[k] 1024 = .ok s.decoded[k] :=
      h.decoded.get hprocessed hk
    have hcarried := h.carried hsent (h.stored.get harrived hwait)
    have hbytes : s.pool.processed[k] = s.pool.stored[k].bytes := by
      rw [List.IsPrefix.getElem h.pool.passed hprocessed, List.getElem_map]
    rw [hbytes] at hdecoded
    rw [List.getElem_map, List.getElem_take]
    exact Except.ok.inj (hdecoded.symm.trans hcarried)

/-- A record that no longer fits into the buffer with all that came after it is in a group. -/
theorem Inv.first_sent {s : Transport} (h : Inv s) {first : Wire.Record} {later : List Wire.Record}
    (hcopied : s.copied = first :: later) (hlarge : 1024 < (Wire.bytesOf s.copied).length) :
    ∃ (i : Nat) (group : List Wire.Record),
      s.buffer.sent[i]? = some (Wire.bytesOf group) ∧ first ∈ group := by
  obtain ⟨groups, waiting, hgroups, hsent, hwaiting⟩ := h.groups
  have hsome : groups.flatten ≠ [] := by
    intro hnil
    rw [hnil, List.nil_append] at hgroups
    have hlength := congrArg List.length hwaiting
    rw [List.length_take, ← hgroups] at hlength
    have hwithin : s.buffer.writeBegin ≤ 1024 := h.batched.within
    omega
  obtain ⟨r, rest, hrest⟩ := List.exists_cons_of_ne_nil hsome
  rw [hcopied, hrest] at hgroups
  obtain ⟨rfl, -⟩ := List.cons.inj hgroups
  obtain ⟨group, hgroup, hmem⟩ := List.mem_flatten.mp (hrest ▸ List.mem_cons_self .. :
    first ∈ groups.flatten)
  obtain ⟨i, hi⟩ := List.getElem?_of_mem hgroup
  refine ⟨i, group, ?_, hmem⟩
  rw [hsent, List.getElem?_map, hi]
  rfl

/-- While a datagram waits in a pool that is not full, the next test lets it be processed. -/
theorem Inv.drains {s : Transport} (h : Inv s) {message : Receiver.Datagram}
    (hwait : s.pool.stored[s.pool.processed.length]? = some message)
    (hroom : s.pool.stored.length < s.pool.processed.length + Receiver.slots) :
    ∃ t pool records, exec s .check = .ok t ∧ enabled t .take ∧
      exec t .take = .ok { s with pool, decoded := s.decoded ++ [records] } ∧
      Wire.process message.bytes 1024 = .ok records := by
  have hlt : s.pool.processed.length < s.pool.stored.length :=
    (List.getElem?_eq_some_iff.mp hwait).1
  have hlevel : 1 < Receiver.fillLevel s.pool := by
    rw [h.pool.fifo.counts hroom, Receiver.sendSize]
    omega
  have hchecked : Inv { s with pool := { s.pool with ulen := some (Receiver.fillLevel s.pool) } } :=
    ⟨h.batched, h.pool.check, h.stored, h.decoded⟩
  obtain ⟨pool, records, hrun, -, found, hfound, hprocess⟩ := hchecked.take ⟨_, rfl, hlevel⟩
  obtain rfl := Option.some.inj (hfound.symm.trans hwait)
  exact ⟨_, pool, records, rfl, ⟨_, rfl, hlevel⟩, hrun, hprocess⟩

/-- A report of a channel. -/
def report : Wire.Record := .survey ⟨2, 0, 0, 0, 0, 1⟩ ⟨1, 2, 3, 4, 5, 6, 7, 8, 9, 10, 11, 12⟩

/-- Other actions than the reports of drops and the datagrams of others. -/
def Action.Plain : Action → Prop
  | .write t => t = report
  | .other .. => False
  | .arrive _ | .check | .take => True

section Progress

variable {P : Transport → Prop}
  (step : ∀ s a t, P s → a.Plain → enabled s a → HasRoom s a → exec s a = .ok t → P t)
include step

theorem writes {s : Transport} (h : Inv s) (hs : P s) (n : Nat) :
    ∃ t, P t ∧ Inv t ∧ t = { s with
      buffer := t.buffer, copied := s.copied ++ List.replicate n report } := by
  induction n with
  | zero => exact ⟨s, hs, h, by rw [List.replicate_zero, List.append_nil]⟩
  | succ n ih =>
    obtain ⟨t, ht, hinv, heq⟩ := ih
    obtain ⟨u, hrun, hnext, hu⟩ := hinv.write report
    refine ⟨u, step t (.write report) u ht rfl trivial trivial hrun, hnext, ?_⟩
    rw [hu, heq, List.replicate_succ', List.append_assoc]

/-- The oldest record written can reach the server in any state with an empty pool. -/
theorem first_delivered {s : Transport} (h : Inv s) (hs : P s)
    (hempty : s.pool.stored.length = s.pool.processed.length) {first : Wire.Record}
    {later : List Wire.Record} (hcopied : s.copied = first :: later) :
    ∃ (t : Transport) (group : List Wire.Record), P t ∧ first ∈ group ∧
      t.decoded = s.decoded ++ [group.map Wire.Record.received] := by
  have hslots : 1 < Receiver.slots := by decide
  obtain ⟨t, ht, hinv, heq⟩ := writes step h hs 15
  have hpool : t.pool = s.pool := by rw [heq]
  have hdecoded : t.decoded = s.decoded := by rw [heq]
  have hfirst : t.copied = first :: (later ++ List.replicate 15 report) := by
    rw [heq, hcopied, List.cons_append]
  have hlarge : 1024 < (Wire.bytesOf t.copied).length := by
    rw [heq]
    simp [Wire.bytesOf, report, Wire.Record.bodySize]
  obtain ⟨i, group, hget, hmem⟩ := hinv.first_sent hfirst hlarge
  have hsmall := hinv.batched.small _ (List.mem_of_getElem? hget)
  -- the datagram arrives
  have hroom : t.pool.stored.length < t.pool.processed.length + Receiver.slots := by
    rw [hpool, hempty]
    omega
  have hcarries : Carries t.buffer.sent (.own i) (recvfrom (Wire.bytesOf group)) := ⟨_, hget, rfl⟩
  obtain ⟨pool, hstore, hnext⟩ := hinv.store hcarries hroom
  obtain ⟨hstored, hprocessed⟩ := store_message_history hstore
  have harrive : exec t (.arrive i) =
      .ok { t with pool, arrived := t.arrived ++ [.own i] } := by
    simp only [exec, hget, Receiver.exec, hstore, bind, Except.bind]
  have hlt : i < t.buffer.sent.length := (List.getElem?_eq_some_iff.mp hget).1
  have harrived := step t (.arrive i) _ ht trivial hlt hroom harrive
  -- and is processed
  have hwait : pool.stored[pool.processed.length]? = some (recvfrom (Wire.bytesOf group)) := by
    rw [hstored, hprocessed, hpool, ← hempty, List.getElem?_concat_length]
  have hroom' : pool.stored.length < pool.processed.length + Receiver.slots := by
    rw [hstored, hprocessed, hpool, List.length_append, List.length_singleton, hempty]
    omega
  obtain ⟨u, pool', records, hcheck, allowed, htake, hprocess⟩ := hnext.drains hwait hroom'
  obtain rfl := Except.ok.inj (hprocess.symm.trans (process_recvfrom hsmall))
  have hchecked := step _ .check u harrived trivial trivial trivial hcheck
  refine ⟨_, group, step u .take _ hchecked trivial allowed trivial htake, hmem, ?_⟩
  change t.decoded ++ _ = _
  rw [hdecoded]

end Progress

end ApTelemetry.EndToEnd
