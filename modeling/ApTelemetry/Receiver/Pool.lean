import ApTelemetry.Lib.Buffer
import ApTelemetry.Lib.Machine
import ApTelemetry.Lib.Ring
import ApTelemetry.Structs

namespace ApTelemetry.Receiver
open Lib

def sendSize : Nat := 1024
def poolSize : Nat := 10240000
/-- How many datagrams the pool has places for. -/
def slots : Nat := 10000

theorem pool_slots : poolSize = sendSize * slots := rfl

/-- What `recvfrom` leaves in `message`: zeros follow a short datagram. -/
structure Datagram where
  bytes : List U8
  full : bytes.length = sendSize

/-- The pool with its two indices, and the consumer's variable `ulen`: `none`
from taking a datagram until the next test. `stored` is the history of all
datagrams copied in, `processed` of all buffers passed to `process`. -/
structure Pool where
  bufferPool : List U8
  tail : Nat
  head : Nat
  ulen : Option Nat
  stored : List Datagram
  processed : List (List U8)

inductive Action where
  | receive (message : Datagram)
  | receive1 (message : Datagram)
  | check
  | take

/-- The critical section that both socket threads have. -/
def storeMessage (message : Datagram) (s : Pool) : Except Fault Pool := do
  let bufferPool ← blit s.bufferPool s.tail message.bytes
  .ok { s with
    bufferPool
    tail := (s.tail + sendSize) % poolSize
    stored := s.stored ++ [message] }

def fillLevel (s : Pool) : Nat := (s.tail + poolSize - s.head) % poolSize

/-- The critical section of `g_mes_tn_process`. -/
def takeBuffer (s : Pool) : Except Fault Pool := do
  let buffer ← slice s.bufferPool s.head sendSize
  .ok { s with
    head := (s.head + sendSize) % poolSize
    ulen := none
    processed := s.processed ++ [buffer] }

def exec (s : Pool) : Action → Except Fault Pool
  | .receive message => storeMessage message s
  | .receive1 message => storeMessage message s
  | .check => .ok { s with ulen := some (fillLevel s) }
  | .take => takeBuffer s

/-- Both tests of `g_mes_tn_process` run outside the mutex, so stores may fall
between a test and the read it allows. -/
def enabled (s : Pool) : Action → Prop
  | .receive _ | .receive1 _ | .check => True
  | .take => ∃ u, s.ulen = some u ∧ 1 < u

def initial : Pool where
  bufferPool := List.replicate poolSize 0
  tail := 0
  head := 0
  ulen := none
  stored := []
  processed := []

def machine : Machine Pool Action Fault := ⟨initial, enabled, exec⟩

/-- A store finds fewer datagrams waiting than the pool has places. -/
def HasRoom (s : Pool) : Action → Prop
  | .receive _ | .receive1 _ => s.stored.length < s.processed.length + slots
  | .check | .take => True

def slot (bufferPool : List U8) (i : Nat) : Except Fault (List U8) :=
  slice bufferPool (sendSize * i) sendSize

def contents (stored : List Datagram) : List (Except Fault (List U8)) :=
  stored.map fun message => .ok message.bytes

structure Invariant (s : Pool) : Prop where
  size : s.bufferPool.length = poolSize
  cursors : Cursors poolSize (sendSize * s.processed.length) (sendSize * s.stored.length)
    s.head s.tail
  room : s.stored.length ≤ s.processed.length + slots
  held : Stored slots (slot s.bufferPool) (contents s.stored) s.processed.length
  passed : s.processed <+: s.stored.map Datagram.bytes
  tested : ∀ u, s.ulen = some u → 1 < u → s.processed.length < s.stored.length

namespace Invariant

variable {s : Pool}

theorem head_eq (h : Invariant s) : s.head = sendSize * (s.processed.length % slots) := by
  rw [h.cursors.first, pool_slots, Nat.mul_mod_mul_left]

theorem tail_eq (h : Invariant s) : s.tail = sendSize * (s.stored.length % slots) := by
  rw [h.cursors.next, pool_slots, Nat.mul_mod_mul_left]

theorem le (h : Invariant s) : s.processed.length ≤ s.stored.length := by
  simpa using h.passed.length_le

/-- The next place never straddles the end of the pool. -/
theorem tail_fits (h : Invariant s) : s.tail + sendSize ≤ s.bufferPool.length := by
  have hlt : s.stored.length % slots < slots := Nat.mod_lt _ (by decide)
  rw [h.tail_eq, h.size, pool_slots, ← Nat.mul_succ]
  exact Nat.mul_le_mul_left _ hlt

/-- The oldest datagram waiting is the one at `head`. -/
theorem waiting (h : Invariant s) (hlt : s.processed.length < s.stored.length) :
    slice s.bufferPool s.head sendSize = .ok s.stored[s.processed.length].bytes := by
  have hslot := h.held s.processed.length (Nat.le_refl _) (by simpa [contents] using hlt)
  rw [h.head_eq]
  simpa [slot, contents] using hslot

/-- A store runs through whether or not there is room. -/
theorem store_runs (h : Invariant s) (message : Datagram) :
    ∃ bufferPool, blit s.bufferPool s.tail message.bytes = .ok bufferPool ∧
      storeMessage message s = .ok { s with
        bufferPool
        tail := (s.tail + sendSize) % poolSize
        stored := s.stored ++ [message] } := by
  have hblit := blit_ok (message.full.symm ▸ h.tail_fits)
  exact ⟨_, hblit, by rw [storeMessage, hblit]; rfl⟩

theorem store (h : Invariant s) (message : Datagram)
    (hroom : s.stored.length < s.processed.length + slots) :
    ∃ t, storeMessage message s = .ok t ∧ Invariant t := by
  have hfull := message.full
  obtain ⟨bufferPool, hblit, hrun⟩ := h.store_runs message
  refine ⟨_, hrun, ?_⟩
  have hlen : s.stored.length = (contents s.stored).length := by simp [contents]
  refine ⟨(blit_length hblit).trans h.size, ?_, ?_, ?_, ?_, ?_⟩
  · simpa [Nat.mul_succ] using h.cursors.put sendSize
  · rw [List.length_append]
    exact hroom
  · -- only the slot written changes
    have hput : Stored slots (slot bufferPool) (contents s.stored ++ [.ok message.bytes])
        s.processed.length := h.held.put _ (hlen ▸ hroom) ?_ ?_
    · simpa [contents] using hput
    · rw [slot, ← hlen, ← h.tail_eq, ← hfull]
      exact slice_blit_same hblit
    · intro i hi hne
      refine slice_blit_disjoint hblit ?_
      rw [hfull, h.tail_eq, hlen]
      simp only [sendSize]
      omega
  · simpa using h.passed.trans (List.prefix_append _ _)
  · intro u hu hlt
    simpa using Nat.lt_succ_of_lt (h.tested u hu hlt)

theorem check (h : Invariant s) : Invariant { s with ulen := some (fillLevel s) } := by
  refine ⟨h.size, h.cursors, h.room, h.held, h.passed, ?_⟩
  intro u hu hlt
  obtain rfl := Option.some.inj hu
  refine lt_of_le_of_ne h.le ?_
  intro heq
  have hempty : fillLevel s = 0 := (heq ▸ h.cursors).distance_empty
  omega

theorem take (h : Invariant s) (hen : enabled s .take) :
    ∃ t, takeBuffer s = .ok t ∧ Invariant t := by
  obtain ⟨u, hu, hlt⟩ := hen
  have hwait := h.tested u hu hlt
  refine ⟨_, by rw [takeBuffer, h.waiting hwait]; rfl, ?_⟩
  refine ⟨h.size, ?_, ?_, ?_, ?_, ?_⟩
  · have hle : sendSize * s.processed.length + sendSize ≤ sendSize * s.stored.length := by
      rw [← Nat.mul_succ]
      exact Nat.mul_le_mul_left _ hwait
    simpa [Nat.mul_succ] using h.cursors.take sendSize hle
  · have := h.room
    simp only [List.length_append, List.length_singleton]
    omega
  · exact h.held.mono (by simp)
  · obtain ⟨rest, hrest⟩ := h.passed
    have hget : (s.stored.map Datagram.bytes)[s.processed.length]? =
        some s.stored[s.processed.length].bytes := by simp [hwait]
    cases rest with
    | nil => simp [← hrest] at hget
    | cons x rest =>
      have hx : x = s.stored[s.processed.length].bytes := by simpa [← hrest] using hget
      exact ⟨rest, by rw [← hrest, hx]; simp⟩
  · intro u hu
    cases hu

end Invariant

theorem inductive_invariant : (machine.restrict HasRoom).Inductive Invariant where
  start := by
    refine ⟨List.length_replicate, .start (by decide), Nat.zero_le _, .nil _ _,
      List.prefix_refl _, ?_⟩
    intro u hu
    cases hu
  step s a hs ha := by
    obtain ⟨hen, hroom⟩ := ha
    cases a with
    | receive message => exact hs.store message hroom
    | receive1 message => exact hs.store message hroom
    | check => exact ⟨_, rfl, hs.check⟩
    | take => exact hs.take hen

/-- What the pool is for: nothing stored is lost, doubled or reordered, the next
datagram waits at `head`, and the test counts the datagrams waiting. -/
structure Fifo (s : Pool) : Prop where
  inOrder : s.processed <+: s.stored.map Datagram.bytes
  next : ∀ h : s.processed.length < s.stored.length,
    slice s.bufferPool s.head sendSize = .ok s.stored[s.processed.length].bytes
  counts : s.stored.length < s.processed.length + slots →
    fillLevel s = sendSize * (s.stored.length - s.processed.length)

theorem Invariant.fifo {s : Pool} (h : Invariant s) : Fifo s := by
  refine ⟨h.passed, h.waiting, ?_⟩
  intro hroom
  rw [fillLevel, h.cursors.distance, Nat.mul_sub]
  rw [pool_slots, ← Nat.mul_add]
  exact Nat.mul_lt_mul_of_pos_left hroom (by decide)

/-- The test, and then the read it allows, of the datagram at `head`. -/
theorem test_and_take {s : Pool} {buffer : List U8} (hlt : 1 < fillLevel s)
    (hslice : slice s.bufferPool s.head sendSize = .ok buffer) : ∃ s' t,
    exec s .check = .ok s' ∧ enabled s' .take ∧ exec s' .take = .ok t ∧
      t.stored = s.stored ∧ t.processed = s.processed ++ [buffer] := by
  let tested : Pool := { s with ulen := some (fillLevel s) }
  refine ⟨tested, { tested with
      head := (s.head + sendSize) % poolSize
      ulen := none
      processed := s.processed ++ [buffer] }, rfl, ⟨_, rfl, hlt⟩, ?_, rfl, rfl⟩
  rw [exec, takeBuffer, hslice]
  rfl

/-- A store into a full pool overwrites the oldest datagram, and the fill level
becomes one. -/
theorem store_full {s : Pool} (message : Datagram) (h : Invariant s)
    (hfull : s.stored.length = s.processed.length + slots) : ∃ t,
    storeMessage message s = .ok t ∧ t.stored = s.stored ++ [message] ∧
      t.processed = s.processed ∧ fillLevel t = sendSize ∧
        slice t.bufferPool t.head sendSize = .ok message.bytes := by
  have hmeet : s.tail = s.head := by rw [h.tail_eq, h.head_eq, hfull, Nat.add_mod_right]
  obtain ⟨bufferPool, hblit, hrun⟩ := h.store_runs message
  refine ⟨_, hrun, rfl, rfl, ?_, ?_⟩
  · have hcursors : Cursors poolSize s.head (s.head + sendSize) s.head
        ((s.tail + sendSize) % poolSize) :=
      ⟨h.cursors.pos, (Nat.mod_eq_of_lt h.cursors.first_lt).symm, by rw [hmeet],
        Nat.le_add_right _ _⟩
    have hdistance := hcursors.distance (Nat.add_lt_add_left (by decide) _)
    rw [Nat.add_sub_cancel_left] at hdistance
    exact hdistance
  · rw [← hmeet, ← message.full]
    exact slice_blit_same hblit

/-- A store into a full pool: the next read passes on what was just stored in
place of the datagram that waited longest. -/
theorem store_full_reorders {s t : Pool} {message : Datagram} (h : Invariant s)
    (hfull : ¬ s.stored.length < s.processed.length + slots)
    (hrun : storeMessage message s = .ok t)
    (hother : (s.stored.map Datagram.bytes)[s.processed.length]? ≠ some message.bytes) :
    ∃ s' u, exec t .check = .ok s' ∧ enabled s' .take ∧ exec s' .take = .ok u ∧
      ¬ u.processed <+: u.stored.map Datagram.bytes := by
  have hroom := h.room
  obtain ⟨t', hrun', hstored, hprocessed, hlevel, hslice⟩ := store_full message h (by omega)
  obtain rfl := Except.ok.inj (hrun'.symm.trans hrun)
  obtain ⟨s', u, hcheck, hen, htake, hst, hpr⟩ :=
    test_and_take (hlevel ▸ (by decide : 1 < sendSize)) hslice
  refine ⟨s', u, hcheck, hen, htake, ?_⟩
  rw [hst, hpr, hstored, hprocessed]
  rintro ⟨rest, hrest⟩
  apply hother
  have hwaits : s.processed.length < s.stored.length := by
    have hpos : 0 < slots := by decide
    omega
  have hnext := congrArg (fun passed => passed[s.processed.length]?) hrest
  simpa [List.getElem?_append, hwaits] using hnext.symm

/-- While every store finds a free place, the pool is a lossless queue and no
critical section leaves the array. A store that finds none puts its datagram in
the place of another, and the next read is out of order. -/
theorem pool_lossless (s : Pool) (hr : (machine.restrict HasRoom).Reachable s) :
    Fifo s ∧ (∀ a, enabled s a → HasRoom s a → ∃ t, exec s a = .ok t) ∧
    ∀ message t, ¬ s.stored.length < s.processed.length + slots →
      storeMessage message s = .ok t →
      (s.stored.map Datagram.bytes)[s.processed.length]? ≠ some message.bytes →
        ∃ s' u, exec t .check = .ok s' ∧ enabled s' .take ∧ exec s' .take = .ok u ∧
          ¬ u.processed <+: u.stored.map Datagram.bytes := by
  have hinv := inductive_invariant.reachable hr
  refine ⟨hinv.fifo, ?_, ?_⟩
  · intro a hen hroom
    exact inductive_invariant.runs hr a ⟨hen, hroom⟩
  · intro message t hfull hrun hother
    exact store_full_reorders hinv hfull hrun hother

/-- A datagram of 1024 equal bytes. -/
def filled (byte : U8) : Datagram := ⟨List.replicate sendSize byte, List.length_replicate⟩

/-- The pool can be filled to the last place before anything is read. -/
theorem fills (message : Datagram) (k : Nat) (hk : k ≤ slots) : ∃ s,
    (machine.restrict HasRoom).Reachable s ∧ s.stored = List.replicate k message ∧
      s.processed = [] := by
  induction k with
  | zero => exact ⟨initial, .start, rfl, rfl⟩
  | succ k ih =>
    obtain ⟨s, hr, hstored, hprocessed⟩ := ih (by omega)
    obtain ⟨bufferPool, _, hrun⟩ := (inductive_invariant.reachable hr).store_runs message
    refine ⟨_, hr.step (.receive message) ⟨trivial, ?_⟩ hrun, ?_, hprocessed⟩
    · simp only [HasRoom, hstored, hprocessed, List.length_replicate, List.length_nil]
      omega
    · simp [hstored, List.replicate_succ']

theorem pool_lossless_one_of_two : ∃ s, (machine.restrict HasRoom).Reachable s ∧
    s.stored.length = 2 ∧ s.processed.length = 1 ∧ Fifo s := by
  obtain ⟨s, hr, hstored, hprocessed⟩ := fills (filled 0) 2 (by decide)
  have hinv := inductive_invariant.reachable hr
  have hwait : s.processed.length < s.stored.length := by simp [hstored, hprocessed]
  have hlevel : 1 < fillLevel s := by
    rw [hinv.fifo.counts (by simp [hstored, hprocessed, slots]), hstored, hprocessed]
    decide
  obtain ⟨s', t, hcheck, hen, htake, hst, hpr⟩ := test_and_take hlevel (hinv.waiting hwait)
  have ht := (hr.step Action.check ⟨trivial, trivial⟩ hcheck).step Action.take ⟨hen, trivial⟩ htake
  exact ⟨t, ht, by simp [hst, hstored], by simp [hpr, hprocessed], (pool_lossless t ht).1⟩

/-- With 10000 datagrams waiting the next store loses one: the consumer then
passes on the newest datagram in place of the oldest. -/
theorem pool_overrun : ∃ s, machine.Reachable s ∧
    s.stored = List.replicate slots (filled 0) ++ [filled 1] ∧
      s.processed = [(filled 1).bytes] ∧ ¬ s.processed <+: s.stored.map Datagram.bytes := by
  obtain ⟨s, hr, hstored, hprocessed⟩ := fills (filled 0) slots (Nat.le_refl _)
  obtain ⟨s₁, hstore, hst₁, hpr₁, hlevel, hslice⟩ :=
    store_full (filled 1) (inductive_invariant.reachable hr) (by simp [hstored, hprocessed])
  obtain ⟨s₂, t, hcheck, hen, htake, hst, hpr⟩ :=
    test_and_take (hlevel ▸ (by decide : 1 < sendSize)) hslice
  have hr₁ := hr.of_restrict.step (Action.receive (filled 1)) trivial hstore
  have ht := (hr₁.step Action.check trivial hcheck).step Action.take hen htake
  rw [hst₁, hstored] at hst
  rw [hpr₁, hprocessed] at hpr
  refine ⟨t, ht, hst, hpr, ?_⟩
  rw [hst, hpr]
  intro hprefix
  rw [show slots = 9999 + 1 from rfl, List.replicate_succ, List.cons_append, List.map_cons,
    List.nil_append, List.cons_prefix_cons] at hprefix
  exact absurd ((List.replicate_right_inj (by decide)).mp hprefix.1) (by decide)

end ApTelemetry.Receiver
