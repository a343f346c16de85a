import ApTelemetry.HashLin.Chains
import ApTelemetry.Lib.Words

namespace ApTelemetry.NewReceiver
open Lib HashLin

/-- A direction of a connection, as one access point reports it. -/
structure Flow where
  mac : Mac
  tuple : FourTuple
  deriving DecidableEq

def Flow.reverse (f : Flow) : Flow := ⟨f.mac, f.tuple.reverse⟩

def macBytes (m : Mac) : List U8 := [m.b0, m.b1, m.b2, m.b3, m.b4, m.b5]

/-- The 18 bytes of `str`, which no NUL follows. -/
def Flow.str (f : Flow) : List U8 :=
  macBytes f.mac ++
    [byte f.tuple.ipSrc 0, byte f.tuple.ipSrc 1, byte f.tuple.ipSrc 2, byte f.tuple.ipSrc 3,
      byte f.tuple.ipDst 0, byte f.tuple.ipDst 1, byte f.tuple.ipDst 2, byte f.tuple.ipDst 3,
      byte f.tuple.sourceaddr 0, byte f.tuple.sourceaddr 1,
      byte f.tuple.destination 0, byte f.tuple.destination 1]

/-- A line of the log: the packet with its masked flags, and `cal_windowsize`
where the shift is one C defines. -/
structure Line where
  rdata : DataWinsize
  calWindowsize : Option U32
  deriving DecidableEq

structure State where
  table : Table
  log : List Line

/-- A decoded packet, the clock, and what `malloc` would return. -/
structure Packet where
  mac : Mac
  rdata : DataWinsize
  time : U64
  block : Addr

def Packet.flow (p : Packet) : Flow := ⟨p.mac, p.rdata.tuple⟩

def Packet.flags (p : Packet) : U16 := p.rdata.flags &&& 0x0017

/-- `(int) rdata.wscale[2]`, `char` being signed. -/
def Packet.wscale (p : Packet) : U32 := p.rdata.wscale2.signExtend 32

/-- `windowsize << nValue`, in `int`. -/
def shiftWindow (windowsize : U16) (nValue : U32) : Option U32 :=
  if 0 ≤ nValue.toInt ∧ nValue.toInt < 32 then some (windowsize.setWidth 32 <<< nValue.toNat)
  else none

/-- `if (hash_table_lookup (str) != NULL) hash_table_remove (str);` -/
def removeFound (str : List U8) (table : Table) : Except Fault Table := do
  match ← hashTableLookup str table with
  | some _ => hashTableRemove str table
  | none => .ok table

/-- The branch for pure acknowledgements, on the key of the reverse direction.
The source calls `hash_table_lookup` again for each use of the node. -/
def ackWindow (p : Packet) (table : Table) : Except Fault (Table × Option U32) := do
  let str := p.flow.reverse.str
  match ← hashTableLookup str table with
  | some found =>
    let node ← table.heap.read (some found)
    let heap ← table.heap.setItem (some found) fun node => { node with time := p.time }
    .ok ({ table with heap }, shiftWindow p.rdata.windowsize node.item.nValue)
  | none =>
    let table ← hashTableInsert p.block str p.wscale p.time table
    .ok (table, some (p.rdata.windowsize.setWidth 32))

/-- The branches of `decode_winsize`. In the second, `flags & 0x0004 == 1` is
`flags & (0x0004 == 1)`. -/
def handleFlags (p : Packet) (table : Table) : Except Fault (Table × Option U32) := do
  let windowsize := some (p.rdata.windowsize.setWidth 32)
  if p.flags = 2 ∨ p.flags = 18 then
    let table ← hashTableInsert p.block p.flow.str p.wscale p.time table
    .ok (table, windowsize)
  else if p.flags = 17 ∨ p.flags &&& (if (0x0004 : U16) = 1 then 1 else 0) ≠ 0 then
    let table ← removeFound p.flow.str table
    let table ← removeFound p.flow.reverse.str table
    .ok (table, windowsize)
  else if p.flags = 16 then ackWindow p table
  else .ok (table, windowsize)

/-- `decode_winsize` of new_receiver.c, from the decoded packet on. -/
def decodeWinsize (p : Packet) (s : State) : Except Fault State := do
  let (table, calWindowsize) ← handleFlags p s.table
  .ok ⟨table, s.log ++ [⟨{ p.rdata with flags := p.flags }, calWindowsize⟩]⟩

/-- The key can be read as a string inside its 18 bytes, and its copy has the six
bytes `strcmp_lin` compares: no NUL among the first five bytes, one behind them. -/
def Flow.Readable (f : Flow) : Prop := 0 ∉ f.str.take 5 ∧ 0 ∈ f.str.drop 5

instance (f : Flow) : Decidable f.Readable :=
  inferInstanceAs (Decidable (0 ∉ f.str.take 5 ∧ 0 ∈ f.str.drop 5))

/-- The string a readable key is. -/
theorem Flow.Readable.key {f : Flow} (h : f.Readable) : ∃ k : Key, k.At f.str := by
  obtain ⟨hfront, hnul⟩ := h
  obtain ⟨before, rest, hsplit, hbefore⟩ := List.eq_append_cons_of_mem hnul
  have hstr : f.str = f.str.take 5 ++ (before ++ 0 :: rest) := by
    rw [← hsplit, List.take_append_drop]
  have hlong : 5 ≤ (f.str.take 5 ++ before).length := by
    simp [Flow.str, macBytes]
  refine ⟨⟨f.str.take 5 ++ before, by simp only [List.mem_append, hfront, hbefore, or_self,
    not_false_eq_true], hlong⟩, rest, ?_⟩
  simpa [Key.bytes] using hstr.symm

/-- The flows whose keys a packet uses. -/
def Packet.keys (p : Packet) : List Flow :=
  if p.flags = 2 ∨ p.flags = 18 then [p.flow]
  else if p.flags = 17 then [p.flow, p.flow.reverse]
  else if p.flags = 16 then [p.flow.reverse]
  else []

section Branches

variable {table : Table} {chains : Fin hashTableMaxSize → List Node} {k : Key}

theorem remove_found (h : Holds table chains) {str : List U8} (hk : k.At str) :
    ∃ table' chains', removeFound str table = .ok table' ∧ Holds table' chains' ∧
      content chains' = Function.update (content chains) k.slot none := by
  rcases h.lookup_cases hk with ⟨hrun, hnone⟩ | ⟨a, c, hrun, _⟩
  · refine ⟨table, chains, ?_, h, ?_⟩
    · simp only [removeFound, hrun, bind, Except.bind]
    · rw [← hnone, Function.update_eq_self]
  · obtain ⟨table', chains', hremove, hholds, hcontent⟩ := h.remove hk
    refine ⟨table', chains', ?_, hholds, hcontent⟩
    simp only [removeFound, hrun, bind, Except.bind, hremove]

/-- An acknowledgement whose reverse direction is known is scaled by what is known. -/
theorem ack_window_known (h : Holds table chains) {p : Packet} (hk : k.At p.flow.reverse.str)
    {n : HashNode} (hn : content chains k.slot = some n) :
    ∃ table' chains', ackWindow p table =
      .ok (table', shiftWindow p.rdata.windowsize n.nValue) ∧ Holds table' chains' ∧
      content chains' =
        Function.update (content chains) k.slot (some { n with time := p.time }) := by
  rcases h.lookup_cases hk with ⟨_, hnone⟩ | ⟨a, c, hrun, hlook, hsome, hstore⟩
  · rw [hnone] at hn
    cases hn
  · obtain rfl : c.item = n := Option.some.inj (hsome.symm.trans hn)
    obtain ⟨chains', hholds, hcontent⟩ := hstore c.item.nValue p.time
    refine ⟨_, chains', ?_, hholds, hcontent⟩
    simp only [ackWindow, hrun, bind, Except.bind, Heap.read_of_lookup hlook,
      Heap.set_item_of_lookup _ hlook]

/-- An acknowledgement whose reverse direction is not known is left as it is. -/
theorem ack_window_unknown (h : Holds table chains) {p : Packet} (hk : k.At p.flow.reverse.str)
    (hnone : content chains k.slot = none) {table' : Table}
    (hinsert : hashTableInsert p.block p.flow.reverse.str p.wscale p.time table = .ok table') :
    ackWindow p table = .ok (table', some (p.rdata.windowsize.setWidth 32)) := by
  rcases h.lookup_cases hk with ⟨hrun, _⟩ | ⟨a, c, _, _, hsome, _⟩
  · simp only [ackWindow, hrun, bind, Except.bind, hinsert]
  · rw [hsome] at hnone
    cases hnone

theorem rst_test (p : Packet) : p.flags &&& (if (0x0004 : U16) = 1 then 1 else 0) = 0 := by
  rw [if_neg (by decide)]
  exact BitVec.and_zero

theorem handle_flags_runs (h : Holds table chains) {p : Packet}
    (hreadable : ∀ f ∈ p.keys, f.Readable) (fresh : table.heap.lookup p.block = none) :
    ∃ table' windowsize chains', handleFlags p table = .ok (table', windowsize) ∧
      Holds table' chains' := by
  unfold handleFlags
  simp only [rst_test, ne_eq, not_true_eq_false, or_false]
  split
  · rename_i hsyn
    have hkey : p.flow ∈ p.keys := by simp only [Packet.keys, if_pos hsyn, List.mem_singleton]
    obtain ⟨k, hk⟩ := (hreadable p.flow hkey).key
    obtain ⟨table', chains', hrun, hholds⟩ := h.insert_runs hk fresh p.wscale p.time
    refine ⟨table', some (p.rdata.windowsize.setWidth 32), chains', ?_, hholds⟩
    simp only [hrun, bind, Except.bind]
  split
  · rename_i hfin
    obtain ⟨k, hk⟩ := (hreadable p.flow (by simp [Packet.keys, hfin])).key
    obtain ⟨kr, hkr⟩ := (hreadable p.flow.reverse (by simp [Packet.keys, hfin])).key
    obtain ⟨table₁, chains₁, hrun₁, hholds₁, _⟩ := remove_found h hk
    obtain ⟨table₂, chains₂, hrun₂, hholds₂, _⟩ := remove_found hholds₁ hkr
    refine ⟨table₂, some (p.rdata.windowsize.setWidth 32), chains₂, ?_, hholds₂⟩
    simp only [hrun₁, hrun₂, bind, Except.bind]
  split
  · rename_i hack
    obtain ⟨kr, hkr⟩ := (hreadable p.flow.reverse (by simp [Packet.keys, hack])).key
    cases hslot : content chains kr.slot with
    | some n =>
      obtain ⟨table', chains', hrun, hholds, _⟩ := ack_window_known h hkr hslot
      exact ⟨table', _, chains', hrun, hholds⟩
    | none =>
      obtain ⟨table', chains', hinsert, hholds⟩ := h.insert_runs hkr fresh p.wscale p.time
      exact ⟨table', _, chains', ack_window_unknown h hkr hslot hinsert, hholds⟩
  · exact ⟨table, _, chains, rfl, h⟩

end Branches

def enabled (s : State) (p : Packet) : Prop := s.table.heap.lookup p.block = none

/-- Any packets in any order, after `hash_table_init`. -/
def machine (start : Table) : Machine State Packet Fault :=
  ⟨⟨hashTableInit start, []⟩, enabled, fun s p => decodeWinsize p s⟩

theorem inductive_holds (start : Table) :
    ((machine start).restrict fun _ p => ∀ f ∈ p.keys, f.Readable).Inductive
      fun s => ∃ chains, Holds s.table chains where
  start := ⟨_, .init start⟩
  step := by
    rintro s p ⟨chains, h⟩ ⟨hfresh, hreadable⟩
    obtain ⟨table, windowsize, chains', hrun, hholds⟩ := handle_flags_runs h hreadable hfresh
    refine ⟨⟨table, s.log ++ [⟨{ p.rdata with flags := p.flags }, windowsize⟩]⟩, ?_, chains',
      hholds⟩
    simp only [machine, Machine.restrict, decodeWinsize, hrun, bind, Except.bind]

end ApTelemetry.NewReceiver
