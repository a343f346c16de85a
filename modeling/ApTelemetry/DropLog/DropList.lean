import ApTelemetry.Lib.Heap
import ApTelemetry.Structs

namespace ApTelemetry.DropLog
open Lib

/-- The globals of one drop log: `packet_linger`, `last_pkt_linger`, `lst_call`
and `read_lin` of codel.h; `p_linger`, `pkt_linger_last`, `last_call` and
`readed_linger` of status.c. -/
structure DropList where
  heap : Heap DpPacket
  first : Option Addr
  last : Option Addr
  call : Option Addr
  read : Bool
  printk : List String

/-- `while ((ptr != NULL) && (ptr != call)) { pre = ptr; ptr = ptr->next;
kfree(pre); }`. Each turn releases a block, so the live blocks bound the turns. -/
def freeUntil (call : Option Addr) : Nat → Heap DpPacket → Option Addr →
    Except Fault (Heap DpPacket × Option Addr)
  | 0, _, _ => .error .endless
  | turns + 1, heap, ptr =>
    if ptr ≠ none ∧ ptr ≠ call then do
      let c ← heap.read ptr
      let heap' ← heap.free ptr
      freeUntil call turns heap' c.next
    else .ok (heap, ptr)

/-- The body `delete_before_last_call_codel` and `delete_before_last_call`
share; they differ in the globals and in the text they print. -/
def deleteBeforeCall (unable : String) (s : DropList) : Except Fault DropList := do
  let (heap, ptr) ← freeUntil s.call (s.heap.entries.length + 1) s.heap s.first
  if ptr = s.call then
    let c ← heap.read s.call
    if c.next.isSome then
      let heap' ← heap.free s.call
      .ok { s with heap := heap', first := c.next, call := none, read := false }
    else
      .ok { s with heap, first := none, last := none, read := false }
  else .ok { s with heap, printk := s.printk ++ [unable], read := false }

/-- `if (read_lin) delete_before_last_call_codel();` -/
def dropAcknowledged (delete : DropList → Except Fault DropList) (s : DropList) :
    Except Fault DropList :=
  if s.read then delete s else .ok s

/-- Storing a new packet in the block `kmalloc` returned, behind the last one. -/
def linkPacket (block : Addr) (pkt : DpPacket) (s : DropList) : Except Fault DropList :=
  match s.first with
  | none =>
    .ok { s with
      heap := s.heap.insert block ⟨pkt, none⟩, first := some block, last := some block }
  | some _ =>
    if s.last.isSome then do
      let heap ← Heap.setNext (s.heap.insert block ⟨pkt, none⟩) s.last (some block)
      .ok { s with heap, last := some block }
    else
      .ok { s with
        heap := s.heap.insert block ⟨pkt, none⟩
        printk := s.printk ++ ["Error in codel dropped packet part\n"] }

def appendPacket (delete : DropList → Except Fault DropList) (block : Addr) (pkt : DpPacket)
    (s : DropList) : Except Fault DropList := do
  let s' ← dropAcknowledged delete s
  linkPacket block pkt s'

/-- `last_call = pkt_linger_last; return p_linger;` -/
def snapshot (s : DropList) : Option Addr × DropList := (s.first, { s with call := s.last })

def acknowledge (s : DropList) : DropList := { s with read := true }

/-- A drop log whose list is the nodes given. Blocks that are on no list any
more may still be allocated. -/
structure Holds (s : DropList) (nodes : List (Addr × DpPacket)) : Prop where
  chain : Chain s.heap s.first nodes
  last : s.last = nodes.getLast?.map Prod.fst

/-- The loop releases exactly the nodes in front of the snapshot. -/
theorem free_until_chain {pre post : List (Addr × DpPacket)} {a : Addr} {x : DpPacket}
    {h : Heap DpPacket} {p : Option Addr} (hc : Chain h p (pre ++ (a, x) :: post))
    (turns : Nat) (hn : pre.length < turns) :
    ∃ h', freeUntil (some a) turns h p = .ok (h', some a) ∧
      Chain h' (some a) ((a, x) :: post) ∧
      ∀ b, h.lookup b = none ∨ b ∈ addrs pre → h'.lookup b = none := by
  induction pre generalizing h p turns with
  | nil =>
    obtain ⟨turns, rfl⟩ : ∃ k, turns = k + 1 := ⟨turns - 1, by simp at hn; omega⟩
    have hp : p = some a := hc.start_eq
    exact ⟨h, by simp [freeUntil, hp], hp ▸ hc, by simp⟩
  | cons n pre ih =>
    obtain ⟨b, y⟩ := n
    obtain ⟨turns, rfl⟩ : ∃ k, turns = k + 1 := ⟨turns - 1, by simp at hn; omega⟩
    have hp : p = some b := hc.start_eq
    have hba : b ≠ a := by
      have := hc.nodup
      simp at this
      exact fun he => this.1.2.1 he
    have hlook := hc.lookup_head
    obtain ⟨h', hrun, hchain, hgone⟩ := ih hc.erase_head turns (by simp at hn; omega)
    refine ⟨h', ?_, hchain, ?_⟩
    · rw [freeUntil, hp, if_pos ⟨by simp, by simpa using hba⟩, Heap.read_of_lookup hlook,
        Heap.free_of_lookup hlook]
      exact hrun
    · intro c hc'
      apply hgone
      by_cases hcb : c = b
      · exact Or.inl (hcb ▸ AList.lookup_erase b h)
      · rw [AList.lookup_erase_ne hcb]
        simpa [hcb] using hc'

/-- Deleting up to the last node empties the list, and does not release that
node. -/
theorem delete_before_last {s : DropList} {pre : List (Addr × DpPacket)} {a : Addr}
    {x : DpPacket} (hs : Holds s (pre ++ [(a, x)])) (hcall : s.call = some a)
    (unable : String) :
    ∃ h', deleteBeforeCall unable s =
        .ok { s with heap := h', first := none, last := none, read := false } ∧
      h'.lookup a = some ⟨x, none⟩ ∧ ∀ b ∈ addrs pre, h'.lookup b = none := by
  have hlen := hs.chain.length_le
  obtain ⟨h', hrun, hchain, hgone⟩ := free_until_chain hs.chain (s.heap.entries.length + 1)
    (by simp at hlen; omega)
  have hlook : h'.lookup a = some ⟨x, none⟩ := hchain.lookup_head
  refine ⟨h', ?_, hlook, fun b hb => hgone b (Or.inr hb)⟩
  rw [deleteBeforeCall, hcall, hrun]
  simp [bind, Except.bind, Heap.read_of_lookup hlook]

/-- Deleting up to a snapshot that is on the list keeps the nodes behind it,
prints nothing and clears the flag. -/
theorem delete_before_call_holds {s : DropList} {pre post : List (Addr × DpPacket)} {a : Addr}
    {x : DpPacket} (hs : Holds s (pre ++ (a, x) :: post)) (hcall : s.call = some a)
    (unable : String) :
    ∃ t, deleteBeforeCall unable s = .ok t ∧ Holds t post ∧
      t.read = false ∧ t.printk = s.printk := by
  cases post with
  | nil =>
    obtain ⟨h', hrun, _⟩ := delete_before_last hs hcall unable
    exact ⟨_, hrun, ⟨.nil none, rfl⟩, rfl, rfl⟩
  | cons n post =>
    have hlen := hs.chain.length_le
    obtain ⟨h', hrun, hchain, _⟩ := free_until_chain hs.chain (s.heap.entries.length + 1)
      (by simp at hlen; omega)
    have hlook := hchain.lookup_head
    rw [deleteBeforeCall, hcall, hrun]
    refine ⟨{ s with
      heap := h'.erase a, first := some n.1, call := none, read := false }, ?_,
      ⟨hchain.erase_head, ?_⟩, rfl, rfl⟩
    · simp [bind, Except.bind, Heap.read_of_lookup hlook, Heap.free_of_lookup hlook, firstAddr]
    · rw [hs.last, List.getLast?_append_of_ne_nil _ (by simp), List.getLast?_cons_cons]

/-- A packet goes behind the last node whether or not the list was empty. -/
theorem link_packet_holds {s : DropList} {nodes : List (Addr × DpPacket)} (hs : Holds s nodes)
    (block : Addr) (pkt : DpPacket) (fresh : s.heap.lookup block = none) :
    ∃ t, linkPacket block pkt s = .ok t ∧ Holds t (nodes ++ [(block, pkt)]) ∧
      t.read = s.read ∧ t.call = s.call ∧ t.printk = s.printk := by
  rcases List.eq_nil_or_concat nodes with rfl | ⟨init, ⟨a, x⟩, rfl⟩
  · have hfirst : s.first = none := hs.chain.start_eq
    refine ⟨{ s with
      heap := s.heap.insert block ⟨pkt, none⟩, first := some block, last := some block }, ?_,
      ⟨Segment.single _ block pkt, rfl⟩, rfl, rfl, rfl⟩
    simp only [linkPacket, hfirst]
  · rw [List.concat_eq_append] at hs ⊢
    have hlast : s.last = some a := by simpa using hs.last
    have hfirst : s.first ≠ none := by
      rw [hs.chain.start_eq]
      simp [firstAddr]
    have hlook := hs.chain.lookup_append
    have hne : a ≠ block := by
      rintro rfl
      rw [fresh] at hlook
      cases hlook
    have hlook' : (s.heap.insert block ⟨pkt, none⟩).lookup a = some ⟨x, none⟩ := by
      rw [AList.lookup_insert_ne hne]
      exact hlook
    obtain ⟨f, hf⟩ := Option.ne_none_iff_exists'.mp hfirst
    refine ⟨{ s with
      heap := (s.heap.insert block ⟨pkt, none⟩).insert a ⟨x, some block⟩
      last := some block }, ?_, ⟨?_, by simp⟩, rfl, rfl, rfl⟩
    · simp only [linkPacket, hf, hlast, Option.isSome_some, if_true,
        Heap.set_next_of_lookup (some block) hlook', bind, Except.bind]
    · rw [List.append_assoc]
      exact hs.chain.snoc pkt fresh

theorem link_packet_read {block : Addr} {pkt : DpPacket} {s t : DropList}
    (h : linkPacket block pkt s = .ok t) : t.read = s.read := by
  unfold linkPacket at h
  split at h
  · cases h
    rfl
  · split at h
    · simp only [bind, Except.bind] at h
      split at h
      · cases h
      · cases h
        rfl
    · cases h
      rfl

/-- A list of one node `b`, with a snapshot that names a node no longer on it. -/
structure Stranded (s : DropList) (b c : Addr) : Prop where
  first : s.first = some b
  last : s.last = some b
  call : s.call = some c
  single : ∃ pkt, s.heap.lookup b = some ⟨pkt, none⟩
  ne : b ≠ c

/-- An append to an acknowledged list whose snapshot is its last node. -/
theorem append_strands {s : DropList} {pre : List (Addr × DpPacket)} {a : Addr} {x : DpPacket}
    (hs : Holds s (pre ++ [(a, x)])) (hcall : s.call = some a) (hread : s.read = true)
    (unable : String) (block : Addr) (pkt : DpPacket)
    (hfresh : ∀ l, dropAcknowledged (deleteBeforeCall unable) s = .ok l →
      l.heap.lookup block = none) :
    ∃ t, appendPacket (deleteBeforeCall unable) block pkt s = .ok t ∧ Stranded t block a ∧
      t.heap.lookup a = some ⟨x, none⟩ ∧
      ∀ b ∈ addrs pre, b ≠ block → t.heap.lookup b = none := by
  obtain ⟨h', hrun, hkept, hgone⟩ := delete_before_last hs hcall unable
  have hdrop : dropAcknowledged (deleteBeforeCall unable) s = _ := (if_pos hread).trans hrun
  have hnew : h'.lookup block = none := hfresh _ hdrop
  have hne : block ≠ a := by
    rintro rfl
    rw [hnew] at hkept
    cases hkept
  refine ⟨{ s with
    heap := h'.insert block ⟨pkt, none⟩, first := some block, last := some block
    read := false }, ?_, ⟨rfl, rfl, hcall, ⟨pkt, AList.lookup_insert _⟩, hne⟩, ?_, ?_⟩
  · rw [appendPacket, hdrop]
    rfl
  · exact (AList.lookup_insert_ne hne.symm).trans hkept
  · intro b hb hbne
    exact (AList.lookup_insert_ne hbne).trans (hgone b hb)

/-- The next append to it releases the node and then links to the released node. -/
theorem Stranded.append_faults {s : DropList} {b c : Addr} (h : Stranded s b c)
    (hread : s.read = true) (unable : String) (block : Addr) (pkt : DpPacket)
    (hfresh : s.heap.lookup block = none) :
    (∀ l, dropAcknowledged (deleteBeforeCall unable) s = .ok l → l.heap.lookup block = none) ∧
    appendPacket (deleteBeforeCall unable) block pkt s = .error .freed := by
  obtain ⟨y, hb⟩ := h.single
  have hlen : 1 ≤ s.heap.entries.length := (Segment.cons hb (.nil none)).length_le
  obtain ⟨turns, hturns⟩ : ∃ k, s.heap.entries.length = k + 1 :=
    ⟨s.heap.entries.length - 1, by omega⟩
  have hfree : freeUntil (some c) (s.heap.entries.length + 1) s.heap (some b) =
      .ok (s.heap.erase b, none) := by
    rw [freeUntil, if_pos ⟨by simp, by simpa using h.ne⟩, Heap.read_of_lookup hb,
      Heap.free_of_lookup hb, hturns]
    simp [bind, Except.bind, freeUntil]
  have hdrop : dropAcknowledged (deleteBeforeCall unable) s = .ok { s with
      heap := s.heap.erase b, printk := s.printk ++ [unable], read := false } := by
    rw [dropAcknowledged, if_pos hread, deleteBeforeCall, h.call, h.first, hfree]
    simp [bind, Except.bind]
  have hne : b ≠ block := by
    rintro rfl
    rw [hfresh] at hb
    cases hb
  have hlost : ((s.heap.erase b).insert block ⟨pkt, none⟩).lookup b = none := by
    rw [AList.lookup_insert_ne hne, AList.lookup_erase]
  constructor
  · intro l hl
    obtain rfl := Except.ok.inj (hdrop.symm.trans hl)
    exact (AList.lookup_erase_ne hne.symm).trans hfresh
  · rw [appendPacket, hdrop]
    simp [bind, Except.bind, linkPacket, h.first, h.last, Heap.setNext, hlost]

end ApTelemetry.DropLog
