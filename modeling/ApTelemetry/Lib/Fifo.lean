import ApTelemetry.Lib.Heap

namespace ApTelemetry.Lib

/-- A singly linked list in memory with pointers to both of its ends. -/
structure Fifo (α : Type) where
  heap : Heap α
  first : Option Addr
  last : Option Addr

namespace Fifo

variable {α : Type}

/-- Linking a new block behind the last node, or as the only one. -/
def append (block : Addr) (x : α) (q : Fifo α) : Except Fault (Fifo α) :=
  match q.first with
  | none => .ok ⟨q.heap.insert block ⟨x, none⟩, some block, some block⟩
  | some _ => do
    let heap ← Heap.setNext (q.heap.insert block ⟨x, none⟩) q.last (some block)
    .ok { q with heap, last := some block }

/-- Releasing the first node. The pointer to the last is not looked at. -/
def dropFirst (q : Fifo α) : Except Fault (Fifo α) := do
  let c ← q.heap.read q.first
  let heap ← q.heap.free q.first
  .ok { q with heap, first := c.next }

/-- The list is the nodes given, and `last` is the last of them. -/
structure Holds (q : Fifo α) (nodes : List (Addr × α)) : Prop where
  chain : Chain q.heap q.first nodes
  last : q.last = nodes.getLast?.map Prod.fst

variable {q : Fifo α} {nodes : List (Addr × α)}

theorem Holds.append (h : q.Holds nodes) {block : Addr} (x : α)
    (fresh : q.heap.lookup block = none) :
    ∃ q', q.append block x = .ok q' ∧ q'.Holds (nodes ++ [(block, x)]) := by
  rcases List.eq_nil_or_concat nodes with rfl | ⟨init, ⟨a, y⟩, rfl⟩
  · have hfirst : q.first = none := h.chain.start_eq
    refine ⟨⟨q.heap.insert block ⟨x, none⟩, some block, some block⟩, ?_,
      ⟨Segment.single _ block x, rfl⟩⟩
    simp only [Fifo.append, hfirst]
  · rw [List.concat_eq_append] at h ⊢
    have hlast : q.last = some a := by simpa using h.last
    obtain ⟨f, hf⟩ : ∃ f, q.first = some f := by
      rw [h.chain.start_eq]
      cases init <;> exact ⟨_, rfl⟩
    have hlook := h.chain.lookup_append
    have hne : a ≠ block := by
      rintro rfl
      rw [fresh] at hlook
      cases hlook
    have hlook' : (q.heap.insert block ⟨x, none⟩).lookup a = some ⟨y, none⟩ := by
      rw [AList.lookup_insert_ne hne]
      exact hlook
    refine ⟨{ q with
      heap := (q.heap.insert block ⟨x, none⟩).insert a ⟨y, some block⟩
      last := some block }, ?_, ⟨?_, by simp⟩⟩
    · simp only [Fifo.append, hf, hlast, Heap.set_next_of_lookup (some block) hlook', bind,
        Except.bind]
    · rw [List.append_assoc]
      exact h.chain.snoc x fresh

/-- Both pointers are NULL together. -/
theorem Holds.none_iff (h : q.Holds nodes) : q.first = none ↔ q.last = none := by
  rw [h.chain.start_eq, h.last]
  cases nodes <;> simp [firstAddr]

/-- Of two nodes or more the first can go, and the last stays the last. -/
theorem Holds.drop_first {n m : Addr × α} {rest : List (Addr × α)}
    (h : q.Holds (n :: m :: rest)) :
    ∃ q', q.dropFirst = .ok q' ∧ q'.Holds (m :: rest) := by
  obtain ⟨a, x⟩ := n
  have hfirst : q.first = some a := h.chain.start_eq
  have hlook := h.chain.lookup_head
  refine ⟨{ q with heap := q.heap.erase a, first := some m.1 }, ?_, ⟨h.chain.erase_head, ?_⟩⟩
  · simp only [dropFirst, hfirst, Heap.read_of_lookup hlook, Heap.free_of_lookup hlook, bind,
      Except.bind]
    rfl
  · rw [h.last, List.getLast?_cons_cons]

/-- Both pointers of a list that is not empty lead to nodes. -/
theorem Holds.ends (h : q.Holds nodes) (hne : nodes ≠ []) : ∃ f cf l cl,
    q.first = some f ∧ q.heap.lookup f = some cf ∧ q.last = some l ∧ q.heap.lookup l = some cl := by
  rcases List.eq_nil_or_concat nodes with rfl | ⟨init, ⟨l, y⟩, rfl⟩
  · exact absurd rfl hne
  · rw [List.concat_eq_append] at h
    have hlast : q.last = some l := by simpa using h.last
    have hlook := h.chain.lookup_append
    cases hi : init ++ [(l, y)] with
    | nil => simp at hi
    | cons n rest =>
      rw [hi] at h
      exact ⟨n.1, _, l, _, h.chain.start_eq, h.chain.lookup_head, hlast, hlook⟩

/-- Pointers that differ have two nodes between them. -/
theorem Holds.two (h : q.Holds nodes) (hne : q.first ≠ q.last) :
    ∃ n m rest, nodes = n :: m :: rest := by
  match nodes with
  | [] => exact absurd (h.chain.start_eq.trans h.last.symm) hne
  | [n] => exact absurd (h.chain.start_eq.trans h.last.symm) hne
  | n :: m :: rest => exact ⟨n, m, rest, rfl⟩

end Fifo

end ApTelemetry.Lib
