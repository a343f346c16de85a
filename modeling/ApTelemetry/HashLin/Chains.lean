import ApTelemetry.HashLin.Table

namespace ApTelemetry.HashLin
open Lib

abbrev Node := Addr × HashNode

/-- The six bytes of a node that `strcmp_lin` compares. -/
def front (n : Node) : List U8 := n.2.sKey.take 6

/-- The chains of a table that only took keys `strcmp_lin` can compare. -/
structure Holds (s : Table) (chains : Fin hashTableMaxSize → List Node) : Prop where
  buckets : Buckets s.heap s.hashTable chains
  placed : ∀ i, ∀ n ∈ chains i, ∃ k : Key, n.2.sKey = k.bytes ∧ k.pos = i
  distinct : ∀ i, ((chains i).map front).Nodup
  size : s.hashTableSize = ∑ i, (chains i).length
  bound : s.hashTableSize ≤ hashTableMaxSize

/-- Where a search for a key ends in its chain. -/
inductive Search (k : Key) (nodes : List Node) : Option Addr → Option Addr → Prop
  | missing (pLast : Option Addr) (differ : ∀ n ∈ nodes, front n ≠ k.front) :
    Search k nodes pLast none
  | found {pre post : List Node} {a : Addr} {x : HashNode}
      (split : nodes = pre ++ (a, x) :: post) (same : front (a, x) = k.front) :
    Search k nodes (pre.getLast?.map Prod.fst) (some a)

section Loop

variable {heap : Heap HashNode} {p : Option Addr} {compare : List U8 → Except Fault Nat}

theorem find_node_missing {nodes : List Node} (hc : Chain heap p nodes)
    (hdiffer : ∀ n ∈ nodes, compare n.2.sKey = .ok 1) (turns : Nat)
    (hn : nodes.length ≤ turns) (pLast : Option Addr) :
    ∃ last, findNode heap compare turns pLast p = .ok (last, none) := by
  induction nodes generalizing p turns pLast with
  | nil =>
    obtain rfl : p = none := hc.start_eq
    exact ⟨pLast, by cases turns <;> rfl⟩
  | cons n nodes ih =>
    obtain ⟨a, x⟩ := n
    obtain rfl : p = some a := hc.start_eq
    obtain ⟨turns, rfl⟩ : ∃ k, turns = k + 1 := ⟨turns - 1, by simp at hn; omega⟩
    have hhere := hdiffer (a, x) (by simp)
    cases hc with
    | cons found tail =>
      obtain ⟨last, hrest⟩ := ih tail (fun n hm => hdiffer n (by simp [hm])) turns
        (by simpa using hn) (some a)
      refine ⟨last, ?_⟩
      simp only [findNode, Heap.read_of_lookup found, hhere, bind, Except.bind]
      exact hrest

theorem find_node_found {pre post : List Node} {a : Addr} {x : HashNode}
    (hc : Chain heap p (pre ++ (a, x) :: post))
    (hdiffer : ∀ n ∈ pre, compare n.2.sKey = .ok 1) (hsame : compare x.sKey = .ok 0)
    (turns : Nat) (hn : pre.length < turns) (pLast : Option Addr) :
    findNode heap compare turns pLast p =
      .ok ((pre.getLast?.map Prod.fst).or pLast, some a) := by
  induction pre generalizing p turns pLast with
  | nil =>
    obtain rfl : p = some a := hc.start_eq
    obtain ⟨turns, rfl⟩ : ∃ k, turns = k + 1 := ⟨turns - 1, by simp at hn; omega⟩
    simp only [findNode, Heap.read_of_lookup hc.lookup_head, hsame, bind, Except.bind]
    rfl
  | cons n pre ih =>
    obtain ⟨b, y⟩ := n
    obtain rfl : p = some b := hc.start_eq
    obtain ⟨turns, rfl⟩ : ∃ k, turns = k + 1 := ⟨turns - 1, by simp at hn; omega⟩
    have hhere := hdiffer (b, y) (by simp)
    cases hc with
    | cons found tail =>
      have hrest :=
        ih tail (fun n hm => hdiffer n (by simp [hm])) turns (by simpa using hn) (some b)
      simp only [findNode, Heap.read_of_lookup found, hhere, bind, Except.bind]
      refine hrest.trans ?_
      cases pre with
      | nil => rfl
      | cons m pre => simp [List.getLast?_cons]

end Loop

namespace Holds

variable {s : Table} {chains : Fin hashTableMaxSize → List Node} {k : Key}

/-- The search all three operations make, in the chain of the key. -/
theorem find_node (h : Holds s chains) (compare : List U8 → Except Fault Nat)
    (hcompare : ∀ k' : Key, compare k'.bytes = .ok (if k'.front = k.front then 0 else 1)) :
    ∃ pLast found, findNode s.heap compare s.heap.entries.length none (s.hashTable k.pos) =
      .ok (pLast, found) ∧ Search k (chains k.pos) pLast found := by
  have hchain := h.buckets.chain k.pos
  have hnode : ∀ n ∈ chains k.pos,
      compare n.2.sKey = .ok (if front n = k.front then 0 else 1) := by
    intro n hn
    obtain ⟨k', hk', _⟩ := h.placed k.pos n hn
    rw [front, hk']
    exact hcompare k'
  have hlength := hchain.length_le
  cases lookup_by_split front (chains k.pos) k.front with
  | inl hnone =>
    have hdiffer : ∀ n ∈ chains k.pos, compare n.2.sKey = .ok 1 := by
      intro n hn
      rw [hnode n hn, if_neg (hnone n hn)]
    obtain ⟨last, hrun⟩ := find_node_missing hchain hdiffer _ hlength none
    exact ⟨last, none, hrun, .missing last hnone⟩
  | inr hsome =>
    obtain ⟨pre, ⟨a, x⟩, post, hsplit, hx, hpre⟩ := hsome
    rw [hsplit] at hchain hnode hlength
    have hdiffer : ∀ n ∈ pre, compare n.2.sKey = .ok 1 := by
      intro n hn
      rw [hnode n (by simp [hn]), if_neg (hpre n hn)]
    have hsame : compare x.sKey = .ok 0 := by
      rw [hnode (a, x) (by simp), if_pos hx]
    have hrun := find_node_found hchain hdiffer hsame s.heap.entries.length
      (by simp at hlength; omega) none
    rw [Option.or_none] at hrun
    exact ⟨_, some a, hrun, .found hsplit hx⟩

end Holds

/-- What a key finds is decided by its chain and its first six bytes. -/
abbrev Slot := Fin hashTableMaxSize × List U8

def Key.slot (k : Key) : Slot := (k.pos, k.front)

/-- The slot of the string at the start of a block. -/
def strSlot (skey : List U8) : Slot :=
  (bucket (hashChars (skey.takeWhile (· ≠ 0))), (skey.takeWhile (· ≠ 0) ++ [0]).take 6)

theorem str_slot {k : Key} {skey : List U8} (hk : k.At skey) : strSlot skey = k.slot := by
  obtain ⟨rest, rfl⟩ := hk
  have hchars : (k.bytes ++ rest).takeWhile (· ≠ 0) = k.chars := by
    have hall : ∀ c ∈ k.chars, decide (c ≠ 0) = true := by
      intro c hc
      refine decide_eq_true ?_
      rintro rfl
      exact k.noNul hc
    rw [Key.bytes, List.append_assoc, List.takeWhile_append_of_pos hall]
    simp
  rw [strSlot, hchars]
  rfl

/-- The table as a map from slots. -/
def content (chains : Fin hashTableMaxSize → List Node) (c : Slot) : Option HashNode :=
  (lookupBy front (chains c.1) c.2).map Prod.snd

/-- The node a caller reads through the pointer `hash_table_lookup` returns. -/
def lookupNode (skey : List U8) (s : Table) : Except Fault (Option HashNode) := do
  let found ← hashTableLookup skey s
  match found with
  | none => .ok none
  | some a =>
    let node ← s.heap.read (some a)
    .ok (some node.item)

namespace Holds

variable {s t : Table} {chains : Fin hashTableMaxSize → List Node} {k : Key} {skey : List U8}

theorem init (s : Table) : Holds (hashTableInit s) fun _ => [] where
  buckets := .empty s.heap
  placed := by simp
  distinct := by simp
  size := by simp [hashTableInit]
  bound := by simp [hashTableInit, hashTableMaxSize]

/-- One chain changes, and the counter with it. -/
theorem change (h : Holds s chains) {i : Fin hashTableMaxSize} {xs : List Node}
    (hbuckets : Buckets t.heap t.hashTable (Function.update chains i xs))
    (hplaced : ∀ n ∈ xs, ∃ k : Key, n.2.sKey = k.bytes ∧ k.pos = i)
    (hdistinct : (xs.map front).Nodup)
    (hsize : t.hashTableSize + (chains i).length = s.hashTableSize + xs.length)
    (hbound : t.hashTableSize ≤ hashTableMaxSize) :
    Holds t (Function.update chains i xs) := by
  have htotal := Buckets.total_update chains i xs
  have hold := h.size
  refine ⟨hbuckets, ?_, ?_, ?_, hbound⟩
  · intro j n hn
    by_cases hj : j = i
    · subst hj
      rw [Function.update_self] at hn
      exact hplaced n hn
    · rw [Function.update_of_ne hj] at hn
      exact h.placed j n hn
  · intro j
    by_cases hj : j = i
    · subst hj
      rw [Function.update_self]
      exact hdistinct
    · rw [Function.update_of_ne hj]
      exact h.distinct j
  · omega

theorem content_update {i : Fin hashTableMaxSize} {xs : List Node} {f : List U8}
    {found : Option HashNode}
    (hxs : ∀ f', (lookupBy front xs f').map Prod.snd =
      if f' = f then found else content chains (i, f')) :
    content (Function.update chains i xs) = Function.update (content chains) (i, f) found := by
  funext ⟨j, f'⟩
  by_cases hj : j = i
  · subst hj
    rw [content, Function.update_self, hxs f']
    by_cases hf : f' = f
    · rw [if_pos hf, hf, Function.update_self]
    · rw [if_neg hf, Function.update_of_ne (by simp [hf])]
  · rw [Function.update_of_ne (by simp [hj]), content, Function.update_of_ne hj]
    rfl

section Chain

variable {i : Fin hashTableMaxSize} {pre post : List Node} {a : Addr} {x : HashNode}

theorem content_node (h : Holds s chains) (hi : chains i = pre ++ (a, x) :: post) :
    content chains (i, front (a, x)) = some x := by
  have hdistinct := h.distinct i
  rw [hi] at hdistinct
  rw [content, hi, lookup_by_middle hdistinct]
  rfl

/-- A node takes other values under its key. -/
theorem store (h : Holds s chains) (hi : chains i = pre ++ (a, x) :: post) (nvalue : U32)
    (time : U64)
    (hbuckets : Buckets t.heap t.hashTable
      (Function.update chains i (pre ++ (a, ⟨x.sKey, time, nvalue⟩) :: post)))
    (hsize : t.hashTableSize = s.hashTableSize) :
    Holds t (Function.update chains i (pre ++ (a, ⟨x.sKey, time, nvalue⟩) :: post)) ∧
      content (Function.update chains i (pre ++ (a, ⟨x.sKey, time, nvalue⟩) :: post)) =
        Function.update (content chains) (i, front (a, x)) (some ⟨x.sKey, time, nvalue⟩) := by
  have hdistinct := h.distinct i
  have hplaced := h.placed i
  have hbound := h.bound
  rw [hi] at hdistinct hplaced
  refine ⟨h.change hbuckets ?_ ?_ ?_ (by omega), content_update fun f' => ?_⟩
  · intro n hn
    simp only [List.mem_append, List.mem_cons] at hn
    rcases hn with hn | rfl | hn
    · exact hplaced n (by simp [hn])
    · exact hplaced (a, x) (by simp)
    · exact hplaced n (by simp [hn])
  · simpa [front] using hdistinct
  · simp [hi, hsize]
  · have hkey : front (a, ⟨x.sKey, time, nvalue⟩) = front (a, x) := rfl
    rw [lookup_by_replace hdistinct hkey, content, hi]
    split <;> rfl

/-- A node leaves its chain. -/
theorem without (h : Holds s chains) (hi : chains i = pre ++ (a, x) :: post)
    (hbuckets : Buckets t.heap t.hashTable (Function.update chains i (pre ++ post)))
    (hsize : t.hashTableSize = s.hashTableSize - 1) :
    Holds t (Function.update chains i (pre ++ post)) ∧
      content (Function.update chains i (pre ++ post)) =
        Function.update (content chains) (i, front (a, x)) none := by
  have hdistinct := h.distinct i
  have hplaced := h.placed i
  have hbound := h.bound
  rw [hi] at hdistinct hplaced
  refine ⟨h.change hbuckets ?_ ?_ ?_ (by omega), content_update fun f' => ?_⟩
  · intro n hn
    exact hplaced n (by simp at hn ⊢; tauto)
  · refine hdistinct.sublist (List.Sublist.map _ ?_)
    exact (List.sublist_cons_self _ _).append_left pre
  · rw [hi, hsize]
    simp
    omega
  · rw [content, hi, lookup_by_remove hdistinct]
    split <;> rfl

end Chain

/-- A lookup finds the node of the slot, whose values a caller may change. -/
theorem lookup_cases (h : Holds s chains) (hk : k.At skey) :
    (hashTableLookup skey s = .ok none ∧ content chains k.slot = none) ∨
    ∃ a c, hashTableLookup skey s = .ok (some a) ∧ s.heap.lookup a = some c ∧
      content chains k.slot = some c.item ∧ ∀ nvalue time, ∃ chains',
        Holds { s with heap := s.heap.insert a ⟨⟨c.item.sKey, time, nvalue⟩, c.next⟩ } chains' ∧
        content chains' = Function.update (content chains) k.slot
          (some ⟨c.item.sKey, time, nvalue⟩) := by
  obtain ⟨pLast, found, hrun, hsearch⟩ := h.find_node (k := k)
    (fun sKey => strcmpLin skey sKey)
    (fun k' => (strcmp_lin hk k'.at_bytes).trans (by simp only [eq_comm]))
  simp only [hashTableLookup, hash_pos hk, hrun, bind, Except.bind]
  cases hsearch with
  | missing _ hdiffer =>
    left
    refine ⟨rfl, ?_⟩
    rw [content, Option.map_eq_none_iff]
    exact lookup_by_eq_none.mpr hdiffer
  | @found pre post a x hsplit hsame =>
    right
    have hchain := h.buckets.chain k.pos
    rw [hsplit] at hchain
    refine ⟨a, _, rfl, hchain.lookup_append, ?_, fun nvalue time => ?_⟩
    · rw [Key.slot, ← hsame, h.content_node hsplit]
    · rw [Key.slot, ← hsame]
      exact ⟨_, h.store hsplit nvalue time (h.buckets.set_item hsplit _) rfl⟩

theorem lookup (h : Holds s chains) (hk : k.At skey) :
    lookupNode skey s = .ok (content chains k.slot) := by
  rcases h.lookup_cases hk with ⟨hrun, hcontent⟩ | ⟨a, c, hrun, hlook, hcontent, _⟩
  · simp only [lookupNode, hrun, hcontent, bind, Except.bind]
  · simp only [lookupNode, hrun, hcontent, Heap.read_of_lookup hlook, bind, Except.bind]

theorem lookup_runs (h : Holds s chains) (hk : k.At skey) :
    ∃ p, hashTableLookup skey s = .ok p := by
  rcases h.lookup_cases hk with ⟨hrun, _⟩ | ⟨a, c, hrun, _⟩
  · exact ⟨none, hrun⟩
  · exact ⟨some a, hrun⟩

theorem remove (h : Holds s chains) (hk : k.At skey) :
    ∃ t chains', hashTableRemove skey s = .ok t ∧ Holds t chains' ∧
      content chains' = Function.update (content chains) k.slot none := by
  obtain ⟨pLast, found, hrun, hsearch⟩ := h.find_node (k := k)
    (fun sKey => strcmpLin skey sKey)
    (fun k' => (strcmp_lin hk k'.at_bytes).trans (by simp only [eq_comm]))
  simp only [hashTableRemove, hash_pos hk, hrun, bind, Except.bind]
  cases hsearch with
  | missing _ hdiffer =>
    have hcontent : content chains k.slot = none := by
      rw [content, Option.map_eq_none_iff]
      exact lookup_by_eq_none.mpr hdiffer
    exact ⟨s, chains, rfl, h, by rw [← hcontent, Function.update_eq_self]⟩
  | @found pre post a x hsplit hsame =>
    have hchain := h.buckets.chain k.pos
    rw [hsplit] at hchain
    have hlook := hchain.lookup_append
    simp only [Heap.read_of_lookup hlook]
    rw [Key.slot, ← hsame]
    rcases List.eq_nil_or_concat pre with rfl | ⟨init, ⟨b, y⟩, rfl⟩
    · simp only [List.getLast?_nil, Option.map_none, Heap.free_of_lookup hlook]
      exact ⟨_, _, rfl, h.without hsplit (h.buckets.unlink_head hsplit) rfl⟩
    · rw [List.concat_eq_append] at hsplit hchain ⊢
      have hb : s.heap.lookup b = some ⟨y, some a⟩ := by
        rw [List.append_assoc] at hchain
        exact hchain.lookup_append
      have ha : (s.heap.insert b ⟨y, firstAddr post⟩).lookup a = some ⟨x, firstAddr post⟩ := by
        rw [AList.lookup_insert_ne, hlook]
        rintro rfl
        exact hchain.not_mem_around.1 (by simp)
      simp only [List.getLast?_append, List.getLast?_singleton, Option.some_or, Option.map_some,
        Heap.set_next_of_lookup _ hb, Heap.free_of_lookup ha]
      have hbehind : chains k.pos = init ++ (b, y) :: (a, x) :: post := by simpa using hsplit
      have hunlink := h.buckets.unlink_behind hbehind
      exact ⟨_, _, rfl, h.without hsplit (by simpa using hunlink) rfl⟩

theorem insert (h : Holds s chains) (hk : k.At skey) {block : Addr}
    (fresh : s.heap.lookup block = none) (nvalue : U32) (time : U64)
    (hroom : s.hashTableSize < hashTableMaxSize) :
    ∃ t chains', hashTableInsert block skey nvalue time s = .ok t ∧ Holds t chains' ∧
      content chains' = Function.update (content chains) k.slot
        (some ⟨((content chains k.slot).map HashNode.sKey).getD k.bytes, time, nvalue⟩) := by
  obtain ⟨pLast, found, hrun, hsearch⟩ := h.find_node (k := k)
    (fun sKey => strcmpLin sKey skey) (fun k' => strcmp_lin k'.at_bytes hk)
  simp only [hashTableInsert, if_neg (not_le.mpr hroom), hash_pos hk, hrun, bind, Except.bind]
  cases hsearch with
  | missing _ hdiffer =>
    have hmissing : lookupBy front (chains k.pos) k.front = none := lookup_by_eq_none.mpr hdiffer
    have hfront : front (block, ⟨k.bytes, time, nvalue⟩) = k.front := rfl
    have hbuckets := h.buckets.push k.pos (⟨k.bytes, time, nvalue⟩ : HashNode) fresh
    simp only [strcpy_at hk]
    refine ⟨_, _, rfl, h.change hbuckets ?_ ?_ ?_ (by simp; omega), content_update fun f' => ?_⟩
    · intro n hn
      cases List.mem_cons.mp hn with
      | inl he => exact ⟨k, by rw [he], rfl⟩
      | inr hm => exact h.placed k.pos n hm
    · rw [List.map_cons, List.nodup_cons]
      refine ⟨?_, h.distinct k.pos⟩
      intro hm
      obtain ⟨n, hn, he⟩ := List.mem_map.mp hm
      exact hdiffer n hn he
    · simp
      omega
    · rw [lookup_by_cons, hfront]
      by_cases hf : f' = k.front
      · subst hf
        simp [content, Key.slot, hmissing]
      · rw [if_neg (Ne.symm hf), if_neg hf]
        rfl
  | @found pre post a x hsplit hsame =>
    have hchain := h.buckets.chain k.pos
    rw [hsplit] at hchain
    simp only [Heap.set_item_of_lookup _ hchain.lookup_append]
    rw [Key.slot, ← hsame, h.content_node hsplit]
    exact ⟨_, _, rfl, h.store hsplit nvalue time (h.buckets.set_item hsplit _) rfl⟩

/-- An insert into a full table changes nothing but the log. -/
theorem insert_full (h : Holds s chains) (hfull : hashTableMaxSize ≤ s.hashTableSize)
    (block : Addr) (skey : List U8) (nvalue : U32) (time : U64) :
    ∃ t, hashTableInsert block skey nvalue time s = .ok t ∧ Holds t chains :=
  ⟨_, if_pos hfull, h.buckets, h.placed, h.distinct, h.size, h.bound⟩

theorem insert_runs (h : Holds s chains) (hk : k.At skey) {block : Addr}
    (fresh : s.heap.lookup block = none) (nvalue : U32) (time : U64) :
    ∃ t chains', hashTableInsert block skey nvalue time s = .ok t ∧ Holds t chains' := by
  by_cases hroom : s.hashTableSize < hashTableMaxSize
  · obtain ⟨t, chains', hrun, hholds, _⟩ := h.insert hk fresh nvalue time hroom
    exact ⟨t, chains', hrun, hholds⟩
  · obtain ⟨t, hrun, hholds⟩ := h.insert_full (not_lt.mp hroom) block skey nvalue time
    exact ⟨t, chains, hrun, hholds⟩

end Holds

end ApTelemetry.HashLin
