import ApTelemetry.HashLin.FlowMap
import Mathlib.Data.Fintype.EquivFin

namespace ApTelemetry.HashLin
open Lib

/-- One entry takes other values, and nothing else in the table changes. -/
structure Replaces (s t : Table) (a : Addr) (nvalue : U32) (time : U64) : Prop where
  entry : ∃ c, s.heap.lookup a = some c ∧
    t.heap.lookup a = some { c with item := { c.item with nValue := nvalue, time := time } }
  others : ∀ b, b ≠ a → t.heap.lookup b = s.heap.lookup b
  hashTable : t.hashTable = s.hashTable
  size : t.hashTableSize = s.hashTableSize

/-- An insert on the key of an entry replaces the values of that entry. -/
def Updates (s : Table) (a block : Addr) (skey : List U8) (nvalue : U32) (time : U64) : Prop :=
  ∃ t, hashTableInsert block skey nvalue time s = .ok t ∧ Replaces s t a nvalue time

/-- The entry has the values already. -/
def Stored (s : Table) (a : Addr) (nvalue : U32) (time : U64) : Prop :=
  ∃ c, s.heap.lookup a = some c ∧ c.item.nValue = nvalue ∧ c.item.time = time

/-- The search ends at the one node of the chain that compares equal. -/
theorem Search.lookup_by {k : Key} {nodes : List Node} {p : Option Addr} {a : Addr}
    (h : Search k nodes p (some a)) (hdistinct : (nodes.map front).Nodup) :
    ∃ x, lookupBy front nodes k.front = some (a, x) := by
  cases h with
  | @found pre post _ x hsplit hsame =>
    rw [hsplit] at hdistinct ⊢
    exact ⟨x, hsame ▸ lookup_by_middle hdistinct⟩

namespace Holds

variable {s : Table} {chains : Fin hashTableMaxSize → List Node} {k : Key} {skey : List U8}
  {a : Addr}

/-- What a lookup finds, the search of an insert finds too. -/
theorem insert_finds (h : Holds s chains) (hk : k.At skey)
    (hfound : hashTableLookup skey s = .ok (some a)) :
    ∃ pLast c, findNode s.heap (fun sKey => strcmpLin sKey skey) s.heap.entries.length none
      (s.hashTable k.pos) = .ok (pLast, some a) ∧ s.heap.lookup a = some c := by
  obtain ⟨pLast, found, hrun, hsearch⟩ := h.find_node (k := k)
    (fun sKey => strcmpLin skey sKey)
    (fun k' => (strcmp_lin hk k'.at_bytes).trans (by simp only [eq_comm]))
  simp only [hashTableLookup, hash_pos hk, hrun, bind, Except.bind] at hfound
  obtain rfl := Except.ok.inj hfound
  obtain ⟨x, hx⟩ := hsearch.lookup_by (h.distinct k.pos)
  obtain ⟨pLast', found', hrun', hsearch'⟩ := h.find_node (k := k)
    (fun sKey => strcmpLin sKey skey) (fun k' => strcmp_lin k'.at_bytes hk)
  cases hsearch' with
  | missing _ hdiffer =>
    rw [lookup_by_eq_none.mpr hdiffer] at hx
    cases hx
  | @found pre post b y hsplit hsame =>
    have hdistinct := h.distinct k.pos
    have hchain := h.buckets.chain k.pos
    rw [hsplit] at hx hdistinct hchain
    rw [← hsame, lookup_by_middle hdistinct] at hx
    obtain ⟨rfl, rfl⟩ := Prod.mk.inj (Option.some.inj hx)
    exact ⟨_, _, hrun', hchain.lookup_append⟩

theorem insert_updates (h : Holds s chains) (hk : k.At skey)
    (hfound : hashTableLookup skey s = .ok (some a)) (hroom : s.hashTableSize < hashTableMaxSize)
    (block : Addr) (nvalue : U32) (time : U64) : Updates s a block skey nvalue time := by
  obtain ⟨pLast, c, hrun, hlook⟩ := h.insert_finds hk hfound
  refine ⟨{ s with
      heap := s.heap.insert a ⟨{ c.item with nValue := nvalue, time := time }, c.next⟩ }, ?_, ?_⟩
  · simp only [hashTableInsert, if_neg (not_le.mpr hroom), hash_pos hk, hrun, bind, Except.bind,
      Heap.set_item_of_lookup _ hlook]
  · exact ⟨⟨c, hlook, AList.lookup_insert ..⟩, fun b hb => AList.lookup_insert_ne hb, rfl, rfl⟩

end Holds

/-- A full table is left as it is, so only what is there already is there afterwards. -/
theorem full_updates_iff {s : Table} (hfull : hashTableMaxSize ≤ s.hashTableSize) (a block : Addr)
    (skey : List U8) (nvalue : U32) (time : U64) :
    Updates s a block skey nvalue time ↔ Stored s a nvalue time := by
  have hinsert : hashTableInsert block skey nvalue time s =
      .ok { s with printed := s.printed ++ ["out of hash table memory!\n"] } := if_pos hfull
  constructor
  · rintro ⟨t, hrun, ⟨c, hold, hnew⟩, -⟩
    obtain rfl := Except.ok.inj (hinsert.symm.trans hrun)
    have hitem := congrArg Cell.item (Option.some.inj (hold.symm.trans hnew))
    exact ⟨c, hold, congrArg HashNode.nValue hitem, congrArg HashNode.time hitem⟩
  · rintro ⟨c, hlook, rfl, rfl⟩
    exact ⟨_, hinsert, ⟨c, hlook, hlook⟩, fun _ _ => rfl, rfl, rfl⟩

/-- An insert that finds nothing adds an entry. -/
theorem Holds.insert_adds {s : Table} {chains : Fin hashTableMaxSize → List Node} {k : Key}
    {skey : List U8} (h : Holds s chains) (hk : k.At skey)
    (hnone : content chains k.slot = none) (hroom : s.hashTableSize < hashTableMaxSize)
    (block : Addr) (nvalue : U32) (time : U64) :
    ∃ t, hashTableInsert block skey nvalue time s = .ok t ∧
      t.hashTableSize = s.hashTableSize + 1 := by
  obtain ⟨pLast, found, hrun, hsearch⟩ := h.find_node (k := k)
    (fun sKey => strcmpLin sKey skey) (fun k' => strcmp_lin k'.at_bytes hk)
  simp only [hashTableInsert, if_neg (not_le.mpr hroom), hash_pos hk, hrun, bind, Except.bind]
  cases hsearch with
  | missing _ hdiffer =>
    simp only [strcpy_at hk]
    exact ⟨_, rfl, rfl⟩
  | found hsplit hsame =>
    rw [Key.slot, ← hsame, h.content_node hsplit] at hnone
    cases hnone

/-- In every state of every use of the table, an insert on a key that is found updates the
entry exactly if the table is not full, or there is nothing to change. -/
theorem updates_iff (start : Table) {s : Run} (hr : (machine start).Reachable s) {k : Key}
    {skey : List U8} (hk : k.At skey) {a : Addr}
    (hfound : hashTableLookup skey s.table = .ok (some a)) (block : Addr) (nvalue : U32)
    (time : U64) : Updates s.table a block skey nvalue time ↔
      s.table.hashTableSize < hashTableMaxSize ∨ Stored s.table a nvalue time := by
  obtain ⟨chains, h⟩ := (inductive_holds start).reachable hr
  by_cases hroom : s.table.hashTableSize < hashTableMaxSize
  · exact iff_of_true (h.insert_updates hk hfound hroom block nvalue time) (Or.inl hroom)
  · rw [full_updates_iff (not_lt.mp hroom), or_iff_right hroom]

/-- One key, inserted and updated. -/
theorem updates_iff_inserted : ∃ s, (machine unused).Reachable s ∧
    Updates s.table 1 2 abcdefAa.bytes 5 6 := by
  have hr : (machine unused).Reachable _ := .step (.insert 1 abcdefAa 3 4) .start rfl rfl
  exact ⟨_, hr, (updates_iff unused hr abcdefAa.at_bytes (a := 1) rfl 2 5 6).mpr
    (Or.inl (by decide))⟩

section Full

/-- Two characters, each from 1 to 100, count ten thousand keys. -/
def numbered (i : Nat) : Key where
  chars := [BitVec.ofNat 8 (i % 100 + 1), BitVec.ofNat 8 (i / 100 % 100 + 1), 1, 1, 1]
  noNul := by
    have hchar : ∀ m, m < 100 → (0 : U8) ≠ BitVec.ofNat 8 (m + 1) := by
      intro m hm he
      have hvalue : 0 = (m + 1) % 2 ^ 8 := congrArg BitVec.toNat he
      omega
    have hone : (0 : U8) ≠ 1 := by decide
    simp only [List.mem_cons, List.not_mem_nil, not_or, or_false]
    exact ⟨hchar _ (Nat.mod_lt _ (by decide)), hchar _ (Nat.mod_lt _ (by decide)), hone, hone, hone⟩
  long := Nat.le_refl 5

theorem numbered_apart {i j : Nat} (hi : i < hashTableMaxSize) (hj : j < hashTableMaxSize)
    (h : (numbered i).slot = (numbered j).slot) : i = j := by
  have hfront : (numbered i).front = (numbered j).front := congrArg Prod.snd h
  obtain ⟨hlow, htail⟩ := List.cons.inj hfront
  obtain ⟨hhigh, -⟩ := List.cons.inj htail
  have hlow' := congrArg BitVec.toNat hlow
  have hhigh' := congrArg BitVec.toNat hhigh
  simp only [BitVec.toNat_ofNat] at hlow' hhigh'
  simp only [hashTableMaxSize] at hi hj
  omega

/-- The first `n` of these keys can be inserted one after another. -/
theorem filled (n : Nat) (hn : n ≤ hashTableMaxSize) : ∃ s chains,
    (machine unused).Reachable s ∧ Holds s.table chains ∧ s.table.hashTableSize = n ∧
    ∀ i < hashTableMaxSize, (content chains (numbered i).slot).isSome ↔ i < n := by
  induction n with
  | zero =>
    refine ⟨_, _, .start, .init unused, rfl, fun i _ => ?_⟩
    exact iff_of_false Bool.false_ne_true (Nat.not_lt_zero i)
  | succ n ih =>
    obtain ⟨s, chains, hr, h, hsize, hcontent⟩ := ih (Nat.le_of_succ_le hn)
    obtain ⟨block, hblock⟩ := Infinite.exists_notMem_finset s.table.heap.keys.toFinset
    have hfresh : s.table.heap.lookup block = none :=
      AList.lookup_eq_none.mpr fun hmem => hblock (List.mem_toFinset.mpr hmem)
    have hroom : s.table.hashTableSize < hashTableMaxSize := by omega
    have hnone : content chains (numbered n).slot = none := by
      rw [← Option.not_isSome_iff_eq_none, hcontent n hn]
      exact lt_irrefl n
    obtain ⟨t, chains', hrun, hholds, hchanged⟩ :=
      h.insert (numbered n).at_bytes hfresh 0 0 hroom
    obtain ⟨t', hrun', hadded⟩ := h.insert_adds (numbered n).at_bytes hnone hroom block 0 0
    obtain rfl := Except.ok.inj (hrun.symm.trans hrun')
    refine ⟨⟨t, _⟩, chains', hr.step (.insert block (numbered n) 0 0) hfresh (exec_ok hrun), hholds,
      by rw [hadded, hsize]; rfl, fun i hi => ?_⟩
    rw [hchanged]
    by_cases hin : i = n
    · subst hin
      rw [Function.update_self]
      exact iff_of_true rfl (Nat.lt_succ_self i)
    · rw [Function.update_of_ne fun he => hin (numbered_apart hi hn he), hcontent i hi]
      omega

end Full

/-- With ten thousand keys in the table, no value of any of them can be changed. -/
theorem full_not_updated : ¬ ∀ s, (machine unused).Reachable s → ∀ (k : Key) (a : Addr),
    hashTableLookup k.bytes s.table = .ok (some a) → ∀ block nvalue time,
      Updates s.table a block k.bytes nvalue time := by
  intro hall
  obtain ⟨s, chains, hr, h, hsize, hcontent⟩ := filled hashTableMaxSize (Nat.le_refl _)
  have hthere := (hcontent 0 (by decide)).mpr (by decide)
  rcases h.lookup_cases (numbered 0).at_bytes with ⟨-, hnone⟩ | ⟨a, c, hfound, hlook, -⟩
  · rw [hnone] at hthere
    cases hthere
  · have hupdates := hall s hr (numbered 0) a hfound a (c.item.nValue + 1) c.item.time
    rw [full_updates_iff (Int.le_of_eq hsize.symm)] at hupdates
    obtain ⟨d, hd, hvalue, -⟩ := hupdates
    obtain rfl := Option.some.inj (hlook.symm.trans hd)
    have hone : (c.item.nValue.toNat + 1) % 2 ^ 32 = c.item.nValue.toNat :=
      (congrArg BitVec.toNat hvalue).symm
    omega

end ApTelemetry.HashLin
