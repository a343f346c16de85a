import ApTelemetry.HashLin.Chains

namespace ApTelemetry.HashLin
open Lib

inductive Action where
  | insert (block : Addr) (k : Key) (nvalue : U32) (time : U64)
  | remove (k : Key)
  | lookup (k : Key)

def Action.key : Action → Key
  | insert _ k _ _ => k
  | remove k => k
  | lookup k => k

/-- A table in use. `done` is its history, newest first, which nothing reads. -/
structure Run where
  table : Table
  done : List Action

def Action.exec (s : Table) : Action → Except Fault Table
  | insert block k nvalue time => hashTableInsert block k.bytes nvalue time s
  | remove k => hashTableRemove k.bytes s
  | lookup k => do
    let _ ← hashTableLookup k.bytes s
    .ok s

def exec (s : Run) (a : Action) : Except Fault Run := do
  let table ← a.exec s.table
  .ok ⟨table, a :: s.done⟩

/-- `malloc` returns a block that is not in use. -/
def enabled (s : Run) : Action → Prop
  | .insert block _ _ _ => s.table.heap.lookup block = none
  | .remove _ | .lookup _ => True

/-- Any use of a table after `hash_table_init`. -/
def machine (s : Table) : Machine Run Action Fault := ⟨⟨hashTableInit s, []⟩, enabled, exec⟩

/-- The representation: a counter that is right and within its bound, nodes in
the buckets of their keys, and no two nodes of a chain that compare equal. -/
structure Sound (s : Table) (chains : Fin hashTableMaxSize → List Node) : Prop where
  finite : ∀ i, Chain s.heap (s.hashTable i) (chains i)
  size : s.hashTableSize = ∑ i, (chains i).length
  bound : s.hashTableSize ≤ hashTableMaxSize
  placed : ∀ i, ∀ n ∈ chains i, hashPos n.2.sKey = .ok i
  differ : ∀ i, (chains i).Pairwise fun m n => strcmpLin m.2.sKey n.2.sKey = .ok 1

theorem Holds.sound {s : Table} {chains : Fin hashTableMaxSize → List Node}
    (h : Holds s chains) : Sound s chains where
  finite := h.buckets.chain
  size := h.size
  bound := h.bound
  placed := by
    intro i n hn
    obtain ⟨k, hk, hpos⟩ := h.placed i n hn
    rw [hk, hash_pos k.at_bytes, hpos]
  differ := by
    intro i
    have hpairs : (chains i).Pairwise fun m n => front m ≠ front n :=
      List.pairwise_map.mp (h.distinct i)
    refine hpairs.imp_of_mem fun {m n} hm hn hmn => ?_
    obtain ⟨k, hk, _⟩ := h.placed i m hm
    obtain ⟨k', hk', _⟩ := h.placed i n hn
    rw [front, front, hk, hk'] at hmn
    rw [hk, hk', strcmp_lin k.at_bytes k'.at_bytes]
    exact congrArg Except.ok (if_neg hmn)

/-- What an operation does to the table, seen as a map from slots. -/
def Action.apply (m : Slot → Option HashNode) : Action → Slot → Option HashNode
  | insert _ k nvalue time => Function.update m k.slot
    (some ⟨((m k.slot).map HashNode.sKey).getD k.bytes, time, nvalue⟩)
  | remove k => Function.update m k.slot none
  | lookup _ => m

def HasRoom (s : Table) : Action → Prop
  | .insert .. => s.hashTableSize < hashTableMaxSize
  | .remove _ | .lookup _ => True

theorem exec_ok {s : Run} {a : Action} {table : Table} (h : a.exec s.table = .ok table) :
    exec s a = .ok ⟨table, a :: s.done⟩ := by
  simp only [exec, h, bind, Except.bind]

/-- Every operation keeps the chains, an insert into a full table included. -/
theorem Holds.action {s : Run} {chains : Fin hashTableMaxSize → List Node}
    (h : Holds s.table chains) {a : Action} (ha : enabled s a) :
    ∃ table chains', exec s a = .ok ⟨table, a :: s.done⟩ ∧ Holds table chains' ∧
      (HasRoom s.table a → content chains' = a.apply (content chains)) := by
  cases a with
  | insert block k nvalue time =>
    by_cases hroom : s.table.hashTableSize < hashTableMaxSize
    · obtain ⟨t, chains', hrun, hholds, hcontent⟩ := h.insert k.at_bytes ha nvalue time hroom
      exact ⟨t, chains', exec_ok hrun, hholds, fun _ => hcontent⟩
    · obtain ⟨t, hrun, hholds⟩ := h.insert_full (not_lt.mp hroom) block k.bytes nvalue time
      exact ⟨t, chains, exec_ok hrun, hholds, fun h => absurd h hroom⟩
  | remove k =>
    obtain ⟨t, chains', hrun, hholds, hcontent⟩ := h.remove k.at_bytes
    exact ⟨t, chains', exec_ok hrun, hholds, fun _ => hcontent⟩
  | lookup k =>
    obtain ⟨p, hrun⟩ := h.lookup_runs k.at_bytes
    refine ⟨s.table, chains, exec_ok ?_, h, fun _ => rfl⟩
    simp only [Action.exec, hrun, bind, Except.bind]

theorem inductive_holds (s : Table) :
    (machine s).Inductive fun t => ∃ chains, Holds t.table chains where
  start := ⟨_, .init s⟩
  step := by
    intro t a ⟨chains, h⟩ ha
    obtain ⟨table, chains', hrun, h', _⟩ := h.action ha
    exact ⟨_, hrun, chains', h'⟩

/-- In every state of every use of the table. -/
theorem table_sound (start : Table) {s : Run} (hr : (machine start).Reachable s) :
    (∃ chains, Sound s.table chains) ∧ ∀ a, enabled s a → ∃ t, exec s a = .ok t := by
  refine ⟨?_, (inductive_holds start).runs hr⟩
  obtain ⟨chains, h⟩ := (inductive_holds start).reachable hr
  exact ⟨chains, h.sound⟩

def abcdefAa : Key := ⟨[97, 98, 99, 100, 101, 102, 65, 97], by decide, by decide⟩
def abcdefBB : Key := ⟨[97, 98, 99, 100, 101, 102, 66, 66], by decide, by decide⟩

def unused : Table := ⟨∅, fun _ => none, 0, []⟩

/-- One key is inserted twice and removed. -/
theorem table_sound_emptied : ∃ s, s.done.length = 3 ∧ (∃ chains, Sound s.table chains) ∧
    ∀ a, enabled s a → ∃ t, exec s a = .ok t := by
  refine ⟨_, ?_, table_sound unused (.step (.remove abcdefAa) (.step (.insert 2 abcdefAa 5 7)
    (.step (.insert 1 abcdefAa 3 4) .start rfl rfl) rfl rfl) trivial rfl)⟩
  rfl

/-- The latest insert of a key that no removal of the key follows. -/
def latest (k : Key) : List Action → Option (U32 × U64)
  | [] => none
  | .insert _ k' nvalue time :: older => if k' = k then some (nvalue, time) else latest k older
  | .remove k' :: older => if k' = k then none else latest k older
  | .lookup _ :: older => latest k older

def HashNode.values (n : HashNode) : U32 × U64 := (n.nValue, n.time)

/-- A lookup gives what the history says. -/
def Finds (s : Run) (k : Key) : Prop :=
  ∃ found, lookupNode k.bytes s.table = .ok found ∧ found.map HashNode.values = latest k s.done

/-- The bucket of the key holds no other key with the same six characters. -/
def Apart (s : Table) (k : Key) : Prop :=
  ∀ nodes, Chain s.heap (s.hashTable k.pos) nodes →
    ∀ n ∈ nodes, front n = k.front → n.2.sKey = k.bytes

def KeptApart (s : Run) (a : Action) : Prop := Apart s.table a.key ∧ HasRoom s.table a

/-- What a node says about a key: nothing, unless it is the node of that key. -/
def valuesOf (k : Key) (n : HashNode) : Option (U32 × U64) :=
  if n.sKey = k.bytes then some n.values else none

/-- A history and a map from slots that agree on every key. -/
def Agrees (done : List Action) (m : Slot → Option HashNode) : Prop :=
  ∀ k : Key, latest k done = (m k.slot).bind (valuesOf k)

section Agrees

variable {done : List Action} {m : Slot → Option HashNode} {a : Action} {k k' : Key}

/-- A slot that belongs to one key has nothing to say about another. -/
theorem bind_values_other (hapart : ∀ n, m k.slot = some n → n.sKey = k.bytes) (hne : k ≠ k')
    (hslot : k'.slot = k.slot) : (m k'.slot).bind (valuesOf k') = none := by
  rw [hslot]
  cases hm : m k.slot with
  | none => rfl
  | some n =>
    have hkey : n.sKey ≠ k'.bytes := by
      rw [hapart n hm]
      exact fun he => hne (Key.bytes_inj he)
    exact if_neg hkey

theorem Agrees.apply (h : Agrees done m)
    (hapart : ∀ n, m a.key.slot = some n → n.sKey = a.key.bytes) :
    Agrees (a :: done) (a.apply m) := by
  intro k'
  cases a with
  | lookup k => exact h k'
  | remove k =>
    by_cases hk : k = k'
    · subst hk
      simp [latest, Action.apply]
    · rw [latest, if_neg hk, h k', Action.apply]
      by_cases hslot : k'.slot = k.slot
      · rw [bind_values_other hapart hk hslot, hslot, Function.update_self]
        rfl
      · rw [Function.update_of_ne hslot]
  | insert block k nvalue time =>
    have hstored : ((m k.slot).map HashNode.sKey).getD k.bytes = k.bytes := by
      cases hm : m k.slot with
      | none => rfl
      | some n => exact hapart n hm
    simp only [Action.apply, hstored]
    by_cases hk : k = k'
    · subst hk
      simp [latest, valuesOf, HashNode.values]
    · rw [latest, if_neg hk, h k']
      by_cases hslot : k'.slot = k.slot
      · have hkey : k.bytes ≠ k'.bytes := fun he => hk (Key.bytes_inj he)
        rw [bind_values_other hapart hk hslot, hslot, Function.update_self]
        exact (if_neg hkey).symm
      · rw [Function.update_of_ne hslot]

end Agrees

namespace Holds

variable {s : Run} {chains : Fin hashTableMaxSize → List Node} {k : Key}

theorem content_mem {c : Slot} {n : HashNode} (hn : content chains c = some n) :
    ∃ a, (a, n) ∈ chains c.1 ∧ front (a, n) = c.2 := by
  obtain ⟨⟨a, x⟩, hlookup, rfl⟩ := Option.map_eq_some_iff.mp hn
  exact ⟨a, List.mem_of_find?_eq_some hlookup, by simpa using List.find?_some hlookup⟩

theorem apart_iff (h : Holds s.table chains) :
    Apart s.table k ↔ ∀ n, content chains k.slot = some n → n.sKey = k.bytes := by
  have hchain := h.buckets.chain k.pos
  constructor
  · intro hapart n hn
    obtain ⟨a, hmem, hfront⟩ := content_mem hn
    exact hapart _ hchain (a, n) hmem hfront
  · intro hcontent nodes hnodes n hn hfront
    obtain rfl := hchain.unique hnodes
    obtain ⟨pre, post, hsplit⟩ := List.append_of_mem hn
    refine hcontent n.2 ?_
    have hnode := h.content_node (a := n.1) (x := n.2) hsplit
    rwa [hfront] at hnode

theorem finds_iff (h : Holds s.table chains) (hagrees : Agrees s.done (content chains)) :
    Finds s k ↔ Apart s.table k := by
  rw [h.apart_iff]
  have hfinds : Finds s k ↔
      (content chains k.slot).map HashNode.values = (content chains k.slot).bind (valuesOf k) := by
    simp [Finds, h.lookup k.at_bytes, hagrees k]
  rw [hfinds]
  cases content chains k.slot with
  | none => simp
  | some n => simp [valuesOf]

/-- Of two keys in one slot the removal of one loses the other. -/
theorem removal_loses (h : Holds s.table chains) {k' : Key} {values : U32 × U64}
    (hslot : k'.slot = k.slot) (hne : k ≠ k') (hlatest : latest k' s.done = some values) :
    ∃ t, exec s (.remove k) = .ok t ∧ ¬ Finds t k' := by
  obtain ⟨table, chains', hrun, hholds, hcontent⟩ := h.action (a := .remove k) trivial
  refine ⟨_, hrun, ?_⟩
  rintro ⟨found, hfound, hvalues⟩
  have hnone : content chains' k'.slot = none := by
    rw [hcontent trivial, Action.apply, hslot, Function.update_self]
  rw [hholds.lookup k'.at_bytes, hnone] at hfound
  rw [← Except.ok.inj hfound, latest, if_neg hne, hlatest] at hvalues
  cases hvalues

/-- An operation on a key that meets another one in its slot: the next removal
of that one, or the operation itself, makes a lookup go wrong. -/
theorem clash_loses (h : Holds s.table chains) (hagrees : Agrees s.done (content chains))
    {a : Action} (ha : enabled s a) (hroom : HasRoom s.table a) (hclash : ¬ Apart s.table a.key) :
    ∃ t, exec s a = .ok t ∧
      ∃ u, (u = t ∨ ∃ k, exec t (.remove k) = .ok u) ∧ ∃ k, ¬ Finds u k := by
  rw [h.apart_iff] at hclash
  push Not at hclash
  obtain ⟨n, hn, hother⟩ := hclash
  obtain ⟨b, hmem, hfront⟩ := content_mem hn
  obtain ⟨k', hkey, hpos⟩ := h.placed _ _ hmem
  have hslot : k'.slot = a.key.slot := by
    refine Prod.ext hpos ?_
    rw [← hfront, front, hkey]
    rfl
  have hne : a.key ≠ k' := fun he => hother (he ▸ hkey)
  have hlatest : latest k' s.done = some n.values := by
    rw [hagrees k', hslot, hn]
    exact if_pos hkey
  cases a with
  | lookup k =>
    obtain ⟨table, chains', hrun, hholds, hcontent⟩ := h.action ha
    have hagrees' : Agrees (.lookup k :: s.done) (content chains') := by
      rw [hcontent hroom]
      exact hagrees
    refine ⟨_, hrun, _, .inl rfl, k, ?_⟩
    rw [hholds.finds_iff (s := ⟨table, _ :: s.done⟩) hagrees', hholds.apart_iff, hcontent hroom]
    exact fun hapart => hother (hapart n hn)
  | remove k =>
    obtain ⟨t, hrun, hlost⟩ := h.removal_loses hslot hne hlatest
    exact ⟨t, hrun, t, .inl rfl, k', hlost⟩
  | insert block k nvalue time =>
    obtain ⟨table, chains', hrun, hholds, _⟩ := h.action ha
    have hnew : latest k (.insert block k nvalue time :: s.done) = some (nvalue, time) := if_pos rfl
    obtain ⟨u, hremove, hlost⟩ := hholds.removal_loses (s := ⟨table, _ :: s.done⟩) hslot.symm
      (Ne.symm hne) hnew
    exact ⟨_, hrun, u, .inr ⟨k', hremove⟩, k, hlost⟩

end Holds

structure Mapped (s : Run) (chains : Fin hashTableMaxSize → List Node) : Prop where
  holds : Holds s.table chains
  agrees : Agrees s.done (content chains)

theorem inductive_mapped (s : Table) :
    ((machine s).restrict KeptApart).Inductive fun t => ∃ chains, Mapped t chains where
  start := ⟨_, .init s, fun _ => rfl⟩
  step := by
    rintro t a ⟨chains, h⟩ ⟨ha, hapart, hroom⟩
    obtain ⟨table, chains', hrun, h', hcontent⟩ := h.holds.action ha
    refine ⟨_, hrun, chains', h', ?_⟩
    rw [hcontent hroom]
    exact h.agrees.apply (h.holds.apart_iff.mp hapart)

/-- As long as keys that meet in a slot are kept apart, the table is the map of
its history, and a lookup is right exactly for the keys that meet no other. An
operation on a key that does meet another one breaks the map. -/
theorem table_map_iff (start : Table) {s : Run}
    (hr : ((machine start).restrict KeptApart).Reachable s) :
    (∀ k, Finds s k ↔ Apart s.table k) ∧ ∀ a, enabled s a → HasRoom s.table a →
      (Apart s.table a.key → ∃ t, exec s a = .ok t) ∧
      (¬ Apart s.table a.key → ∃ t, exec s a = .ok t ∧
        ∃ u, (u = t ∨ ∃ k, exec t (.remove k) = .ok u) ∧ ∃ k, ¬ Finds u k) := by
  obtain ⟨chains, h⟩ := (inductive_mapped start).reachable hr
  refine ⟨fun k => h.holds.finds_iff h.agrees, fun a ha hroom => ⟨?_, ?_⟩⟩
  · intro hapart
    exact (inductive_mapped start).runs hr a ⟨ha, hapart, hroom⟩
  · exact h.holds.clash_loses h.agrees ha hroom

theorem apart_init (s : Table) (k : Key) : Apart (hashTableInit s) k := by
  intro nodes hnodes n hn
  obtain rfl := (Holds.init s).buckets.chain k.pos |>.unique hnodes
  cases hn

theorem table_map_inserted : ∃ s, s.done.length = 1 ∧ ∀ k, Finds s k ↔ Apart s.table k := by
  refine ⟨_, ?_, (table_map_iff unused (.step (.insert 1 abcdefAa 3 4) .start
    ⟨rfl, apart_init unused abcdefAa, show (0 : Int) < hashTableMaxSize by decide⟩ rfl)).1⟩
  rfl

/-- What was inserted under one key is found under another. -/
theorem clash_found : ¬ ∀ s, (machine unused).Reachable s →
    s.table.hashTableSize < hashTableMaxSize → ∀ k, Finds s k := by
  intro h
  obtain ⟨found, hfound, hvalues⟩ := h _ (.step (.insert 1 abcdefAa 3 4) .start rfl rfl)
    (by decide) abcdefBB
  have hother : Except.ok (some ⟨abcdefAa.bytes, 4, 3⟩) = Except.ok found := hfound
  cases hother
  cases hvalues

end ApTelemetry.HashLin
