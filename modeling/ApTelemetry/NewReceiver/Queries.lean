import ApTelemetry.NewReceiver.Unread

namespace ApTelemetry.NewReceiver.Api
open Lib

section Add

variable {β : Type} [DecidableEq β] {size : Nat}

/-- What the array holds after a list of values, if it has room for them. -/
theorem add_all_iff (l : List β) {seen ys : List β} (hlength : seen.length ≤ size) :
    l.foldlM (fun xs x => addNew size x xs) seen = .ok ys ↔
      (seen ++ fresh seen l).length ≤ size ∧ ys = seen ++ fresh seen l := by
  induction l generalizing seen with
  | nil =>
    rw [fresh, List.append_nil, and_iff_right hlength]
    exact ⟨fun h => (Except.ok.inj h).symm, fun h => congrArg Except.ok h.symm⟩
  | cons x l ih =>
    rw [List.foldlM_cons, addNew]
    by_cases hseen : x ∈ seen
    · rw [if_pos hseen, fresh_cons_seen hseen]
      exact ih hlength
    · rw [if_neg hseen, append_fresh_new hseen]
      by_cases hroom : seen.length < size
      · rw [if_pos hroom]
        exact ih (by rw [List.length_append]; exact hroom)
      · rw [if_neg hroom]
        refine iff_of_false (fun h => by cases h) ?_
        rintro ⟨hle, -⟩
        simp only [List.length_append, List.length_singleton] at hle
        omega

end Add

section Collect

variable {α β : Type}

/-- The values of the records that are chosen. -/
def chosen (p : α → Bool) (value : α → β) (es : List (Entry α)) : List β :=
  ((es.map Entry.record).filter p).map value

/-- The values of the chosen records before the first other one. -/
def ahead (p : α → Bool) (value : α → β) (es : List (Entry α)) : List β :=
  ((es.map Entry.record).takeWhile p).map value

variable [DecidableEq β] {size : Nat} {p : α → Bool} {value : α → β}
  {look : α → List β → Except Fault (Bool × List β)} {buffer : Nat → Entry α}

/-- A getter that adds the values of the chosen records and stays at any other. -/
structure Collects (size : Nat) (p : α → Bool) (value : α → β)
    (look : α → List β → Except Fault (Bool × List β)) : Prop where
  own : ∀ x found, p x = true →
    look x found = (addNew size (value x) found).map fun ys => (true, ys)
  other : ∀ x found, p x = false → look x found = .ok (false, found)

variable (h : Collects size p value look)

include h

/-- It looks at such a record again and again. -/
theorem Collects.stays {w : Walk α (List β)} (hj : w.j < bufferStore)
    (hother : p (buffer w.j).record = false) (turns : Nat) :
    (walk buffer look turns w).map Walk.found = .ok w.found := by
  induction turns generalizing w with
  | zero => rfl
  | succ turns ih =>
    rw [walk, Walk.turn, fetch_ok hj]
    simp only [h.other _ _ hother, bind, Except.bind]
    exact ih hj hother

theorem Collects.walk_found (buffer : Nat → Entry α) {w : Walk α (List β)}
    (hj : w.j < bufferStore) (turns : Nat) : (walk buffer look turns w).map Walk.found =
      (ahead p value (span buffer w.j turns)).foldlM (fun xs x => addNew size x xs) w.found := by
  induction turns generalizing w with
  | zero => rfl
  | succ turns ih =>
    rw [span_succ, Nat.mod_eq_of_lt hj, ahead, List.map_cons]
    by_cases hown : p (buffer w.j).record = true
    · rw [List.takeWhile_cons_of_pos hown, List.map_cons, List.foldlM_cons, walk, Walk.turn,
        fetch_ok hj]
      simp only [h.own _ _ hown, bind, Except.bind]
      cases addNew size (value (buffer w.j).record) w.found with
      | error fault => rfl
      | ok ys =>
        have hnext : (w.j + 1) % bufferStore < bufferStore := Nat.mod_lt _ buffer_store_pos
        have hrest := ih (w := ⟨{ w.cursor with
          start := (w.cursor.start + 1) % bufferStore
          amount := w.cursor.amount - 1 }, (w.j + 1) % bufferStore, ys,
          w.visited ++ [buffer w.j]⟩) hnext
        simp only [span_mod] at hrest
        exact hrest
    · have hother : p (buffer w.j).record = false := Bool.eq_false_iff.mpr hown
      rw [List.takeWhile_cons_of_neg hown]
      exact h.stays hj hother (turns + 1)

/-- What a getter finds, if its array has room, are the different values ahead. -/
theorem Collects.read_found {r : Ring α} {c : Cursor} (hstart : c.start < bufferStore)
    {found : List β} : (∃ w, r.read look [] c = .ok w ∧ w.found = found) ↔
      (ahead p value (r.window c)).toFinset.card ≤ size ∧
      found = (ahead p value (r.window c)).eraseDups := by
  have hwalk := h.walk_found r.buffer (w := ⟨c, c.start, [], []⟩) hstart
    (distance c.start r.stop)
  have hempty : ([] : List β).length ≤ size := Nat.zero_le size
  have hfold : _ ↔ _ ∧ found = _ := add_all_iff (ahead p value (r.window c)) hempty
  rw [List.nil_append, fresh_nil, eraseDups_length] at hfold
  rw [← hfold]
  change _ ↔ (ahead p value (span r.buffer c.start (distance c.start r.stop))).foldlM _ _ = _
  rw [← hwalk]
  simp only [Ring.read]
  cases walk r.buffer look (distance c.start r.stop) ⟨c, c.start, [], []⟩ with
  | error fault =>
    refine iff_of_false ?_ (fun h => by cases h)
    rintro ⟨w, hw, -⟩
    cases hw
  | ok u =>
    constructor
    · rintro ⟨w, hw, rfl⟩
      obtain rfl := Except.ok.inj hw
      rfl
    · intro hu
      exact ⟨_, rfl, Except.ok.inj hu⟩

/-- What a getter makes of its walk depends on what it found. -/
theorem Collects.read_then_iff {γ δ : Type} {r : Ring α} {c : Cursor}
    (hstart : c.start < bufferStore) {k : Walk α (List β) → Except Fault (γ × δ)}
    (reply : List β → δ)
    (hk : ∀ w : Walk α (List β), w.found.length ≤ size → ∃ t, k w = .ok (t, reply w.found))
    {P : δ → Prop} : (∃ t answer, (r.read look [] c >>= k) = .ok (t, answer) ∧ P answer) ↔
      (ahead p value (r.window c)).toFinset.card ≤ size ∧
        P (reply (ahead p value (r.window c)).eraseDups) := by
  constructor
  · rintro ⟨t, answer, hrun, hP⟩
    obtain ⟨w, hread, hrun⟩ := bind_ok hrun
    obtain ⟨hcard, hfound⟩ := (h.read_found hstart).mp ⟨w, hread, rfl⟩
    obtain ⟨u, hu⟩ := hk w (by rwa [hfound, eraseDups_length])
    obtain ⟨-, rfl⟩ := Prod.mk.inj (Except.ok.inj (hu.symm.trans hrun))
    exact ⟨hcard, hfound ▸ hP⟩
  · rintro ⟨hcard, hP⟩
    obtain ⟨w, hread, hfound⟩ := (h.read_found hstart).mpr ⟨hcard, rfl⟩
    obtain ⟨u, hu⟩ := hk w (by rwa [hfound, eraseDups_length])
    refine ⟨u, reply w.found, ?_, hfound.symm ▸ hP⟩
    rw [hread]
    exact hu

omit [DecidableEq β] h in
/-- The chosen records that are unread start with those. -/
theorem ahead_prefix (p : α → Bool) (value : α → β) (r : Ring α) (c : Cursor) :
    ∃ rest, chosen p value (r.unread c) = ahead p value (r.window c) ++ rest := by
  by_cases hapart : Apart c r
  · refine ⟨((((r.window c).map Entry.record).dropWhile p).filter p).map value, ?_⟩
    have hall : ∀ x ∈ ((r.window c).map Entry.record).takeWhile p, p x = true :=
      List.all_eq_true.mp List.all_takeWhile
    have hcut := List.takeWhile_append_dropWhile (p := p) (l := (r.window c).map Entry.record)
    rw [unread_apart hapart, chosen, ahead, ← List.map_append, ← hcut, List.filter_append,
      List.filter_eq_self.mpr hall, hcut]
  · exact ⟨chosen p value (r.unread c), by rw [window_hidden hapart]; rfl⟩

end Collect

section Queries

/-- `get_neighbour_py` and `get_clients_py` write to the caller's texts. The first
changes nothing where it finds nothing. -/
def getNeighbourPy (ap : String) (neibours : Aplist) (s : State) :
    Except Fault (State × Aplist) := do
  let w ← s.beacon.read
    (lookFor ap DataBeaconProcessed.macAddr DataBeaconProcessed.bssid) [] s.beacon.cursor1
  let s := { s with beacon := { s.beacon with cursor1 := w.cursor, visited := w.visited } }
  if w.found.length > 0 then
    let aplists ← blit neibours.aplists 0 w.found
    .ok (s, ⟨aplists, w.found.length⟩)
  else .ok (s, neibours)

def getClientsPy (ap : String) (clients : Aplist) (s : State) : Except Fault (State × Aplist) := do
  let w ← s.iw.read (lookFor ap DataIwProcessed.macAddr DataIwProcessed.station) [] s.iw.cursor
  let aplists ← blit clients.aplists 0 w.found
  .ok ({ s with iw := { s.iw with cursor := w.cursor, visited := w.visited } },
    ⟨aplists, w.found.length⟩)

inductive Query where
  | neighbour
  | neighbourPy
  | clients
  | clientsPy

namespace Query

def ask : Query → String → Aplist → State → Except Fault (State × Aplist)
  | neighbour => getNeighbour
  | neighbourPy => getNeighbourPy
  | clients => getClients
  | clientsPy => getClientsPy

def ofAp {α : Type} (macAddr : α → String) (ap : String) (x : α) : Bool := macAddr x = ap

/-- What the unread records of the access point name. -/
def names (ap : String) (s : State) : Query → List String
  | neighbour | neighbourPy => chosen (ofAp DataBeaconProcessed.macAddr ap)
      DataBeaconProcessed.bssid (s.beacon.unread s.beacon.cursor1)
  | clients | clientsPy => chosen (ofAp DataIwProcessed.macAddr ap)
      DataIwProcessed.station (s.iw.unread s.iw.cursor)

/-- What those before the first record of another access point name. -/
def namesAhead (ap : String) (s : State) : Query → List String
  | neighbour | neighbourPy => ahead (ofAp DataBeaconProcessed.macAddr ap)
      DataBeaconProcessed.bssid (s.beacon.window s.beacon.cursor1)
  | clients | clientsPy => ahead (ofAp DataIwProcessed.macAddr ap)
      DataIwProcessed.station (s.iw.window s.iw.cursor)

/-- Whatever stood in the caller's 20 entries and its length: the entries up to the
length are the different names in the order of their first occurrences. -/
def Answers (q : Query) (ap : String) (s : State) : Prop :=
  ∀ given : Aplist, given.aplists.length = 20 → ∃ t answer, q.ask ap given s = .ok (t, answer) ∧
    answer.length = (q.names ap s).eraseDups.length ∧
    answer.aplists.take answer.length = (q.names ap s).eraseDups

/-- The numbers of names that are stored as the length. -/
def Counts (n : Nat) : Query → Prop
  | neighbour => n = 10
  | neighbourPy => 0 < n
  | clients | clientsPy => True

end Query

/-- The indices from which the queries read. -/
structure Indexed (s : State) : Prop where
  beacon : s.beacon.cursor1.start < bufferStore
  iw : s.iw.cursor.start < bufferStore

theorem walk_start_lt {α σ : Type} {look : α → σ → Except Fault (Bool × σ)} {init : σ} {r : Ring α}
    {c : Cursor} {w : Walk α σ} (hstart : c.start < bufferStore)
    (hrun : r.read look init c = .ok w) : w.cursor.start < bufferStore := by
  obtain ⟨u, hwalk, -, -, hcursor⟩ := read_ok hrun
  rw [hcursor, walk_cursor hstart hwalk hstart]
  exact Nat.mod_lt _ buffer_store_pos

theorem push_start_lt {c : Cursor} (hstart : c.start < bufferStore) (stop : Nat) :
    (c.push stop).start < bufferStore := by
  rw [Cursor.push]
  split
  · exact Nat.mod_lt _ buffer_store_pos
  · exact hstart

/-- They stay inside the rings in every run. -/
theorem indexed_reachable {s : State} (hr : machine.Reachable s) : Indexed s := by
  induction hr with
  | start => exact ⟨buffer_store_pos, buffer_store_pos⟩
  | step a _ _ runs ih =>
    cases a with
    | decodeBeacon x =>
      obtain rfl := Except.ok.inj runs
      exact ⟨push_start_lt ih.beacon _, ih.iw⟩
    | decodeIw x =>
      obtain rfl := Except.ok.inj runs
      exact ⟨ih.beacon, push_start_lt ih.iw _⟩
    | decodeWinsize x | decodeDrops x =>
      obtain rfl := Except.ok.inj runs
      exact ⟨ih.beacon, ih.iw⟩
    | getAps =>
      obtain ⟨⟨t, aplists⟩, haps, rfl⟩ := map_ok runs
      obtain ⟨⟨start, found, visited⟩, -, haps⟩ := bind_ok haps
      obtain ⟨rfl, -⟩ := Prod.mk.inj (Except.ok.inj haps)
      exact ⟨ih.beacon, ih.iw⟩
    | getNeighbour ap neibours =>
      obtain ⟨w, hread, rfl⟩ := map_ok ((exec_get_neighbour ap neibours).symm.trans runs)
      exact ⟨walk_start_lt ih.beacon hread, ih.iw⟩
    | getClients ap clients =>
      obtain ⟨w, hread, rfl⟩ := map_ok ((exec_get_clients ap clients).symm.trans runs)
      exact ⟨ih.beacon, walk_start_lt ih.iw hread⟩
    | getFlows =>
      obtain ⟨w, hread, rfl⟩ := map_ok (exec_get_flows.symm.trans runs)
      exact ⟨ih.beacon, ih.iw⟩
    | getFlowDrops ap =>
      obtain ⟨w, hread, rfl⟩ := map_ok ((exec_get_flow_drops ap).symm.trans runs)
      exact ⟨ih.beacon, ih.iw⟩

theorem Query.ask_indexed {s t : State} {ap : String} {given answer : Aplist} (h : Indexed s)
    (q : Query) (hrun : q.ask ap given s = .ok (t, answer)) : Indexed t := by
  cases q with
  | neighbour =>
    obtain ⟨w, hread, hrun⟩ := bind_ok hrun
    obtain ⟨rfl, -⟩ := Prod.mk.inj (Except.ok.inj hrun)
    exact ⟨walk_start_lt h.beacon hread, h.iw⟩
  | neighbourPy =>
    obtain ⟨w, hread, hrun⟩ := bind_ok hrun
    dsimp only at hrun
    split at hrun
    · obtain ⟨aplists, -, hrun⟩ := bind_ok hrun
      obtain ⟨rfl, -⟩ := Prod.mk.inj (Except.ok.inj hrun)
      exact ⟨walk_start_lt h.beacon hread, h.iw⟩
    · obtain ⟨rfl, -⟩ := Prod.mk.inj (Except.ok.inj hrun)
      exact ⟨walk_start_lt h.beacon hread, h.iw⟩
  | clients =>
    obtain ⟨w, hread, hrun⟩ := bind_ok hrun
    obtain ⟨rfl, -⟩ := Prod.mk.inj (Except.ok.inj hrun)
    exact ⟨h.beacon, walk_start_lt h.iw hread⟩
  | clientsPy =>
    obtain ⟨w, hread, hrun⟩ := bind_ok hrun
    obtain ⟨aplists, -, hrun⟩ := bind_ok hrun
    obtain ⟨rfl, -⟩ := Prod.mk.inj (Except.ok.inj hrun)
    exact ⟨h.beacon, walk_start_lt h.iw hread⟩

theorem look_for_collects {α : Type} (ap : String) (macAddr value : α → String) :
    Collects 20 (Query.ofAp macAddr ap) value (lookFor ap macAddr value) := by
  constructor
  · intro x found hown
    rw [lookFor, if_pos (of_decide_eq_true hown)]
    cases addNew 20 (value x) found <;> rfl
  · intro x found hother
    exact if_neg (of_decide_eq_false hother)

namespace Query

/-- What a query leaves in the caller's entries when these names are found. -/
def reply (given : Aplist) (found : List String) : Query → Aplist
  | neighbour => ⟨if found = [] then given.aplists else found, 10⟩
  | neighbourPy =>
    if found = [] then given else ⟨found ++ given.aplists.drop found.length, found.length⟩
  | clients => ⟨if found = [] then given.aplists else found, found.length⟩
  | clientsPy => ⟨found ++ given.aplists.drop found.length, found.length⟩

theorem ask_iff {s : State} (hs : Indexed s) (ap : String) {given : Aplist}
    (hgiven : given.aplists.length = 20) {P : Aplist → Prop} (q : Query) :
    (∃ t answer, q.ask ap given s = .ok (t, answer) ∧ P answer) ↔
      (q.namesAhead ap s).toFinset.card ≤ 20 ∧
        P (q.reply given (q.namesAhead ap s).eraseDups) := by
  have hbeacon := look_for_collects ap DataBeaconProcessed.macAddr DataBeaconProcessed.bssid
  have hiw := look_for_collects ap DataIwProcessed.macAddr DataIwProcessed.station
  cases q with
  | neighbour =>
    exact hbeacon.read_then_iff hs.beacon (reply given · neighbour) fun w _ => ⟨_, rfl⟩
  | neighbourPy =>
    refine hbeacon.read_then_iff hs.beacon (reply given · neighbourPy) fun w hle => ?_
    cases hfound : w.found with
    | nil => exact ⟨_, rfl⟩
    | cons name names =>
      have hrun := blit_front (hgiven ▸ hle)
      rw [hfound] at hrun
      simp only [List.length_cons, Nat.zero_lt_succ, if_true, hrun, bind, Except.bind]
      exact ⟨_, rfl⟩
  | clients =>
    exact hiw.read_then_iff hs.iw (reply given · clients) fun w _ => ⟨_, rfl⟩
  | clientsPy =>
    refine hiw.read_then_iff hs.iw (reply given · clientsPy) fun w hle => ?_
    rw [blit_front (hgiven ▸ hle)]
    exact ⟨_, rfl⟩

/-- A reply with some of the names tells all of them, whatever the caller's entries held,
exactly if it has them all and stores their number. -/
theorem reply_iff {found names : List String} (hle : found.length ≤ names.length) (q : Query) :
    (∀ given : Aplist, given.aplists.length = 20 →
      (q.reply given found).length = names.length ∧
      (q.reply given found).aplists.take (q.reply given found).length = names) ↔
      found = names ∧ q.Counts names.length := by
  have hentries : ∀ n, (⟨List.replicate 20 "", n⟩ : Aplist).aplists.length = 20 := fun _ =>
    List.length_replicate
  cases q with
  | neighbour =>
    constructor
    · intro h
      cases found with
      | nil =>
        have hone := (h ⟨List.replicate 20 "", 0⟩ (hentries 0)).2
        have htwo := (h ⟨List.replicate 20 "a", 0⟩ List.length_replicate).2
        exact absurd (hone.trans htwo.symm) (by decide)
      | cons name found =>
        obtain ⟨hten, htake⟩ := h ⟨List.replicate 20 "", 0⟩ (hentries 0)
        simp only [reply, if_neg (List.cons_ne_nil name found)] at hten htake
        rw [List.take_of_length_le (by omega)] at htake
        exact ⟨htake, hten.symm⟩
    · rintro ⟨rfl, hten⟩ given -
      have hten : found.length = 10 := hten
      have hsome : found ≠ [] := List.ne_nil_of_length_pos (by omega)
      simp only [reply, if_neg hsome]
      exact ⟨hten.symm, List.take_of_length_le (Nat.le_of_eq hten)⟩
  | neighbourPy =>
    constructor
    · intro h
      cases found with
      | nil =>
        have hlength := (h ⟨List.replicate 20 "", names.length + 1⟩ (hentries _)).1
        exact absurd hlength (Nat.succ_ne_self _)
      | cons name found =>
        obtain ⟨hlength, htake⟩ := h ⟨List.replicate 20 "", 0⟩ (hentries 0)
        simp only [reply, if_neg (List.cons_ne_nil name found)] at hlength htake
        rw [List.take_left] at htake
        exact ⟨htake, hlength ▸ Nat.succ_pos _⟩
    · rintro ⟨rfl, hsome⟩ given -
      rw [reply, if_neg (List.ne_nil_of_length_pos hsome)]
      exact ⟨rfl, List.take_left⟩
  | clients =>
    constructor
    · intro h
      obtain ⟨hlength, htake⟩ := h ⟨List.replicate 20 "", 0⟩ (hentries 0)
      simp only [reply] at hlength htake
      split at htake
      · rename_i hnone
        rw [hnone, List.length_nil] at hlength
        exact ⟨hnone.trans (List.eq_nil_of_length_eq_zero hlength.symm).symm, trivial⟩
      · rw [List.take_length] at htake
        exact ⟨htake, trivial⟩
    · rintro ⟨rfl, -⟩ given -
      refine ⟨rfl, ?_⟩
      simp only [reply]
      split
      · rename_i hnone
        rw [hnone]
        rfl
      · exact List.take_length
  | clientsPy =>
    constructor
    · intro h
      obtain ⟨-, htake⟩ := h ⟨List.replicate 20 "", 0⟩ (hentries 0)
      simp only [reply, List.take_left] at htake
      exact ⟨htake, trivial⟩
    · rintro ⟨rfl, -⟩ given -
      exact ⟨rfl, List.take_left⟩

end Query

/-- A query answers exactly if every name it is asked for stands before the first record
of another access point, they fit the entries, and their number is the length it stores. -/
theorem answers_iff {s : State} (hs : Indexed s) (ap : String) (q : Query) :
    q.Answers ap s ↔ (∀ name ∈ q.names ap s, name ∈ q.namesAhead ap s) ∧
      (q.names ap s).toFinset.card ≤ 20 ∧ q.Counts (q.names ap s).toFinset.card := by
  obtain ⟨rest, hrest⟩ : ∃ rest, q.names ap s = q.namesAhead ap s ++ rest := by
    cases q with
    | neighbour | neighbourPy | clients | clientsPy => exact ahead_prefix ..
  have hsame : (q.namesAhead ap s).eraseDups = (q.names ap s).eraseDups ↔
      ∀ name ∈ q.names ap s, name ∈ q.namesAhead ap s := by
    rw [hrest]
    exact eraseDups_append_eq
  have hle : (q.namesAhead ap s).eraseDups.length ≤ (q.names ap s).eraseDups.length := by
    rw [eraseDups_length, eraseDups_length, hrest, List.toFinset_append]
    exact Finset.card_le_card Finset.subset_union_left
  have hreply := Query.reply_iff hle q
  rw [hsame] at hreply
  rw [← eraseDups_length]
  constructor
  · intro h
    have hboth := fun given hgiven => (Query.ask_iff hs ap hgiven q).mp (h given hgiven)
    obtain ⟨hall, hcounts⟩ := hreply.mp fun given hgiven => (hboth given hgiven).2
    have hcard := (hboth ⟨List.replicate 20 "", 0⟩ List.length_replicate).1
    rw [← eraseDups_length, hsame.mpr hall] at hcard
    exact ⟨hall, hcard, hcounts⟩
  · rintro ⟨hall, hcard, hcounts⟩ given hgiven
    refine (Query.ask_iff hs ap hgiven q).mpr ⟨?_, hreply.mpr ⟨hall, hcounts⟩ given hgiven⟩
    rwa [← eraseDups_length, hsame.mpr hall]

/-- Two access points that each reported a client. -/
def mixed : State := { machine.start with
  iw := ((emptyRing ⟨"", ""⟩).push ⟨"other", "one"⟩).push ⟨"ap", "two"⟩ }

theorem answers_iff_mixed : Query.clients.Answers "other" mixed :=
  (answers_iff ⟨buffer_store_pos, buffer_store_pos⟩ "other" .clients).mpr
    ⟨by decide, by decide, trivial⟩

/-- The client of the second is not found behind that of the first. -/
theorem behind_other_ap : ¬ ∀ q ap s, Indexed s → Query.Answers q ap s := by
  intro h
  have hs : Indexed mixed := ⟨buffer_store_pos, buffer_store_pos⟩
  obtain ⟨hall, -⟩ := (answers_iff hs "ap" .clients).mp (h .clients "ap" mixed hs)
  exact absurd (hall "two") (by decide)

end Queries

end ApTelemetry.NewReceiver.Api
