import ApTelemetry.NewReceiver.Getters

namespace ApTelemetry.NewReceiver.Api
open Lib

section Look

variable {β : Type} [DecidableEq β] {size : Nat} {x : β} {xs ys : List β}

theorem add_new_bound (hnodup : xs.Nodup) (hlength : xs.length ≤ size)
    (h : addNew size x xs = .ok ys) : ys.Nodup ∧ ys.length ≤ size ∧
      ys.toFinset = insert x xs.toFinset := by
  unfold addNew at h
  split at h
  · rename_i hmem
    obtain rfl := Except.ok.inj h
    exact ⟨hnodup, hlength, (Finset.insert_eq_of_mem (List.mem_toFinset.mpr hmem)).symm⟩
  · split at h
    · rename_i hnew hroom
      obtain rfl := Except.ok.inj h
      refine ⟨?_, by rw [List.length_append]; exact hroom, by ext a; simp⟩
      exact List.nodup_append.mpr ⟨hnodup, List.nodup_singleton x, fun a ha b hb heq =>
        hnew (List.mem_singleton.mp hb ▸ heq ▸ ha)⟩
    · cases h

/-- The array has room for a value as long as there are no more different ones. -/
theorem add_new_ok_iff (hnodup : xs.Nodup) (hlength : xs.length ≤ size) :
    (∃ ys, addNew size x xs = .ok ys) ↔ (insert x xs.toFinset).card ≤ size := by
  constructor
  · rintro ⟨ys, h⟩
    obtain ⟨hys, hle, hset⟩ := add_new_bound hnodup hlength h
    rwa [← hset, List.toFinset_card_of_nodup hys]
  · intro hcard
    unfold addNew
    split
    · exact ⟨xs, rfl⟩
    · rename_i hnew
      rw [Finset.card_insert_of_notMem (by simpa using hnew),
        List.toFinset_card_of_nodup hnodup] at hcard
      exact ⟨xs ++ [x], if_pos hcard⟩

/-- Where a record adds its value to the array and the rest of the records needs the room `rest`
and `P`, so does all of it. -/
theorem looks_add_iff {α : Type} {look : α → List β → Except Fault (Bool × List β)}
    {e : Entry α} {es : List (Entry α)} {P : Prop} {rest : Finset β}
    (hlook : ∀ b found, look e.record xs = .ok (b, found) ↔
      b = true ∧ addNew size x xs = .ok found)
    (hrest : ∀ {ys : List β}, ys.Nodup → ys.length ≤ size →
      (Looks look ys es ↔ P ∧ (ys.toFinset ∪ rest).card ≤ size))
    (hnodup : xs.Nodup) (hlength : xs.length ≤ size) :
    Looks look xs (e :: es) ↔ P ∧ (insert x xs.toFinset ∪ rest).card ≤ size := by
  have hstep : Looks look xs (e :: es) ↔ ∃ ys, addNew size x xs = .ok ys ∧ Looks look ys es := by
    cases es with
    | nil =>
      simp only [Looks, hlook, and_true]
      exact ⟨fun ⟨_, ys, _, h⟩ => ⟨ys, h⟩, fun ⟨ys, h⟩ => ⟨true, ys, rfl, h⟩⟩
    | cons f es => simp only [Looks, hlook, true_and]
  rw [hstep]
  constructor
  · rintro ⟨ys, hok, hlooks⟩
    obtain ⟨hys, hle, hset⟩ := add_new_bound hnodup hlength hok
    rw [← hset]
    exact (hrest hys hle).mp hlooks
  · rintro ⟨hP, hcard⟩
    have hroom := Nat.le_trans (Finset.card_le_card Finset.subset_union_left) hcard
    obtain ⟨ys, hok⟩ := (add_new_ok_iff hnodup hlength).mpr hroom
    obtain ⟨hys, hle, hset⟩ := add_new_bound hnodup hlength hok
    exact ⟨ys, hok, (hrest hys hle).mpr ⟨hP, hset ▸ hcard⟩⟩

theorem looks_flow_iff {es : List (Entry Flow)} {flows : List Flow} (hnodup : flows.Nodup)
    (hlength : flows.length ≤ 40) : Looks lookFlow flows es ↔
      (flows.toFinset ∪ (es.map Entry.record).toFinset).card ≤ 40 := by
  induction es generalizing flows with
  | nil =>
    refine iff_of_true trivial ?_
    simpa [List.toFinset_card_of_nodup hnodup] using hlength
  | cons e es ih =>
    have hlook : ∀ b found, lookFlow e.record flows = .ok (b, found) ↔
        b = true ∧ addNew 40 e.record flows = .ok found := by
      intro b found
      rw [lookFlow]
      cases addNew 40 e.record flows with
      | error fault => simp [bind, Except.bind]
      | ok ys => simp [bind, Except.bind, eq_comm]
    have hunion : flows.toFinset ∪ ((e :: es).map Entry.record).toFinset =
        insert e.record flows.toFinset ∪ (es.map Entry.record).toFinset := by
      rw [List.map_cons, List.toFinset_cons, Finset.union_insert, Finset.insert_union]
    have hrest : ∀ {ys : List Flow}, ys.Nodup → ys.length ≤ 40 → (Looks lookFlow ys es ↔
        True ∧ (ys.toFinset ∪ (es.map Entry.record).toFinset).card ≤ 40) := by
      intro ys hys hle
      rw [ih hys hle, true_and]
    rw [hunion, looks_add_iff hlook hrest hnodup hlength, true_and]

section LookFor

variable {α : Type} {ap : String} {macAddr value : α → String} {es : List (Entry α)}
  {macList : List String}

/-- A record of the access point adds its value. -/
theorem look_for_own {record : α} (hap : macAddr record = ap) (b : Bool) (found : List String) :
    lookFor ap macAddr value record macList = .ok (b, found) ↔
      b = true ∧ addNew 20 (value record) macList = .ok found := by
  rw [lookFor, if_pos hap]
  cases addNew 20 (value record) macList with
  | error fault => simp [bind, Except.bind]
  | ok ys => simp [bind, Except.bind, eq_comm]

/-- A record of another access point ends the look, at the last record only without harm. -/
theorem looks_for_other {e : Entry α} (hap : macAddr e.record ≠ ap) :
    Looks (lookFor ap macAddr value) macList (e :: es) ↔ es = [] := by
  have hlook : lookFor ap macAddr value e.record macList = .ok (false, macList) := if_neg hap
  cases es with
  | nil => exact iff_of_true ⟨false, macList, hlook⟩ rfl
  | cons f rest =>
    refine iff_of_false ?_ (by simp)
    rintro ⟨found, hok, -⟩
    rw [hlook] at hok
    cases hok

theorem forall_drop_last_cons {P : Entry α → Prop} {e : Entry α} :
    (∀ x ∈ (e :: es).dropLast, P x) ↔ (es ≠ [] → P e) ∧ ∀ x ∈ es.dropLast, P x := by
  cases es <;> simp

theorem looks_for_iff (hnodup : macList.Nodup) (hlength : macList.length ≤ 20) :
    Looks (lookFor ap macAddr value) macList es ↔
      (∀ e ∈ es.dropLast, macAddr e.record = ap) ∧ (macList.toFinset ∪
        ((es.filter fun e => macAddr e.record = ap).map fun e => value e.record).toFinset).card
          ≤ 20 := by
  induction es generalizing macList with
  | nil =>
    refine iff_of_true trivial ⟨by simp, ?_⟩
    simpa [List.toFinset_card_of_nodup hnodup] using hlength
  | cons e es ih =>
    rw [forall_drop_last_cons]
    by_cases hap : macAddr e.record = ap
    · rw [List.filter_cons_of_pos (by simpa using hap), List.map_cons, List.toFinset_cons,
        Finset.union_insert, ← Finset.insert_union, and_iff_right fun _ => hap]
      exact looks_add_iff (look_for_own hap) ih hnodup hlength
    · rw [List.filter_cons_of_neg (by simpa using hap), looks_for_other hap]
      constructor
      · rintro rfl
        refine ⟨⟨fun h => absurd rfl h, by simp⟩, ?_⟩
        simpa [List.toFinset_card_of_nodup hnodup] using hlength
      · rintro ⟨⟨hown, -⟩, -⟩
        exact by_contra fun hne => hap (hown hne)

end LookFor

/-- The dropped packets are all gone through. -/
theorem looks_drop {ap : String} {es : List (Entry DataDroppedProcessed)} {d : FlowDrops} :
    Looks (lookDrop ap) d es := by
  induction es generalizing d with
  | nil => trivial
  | cons e es ih =>
    obtain ⟨d', hlook⟩ : ∃ d', lookDrop ap e.record d = .ok (true, d') := by
      unfold lookDrop
      split
      · exact ⟨_, rfl⟩
      · exact ⟨_, rfl⟩
    cases es with
    | nil => exact ⟨true, d', hlook⟩
    | cons f rest => exact ⟨d', hlook, ih⟩

end Look

section Aps

variable {buffer : Nat → Entry DataBeaconProcessed} {bbamount bbstart : Nat}
  {aplists : List String} {visited : List (Entry DataBeaconProcessed)}

/-- The loop runs to the end only inside both arrays. -/
theorem aps_loop_runs (buffer : Nat → Entry DataBeaconProcessed) (aplists : List String)
    (visited : List (Entry DataBeaconProcessed)) (hstart : bbstart + bbamount < bufferStore)
    (hlength : aplists.length + bbamount ≤ 20) :
    ∃ found, apsLoop buffer bbamount bbstart aplists visited = .ok (bbstart + bbamount, found,
      visited ++ (List.range bbamount).map fun k => buffer (bbstart + k)) := by
  induction bbamount generalizing bbstart aplists visited with
  | zero => exact ⟨aplists, by rw [apsLoop]; simp⟩
  | succ bbamount ih =>
    have hroom : aplists.length < 20 := by omega
    have hstart' : bbstart + 1 + bbamount < bufferStore := by omega
    obtain ⟨found, hrun⟩ := ih (aplists ++ [(buffer bbstart).record.macAddr])
      (visited ++ [buffer bbstart]) hstart'
      (by rw [List.length_append, List.length_singleton]; omega)
    refine ⟨found, ?_⟩
    rw [apsLoop, fetch_ok (by omega)]
    simp only [bind, Except.bind, if_pos hroom, hrun]
    rw [List.range_succ_eq_map]
    simp [Nat.add_assoc, Nat.add_comm 1, Function.comp_def]

theorem aps_loop_bound {t : Nat × List String × List (Entry DataBeaconProcessed)}
    (h : apsLoop buffer bbamount bbstart aplists visited = .ok t) (hlength : aplists.length ≤ 20) :
    t.1 = bbstart + bbamount ∧ aplists.length + bbamount ≤ 20 := by
  induction bbamount generalizing bbstart aplists visited with
  | zero =>
    obtain rfl := Except.ok.inj h
    exact ⟨rfl, hlength⟩
  | succ bbamount ih =>
    rw [apsLoop] at h
    obtain ⟨e, -, h⟩ := bind_ok h
    split at h
    · rename_i hroom
      obtain ⟨hstart, hle⟩ := ih h (by rw [List.length_append]; exact hroom)
      rw [List.length_append, List.length_singleton] at hle
      exact ⟨by omega, by omega⟩
    · cases h

end Aps

/-- A ring that records come into, with what its two cursors show. -/
structure Ring.Tracked {α : Type} (r : Ring α) : Prop where
  kept : r.Kept
  cursor : ∃ stale, r.cursor.Kept r.stop r.log.length stale
  cursor1 : ∃ stale, r.cursor1.Kept r.stop r.log.length stale

structure Kept (s : State) : Prop where
  beacon : s.beacon.Tracked
  iw : s.iw.Tracked
  winsize : s.winsize.Tracked
  dropped : s.dropped.Tracked
  aps : s.beacon.cursor.Kept s.beacon.stop s.beacon.log.length 0

section Tracked

variable {α σ : Type} {r : Ring α}

theorem Ring.Tracked.in_range (h : r.Tracked) : r.InRange := by
  obtain ⟨_, hcursor⟩ := h.cursor
  obtain ⟨_, hcursor1⟩ := h.cursor1
  exact ⟨h.kept.stop_lt, hcursor.start_lt, hcursor1.start_lt⟩

theorem push_length (r : Ring α) (x : α) : (r.push x).log.length = r.log.length + 1 := by
  simp [Ring.push]

theorem Ring.Tracked.push (h : r.Tracked) (x : α) : (r.push x).Tracked := by
  obtain ⟨stale, hcursor⟩ := h.cursor
  obtain ⟨stale1, hcursor1⟩ := h.cursor1
  refine ⟨h.kept.push x, ⟨stale, ?_⟩, ⟨stale1, ?_⟩⟩
  · rw [push_length]
    exact hcursor.push _
  · rw [push_length]
    exact hcursor1.push _

theorem cursor_kept_start : Cursor.Kept ⟨0, 0, 0⟩ 0 0 0 :=
  ⟨Nat.zero_le 1, Nat.le_refl 0, by simp, by simp⟩

theorem tracked_empty (zero : α) : (emptyRing zero).Tracked := by
  exact ⟨⟨(Nat.zero_mod _).symm, (Stored.nil _ _).mono (Nat.zero_le _), rfl⟩,
    ⟨0, cursor_kept_start⟩, ⟨0, cursor_kept_start⟩⟩

theorem Ring.Tracked.read {look : α → σ → Except Fault (Bool × σ)} {init : σ} {w : Walk α σ}
    (h : r.Tracked) (hapart : Apart r.cursor r) (hrun : r.read look init r.cursor = .ok w) :
    Ring.Tracked { r with cursor := w.cursor, visited := w.visited } := by
  obtain ⟨_, hcursor⟩ := h.cursor
  obtain ⟨stale, hafter⟩ := read_kept h.kept hcursor hapart hrun
  exact ⟨⟨h.kept.stop, h.kept.stored, h.kept.numbered⟩, ⟨stale, hafter⟩, h.cursor1⟩

theorem Ring.Tracked.read1 {look : α → σ → Except Fault (Bool × σ)} {init : σ} {w : Walk α σ}
    (h : r.Tracked) (hapart : Apart r.cursor1 r) (hrun : r.read look init r.cursor1 = .ok w) :
    Ring.Tracked { r with cursor1 := w.cursor, visited := w.visited } := by
  obtain ⟨_, hcursor1⟩ := h.cursor1
  obtain ⟨stale, hafter⟩ := read_kept h.kept hcursor1 hapart hrun
  exact ⟨⟨h.kept.stop, h.kept.stored, h.kept.numbered⟩, h.cursor, ⟨stale, hafter⟩⟩

end Tracked

theorem Kept.in_range {s : State} (h : Kept s) : InRange s :=
  ⟨h.beacon.in_range, h.iw.in_range, h.winsize.in_range, h.dropped.in_range⟩

theorem kept_start : Kept machine.start :=
  ⟨tracked_empty _, tracked_empty _, tracked_empty _, tracked_empty _, cursor_kept_start⟩

section Steps

variable {s : State}

/-- Inside the ring and the array `get_aps` goes through all unread records. -/
theorem aps_runs (h : Kept s) (hin : Deliverable s .getAps) : ∃ t, exec s .getAps = .ok t ∧
    Kept t ∧ Visits s.beacon s.beacon.cursor t.beacon.visited := by
  obtain ⟨hend, hfew⟩ := hin
  have hr := h.beacon.kept
  have hstore : bufferStore = 10000 := rfl
  have hamount := h.aps.amount
  have hapart : Apart s.beacon.cursor s.beacon := fun hfull => by omega
  obtain ⟨m, hseen, hmany, hcursors, hroom, hall, -⟩ := h.aps.shows hr hapart
  obtain rfl := hall (by omega)
  have hlength : s.beacon.log.length = s.beacon.cursor.seen + s.beacon.cursor.amount := by
    have := hcursors.le
    omega
  obtain ⟨found, hrun⟩ := aps_loop_runs s.beacon.buffer [] [] hend
    (by rw [List.length_nil]; omega)
  have hvisited : (List.range s.beacon.cursor.amount).map
      (fun k => s.beacon.buffer (s.beacon.cursor.start + k)) =
      s.beacon.log.drop s.beacon.cursor.seen := by
    rw [← window_eq hr hcursors hroom, Ring.window]
    have hdistance : distance s.beacon.cursor.start s.beacon.stop = s.beacon.cursor.amount := by
      rw [← window_length, window_eq hr hcursors hroom, List.length_drop]
      omega
    rw [hdistance]
    refine List.map_congr_left fun k hk => ?_
    have hlt := List.mem_range.mp hk
    rw [Nat.mod_eq_of_lt (by omega)]
  rw [List.nil_append, hvisited] at hrun
  refine ⟨{ s with beacon := { s.beacon with
      cursor := ⟨s.beacon.cursor.start + s.beacon.cursor.amount, 0, s.beacon.log.length⟩
      visited := s.beacon.log.drop s.beacon.cursor.seen } },
    by simp only [exec, getAps, hrun, bind, Except.bind, Except.map], ?_,
    ⟨_, hseen, hmany, rfl⟩⟩
  have hcursor : Cursor.Kept
      ⟨s.beacon.cursor.start + s.beacon.cursor.amount, 0, s.beacon.log.length⟩
      s.beacon.stop s.beacon.log.length 0 := by
    refine ⟨Nat.zero_le 1, Nat.le_refl _, by simp, ?_⟩
    simp only [Nat.sub_self, Nat.zero_add, Nat.zero_le, if_true]
    rw [hlength, ← Nat.mod_add_mod, ← hcursors.first, Nat.mod_eq_of_lt hend]
  exact ⟨⟨⟨hr.stop, hr.stored, hr.numbered⟩, ⟨0, hcursor⟩, h.beacon.cursor1⟩, h.iw, h.winsize,
    h.dropped, hcursor⟩

theorem aps_iff (h : Kept s) : Delivers s .getAps (exec s .getAps) ↔ Deliverable s .getAps := by
  constructor
  · rintro ⟨t, hrun, ⟨⟨-, hstart, -⟩, -⟩, -⟩
    simp only [exec, Except.map] at hrun
    split at hrun
    · cases hrun
    · rename_i pair haps
      obtain rfl := Except.ok.inj hrun
      obtain ⟨⟨start, found, visited⟩, hloop, haps⟩ := bind_ok haps
      obtain rfl := Except.ok.inj haps
      obtain ⟨hend, hle⟩ := aps_loop_bound hloop (Nat.zero_le 20)
      rw [List.length_nil, Nat.zero_add] at hle
      exact ⟨hend ▸ hstart, hle⟩
  · intro hin
    obtain ⟨t, hrun, hkept, hvisits⟩ := aps_runs h hin
    exact ⟨t, hrun, hkept.in_range, hvisits⟩

/-- A getter that walks its ring delivers exactly if the walk does. -/
theorem getter_iff {α σ : Type} {r : Ring α} {c : Cursor} {stale : Nat} (hr : r.Kept)
    (hc : c.Kept r.stop r.log.length stale) {look : α → σ → Except Fault (Bool × σ)} {init : σ}
    {store : Walk α σ → State} (visited : State → List (Entry α))
    (hvisited : ∀ w, visited (store w) = w.visited)
    (hkept : ∀ w, Apart c r → r.read look init c = .ok w → Kept (store w)) :
    (∃ t, (r.read look init c).map store = .ok t ∧ InRange t ∧ Visits r c (visited t)) ↔
      Apart c r ∧ Looks look init (r.window c) := by
  rw [← read_iff hr hc]
  constructor
  · rintro ⟨t, hrun, -, hvisits⟩
    cases hread : r.read look init c with
    | error fault =>
      rw [hread] at hrun
      cases hrun
    | ok w =>
      rw [hread] at hrun
      obtain rfl := Except.ok.inj hrun
      exact ⟨w, rfl, hvisited w ▸ hvisits⟩
  · rintro ⟨w, hread, hvisits⟩
    have hapart := ((read_iff hr hc).mp ⟨w, hread, hvisits⟩).1
    exact ⟨store w, by rw [hread]; rfl, (hkept w hapart hread).in_range,
      (hvisited w).symm ▸ hvisits⟩

/-- The walking getters as what they store of their walk. -/
theorem exec_get_neighbour (ap : String) (neibours : Aplist) :
    exec s (.getNeighbour ap neibours) = (s.beacon.read
      (lookFor ap DataBeaconProcessed.macAddr DataBeaconProcessed.bssid) [] s.beacon.cursor1).map
      fun w => { s with
        beacon := { s.beacon with cursor1 := w.cursor, visited := w.visited } } := by
  simp only [exec, getNeighbour]
  cases s.beacon.read (lookFor ap DataBeaconProcessed.macAddr DataBeaconProcessed.bssid) []
    s.beacon.cursor1 <;> rfl

theorem exec_get_clients (ap : String) (clients : Aplist) :
    exec s (.getClients ap clients) = (s.iw.read
      (lookFor ap DataIwProcessed.macAddr DataIwProcessed.station) [] s.iw.cursor).map
      fun w => { s with iw := { s.iw with cursor := w.cursor, visited := w.visited } } := by
  simp only [exec, getClients]
  cases s.iw.read (lookFor ap DataIwProcessed.macAddr DataIwProcessed.station) []
    s.iw.cursor <;> rfl

theorem exec_get_flows : exec s .getFlows = (s.winsize.read lookFlow [] s.winsize.cursor).map
    fun w => { s with
      winsize := { s.winsize with cursor := w.cursor, visited := w.visited } } := by
  simp only [exec, getFlows]
  cases s.winsize.read lookFlow [] s.winsize.cursor <;> rfl

theorem exec_get_flow_drops (ap : String) : exec s (.getFlowDrops ap) =
    (s.dropped.read (lookDrop ap) ⟨[], 0⟩ s.dropped.cursor).map fun w => { s with
      dropped := { s.dropped with cursor := w.cursor, visited := w.visited } } := by
  simp only [exec, getFlowDrops]
  cases s.dropped.read (lookDrop ap) ⟨[], 0⟩ s.dropped.cursor <;> rfl

section Stores

variable (h : Kept s)

include h

theorem Kept.neighbour {σ : Type} {look : DataBeaconProcessed → σ → Except Fault (Bool × σ)}
    {init : σ} {w : Walk DataBeaconProcessed σ} (hapart : Apart s.beacon.cursor1 s.beacon)
    (hrun : s.beacon.read look init s.beacon.cursor1 = .ok w) :
    Kept { s with beacon := { s.beacon with cursor1 := w.cursor, visited := w.visited } } :=
  ⟨h.beacon.read1 hapart hrun, h.iw, h.winsize, h.dropped, h.aps⟩

theorem Kept.clients {σ : Type} {look : DataIwProcessed → σ → Except Fault (Bool × σ)} {init : σ}
    {w : Walk DataIwProcessed σ} (hapart : Apart s.iw.cursor s.iw)
    (hrun : s.iw.read look init s.iw.cursor = .ok w) :
    Kept { s with iw := { s.iw with cursor := w.cursor, visited := w.visited } } :=
  ⟨h.beacon, h.iw.read hapart hrun, h.winsize, h.dropped, h.aps⟩

theorem Kept.flows {σ : Type} {look : Flow → σ → Except Fault (Bool × σ)} {init : σ}
    {w : Walk Flow σ} (hapart : Apart s.winsize.cursor s.winsize)
    (hrun : s.winsize.read look init s.winsize.cursor = .ok w) :
    Kept { s with winsize := { s.winsize with cursor := w.cursor, visited := w.visited } } :=
  ⟨h.beacon, h.iw, h.winsize.read hapart hrun, h.dropped, h.aps⟩

theorem Kept.flow_drops {σ : Type} {look : DataDroppedProcessed → σ → Except Fault (Bool × σ)}
    {init : σ} {w : Walk DataDroppedProcessed σ} (hapart : Apart s.dropped.cursor s.dropped)
    (hrun : s.dropped.read look init s.dropped.cursor = .ok w) :
    Kept { s with dropped := { s.dropped with cursor := w.cursor, visited := w.visited } } :=
  ⟨h.beacon, h.iw, h.winsize, h.dropped.read hapart hrun, h.aps⟩

end Stores

/-- A record that comes is kept. -/
theorem Kept.decode (h : Kept s) : (∀ x, Kept { s with beacon := s.beacon.push x }) ∧
    (∀ x, Kept { s with iw := s.iw.push x }) ∧ (∀ x, Kept { s with winsize := s.winsize.push x }) ∧
    ∀ x, Kept { s with dropped := s.dropped.push x } := by
  refine ⟨fun x => ⟨h.beacon.push x, h.iw, h.winsize, h.dropped, ?_⟩,
    fun x => ⟨h.beacon, h.iw.push x, h.winsize, h.dropped, h.aps⟩,
    fun x => ⟨h.beacon, h.iw, h.winsize.push x, h.dropped, h.aps⟩,
    fun x => ⟨h.beacon, h.iw, h.winsize, h.dropped.push x, h.aps⟩⟩
  simp only [push_length]
  exact h.aps.push _

theorem delivers_iff (h : Kept s) (a : Action) :
    Delivers s a (exec s a) ↔ Deliverable s a := by
  obtain ⟨hbeacon, hiw, hwinsize, hdropped⟩ := h.decode
  cases a with
  | decodeBeacon x => exact iff_of_true ⟨_, rfl, (hbeacon x).in_range, trivial⟩ trivial
  | decodeIw x => exact iff_of_true ⟨_, rfl, (hiw x).in_range, trivial⟩ trivial
  | decodeWinsize x => exact iff_of_true ⟨_, rfl, (hwinsize x).in_range, trivial⟩ trivial
  | decodeDrops x => exact iff_of_true ⟨_, rfl, (hdropped x).in_range, trivial⟩ trivial
  | getAps => exact aps_iff h
  | getNeighbour ap neibours =>
    obtain ⟨stale, hc⟩ := h.beacon.cursor1
    rw [exec_get_neighbour]
    refine (getter_iff h.beacon.kept hc (fun t => t.beacon.visited) (fun _ => rfl)
      fun w hapart hrun => h.neighbour hapart hrun).trans ?_
    rw [looks_for_iff .nil (Nat.zero_le 20), List.toFinset_nil, Finset.empty_union]
    rfl
  | getClients ap clients =>
    obtain ⟨stale, hc⟩ := h.iw.cursor
    rw [exec_get_clients]
    refine (getter_iff h.iw.kept hc (fun t => t.iw.visited) (fun _ => rfl)
      fun w hapart hrun => h.clients hapart hrun).trans ?_
    rw [looks_for_iff .nil (Nat.zero_le 20), List.toFinset_nil, Finset.empty_union]
    rfl
  | getFlows =>
    obtain ⟨stale, hc⟩ := h.winsize.cursor
    rw [exec_get_flows]
    refine (getter_iff h.winsize.kept hc (fun t => t.winsize.visited) (fun _ => rfl)
      fun w hapart hrun => h.flows hapart hrun).trans ?_
    rw [looks_flow_iff .nil (Nat.zero_le 40), List.toFinset_nil, Finset.empty_union]
    rfl
  | getFlowDrops ap =>
    obtain ⟨stale, hc⟩ := h.dropped.cursor
    rw [exec_get_flow_drops]
    refine (getter_iff h.dropped.kept hc (fun t => t.dropped.visited) (fun _ => rfl)
      fun w hapart hrun => h.flow_drops hapart hrun).trans ?_
    exact and_iff_left looks_drop

theorem map_ok {α β : Type} {x : Except Fault α} {store : α → β} {t : β}
    (h : x.map store = .ok t) : ∃ w, x = .ok w ∧ store w = t := by
  cases x with
  | error fault => cases h
  | ok w => exact ⟨w, rfl, Except.ok.inj h⟩

theorem kept_step {t : State} {a : Action} (h : Kept s) (ha : Deliverable s a)
    (hrun : exec s a = .ok t) : Kept t := by
  obtain ⟨hbeacon, hiw, hwinsize, hdropped⟩ := h.decode
  cases a with
  | decodeBeacon x => exact Except.ok.inj hrun ▸ hbeacon x
  | decodeIw x => exact Except.ok.inj hrun ▸ hiw x
  | decodeWinsize x => exact Except.ok.inj hrun ▸ hwinsize x
  | decodeDrops x => exact Except.ok.inj hrun ▸ hdropped x
  | getAps =>
    obtain ⟨t', ht', hkept, -⟩ := aps_runs h ha
    exact Except.ok.inj (ht'.symm.trans hrun) ▸ hkept
  | getNeighbour ap neibours =>
    rw [exec_get_neighbour] at hrun
    obtain ⟨w, hread, rfl⟩ := map_ok hrun
    exact h.neighbour ha.1 hread
  | getClients ap clients =>
    rw [exec_get_clients] at hrun
    obtain ⟨w, hread, rfl⟩ := map_ok hrun
    exact h.clients ha.1 hread
  | getFlows =>
    rw [exec_get_flows] at hrun
    obtain ⟨w, hread, rfl⟩ := map_ok hrun
    exact h.flows ha.1 hread
  | getFlowDrops ap =>
    rw [exec_get_flow_drops] at hrun
    obtain ⟨w, hread, rfl⟩ := map_ok hrun
    exact h.flow_drops ha hread

end Steps

/-- In every run the getters deliver exactly if each finds its ring deliverable. -/
theorem getters_deliver_iff (actions : List Action) :
    machine.Throughout Delivers machine.start actions ↔
    machine.Throughout (fun s a _ => Deliverable s a) machine.start actions :=
  Machine.throughout_iff Kept (fun _ a hs _ => delivers_iff hs a)
    (fun _ _ _ hs _ ha hrun => kept_step hs ha hrun) kept_start actions

/-- Two records of one access point are looked through for another. The first is
looked at twice and the second never. -/
theorem other_ap_stops : ¬ ∀ actions, machine.Throughout Delivers machine.start actions := by
  intro h
  obtain ⟨-, h⟩ := h [.decodeIw ⟨"ap", "one"⟩, .decodeIw ⟨"ap", "two"⟩,
    .getClients "other" ⟨[], 0⟩] trivial
  have hone := kept_step (a := .decodeIw ⟨"ap", "one"⟩) kept_start trivial rfl
  obtain ⟨-, h⟩ := h _ rfl trivial
  have htwo := kept_step (a := .decodeIw ⟨"ap", "two"⟩) hone trivial rfl
  obtain ⟨hgood, -⟩ := h _ rfl trivial
  obtain ⟨-, hall, -⟩ := (delivers_iff htwo (.getClients "other" ⟨[], 0⟩)).mp hgood
  have hap := hall ⟨0, ⟨"ap", "one"⟩⟩ (List.mem_singleton_self _)
  exact absurd hap (by decide)

end ApTelemetry.NewReceiver.Api
