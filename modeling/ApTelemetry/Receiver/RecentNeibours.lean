import ApTelemetry.Receiver.Neibours

namespace ApTelemetry.Receiver.Neibours
open Lib

/-- A BSSID whose latest beacon is at most 10 seconds older than `sec`. -/
def Recent (heard : List (Mac × U32)) (sec : U32) (bssid : Mac) : Prop :=
  ∃ x ∈ heard, x.1 = bssid ∧ sec.toNat ≤ x.2.toNat + 10

/-- The list is that of the recent BSSIDs, and its head counts them. -/
structure Exact (s : State) (sec : U32) (nodes : List (Addr × Station)) : Prop where
  holds : s.neibourLists.Holds nodes
  distinct : (stations nodes).Nodup
  recent : ∀ bssid, bssid ∈ stations nodes ↔ Recent s.heard sec bssid
  counted : ∀ n ∈ nodes.head?, n.2.count.toNat = nodes.length

def machine (malloc : Malloc Station) : Machine State Report Fault :=
  ⟨start, fun _ _ => True, decodeBeacon malloc⟩

/-- After the beacon the list is the right one for its time. -/
def LeavesExact (_ : State) (report : Report) (result : Except Fault State) : Prop :=
  ∃ t nodes, result = .ok t ∧ Exact t report.beacon.sec nodes

/-- All nodes are out of time, or none is and the head can count one more. -/
def Together (report : Report) (nodes : List (Addr × Station)) : Prop :=
  (∀ n ∈ nodes, outOfTime report.beacon.sec n.2 = true) ∨
  (∀ n ∈ nodes, outOfTime report.beacon.sec n.2 = false) ∧
    (report.beacon.bssid ∈ stations nodes ∨ nodes.length + 1 < 4294967296)

/-- The first beacon is the AP's own. At a later one the nodes go or stay
together, and all that is recent, but for its own BSSID, is on a node that stays. -/
def Renews (s : State) (report : Report) : Prop :=
  ∀ nodes, s.neibourLists.Holds nodes →
    (nodes = [] → report.mac = report.beacon.bssid) ∧
    (nodes ≠ [] → Together report nodes ∧
      ∀ bssid, Recent s.heard report.beacon.sec bssid → bssid = report.beacon.bssid ∨
        ∃ n ∈ nodes, n.2.station = bssid ∧ outOfTime report.beacon.sec n.2 = false)

/-- What every run keeps as long as the lists are exact. -/
structure Kept (s : State) (nodes : List (Addr × Station)) : Prop where
  holds : s.neibourLists.Holds nodes
  distinct : (stations nodes).Nodup
  counted : ∀ n ∈ nodes.head?, n.2.count.toNat = nodes.length
  uncounted : ∀ n ∈ nodes.tail, n.2.count = 0
  known : ∀ n ∈ nodes, (n.2.station, n.2.sec) ∈ s.heard
  silent : nodes = [] → s.heard = []

section Sweep

variable {α : Type} {old : α → Bool} {xs : List α}

theorem sweep_rest_sublist (old : α → Bool) (xs : List α) : (sweepRest old xs).Sublist xs := by
  induction xs using sweepRest.induct old with
  | case1 => exact .slnil
  | case2 x hold => simp [sweepRest, hold]
  | case3 x hold => simp [sweepRest, hold]
  | case4 x y rest hold ih =>
    rw [sweepRest, if_pos hold]
    exact (ih.cons_cons y).cons x
  | case5 x y rest hold ih =>
    rw [sweepRest, if_neg hold]
    exact ih.cons_cons x

theorem sweep_rest_eq_self (h : sweepRest old xs = xs) : ∀ x ∈ xs, old x = false := by
  induction xs using sweepRest.induct old with
  | case1 => simp
  | case2 x hold => simp [sweepRest, hold] at h
  | case3 x hold => simpa using hold
  | case4 x y rest hold ih =>
    have hlength := (sweep_rest_sublist old rest).length_le
    rw [sweepRest, if_pos hold] at h
    have := congrArg List.length h
    simp at this
    omega
  | case5 x y rest hold ih =>
    rw [sweepRest, if_neg hold, List.cons_eq_cons] at h
    exact List.forall_mem_cons.mpr ⟨by simpa using hold, ih h.2⟩

theorem sweep_sublist (old : α → Bool) (xs : List α) : (sweep old xs).Sublist xs := by
  have hdrop := List.dropWhile_sublist (p := old) (l := xs)
  unfold sweep
  cases hd : xs.dropWhile old with
  | nil => exact List.nil_sublist xs
  | cons x rest =>
    rw [hd] at hdrop
    exact ((sweep_rest_sublist old rest).cons_cons x).trans hdrop

/-- Nothing is left exactly if all were old. -/
theorem sweep_eq_nil : sweep old xs = [] ↔ ∀ x ∈ xs, old x = true := by
  unfold sweep
  rw [← List.dropWhile_eq_nil_iff]
  cases xs.dropWhile old <;> simp

theorem sweep_rest_none (h : ∀ x ∈ xs, old x = false) : sweepRest old xs = xs := by
  induction xs using sweepRest.induct old with
  | case1 => rfl
  | case2 x hold =>
    rw [h x (List.mem_singleton_self x)] at hold
    cases hold
  | case3 x hold => simp [sweepRest, hold]
  | case4 x y rest hold ih =>
    rw [h x (List.mem_cons_self ..)] at hold
    cases hold
  | case5 x y rest hold ih =>
    rw [sweepRest, if_neg hold, ih fun z hz => h z (List.mem_cons_of_mem x hz)]

/-- All are left if none was old. -/
theorem sweep_none (h : ∀ x ∈ xs, old x = false) : sweep old xs = xs := by
  cases xs with
  | nil => rfl
  | cons x rest =>
    have hx := h x (List.mem_cons_self ..)
    rw [sweep_cons, hx, if_neg Bool.false_ne_true,
      sweep_rest_none fun y hy => h y (List.mem_cons_of_mem x hy)]

end Sweep

section Inserted

variable {nodes : List (Addr × Station)} {beacon : DataBeacon} {free : Addr}

theorem store_sec_stations (bssid : Mac) (sec : U32) (nodes : List (Addr × Station)) :
    stations (storeSec bssid sec nodes) = stations nodes := by
  induction nodes with
  | nil => rfl
  | cons n rest ih =>
    rw [storeSec]
    split
    · rfl
    · exact congrArg (n.2.station :: ·) ih

theorem store_sec_counts (bssid : Mac) (sec : U32) (nodes : List (Addr × Station)) :
    (storeSec bssid sec nodes).map (fun n => n.2.count) = nodes.map fun n => n.2.count := by
  induction nodes with
  | nil => rfl
  | cons n rest ih =>
    rw [storeSec]
    split
    · rfl
    · exact congrArg (n.2.count :: ·) ih

theorem store_sec_mem {bssid : Mac} {sec : U32} {n : Addr × Station}
    (h : n ∈ storeSec bssid sec nodes) : n ∈ nodes ∨ (n.2.station, n.2.sec) = (bssid, sec) := by
  induction nodes with
  | nil => cases h
  | cons m rest ih =>
    rw [storeSec] at h
    split at h
    · rename_i hm
      rcases List.mem_cons.mp h with rfl | h
      · exact .inr (Prod.ext hm rfl)
      · exact .inl (List.mem_cons_of_mem m h)
    · rcases List.mem_cons.mp h with rfl | h
      · exact .inl (List.mem_cons_self ..)
      · exact (ih h).imp_left (List.mem_cons_of_mem m)

theorem append_counted_stations (bssid : Mac) (sec : U32) (nodes : List (Addr × Station)) :
    stations (appendCounted free bssid sec nodes) = stations nodes ++ [bssid] := by
  cases nodes <;> simp [appendCounted, stations]

/-- The beacon's BSSID comes on the list if it was not there. -/
theorem inserted_stations : stations (inserted free beacon nodes) =
    if beacon.bssid ∈ stations nodes then stations nodes
    else stations nodes ++ [beacon.bssid] := by
  rw [inserted]
  split
  · exact store_sec_stations ..
  · exact append_counted_stations ..

theorem inserted_distinct (h : (stations nodes).Nodup) :
    (stations (inserted free beacon nodes)).Nodup := by
  rw [inserted_stations]
  split
  · exact h
  · rename_i hnew
    exact List.nodup_append.mpr ⟨h, List.nodup_singleton _, fun b hb c hc heq =>
      hnew (List.mem_singleton.mp hc ▸ heq ▸ hb)⟩

theorem mem_inserted_stations {bssid : Mac} : bssid ∈ stations (inserted free beacon nodes) ↔
    bssid = beacon.bssid ∨ bssid ∈ stations nodes := by
  rw [inserted_stations]
  split
  · rename_i hknown
    constructor
    · exact .inr
    · rintro (rfl | hmem)
      · exact hknown
      · exact hmem
  · rw [List.mem_append, List.mem_singleton, or_comm]

/-- The head counts the nodes, from a list whose head is given. -/
theorem inserted_counted {n : Addr × Station} {rest : List (Addr × Station)} :
    (∀ m ∈ (inserted free beacon (n :: rest)).head?,
      m.2.count.toNat = (inserted free beacon (n :: rest)).length) ↔
    if beacon.bssid ∈ stations (n :: rest) then n.2.count.toNat = rest.length + 1
    else (n.2.count + 1).toNat = rest.length + 2 := by
  rw [inserted]
  split
  · have hcounts := store_sec_counts beacon.bssid beacon.sec (n :: rest)
    cases hstore : storeSec beacon.bssid beacon.sec (n :: rest) with
    | nil =>
      rw [hstore] at hcounts
      cases hcounts
    | cons m tail =>
      rw [hstore] at hcounts
      have hlength := congrArg List.length hcounts
      have hhead := (List.cons_eq_cons.mp hcounts).1
      simp only [List.map_cons, List.length_cons, List.length_map] at hlength
      simp only [List.head?_cons, Option.mem_some_iff, forall_eq', List.length_cons, hhead, hlength]
  · simp [appendCounted]

/-- Only the head counts. -/
theorem inserted_uncounted (h : ∀ n ∈ nodes.tail, n.2.count = 0) :
    ∀ n ∈ (inserted free beacon nodes).tail, n.2.count = 0 := by
  intro n hn
  rw [inserted] at hn
  split at hn
  · have hcounts := store_sec_counts beacon.bssid beacon.sec nodes
    have hmem := List.mem_map_of_mem (f := fun n : Addr × Station => n.2.count) hn
    rw [List.map_tail, hcounts, ← List.map_tail] at hmem
    obtain ⟨m, hm, heq⟩ := List.mem_map.mp hmem
    exact heq.symm.trans (h m hm)
  · cases nodes with
    | nil => cases hn
    | cons m rest =>
      rcases List.mem_append.mp hn with hn | hn
      · exact h n hn
      · rw [List.mem_singleton.mp hn]

/-- A node carries what one carried before, or what the beacon says. -/
theorem inserted_carries : ∀ n ∈ inserted free beacon nodes,
    (∃ m ∈ nodes, (m.2.station, m.2.sec) = (n.2.station, n.2.sec)) ∨
      (n.2.station, n.2.sec) = (beacon.bssid, beacon.sec) := by
  intro n hn
  rw [inserted] at hn
  split at hn
  · exact (store_sec_mem hn).imp_left fun hmem => ⟨n, hmem, rfl⟩
  · cases nodes with
    | nil =>
      rw [List.mem_singleton.mp hn]
      exact .inr rfl
    | cons m rest =>
      rcases List.mem_append.mp hn with hn | hn
      · rcases List.mem_cons.mp hn with rfl | hn
        · exact .inl ⟨m, List.mem_cons_self .., rfl⟩
        · exact .inl ⟨n, List.mem_cons_of_mem m hn, rfl⟩
      · rw [List.mem_singleton.mp hn]
        exact .inr rfl

end Inserted

section Step

variable {s : State} {nodes : List (Addr × Station)} {report : Report} {free : Addr}

theorem mem_stations_of_sublist {xs ys : List (Addr × Station)} (h : xs.Sublist ys) {bssid : Mac}
    (hmem : bssid ∈ stations xs) : bssid ∈ stations ys := (h.map _).subset hmem

theorem count_succ_iff {count : U32} {k : Nat} :
    (count + 1).toNat = k + 1 ↔ count.toNat = k ∧ k + 1 < 4294967296 := by
  bv_omega

/-- The head counts right only where the sweep leaves nothing or all. -/
theorem counted_iff {n : Addr × Station} {rest : List (Addr × Station)}
    (hcounted : n.2.count.toNat = rest.length + 1) (huncounted : ∀ m ∈ rest, m.2.count = 0) :
    (∀ m ∈ (heardNodes report free (n :: rest)).head?,
      m.2.count.toNat = (heardNodes report free (n :: rest)).length) ↔
    Together report (n :: rest) := by
  rw [heardNodes, if_neg (List.cons_ne_nil n rest), Together]
  by_cases hall : ∀ m ∈ n :: rest, outOfTime report.beacon.sec m.2 = true
  · rw [sweep_eq_nil.mpr hall]
    exact iff_of_true (by simp [inserted, stations, appendCounted]) (.inl hall)
  · rw [sweep_cons]
    cases hold : outOfTime report.beacon.sec n.2 with
    | true =>
      -- the new head was behind another and counts nothing
      rw [if_pos rfl]
      have hsub := sweep_sublist (fun m => outOfTime report.beacon.sec m.2) rest
      refine iff_of_false ?_ ?_
      · cases hswept : sweep (fun m => outOfTime report.beacon.sec m.2) rest with
        | nil =>
          refine absurd (fun m hm => ?_) hall
          rcases List.mem_cons.mp hm with rfl | hm
          · exact hold
          · exact sweep_eq_nil.mp hswept m hm
        | cons m tail =>
          rw [hswept] at hsub
          have hzero := huncounted m (hsub.subset (List.mem_cons_self ..))
          rw [inserted_counted, hzero]
          split <;> simp
      · rintro (h | ⟨h, -⟩)
        · exact hall h
        · have hfalse := h n (List.mem_cons_self ..)
          rw [hold] at hfalse
          cases hfalse
    | false =>
      rw [if_neg Bool.false_ne_true, inserted_counted]
      have hsub := sweep_rest_sublist (fun m => outOfTime report.beacon.sec m.2) rest
      have hlength : (sweepRest (fun m => outOfTime report.beacon.sec m.2) rest).length =
          rest.length → ∀ m ∈ n :: rest, outOfTime report.beacon.sec m.2 = false := fun heq =>
        List.forall_mem_cons.mpr ⟨hold, sweep_rest_eq_self (hsub.eq_of_length heq)⟩
      constructor
      · intro h
        refine .inr ?_
        split at h
        · rename_i hmem
          exact ⟨hlength (by omega), .inl (mem_stations_of_sublist (hsub.cons_cons n) hmem)⟩
        · obtain ⟨heq, hfit⟩ := count_succ_iff.mp h
          have hlen : (sweepRest (fun m => outOfTime report.beacon.sec m.2) rest).length =
              rest.length := by omega
          exact ⟨hlength hlen, .inr (by rwa [List.length_cons, ← hlen])⟩
      · rintro (h | ⟨hnone, hfit⟩)
        · exact absurd h hall
        · have hrest : sweepRest (fun m => outOfTime report.beacon.sec m.2) rest = rest :=
            sweep_rest_none fun m hm => hnone m (List.mem_cons_of_mem n hm)
          rw [hrest]
          split
          · exact hcounted
          · rename_i hnew
            exact count_succ_iff.mpr ⟨hcounted, hfit.resolve_left hnew⟩

theorem out_of_time_near {sec : U32} {x : Station} (h : outOfTime sec x = false) :
    sec.toNat ≤ x.sec.toNat + 10 := by
  have hnear : ¬ 10 < sec - x.sec := of_decide_eq_false h
  bv_omega

/-- What stays where the nodes go or stay together. -/
theorem mem_heard_stations (htogether : Together report nodes) (hne : nodes ≠ []) {bssid : Mac} :
    bssid ∈ stations (heardNodes report free nodes) ↔ bssid = report.beacon.bssid ∨
      ∃ n ∈ nodes, n.2.station = bssid ∧ outOfTime report.beacon.sec n.2 = false := by
  rw [heardNodes, if_neg hne, mem_inserted_stations]
  refine or_congr Iff.rfl ?_
  rcases htogether with hall | ⟨hnone, -⟩
  · rw [sweep_eq_nil.mpr hall]
    refine iff_of_false (by simp [stations]) ?_
    rintro ⟨n, hn, -, hfalse⟩
    rw [hall n hn] at hfalse
    cases hfalse
  · rw [sweep_none hnone, stations, List.mem_map]
    exact exists_congr fun n => and_congr_right fun hn => (and_iff_left (hnone n hn)).symm

/-- The BSSIDs on the list are those of what stays and the beacon's own. -/
theorem recent_iff (h : Kept s nodes) (htogether : Together report nodes) (hne : nodes ≠ []) :
    (∀ bssid, bssid ∈ stations (heardNodes report free nodes) ↔
      Recent (s.heard ++ [(report.beacon.bssid, report.beacon.sec)]) report.beacon.sec bssid) ↔
    ∀ bssid, Recent s.heard report.beacon.sec bssid → bssid = report.beacon.bssid ∨
      ∃ n ∈ nodes, n.2.station = bssid ∧ outOfTime report.beacon.sec n.2 = false := by
  refine forall_congr' fun bssid => ?_
  rw [mem_heard_stations htogether hne]
  constructor
  · rintro hiff ⟨x, hx, hb, hsec⟩
    exact hiff.mpr ⟨x, List.mem_append_left _ hx, hb, hsec⟩
  · refine fun hrecent => ⟨?_, ?_⟩
    · rintro (rfl | ⟨n, hn, rfl, hstays⟩)
      · exact ⟨_, List.mem_append_right _ (List.mem_singleton_self _), rfl, Nat.le_add_right _ _⟩
      · exact ⟨_, List.mem_append_left _ (h.known n hn), rfl, out_of_time_near hstays⟩
    · rintro ⟨x, hx, hb, hsec⟩
      rcases List.mem_append.mp hx with hx | hx
      · exact hrecent ⟨x, hx, hb, hsec⟩
      · rw [List.mem_singleton.mp hx] at hb
        exact .inl hb.symm

theorem heard_distinct (h : (stations nodes).Nodup) :
    (stations (heardNodes report free nodes)).Nodup := by
  rw [heardNodes]
  split
  · exact List.nodup_singleton _
  · exact inserted_distinct (h.sublist ((sweep_sublist _ nodes).map _))

theorem heard_nodes_ne_nil : heardNodes report free nodes ≠ [] := by
  intro hnil
  have hmem : report.beacon.bssid ∈ stations (heardNodes report free nodes) ∨ nodes = [] := by
    by_cases hne : nodes = []
    · exact .inr hne
    · rw [heardNodes, if_neg hne]
      exact .inl (mem_inserted_stations.mpr (.inl rfl))
  rcases hmem with hmem | rfl
  · rw [hnil] at hmem
    cases hmem
  · cases hnil

theorem Kept.step {t : State} (h : Kept s nodes)
    (hfirst : nodes = [] → report.mac = report.beacon.bssid)
    (htogether : nodes ≠ [] → Together report nodes)
    (hheard : t.heard = s.heard ++ [(report.beacon.bssid, report.beacon.sec)])
    (hholds : t.neibourLists.Holds (heardNodes report free nodes)) :
    Kept t (heardNodes report free nodes) := by
  have hlast : (report.beacon.bssid, report.beacon.sec) ∈ t.heard := by simp [hheard]
  have hswept := sweep_sublist (fun n => outOfTime report.beacon.sec n.2) nodes
  refine ⟨hholds, heard_distinct h.distinct, ?_, ?_, ?_, fun hnil => absurd hnil heard_nodes_ne_nil⟩
  · cases nodes with
    | nil => simp [heardNodes]
    | cons n rest =>
      exact (counted_iff (h.counted n rfl) h.uncounted).mpr (htogether (List.cons_ne_nil n rest))
  · rw [heardNodes]
    split
    · simp
    · exact inserted_uncounted fun n hn => h.uncounted n (hswept.tail.subset hn)
  · intro n hn
    rw [heardNodes] at hn
    split at hn
    · rename_i hnil
      rw [List.mem_singleton.mp hn, hfirst hnil]
      exact hlast
    · rcases inserted_carries n hn with ⟨m, hm, heq⟩ | heq
      · rw [← heq, hheard]
        exact List.mem_append_left _ (h.known m (hswept.subset hm))
      · rw [heq]
        exact hlast

/-- The list is exact after a beacon exactly if the beacon renews it. -/
theorem leaves_exact_iff (malloc : Malloc Station) (h : Kept s nodes) (report : Report) :
    LeavesExact s report (decodeBeacon malloc s report) ↔ Renews s report := by
  obtain ⟨t, free, hrun, hheard, hholds⟩ := decode_beacon_runs malloc report h.holds
  have hrenews : Renews s report ↔ (nodes = [] → report.mac = report.beacon.bssid) ∧
      (nodes ≠ [] → Together report nodes ∧
        ∀ bssid, Recent s.heard report.beacon.sec bssid → bssid = report.beacon.bssid ∨
          ∃ n ∈ nodes, n.2.station = bssid ∧ outOfTime report.beacon.sec n.2 = false) := by
    refine ⟨fun hr => hr nodes h.holds, fun hr nodes' hholds' => ?_⟩
    obtain rfl := h.holds.chain.unique hholds'.chain
    exact hr
  rw [hrenews]
  constructor
  · rintro ⟨t', nodes', ht', hexact⟩
    obtain rfl := Except.ok.inj (hrun.symm.trans ht')
    obtain rfl := hholds.chain.unique hexact.holds.chain
    refine ⟨?_, fun hne => ?_⟩
    · rintro rfl
      have hown := (hexact.recent report.mac).mp (by simp [heardNodes, stations])
      rw [hheard, h.silent rfl] at hown
      obtain ⟨x, hx, hb, -⟩ := hown
      rw [List.mem_singleton.mp hx] at hb
      exact hb.symm
    · obtain ⟨n, rest, rfl⟩ := List.exists_cons_of_ne_nil hne
      have htogether := (counted_iff (h.counted n rfl) h.uncounted).mp hexact.counted
      exact ⟨htogether, (recent_iff h htogether hne).mp (hheard ▸ hexact.recent)⟩
  · rintro ⟨hfirst, hlater⟩
    have hkept := h.step hfirst (fun hne => (hlater hne).1) hheard hholds
    refine ⟨t, _, hrun, hholds, hkept.distinct, ?_, hkept.counted⟩
    rw [hheard]
    by_cases hne : nodes = []
    · subst hne
      rw [h.silent rfl, heardNodes, if_pos rfl, hfirst rfl]
      intro bssid
      simp [stations, Recent, eq_comm]
    · exact (recent_iff h (hlater hne).1 hne).mpr (hlater hne).2

end Step

theorem kept_start : Kept start [] :=
  ⟨⟨.nil none, rfl⟩, .nil, by simp, by simp, by simp, fun _ => rfl⟩

/-- In every run the list stays that of the recent BSSIDs, counted by its head,
exactly if each beacon renews it. -/
theorem recent_neibours_iff (malloc : Malloc Station) (reports : List Report) :
    (machine malloc).Throughout LeavesExact (machine malloc).start reports ↔
    (machine malloc).Throughout (fun s report _ => Renews s report) (machine malloc).start
      reports := by
  refine Machine.throughout_iff (fun s => ∃ nodes, Kept s nodes) ?_ ?_ ⟨[], kept_start⟩ reports
  · rintro s report ⟨nodes, hs⟩ -
    exact leaves_exact_iff malloc hs report
  · rintro s report t ⟨nodes, hs⟩ - hrenews hrun
    obtain ⟨t', free, hrun', hheard, hholds⟩ := decode_beacon_runs malloc report hs.holds
    obtain rfl := Except.ok.inj (hrun.symm.trans hrun')
    obtain ⟨hfirst, hlater⟩ := hrenews nodes hs.holds
    exact ⟨_, hs.step hfirst (fun hne => (hlater hne).1) hheard hholds⟩

/-- AP 1 hears AP 2 at second 100. -/
def firstReport : Report :=
  ⟨⟨0, 0, 0, 0, 0, 1⟩, ⟨100, 0, 0, 2412, 0, 0, 0, ⟨0, 0, 0, 0, 0, 2⟩, 0⟩⟩

/-- The first node carries the AP that reports and not the one it heard. -/
theorem first_stores_reporter : ¬ ∀ reports, (machine Malloc.bump).Throughout LeavesExact
    (machine Malloc.bump).start reports := by
  intro h
  obtain ⟨hgood, -⟩ := h [firstReport] trivial
  have hmac :=
    ((leaves_exact_iff Malloc.bump kept_start firstReport).mp hgood [] kept_start.holds).1
    rfl
  exact absurd hmac (by decide)

end ApTelemetry.Receiver.Neibours
