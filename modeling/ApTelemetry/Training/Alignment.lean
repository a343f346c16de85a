import ApTelemetry.Training.Rows

namespace ApTelemetry.Training
open Lib

namespace Loop

variable {α F : Type} {l : Loop α F} {s : Filing α F} {t : Table F} {xs : List α}

/-- What the groups closed by their successors leave behind. -/
def fileAll (l : Loop α F) (t : Table F) (closed : List (Int × List α)) : Filing α F :=
  closed.foldl (fun s c => l.file s c.1 c.2) ⟨t, []⟩

/-- The loop files each group when the key changes, under the new key. -/
theorem run_groups (l : Loop α F) (t : Table F) (xs : List α) :
    let g := Grouping.run l.key (-1) xs
    l.run t xs = ⟨g.current, g.members, l.fileAll t g.closed⟩ := by
  induction xs using List.reverseRecOn with
  | nil => rfl
  | append_singleton done x ih =>
    simp only [run, Grouping.run, List.foldl_append, List.foldl_cons, List.foldl_nil] at ih ⊢
    rw [ih]
    generalize done.foldl (Grouping.add l.key) (Grouping.start (-1)) = g
    by_cases h : g.current = l.key x
    · simp [step, Grouping.add, h]
    · simp [step, Grouping.add, h, fileAll]

theorem file_none {time : Int} {lastList : List α} (h : s.table time = none) :
    l.file s time lastList = s := by
  rw [file, h]
  cases l.values lastList <;> rfl

theorem file_no_values {time : Int} {lastList : List α} (h : l.values lastList = none) :
    l.file s time lastList = s := by
  rw [file, h]

theorem file_table_none (k : Int) (time : Int) (lastList : List α) :
    (l.file s time lastList).table k = none ↔ s.table k = none := by
  unfold file
  split
  · rename_i z row _ hrow
    split
    · by_cases h : k = time
      · subst h
        simp [hrow]
      · simp [Function.update_of_ne h]
    · rfl
  · rfl

theorem file_some {time : Int} {lastList : List α} {z row : Row F}
    (hz : l.values lastList = some z) (hrow : s.table time = some row)
    (haccepts : l.accepts row.length = true) : l.file s time lastList =
      ⟨Function.update s.table time (some (row ++ z)), s.filed ++ [⟨time, lastList⟩]⟩ := by
  simp only [file, hz, hrow, haccepts, if_true]

/-- Where no row is, nothing is filed. -/
theorem file_all_none (h : ∀ k, t k = none) (closed : List (Int × List α)) :
    l.fileAll t closed = ⟨t, []⟩ := by
  induction closed using List.reverseRecOn with
  | nil => rfl
  | append_singleton closed c ih =>
    rw [fileAll, List.foldl_append, ← fileAll, ih]
    exact file_none (h c.1)

theorem file_all_table_none (k : Int) (closed : List (Int × List α)) :
    (l.fileAll t closed).table k = none ↔ t k = none := by
  induction closed using List.reverseRecOn with
  | nil => rfl
  | append_singleton closed c ih =>
    rw [fileAll, List.foldl_append, ← fileAll]
    exact (file_table_none k c.1 c.2).trans ih

/-- Where a row of any length is taken, a group is filed if it has values and its
successor a row. -/
theorem mem_filed (hall : ∀ n, l.accepts n = true) {closed : List (Int × List α)} {e : Entry α} :
    e ∈ (l.fileAll t closed).filed ↔
      (e.key, e.samples) ∈ closed ∧ (l.values e.samples).isSome ∧ t e.key ≠ none := by
  induction closed using List.reverseRecOn with
  | nil => simp [fileAll]
  | append_singleton closed c ih =>
    have hpresent := file_all_table_none (l := l) (t := t) c.1 closed
    rw [fileAll, List.foldl_append, ← fileAll]
    simp only [List.foldl_cons, List.foldl_nil, List.mem_append, List.mem_singleton]
    generalize l.fileAll t closed = s at ih hpresent
    cases hv : l.values c.2 with
    | none =>
      rw [file_no_values hv, ih, or_and_right]
      refine (or_iff_left ?_).symm
      rintro ⟨rfl, hsome, -⟩
      simp [hv] at hsome
    | some z =>
      cases ht : s.table c.1 with
      | none =>
        rw [file_none ht, ih, or_and_right]
        refine (or_iff_left ?_).symm
        rintro ⟨rfl, -, hrow⟩
        exact hrow (hpresent.mp ht)
      | some row =>
        have hrow : t c.1 ≠ none := fun h => by simp [hpresent.mpr h] at ht
        rw [file_some hv ht (hall _), List.mem_append, ih, List.mem_singleton, or_and_right]
        refine or_congr Iff.rfl ⟨?_, ?_⟩
        · rintro rfl
          exact ⟨rfl, by simp [hv], hrow⟩
        · rintro ⟨rfl, -⟩
          rfl

/-- What was appended to the row of a key: the values of the samples filed under it. -/
def appended (l : Loop α F) (filed : List (Entry α)) (k : Int) : Row F :=
  (filed.filter fun e => e.key = k).flatMap fun e => (l.values e.samples).getD []

theorem file_appended {k : Int} (h : s.table k = (t k).map (· ++ l.appended s.filed k))
    (time : Int) (lastList : List α) : (l.file s time lastList).table k =
      (t k).map (· ++ l.appended (l.file s time lastList).filed k) := by
  unfold file
  split
  · rename_i z row hz hrow
    split
    · by_cases hk : k = time
      · subst hk
        cases ht : t k with
        | none => simp [h, ht] at hrow
        | some old =>
          simp only [h, ht, Option.map_some, Option.some.injEq] at hrow
          simp [appended, List.filter_append, hz, ← hrow, List.append_assoc]
      · simpa [appended, List.filter_append, Function.update_of_ne hk, Ne.symm hk] using h
    · exact h
  · exact h

/-- The rows hold what they held and the values of the samples filed under them. -/
theorem run_table (l : Loop α F) (t : Table F) (xs : List α) (k : Int) :
    (l.run t xs).out.table k = (t k).map (· ++ l.appended (l.run t xs).out.filed k) := by
  rw [run_groups]
  generalize (Grouping.run l.key (-1) xs).closed = closed
  change (l.fileAll t closed).table k = (t k).map (· ++ l.appended (l.fileAll t closed).filed k)
  induction closed using List.reverseRecOn with
  | nil => simp [fileAll, appended]
  | append_singleton closed c ih =>
    rw [fileAll, List.foldl_append, ← fileAll]
    exact file_appended ih c.1 c.2

theorem run_mem_filed (hall : ∀ n, l.accepts n = true) (hnil : l.values [] = none)
    (hs : xs.Pairwise fun x y => l.key x ≤ l.key y) {e : Entry α} :
    e ∈ (l.run t xs).out.filed ↔ (∃ k, Next l.key xs k e.key ∧ e.samples = group l.key xs k) ∧
      (l.values e.samples).isSome ∧ t e.key ≠ none := by
  rw [run_groups]
  change e ∈ (l.fileAll t (Grouping.run l.key (-1) xs).closed).filed ↔ _
  rw [mem_filed hall]
  have hcovers := Grouping.run_covers (-1) hs
  constructor
  · rintro ⟨hclosed, hsome, hrow⟩
    have hne : e.samples ≠ [] := fun h => by simp [h, hnil] at hsome
    exact ⟨(hcovers.closed e.key e.samples hne).mp hclosed, hsome, hrow⟩
  · rintro ⟨hgroup, hsome, hrow⟩
    have hne : e.samples ≠ [] := fun h => by simp [h, hnil] at hsome
    exact ⟨(hcovers.closed e.key e.samples hne).mpr hgroup, hsome, hrow⟩

theorem run_empty (h : ∀ k, t k = none) : (l.run t xs).out = ⟨t, []⟩ := by
  rw [run_groups]
  exact file_all_none h _

/-- Each value appended to a row comes from samples of the row's own second, and each
second that has a row and the samples it takes has its values appended. -/
structure Aligned (l : Loop α F) (t : Table F) (xs : List α) : Prop where
  own : ∀ e ∈ (l.run t xs).out.filed, ∀ x ∈ e.samples, second (l.time x) = e.key
  complete : ∀ k row, t k = some row → l.accepts row.length = true →
    group l.key xs k ≠ [] → (l.values (group l.key xs k)).isSome →
    ∃ e ∈ (l.run t xs).out.filed, e.key = k ∧ e.samples = group l.key xs k

theorem aligned_empty (h : ∀ k, t k = none) : l.Aligned t xs where
  own e he := by simp [run_empty h] at he
  complete k row hrow := by simp [h k] at hrow

/-- A group is filed under the next key only, so a loop that takes every row is
aligned where it has nothing to file. -/
theorem loop_aligned_iff (hall : ∀ n, l.accepts n = true) (hnil : l.values [] = none)
    (hs : xs.Pairwise fun x y => l.key x ≤ l.key y) : l.Aligned t xs ↔
      (∀ k, (l.values (group l.key xs k)).isSome → t k = none) ∧
      ∀ k k', Next l.key xs k k' → (l.values (group l.key xs k)).isSome → t k' = none := by
  constructor
  · intro h
    refine ⟨fun k hk => ?_, fun k k' hn hk => ?_⟩
    · by_contra hrow
      obtain ⟨row, hrow⟩ := Option.ne_none_iff_exists'.mp hrow
      have hne : group l.key xs k ≠ [] := fun he => by simp [he, hnil] at hk
      obtain ⟨e, he, hkey, hsamples⟩ := h.complete k row hrow (hall _) hne hk
      obtain ⟨⟨j, hj, hfiled⟩, -⟩ := (run_mem_filed hall hnil hs).mp he
      obtain ⟨x, hx⟩ := List.exists_mem_of_ne_nil _ hj.group_ne_nil
      have hown := h.own e he x (hfiled ▸ hx)
      exact absurd ((mem_group.mp hx).2.symm.trans hown) hj.lt.ne
    · by_contra hrow
      have he : (⟨k', group l.key xs k⟩ : Entry α) ∈ (l.run t xs).out.filed :=
        (run_mem_filed hall hnil hs).mpr ⟨⟨k, hn, rfl⟩, hk, hrow⟩
      obtain ⟨x, hx⟩ := List.exists_mem_of_ne_nil _ hn.group_ne_nil
      exact absurd ((mem_group.mp hx).2.symm.trans (h.own _ he x hx)) hn.lt.ne
  · rintro ⟨hown, hnext⟩
    refine ⟨fun e he => ?_, fun k row hrow _ _ hk => ?_⟩
    · obtain ⟨⟨k, hk, hsamples⟩, hsome, hrow⟩ := (run_mem_filed hall hnil hs).mp he
      exact absurd (hnext k e.key hk (hsamples ▸ hsome)) hrow
    · simp [hown k hk] at hrow

end Loop

section Sorted

theorem sorted_by_pairwise {α κ : Type} [LinearOrder κ] (key : α → κ) (xs : List α) :
    (sortedBy key xs).Pairwise fun x y => key x ≤ key y :=
  have : Std.Total fun x y => key x ≤ key y := ⟨fun x y => le_total (key x) (key y)⟩
  have : IsTrans α fun x y => key x ≤ key y := ⟨fun _ _ _ => le_trans⟩
  List.pairwise_insertionSort _ xs

theorem second_mono {s t : Int} (h : s ≤ t) : second s ≤ second t :=
  Int.ediv_le_ediv (by decide) h

theorem Iw.time_le {x y : Iw} (h : x.key ≤ y.key) : x.time ≤ y.time := by
  rcases Prod.Lex.toLex_le_toLex.mp h with h | h
  · exact h.le
  · exact h.1.le

end Sorted

section Script

variable {F : Type} {a : Arith F} {i : Input F} {lastList : List Iw}

/-- The minimum conditions on the iw samples of a second: more than one, taken over
some time, in which the channel was active. -/
def Meets (lastList : List Iw) : Prop :=
  ∃ b e, ends (sortedBy Iw.key lastList) = some (b, e) ∧ e.time - b.time > 0 ∧
    e.activeTime - b.activeTime > 0

theorem iw_values_some : (iwValues a lastList).isSome ↔ Meets lastList := by
  unfold iwValues Meets
  cases h : ends (sortedBy Iw.key lastList) with
  | none => simp [h]
  | some p =>
    obtain ⟨b, e⟩ := p
    simp only [h, Option.bind_some, Option.some.injEq, Prod.mk.injEq]
    split
    · rename_i hpos
      exact ⟨fun _ => ⟨b, e, ⟨rfl, rfl⟩, hpos⟩, fun _ => rfl⟩
    · rename_i hpos
      constructor
      · simp
      · rintro ⟨b', e', ⟨rfl, rfl⟩, h'⟩
        exact absurd h' hpos

theorem iw_values_nil (a : Arith F) : iwValues a [] = none := rfl

theorem ratio_rows (ratios : List (Int × F)) (t : Table F)
    (h : ∀ k row, t k = some row → row.length = 1) :
    ∀ k row, ratios.foldl setRatio t k = some row → row.length = 1 := by
  induction ratios generalizing t with
  | nil => exact h
  | cons r ratios ih =>
    refine ih _ fun k row hrow => ?_
    by_cases hk : k = r.1
    · subst hk
      rw [setRatio, Function.update_self] at hrow
      rw [← Option.some.inj hrow]
      rfl
    · rw [setRatio, Function.update_of_ne hk] at hrow
      exact h k row hrow

theorem Input.table_rows {k : Int} {row : Row F} (h : i.table k = some row) : row.length = 1 :=
  ratio_rows i.ratios _ (fun _ _ h => by simp at h) k row h

theorem Input.iw_sorted (a : Arith F) (i : Input F) :
    i.iwR.Pairwise fun x y => (iwLoop a).key x ≤ (iwLoop a).key y :=
  (sorted_by_pairwise Iw.key _).imp fun h => second_mono (Iw.time_le h)

/-- All three loops file what they compute under the second it is from, and all of it. -/
structure Input.Aligned (a : Arith F) (i : Input F) : Prop where
  iw : (iwLoop a).Aligned i.table i.iwR
  queue : (queueLoop a).Aligned (i.quTable a) i.quR
  beacon : beaconLoop.Aligned (i.beTable a) i.beR

/-- No second with enough iw samples has a row, nor has the second of the iw samples
that come right after it. -/
structure Input.Idle (i : Input F) : Prop where
  own : ∀ k, Meets (group (fun x => second x.time) i.iwR k) → i.table k = none
  next : ∀ k k', Next (fun x : Iw => second x.time) i.iwR k k' →
    Meets (group (fun x => second x.time) i.iwR k) → i.table k' = none

theorem Input.iw_aligned_iff (a : Arith F) : (iwLoop a).Aligned i.table i.iwR ↔ i.Idle := by
  rw [Loop.loop_aligned_iff (fun _ => rfl) (iw_values_nil a) (Input.iw_sorted a i)]
  constructor
  · rintro ⟨hown, hnext⟩
    exact ⟨fun k hk => hown k (iw_values_some.mpr hk),
      fun k k' hn hk => hnext k k' hn (iw_values_some.mpr hk)⟩
  · rintro ⟨hown, hnext⟩
    exact ⟨fun k hk => hown k (iw_values_some.mp hk),
      fun k k' hn hk => hnext k k' hn (iw_values_some.mp hk)⟩

/-- Where nothing is filed, every row stays at its ratio, and none is kept. -/
theorem Input.Idle.qu_table (a : Arith F) (h : i.Idle) (k : Int) : i.quTable a k = none := by
  have hfiled : (i.iwPass a).filed = [] := by
    refine List.eq_nil_iff_forall_not_mem.mpr fun e he => ?_
    obtain ⟨⟨k, hk, hsamples⟩, hsome, hrow⟩ :=
      (Loop.run_mem_filed (fun _ => rfl) (iw_values_nil a) (Input.iw_sorted a i)).mp he
    exact hrow (h.next k e.key hk (iw_values_some.mp (hsamples ▸ hsome)))
  have htable : (i.iwPass a).table k = (i.table k).map (· ++ []) := by
    have hrun := Loop.run_table (iwLoop a) i.table i.iwR k
    rw [Input.iwPass] at hfiled
    rw [hfiled] at hrun
    exact hrun
  rw [Input.quTable, keep, htable]
  cases hrow : i.table k with
  | none => rfl
  | some row => simp [Input.table_rows hrow]

theorem Input.Idle.be_table (a : Arith F) (h : i.Idle) (k : Int) : i.beTable a k = none := by
  rw [Input.beTable, keep, Input.quPass, Loop.run_empty (h.qu_table a)]
  simp [h.qu_table a k]

/-- Then no row comes out of the script. -/
theorem Input.Idle.no_rows (a : Arith F) (h : i.Idle) (k : Int) : i.rows a k = none := by
  rw [Input.rows, keep, Input.bePass, Loop.run_empty (h.be_table a)]
  simp [h.be_table a k]

/-- Each loop files the samples of one second under the next one and leaves out the
last second, so its rows are right only where nothing is to be filed. -/
theorem Input.aligned_iff (a : Arith F) (i : Input F) : i.Aligned a ↔ i.Idle := by
  constructor
  · intro h
    exact (Input.iw_aligned_iff a).mp h.iw
  · intro h
    exact ⟨(Input.iw_aligned_iff a).mpr h, Loop.aligned_empty (h.qu_table a),
      Loop.aligned_empty (h.be_table a)⟩

end Script

/-- Exact shares in units of a ten-thousandth. -/
def tenThousandths : Arith Int := ⟨fun n d => n * 10000 / d, fun _ _ _ => 0⟩

/-- Two samples in the first second and one in the next, and a row for both. -/
def twoSeconds : Input Int where
  ratios := [(1, 0), (2, 0)]
  iw := [⟨"1000".toList, "a".toList, 0, 0, 0, 0⟩, ⟨"1900".toList, "a".toList, 900, 450, 0, 0⟩,
    ⟨"2100".toList, "b".toList, 1100, 500, 0, 0⟩]
  queue := []
  beacon := []

/-- What the first second measured stands in the row of the second one. -/
theorem row_of_next_second : ¬ twoSeconds.Aligned tenThousandths := by
  intro h
  have hown := h.iw.own
    ⟨2, [⟨1000, "a".toList, 0, 0, 0, 0⟩, ⟨1900, "a".toList, 900, 450, 0, 0⟩]⟩ (by decide)
    ⟨1000, "a".toList, 0, 0, 0, 0⟩ (by decide)
  exact absurd hown (by decide)

end ApTelemetry.Training
