import ApTelemetry.Lib.Sequence
import ApTelemetry.Training.Alignment

namespace ApTelemetry.Compute
open Lib
open Training (sortedBy sorted_by_pairwise)

def ratio : Int := 1000

/-- A row of the winsize file, as far as it is used. -/
structure WinsizeRow where
  time : Int
  datalength : Int

/-- The times of the data packets. The first line of the file is skipped. -/
def dataTimes (rows : List WinsizeRow) : List Int :=
  ((rows.drop 1).filter fun i => i.datalength ≠ 0).map WinsizeRow.time

def timeList (rows : List WinsizeRow) : List (Int × Int) := (dataTimes rows).map fun t => (t, 0)

def retransList (times : List Int) : List (Int × Int) := times.map fun t => (t, 1)

def timesandretrans (rows : List WinsizeRow) (times : List Int) : List (Int × Int) :=
  sortedBy toLex (retransList times ++ timeList rows)

/-- An entry of `data_list`. -/
structure Bucket where
  start : Int
  packets : Nat
  retrans : Nat
  deriving DecidableEq

def minTime (xs : List (Int × Int)) : Except Fault Int := do
  let first ← item xs 0
  return first.1 - first.1 % ratio

def maxTime (xs : List (Int × Int)) : Except Fault Int := do
  let last ← item xs (xs.length - 1)
  return last.1 - last.1 % ratio + ratio

def sizeoflist (minTime maxTime : Int) : Int := maxTime / ratio - minTime / ratio

/-- `tm`, the index of a time. -/
def index (minTime time : Int) : Int := (time - minTime) / ratio

def count (minTime : Int) (dataList : List Bucket) (i : Int × Int) :
    Except Fault (List Bucket) := do
  let tm ← place dataList.length (index minTime i.1)
  let old ← load dataList tm
  let marked := { old with start := i.1 - i.1 % ratio }
  save dataList tm <|
    if i.2 = 0 then { marked with packets := marked.packets + 1 }
    else { marked with retrans := marked.retrans + 1 }

/-- The rows written to the timesretrans file. -/
def timesretrans (rows : List WinsizeRow) (times : List Int) : Except Fault (List Bucket) := do
  let xs := timesandretrans rows times
  let low ← minTime xs
  let high ← maxTime xs
  let dataList ← xs.foldlM (count low) (List.replicate (sizeoflist low high).toNat ⟨0, 0, 0⟩)
  return dataList.filter fun i => i.start ≠ 0

/-- What the entry of index `k` holds once the items `done` are counted. -/
def bucketOf (low : Int) (done : List (Int × Int)) (k : Nat) : Bucket where
  start := if ∃ x ∈ done, index low x.1 = k then low + k * ratio else 0
  packets := done.countP fun x => decide (x.2 = 0) && decide (index low x.1 = k)
  retrans := done.countP fun x => decide (x.2 ≠ 0) && decide (index low x.1 = k)

section Counting

variable {low : Int} {n : Nat}

theorem bucket_of_nil (low : Int) (n : Nat) :
    (List.range n).map (bucketOf low []) = List.replicate n ⟨0, 0, 0⟩ := by
  refine List.eq_replicate_iff.mpr ⟨by simp, ?_⟩
  intro b hb
  obtain ⟨k, -, rfl⟩ := List.mem_map.mp hb
  simp [bucketOf]

theorem bucket_of_other (done : List (Int × Int)) {i : Int × Int} {k : Nat}
    (h : index low i.1 ≠ k) : bucketOf low (done ++ [i]) k = bucketOf low done k := by
  have hseen : (∃ x ∈ done ++ [i], index low x.1 = k) ↔ ∃ x ∈ done, index low x.1 = k := by
    constructor
    · rintro ⟨x, hx, hxk⟩
      rcases List.mem_append.mp hx with hx | hx
      · exact ⟨x, hx, hxk⟩
      · exact absurd (List.mem_singleton.mp hx ▸ hxk) h
    · exact fun ⟨x, hx, hxk⟩ => ⟨x, List.mem_append_left _ hx, hxk⟩
  simp only [bucketOf, hseen]
  simp [h]

/-- The start of the bucket a time falls into. -/
theorem round_down (hlow : ratio ∣ low) {t : Int} {k : Nat} (h : index low t = k) :
    t - t % ratio = low + k * ratio := by
  obtain ⟨a, rfl⟩ := hlow
  simp only [index, ratio] at h ⊢
  omega

theorem count_step (hlow : ratio ∣ low) (done : List (Int × Int)) {i : Int × Int} {k : Nat}
    (hk : index low i.1 = k) (hn : k < n) :
    count low ((List.range n).map (bucketOf low done)) i =
      .ok ((List.range n).map (bucketOf low (done ++ [i]))) := by
  have hlen : ((List.range n).map (bucketOf low done)).length = n := by simp
  have hplace : place ((List.range n).map (bucketOf low done)).length (index low i.1) = .ok k := by
    rw [hk, hlen, place_nat hn]
  have hold : load ((List.range n).map (bucketOf low done)) k = .ok (bucketOf low done k) :=
    load_ok_iff.mpr (by simp [hn])
  rw [count, hplace]
  change (load _ k >>= fun old => _) = _
  rw [hold]
  change save _ k _ = _
  rw [save_lt (hlen.symm ▸ hn), round_down hlow hk]
  congr 1
  apply List.ext_getElem
  · simp
  · intro j hj _
    have hjn : j < n := by simpa using hj
    rw [List.getElem_set, List.getElem_map, List.getElem_map, List.getElem_range]
    by_cases hkj : k = j
    · subst hkj
      rw [if_pos rfl]
      by_cases hsign : i.2 = 0 <;> simp [bucketOf, hk, hsign]
    · rw [if_neg hkj, bucket_of_other done (by omega)]

theorem count_run (hlow : ratio ∣ low) (done xs : List (Int × Int))
    (hin : ∀ x ∈ xs, 0 ≤ index low x.1 ∧ index low x.1 < n) :
    xs.foldlM (count low) ((List.range n).map (bucketOf low done)) =
      .ok ((List.range n).map (bucketOf low (done ++ xs))) := by
  induction xs generalizing done with
  | nil => simp [pure, Except.pure]
  | cons i xs ih =>
    obtain ⟨hpos, hlt⟩ := hin i List.mem_cons_self
    obtain ⟨k, hk⟩ := Int.eq_ofNat_of_zero_le hpos
    have hnext := ih (done ++ [i]) fun x hx => hin x (List.mem_cons_of_mem i hx)
    rw [List.append_assoc, List.singleton_append] at hnext
    rw [List.foldlM_cons, count_step hlow done hk (by omega)]
    exact hnext

end Counting

section Items

variable (rows : List WinsizeRow) (times : List Int)

theorem items_perm :
    (timesandretrans rows times).Perm (retransList times ++ timeList rows) :=
  List.perm_insertionSort _ _

theorem items_sorted : (timesandretrans rows times).Pairwise fun x y => x.1 ≤ y.1 := by
  refine (sorted_by_pairwise toLex _).imp ?_
  intro x y h
  rcases Prod.Lex.toLex_le_toLex.mp h with hlt | ⟨heq, -⟩
  · exact le_of_lt hlt
  · exact le_of_eq heq

theorem items_time {x : Int × Int} (h : x ∈ timesandretrans rows times) :
    x.1 ∈ dataTimes rows ++ times := by
  rcases List.mem_append.mp ((items_perm rows times).mem_iff.mp h) with hx | hx
  · obtain ⟨t, ht, rfl⟩ := List.mem_map.mp hx
    exact List.mem_append_right _ ht
  · obtain ⟨t, ht, rfl⟩ := List.mem_map.mp hx
    exact List.mem_append_left _ ht

theorem time_item {t : Int} (h : t ∈ dataTimes rows ++ times) :
    ∃ x ∈ timesandretrans rows times, x.1 = t := by
  rcases List.mem_append.mp h with ht | ht
  · exact ⟨(t, 0), (items_perm rows times).mem_iff.mpr
      (List.mem_append_right _ (List.mem_map_of_mem ht)), rfl⟩
  · exact ⟨(t, 1), (items_perm rows times).mem_iff.mpr
      (List.mem_append_left _ (List.mem_map_of_mem ht)), rfl⟩

theorem count_packets (p : Int → Bool) :
    (timesandretrans rows times).countP (fun x => decide (x.2 = 0) && p x.1) =
      (dataTimes rows).countP p := by
  rw [(items_perm rows times).countP_eq, List.countP_append, retransList, timeList,
    List.countP_map, List.countP_map]
  simp [Function.comp_def]

theorem count_retrans (p : Int → Bool) :
    (timesandretrans rows times).countP (fun x => decide (x.2 ≠ 0) && p x.1) =
      times.countP p := by
  rw [(items_perm rows times).countP_eq, List.countP_append, retransList, timeList,
    List.countP_map, List.countP_map]
  simp [Function.comp_def]

end Items

/-- The range of a sorted list of times, rounded outwards to whole buckets. -/
theorem window {xs : List (Int × Int)} (hne : xs ≠ [])
    (hs : xs.Pairwise fun x y => x.1 ≤ y.1) :
    ∃ low high, minTime xs = .ok low ∧ maxTime xs = .ok high ∧ ratio ∣ low ∧ ratio ∣ high ∧
      (∃ x ∈ xs, low = x.1 - x.1 % ratio) ∧ ∀ x ∈ xs, low ≤ x.1 ∧ x.1 < high := by
  have hlen : 0 < xs.length := List.length_pos_iff.mpr hne
  have hend : xs.length - 1 < xs.length := Nat.sub_lt hlen Nat.one_pos
  have hfirst : item xs 0 = .ok xs[0] := item_nat hlen
  have hlast : item xs (xs.length - 1) = .ok xs[xs.length - 1] := by
    rw [← item_nat hend]
    congr 1
    omega
  refine ⟨_, _, by rw [minTime, hfirst]; rfl, by rw [maxTime, hlast]; rfl, ?_, ?_,
    ⟨xs[0], List.getElem_mem hlen, rfl⟩, ?_⟩
  · simp only [ratio]
    omega
  · simp only [ratio]
    omega
  · intro x hx
    obtain ⟨i, hi, rfl⟩ := List.getElem_of_mem hx
    have hlower := key_le hs hi (Nat.zero_le i)
    have hupper := key_le hs hend (Nat.le_sub_one_of_lt hi)
    simp only [ratio]
    omega

/-- The number of times a row stands for. -/
def countIn (start : Int) (times : List Int) : Nat :=
  times.countP fun t => start ≤ t ∧ t < start + ratio

theorem index_iff {low t : Int} {k : Nat} (hlow : ratio ∣ low) :
    index low t = k ↔ low + k * ratio ≤ t ∧ t < low + k * ratio + ratio := by
  obtain ⟨a, rfl⟩ := hlow
  simp only [index, ratio]
  omega

/-- An entry that is not written is one that nothing was counted in. -/
theorem sum_written {α : Type} (p : α → Bool) (f : α → Nat) (xs : List α)
    (h : ∀ x ∈ xs, p x = false → f x = 0) : ((xs.filter p).map f).sum = (xs.map f).sum := by
  induction xs with
  | nil => rfl
  | cons x xs ih =>
    have htail := ih fun y hy => h y (List.mem_cons_of_mem x hy)
    cases hp : p x with
    | true => simp [hp, htail]
    | false => simp [hp, htail, h x List.mem_cons_self hp]

section Written

variable {rows : List WinsizeRow} {times : List Int} {low : Int} {k : Nat}

theorem bucket_of_start (h : (bucketOf low (timesandretrans rows times) k).start ≠ 0) :
    (bucketOf low (timesandretrans rows times) k).start = low + k * ratio := by
  simp only [bucketOf] at h ⊢
  split at h
  · rename_i hseen
    exact if_pos hseen
  · exact absurd rfl h

theorem bucket_of_packets (hlow : ratio ∣ low) :
    (bucketOf low (timesandretrans rows times) k).packets =
      countIn (low + k * ratio) (dataTimes rows) := by
  rw [countIn, ← count_packets rows times]
  simp only [bucketOf, index_iff hlow]

theorem bucket_of_retrans (hlow : ratio ∣ low) :
    (bucketOf low (timesandretrans rows times) k).retrans =
      countIn (low + k * ratio) times := by
  rw [countIn, ← count_retrans rows times]
  simp only [bucketOf, index_iff hlow]

/-- With times from 1000 on no bucket starts at 0, so an entry that keeps its zero has
counted nothing. -/
theorem bucket_of_empty {xs : List (Int × Int)} (hlow : 0 < low)
    (h : (bucketOf low xs k).start = 0) :
    (bucketOf low xs k).packets = 0 ∧ (bucketOf low xs k).retrans = 0 := by
  have hnone : ∀ x ∈ xs, index low x.1 ≠ k := by
    intro x hx hxk
    simp only [bucketOf] at h
    rw [if_pos ⟨x, hx, hxk⟩] at h
    simp only [ratio] at h
    omega
  simp only [bucketOf, List.countP_eq_zero, Bool.and_eq_true, decide_eq_true_eq]
  exact ⟨fun x hx hc => hnone x hx hc.2, fun x hx hc => hnone x hx hc.2⟩

/-- The counts of all entries together. -/
theorem sum_buckets {n : Nat} (p : Int × Int → Bool) {xs : List (Int × Int)}
    (hin : ∀ x ∈ xs, 0 ≤ index low x.1 ∧ index low x.1 < n) :
    ((List.range n).map fun k : Nat =>
      xs.countP fun x => p x && decide (index low x.1 = k)).sum = xs.countP p := by
  rw [sum_count p (fun x => index low x.1) n xs]
  refine List.countP_congr fun x hx => ?_
  simp [hin x hx]

/-- A column of the rows written counts every item of its kind. -/
theorem sum_rows {n : Nat} (column : Bucket → Nat) (p : Int × Int → Bool) {xs : List (Int × Int)}
    (hin : ∀ x ∈ xs, 0 ≤ index low x.1 ∧ index low x.1 < n)
    (hcolumn : ∀ k : Nat, column (bucketOf low xs k) =
      xs.countP fun x => p x && decide (index low x.1 = k))
    (hempty : ∀ k, (bucketOf low xs k).start = 0 → column (bucketOf low xs k) = 0) :
    ((((List.range n).map (bucketOf low xs)).filter fun i => i.start ≠ 0).map column).sum =
      xs.countP p := by
  have hzero : ∀ b ∈ (List.range n).map (bucketOf low xs),
      decide (b.start ≠ 0) = false → column b = 0 := by
    intro b hb hstart
    obtain ⟨k, -, rfl⟩ := List.mem_map.mp hb
    exact hempty k (by simpa using hstart)
  rw [sum_written _ _ _ hzero, List.map_map, ← sum_buckets p hin]
  exact congrArg List.sum (List.map_congr_left fun k _ => hcolumn k)

end Written

theorem index_within {low high t : Int} (hlow : ratio ∣ low) (hhigh : ratio ∣ high)
    (h : low ≤ t ∧ t < high) : 0 ≤ index low t ∧ index low t < sizeoflist low high := by
  obtain ⟨hlower, hupper⟩ := h
  simp only [ratio] at hlow hhigh
  simp only [index, sizeoflist, ratio]
  omega

/-- The loop ends with the entries of all items, and those that were set are written. -/
theorem timesretrans_ok {rows : List WinsizeRow} {times : List Int} {low high : Int}
    (hmin : minTime (timesandretrans rows times) = .ok low)
    (hmax : maxTime (timesandretrans rows times) = .ok high) (hlow : ratio ∣ low)
    (hin : ∀ x ∈ timesandretrans rows times,
      0 ≤ index low x.1 ∧ index low x.1 < (sizeoflist low high).toNat) :
    timesretrans rows times =
      .ok (((List.range (sizeoflist low high).toNat).map
        (bucketOf low (timesandretrans rows times))).filter fun i => i.start ≠ 0) := by
  have hrun := count_run hlow [] _ hin
  rw [bucket_of_nil, List.nil_append] at hrun
  simp only [timesretrans]
  rw [hmin, hmax]
  change (List.foldlM (count low) _ _ >>= fun dataList : List Bucket =>
    Except.ok (dataList.filter fun i => i.start ≠ 0)) = _
  rw [hrun]
  rfl

/-- No index leaves `data_list`; every row written starts at a multiple of 1000 and
counts the times from there up to the next one, and the rows count every time. -/
theorem bucketing_conserves (rows : List WinsizeRow) (times : List Int)
    (hne : dataTimes rows ++ times ≠ []) (hold : ∀ t ∈ dataTimes rows ++ times, 1000 ≤ t) :
    ∃ low high written, minTime (timesandretrans rows times) = .ok low ∧
      maxTime (timesandretrans rows times) = .ok high ∧
      timesretrans rows times = .ok written ∧
      (∀ t ∈ dataTimes rows ++ times, 0 ≤ index low t ∧ index low t < sizeoflist low high) ∧
      (∀ row ∈ written, 1000 ∣ row.start ∧
        row.packets = countIn row.start (dataTimes rows) ∧
        row.retrans = countIn row.start times) ∧
      (written.map Bucket.packets).sum = (dataTimes rows).length ∧
      (written.map Bucket.retrans).sum = times.length := by
  obtain ⟨t₀, ht₀⟩ := List.exists_mem_of_ne_nil _ hne
  obtain ⟨x₀, hx₀, -⟩ := time_item rows times ht₀
  obtain ⟨low, high, hmin, hmax, hlow, hhigh, ⟨x₁, hx₁, hfirst⟩, hrange⟩ :=
    window (List.ne_nil_of_mem hx₀) (items_sorted rows times)
  have hpos : 0 < low := by
    have := hold x₁.1 (items_time rows times hx₁)
    simp only [ratio] at hfirst
    omega
  have hin : ∀ x ∈ timesandretrans rows times,
      0 ≤ index low x.1 ∧ index low x.1 < sizeoflist low high :=
    fun x hx => index_within hlow hhigh (hrange x hx)
  have hsize : ∀ x ∈ timesandretrans rows times,
      0 ≤ index low x.1 ∧ index low x.1 < (sizeoflist low high).toNat := by
    intro x hx
    have := hin x hx
    omega
  refine ⟨low, high, _, hmin, hmax, timesretrans_ok hmin hmax hlow hsize, ?_, ?_, ?_, ?_⟩
  · intro t ht
    obtain ⟨x, hx, rfl⟩ := time_item rows times ht
    exact hin x hx
  · intro row hrow
    obtain ⟨hmem, hstart⟩ := List.mem_filter.mp hrow
    obtain ⟨k, -, rfl⟩ := List.mem_map.mp hmem
    rw [bucket_of_start (of_decide_eq_true hstart)]
    refine ⟨?_, bucket_of_packets hlow, bucket_of_retrans hlow⟩
    simp only [ratio] at hlow ⊢
    omega
  · have hcount := count_packets rows times fun _ => true
    simp only [Bool.and_true, List.countP_true] at hcount
    rw [← hcount]
    exact sum_rows Bucket.packets _ hsize (fun _ => rfl) fun k hk => (bucket_of_empty hpos hk).1
  · have hcount := count_retrans rows times fun _ => true
    simp only [Bool.and_true, List.countP_true] at hcount
    rw [← hcount]
    exact sum_rows Bucket.retrans _ hsize (fun _ => rfl) fun k hk => (bucket_of_empty hpos hk).2

theorem bucketing_conserves_three :
    ∃ low high written,
      minTime (timesandretrans [⟨5, 5⟩, ⟨1000, 9⟩, ⟨3999, 9⟩, ⟨1500, 0⟩] [3000]) = .ok low ∧
      maxTime (timesandretrans [⟨5, 5⟩, ⟨1000, 9⟩, ⟨3999, 9⟩, ⟨1500, 0⟩] [3000]) = .ok high ∧
      timesretrans [⟨5, 5⟩, ⟨1000, 9⟩, ⟨3999, 9⟩, ⟨1500, 0⟩] [3000] = .ok written ∧
      (∀ t ∈ dataTimes [⟨5, 5⟩, ⟨1000, 9⟩, ⟨3999, 9⟩, ⟨1500, 0⟩] ++ [3000],
        0 ≤ index low t ∧ index low t < sizeoflist low high) ∧
      (∀ row ∈ written, 1000 ∣ row.start ∧
        row.packets =
          countIn row.start (dataTimes [⟨5, 5⟩, ⟨1000, 9⟩, ⟨3999, 9⟩, ⟨1500, 0⟩]) ∧
        row.retrans = countIn row.start [3000]) ∧
      (written.map Bucket.packets).sum =
        (dataTimes [⟨5, 5⟩, ⟨1000, 9⟩, ⟨3999, 9⟩, ⟨1500, 0⟩]).length ∧
      (written.map Bucket.retrans).sum = [(3000 : Int)].length :=
  bucketing_conserves [⟨5, 5⟩, ⟨1000, 9⟩, ⟨3999, 9⟩, ⟨1500, 0⟩] [3000] (by decide) (by decide)

end ApTelemetry.Compute
