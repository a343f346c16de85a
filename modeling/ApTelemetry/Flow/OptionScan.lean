import ApTelemetry.Lib.Buffer
import ApTelemetry.Structs
import Mathlib.Data.List.Range

namespace ApTelemetry.Flow
open Lib

/-- The bytes from `opt_ptr` on. -/
abbrev Bytes := Nat → U8

/-- `opt_len`. -/
def optLen (doff : BitVec 4) : Int := doff.toNat * 4 - 20

/-- The loop of the option scan: where it stops, and what it has read. -/
def scanOptions (mem : Bytes) (optLen : Int) :
    Nat → Nat → List Nat → Except Fault (Nat × List Nat)
  | 0, _, _ => .error .endless
  | turns + 1, optOff, reads =>
    if mem optOff ≠ 3 ∧ (optOff : Int) < optLen - 2 then
      if mem optOff ≠ 1 then
        scanOptions mem optLen turns (optOff + (mem (optOff + 1)).toNat)
          (reads ++ [optOff, optOff + 1])
      else scanOptions mem optLen turns (optOff + 1) (reads ++ [optOff])
    else .ok (optOff, reads ++ [optOff])

/-- `char wscale[3]`. -/
structure Wscale where
  kind : U8
  length : U8
  shift : U8
  deriving DecidableEq

/-- The test behind the loop looks at the byte again. -/
def copyScale (mem : Bytes) (optOff : Nat) (reads : List Nat) : Wscale × List Nat :=
  if mem optOff = 3 then
    (⟨mem optOff, mem (optOff + 1), mem (optOff + 2)⟩, reads ++ [optOff, optOff + 1, optOff + 2])
  else (⟨0, 0, 0⟩, reads ++ [optOff])

def extractScale (mem : Bytes) (optLen : Int) (turns : Nat) : Except Fault (Wscale × List Nat) := do
  let (optOff, reads) ← scanOptions mem optLen turns 0 []
  .ok (copyScale mem optOff reads)

/-- The scan ends, and reads option bytes only. -/
def ScansInside (mem : Bytes) (optLen : Int) : Prop :=
  ∃ turns wscale reads, extractScale mem optLen turns = .ok (wscale, reads) ∧
    ∀ r ∈ reads, (r : Int) < optLen

/-- The option bytes. -/
def area (mem : Bytes) (n : Nat) : List U8 := (List.range n).map mem

/-- Option bytes that lead the scan to a window-scale option, or to one of the
last two bytes. -/
inductive Scannable : List U8 → Prop
  | scale (length shift : U8) (rest : List U8) : Scannable (3 :: length :: shift :: rest)
  | last (byte : U8) : byte ≠ 3 → Scannable [byte]
  | lastTwo (byte next : U8) : byte ≠ 3 → Scannable [byte, next]
  | nop (byte next : U8) (rest : List U8) : Scannable (byte :: next :: rest) →
    Scannable (1 :: byte :: next :: rest)
  | option (kind length byte : U8) (rest : List U8) : kind ≠ 1 → kind ≠ 3 → length ≠ 0 →
    Scannable ((kind :: length :: byte :: rest).drop length.toNat) →
    Scannable (kind :: length :: byte :: rest)

/-- The loop gets from one offset to another. -/
def ScansTo (mem : Bytes) (n off : Nat) (reads : List Nat) (stop : Nat) (all : List Nat) : Prop :=
  ∃ turns, scanOptions mem n turns off reads = .ok (stop, all)

section Loop

variable {mem : Bytes} {n off stop : Nat} {reads all : List Nat}

theorem scans_to_stop (h : ¬ (mem off ≠ 3 ∧ off + 2 < n)) :
    ScansTo mem n off reads stop all ↔ stop = off ∧ all = reads ++ [off] := by
  have hend : ¬ (mem off ≠ 3 ∧ (off : Int) < n - 2) := fun hgo => h ⟨hgo.1, by omega⟩
  constructor
  · rintro ⟨turns, hrun⟩
    cases turns with
    | zero => cases hrun
    | succ turns =>
      rw [scanOptions, if_neg hend] at hrun
      obtain ⟨rfl, rfl⟩ := Prod.mk.inj (Except.ok.inj hrun)
      exact ⟨rfl, rfl⟩
  · rintro ⟨rfl, rfl⟩
    exact ⟨1, if_neg hend⟩

theorem scans_to_nop (hbyte : mem off = 1) (hin : off + 2 < n) :
    ScansTo mem n off reads stop all ↔ ScansTo mem n (off + 1) (reads ++ [off]) stop all := by
  have hgo : mem off ≠ 3 ∧ (off : Int) < n - 2 := ⟨by rw [hbyte]; decide, by omega⟩
  have hstep : ∀ turns, scanOptions mem n (turns + 1) off reads =
      scanOptions mem n turns (off + 1) (reads ++ [off]) := by
    intro turns
    rw [scanOptions, if_pos hgo, if_neg (not_not.mpr hbyte)]
  constructor
  · rintro ⟨turns, hrun⟩
    cases turns with
    | zero => cases hrun
    | succ turns => exact ⟨turns, hstep turns ▸ hrun⟩
  · rintro ⟨turns, hrun⟩
    exact ⟨turns + 1, (hstep turns).trans hrun⟩

theorem scan_option_step (hnop : mem off ≠ 1) (hscale : mem off ≠ 3) (hin : off + 2 < n)
    (turns : Nat) : scanOptions mem n (turns + 1) off reads =
      scanOptions mem n turns (off + (mem (off + 1)).toNat) (reads ++ [off, off + 1]) := by
  have hgo : mem off ≠ 3 ∧ (off : Int) < n - 2 := ⟨hscale, by omega⟩
  rw [scanOptions, if_pos hgo, if_pos hnop]

theorem scans_to_option (hnop : mem off ≠ 1) (hscale : mem off ≠ 3) (hin : off + 2 < n) :
    ScansTo mem n off reads stop all ↔
      ScansTo mem n (off + (mem (off + 1)).toNat) (reads ++ [off, off + 1]) stop all := by
  constructor
  · rintro ⟨turns, hrun⟩
    cases turns with
    | zero => cases hrun
    | succ turns => exact ⟨turns, scan_option_step hnop hscale hin turns ▸ hrun⟩
  · rintro ⟨turns, hrun⟩
    exact ⟨turns + 1, (scan_option_step hnop hscale hin turns).trans hrun⟩

/-- A length of zero holds the loop where it is. -/
theorem not_scans_to_zero (hnop : mem off ≠ 1) (hscale : mem off ≠ 3) (hin : off + 2 < n)
    (hzero : mem (off + 1) = 0) : ¬ ScansTo mem n off reads stop all := by
  rintro ⟨turns, hrun⟩
  induction turns generalizing reads with
  | zero => cases hrun
  | succ turns ih =>
    rw [scan_option_step hnop hscale hin, hzero] at hrun
    exact ih hrun

/-- Every turn that does not stand still comes nearer to the end. -/
theorem scan_enough {optLen : Int} {turns k : Nat} {found : Nat × List Nat}
    (hk : optLen ≤ off + k) (h : scanOptions mem optLen turns off reads = .ok found) :
    scanOptions mem optLen (k + 1) off reads = .ok found := by
  induction turns generalizing k off reads with
  | zero => cases h
  | succ turns ih =>
    rw [scanOptions] at h ⊢
    by_cases hgo : mem off ≠ 3 ∧ (off : Int) < optLen - 2
    · rw [if_pos hgo] at h ⊢
      obtain ⟨k, rfl⟩ : ∃ j, k = j + 1 := ⟨k - 1, by omega⟩
      by_cases hnop : mem off ≠ 1
      · rw [if_pos hnop] at h ⊢
        have hpos : 0 < (mem (off + 1)).toNat := by
          by_contra hzero
          obtain ⟨n, rfl⟩ : ∃ n : Nat, optLen = n := ⟨optLen.toNat, by omega⟩
          have hbyte : mem (off + 1) = 0 := BitVec.eq_of_toNat_eq (by simpa using hzero)
          rw [hbyte] at h
          exact not_scans_to_zero hnop hgo.1 (by omega) hbyte ⟨turns, h⟩
        exact ih (by omega) h
      · rw [if_neg hnop] at h ⊢
        exact ih (by omega) h
    · rw [if_neg hgo] at h ⊢
      exact h

end Loop

section Inside

variable {mem : Bytes} {n off stop : Nat} {reads all : List Nat}

/-- From here the scan ends inside. -/
def EndsInside (mem : Bytes) (n off : Nat) (reads : List Nat) : Prop :=
  ∃ stop all, ScansTo mem n off reads stop all ∧ ∀ r ∈ (copyScale mem stop all).2, r < n

theorem scans_inside_iff : ScansInside mem n ↔ EndsInside mem n 0 [] := by
  constructor
  · rintro ⟨turns, wscale, reads, hrun, hin⟩
    obtain ⟨⟨stop, all⟩, hscan, hcopy⟩ := bind_ok hrun
    have hreads : (copyScale mem stop all).2 = reads := congrArg Prod.snd (Except.ok.inj hcopy)
    refine ⟨stop, all, ⟨turns, hscan⟩, fun r hr => ?_⟩
    rw [hreads] at hr
    exact Int.ofNat_lt.mp (hin r hr)
  · rintro ⟨stop, all, ⟨turns, hscan⟩, hin⟩
    refine ⟨turns, (copyScale mem stop all).1, _, ?_, fun r hr => Int.ofNat_lt.mpr (hin r hr)⟩
    rw [extractScale, hscan]
    rfl

theorem copy_reads (mem : Bytes) (stop : Nat) (all : List Nat) :
    (∀ r ∈ (copyScale mem stop all).2, r < n) ↔
      (∀ r ∈ all, r < n) ∧ stop < n ∧ (mem stop = 3 → stop + 2 < n) := by
  unfold copyScale
  by_cases hscale : mem stop = 3
  · rw [if_pos hscale]
    constructor
    · intro h
      exact ⟨fun r hr => h r (by simp [hr]), h stop (by simp), fun _ => h (stop + 2) (by simp)⟩
    · rintro ⟨hall, hlt, htwo⟩ r hr
      have hin := htwo hscale
      simp only [List.mem_append, List.mem_cons, List.not_mem_nil, or_false] at hr
      rcases hr with hr | rfl | rfl | rfl
      · exact hall r hr
      · exact hlt
      · omega
      · exact hin
  · rw [if_neg hscale]
    simp only [List.mem_append, List.mem_singleton, or_imp, forall_and, forall_eq, hscale,
      false_imp_iff, and_true]

/-- What was read before stays read, and the offset itself is read. -/
theorem scans_to_reads (h : ScansTo mem n off reads stop all) :
    off ∈ all ∧ ∀ r ∈ reads, r ∈ all := by
  obtain ⟨turns, hrun⟩ := h
  induction turns generalizing off reads with
  | zero => cases hrun
  | succ turns ih =>
    rw [scanOptions] at hrun
    split at hrun
    · split at hrun
      · obtain ⟨-, hkept⟩ := ih hrun
        exact ⟨hkept off (by simp), fun r hr => hkept r (by simp [hr])⟩
      · obtain ⟨-, hkept⟩ := ih hrun
        exact ⟨hkept off (by simp), fun r hr => hkept r (by simp [hr])⟩
    · obtain ⟨-, rfl⟩ := Prod.mk.inj (Except.ok.inj hrun)
      exact ⟨by simp, fun r hr => by simp [hr]⟩

theorem not_ends_inside (h : n ≤ off) : ¬ EndsInside mem n off reads := by
  rintro ⟨stop, all, hscan, hin⟩
  have hread := ((copy_reads mem stop all).mp hin).1 off (scans_to_reads hscan).1
  omega

theorem ends_inside_stop (h : ¬ (mem off ≠ 3 ∧ off + 2 < n)) (hreads : ∀ r ∈ reads, r < n) :
    EndsInside mem n off reads ↔ off < n ∧ (mem off = 3 → off + 2 < n) := by
  constructor
  · rintro ⟨stop, all, hscan, hin⟩
    obtain ⟨rfl, rfl⟩ := (scans_to_stop h).mp hscan
    exact ((copy_reads mem stop _).mp hin).2
  · rintro ⟨hlt, hscale⟩
    refine ⟨off, reads ++ [off], (scans_to_stop h).mpr ⟨rfl, rfl⟩,
      (copy_reads mem off _).mpr ⟨fun r hr => ?_, hlt, hscale⟩⟩
    rcases List.mem_append.mp hr with hr | hr
    · exact hreads r hr
    · rwa [List.mem_singleton.mp hr]

theorem area_drop (mem : Bytes) (h : off < n) :
    (area mem n).drop off = mem off :: (area mem n).drop (off + 1) := by
  have hlength : off < (area mem n).length := by simpa [area] using h
  rw [List.drop_eq_getElem_cons hlength]
  simp [area]

theorem area_drop_end (mem : Bytes) (h : n ≤ off) : (area mem n).drop off = [] :=
  List.drop_eq_nil_of_le (by simpa [area] using h)

theorem ends_inside_nop (hbyte : mem off = 1) (hin : off + 2 < n) :
    EndsInside mem n off reads ↔ EndsInside mem n (off + 1) (reads ++ [off]) :=
  exists_congr fun _ => exists_congr fun _ => and_congr_left fun _ => scans_to_nop hbyte hin

theorem ends_inside_option (hnop : mem off ≠ 1) (hscale : mem off ≠ 3) (hin : off + 2 < n) :
    EndsInside mem n off reads ↔
      EndsInside mem n (off + (mem (off + 1)).toNat) (reads ++ [off, off + 1]) :=
  exists_congr fun _ => exists_congr fun _ => and_congr_left fun _ =>
    scans_to_option hnop hscale hin

end Inside

section Grammar

variable {kind length byte next : U8} {rest : List U8}

theorem scannable_one_iff : Scannable [byte] ↔ byte ≠ 3 := by
  constructor
  · intro h
    cases h
    assumption
  · exact .last byte

theorem scannable_two_iff : Scannable [byte, next] ↔ byte ≠ 3 := by
  constructor
  · intro h
    cases h
    assumption
  · exact .lastTwo byte next

theorem scannable_nop_iff :
    Scannable (1 :: byte :: next :: rest) ↔ Scannable (byte :: next :: rest) := by
  constructor
  · intro h
    cases h with
    | nop _ _ _ h => exact h
    | option _ _ _ _ hnop => exact absurd rfl hnop
  · exact .nop byte next rest

theorem scannable_option_iff (hnop : kind ≠ 1) (hscale : kind ≠ 3) :
    Scannable (kind :: length :: byte :: rest) ↔
      length ≠ 0 ∧ Scannable ((kind :: length :: byte :: rest).drop length.toNat) := by
  constructor
  · intro h
    cases h with
    | scale => exact absurd rfl hscale
    | nop => exact absurd rfl hnop
    | option _ _ _ _ _ _ hlength hrest => exact ⟨hlength, hrest⟩
  · rintro ⟨hlength, hrest⟩
    exact .option kind length byte rest hnop hscale hlength hrest

end Grammar

variable {mem : Bytes} {n off : Nat} {reads : List Nat}

/-- The scan ends inside exactly if the bytes from its offset on allow it. -/
theorem ends_inside_iff (hreads : ∀ r ∈ reads, r < n) :
    EndsInside mem n off reads ↔ Scannable ((area mem n).drop off) := by
  induction hk : n - off using Nat.strong_induction_on generalizing off reads with
  | _ k ih =>
    subst hk
    by_cases hend : n ≤ off
    · rw [area_drop_end mem hend]
      exact iff_of_false (not_ends_inside hend) nofun
    have hlt : off < n := Nat.lt_of_not_le hend
    by_cases htwo : off + 2 < n
    · have hbytes : (area mem n).drop off = mem off :: mem (off + 1) :: mem (off + 2) ::
          (area mem n).drop (off + 3) := by
        rw [area_drop mem hlt, area_drop mem (by omega : off + 1 < n), area_drop mem htwo]
      by_cases hscale : mem off = 3
      · rw [ends_inside_stop (fun hgo => hgo.1 hscale) hreads, hbytes, hscale]
        exact iff_of_true ⟨hlt, fun _ => htwo⟩ (.scale _ _ _)
      by_cases hnop : mem off = 1
      · have hreads' : ∀ r ∈ reads ++ [off], r < n := by
          simpa [or_imp, forall_and, hlt] using hreads
        rw [ends_inside_nop hnop htwo, ih (n - (off + 1)) (by omega) hreads' rfl, hbytes, hnop,
          scannable_nop_iff, area_drop mem (by omega : off + 1 < n), area_drop mem htwo]
      by_cases hzero : mem (off + 1) = 0
      · rw [hbytes, scannable_option_iff hnop hscale]
        refine iff_of_false ?_ fun h => h.1 hzero
        rintro ⟨stop, all, hscan, -⟩
        exact not_scans_to_zero hnop hscale htwo hzero hscan
      · have hpos : 0 < (mem (off + 1)).toNat := by
          have := (BitVec.toNat_ne_iff_ne).mpr hzero
          simp at this
          omega
        have hreads' : ∀ r ∈ reads ++ [off, off + 1], r < n := by
          have hnext : off + 1 < n := by omega
          simpa [or_imp, forall_and, hlt, hnext] using hreads
        rw [ends_inside_option hnop hscale htwo, ih (n - (off + (mem (off + 1)).toNat)) (by omega)
          hreads' rfl, hbytes, scannable_option_iff hnop hscale, ← hbytes, List.drop_drop]
        exact (and_iff_right hzero).symm
    · rw [ends_inside_stop (fun hgo => htwo hgo.2) hreads, area_drop mem hlt]
      by_cases hone : off + 1 < n
      · rw [area_drop mem hone, area_drop_end mem (by omega : n ≤ off + 1 + 1), scannable_two_iff]
        simp [hlt, htwo]
      · rw [area_drop_end mem (by omega : n ≤ off + 1), scannable_one_iff]
        simp [hlt, htwo]

theorem opt_len_eq {doff : BitVec 4} (h : 5 ≤ doff) :
    optLen doff = (doff.toNat * 4 - 20 : Nat) := by
  rw [BitVec.le_def] at h
  have hfive : (5 : BitVec 4).toNat = 5 := rfl
  rw [optLen]
  omega

/-- The scan of a segment's options ends inside them exactly if they allow it. -/
theorem option_scan_iff (mem : Bytes) {doff : BitVec 4} (h : 5 ≤ doff) :
    ScansInside mem (optLen doff) ↔ Scannable (area mem (doff.toNat * 4 - 20)) := by
  rw [opt_len_eq h, scans_inside_iff, ends_inside_iff (by simp), List.drop_zero]

/-- Two NOP options and the SACK-permitted one. -/
theorem option_scan_iff_two_nops :
    ScansInside (fun k => [1, 1, 4, 2].getD k 0) (optLen 6) := by
  refine (option_scan_iff _ (by decide)).mpr ?_
  exact .nop 1 4 [2] (.nop 4 2 [] (.lastTwo 4 2 (by decide)))

/-- Four END options: the first has the second for its length. -/
theorem end_options_endless : ¬ ∀ mem doff, 5 ≤ doff → ScansInside mem (optLen doff) := by
  intro h
  have hinside := h (fun _ => 0) 6 (by decide)
  rw [opt_len_eq (by decide)] at hinside
  obtain ⟨stop, all, hscan, -⟩ := scans_inside_iff.mp hinside
  exact not_scans_to_zero (by decide) (by decide) (by decide) rfl hscan

end ApTelemetry.Flow
