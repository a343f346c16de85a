import ApTelemetry.Flow.OptionScan

namespace ApTelemetry.Flow
open Lib

/-- An option with a length byte. The window-scale option is kind 3 with one byte. -/
structure Valued where
  kind : U8
  value : List U8
  notEnd : kind ≠ 0
  notNop : kind ≠ 1
  fits : value.length + 2 < 256
  oneShift : kind = 3 → value.length = 1

inductive TcpOption where
  | nop
  | valued (option : Valued)

def TcpOption.encode : TcpOption → List U8
  | nop => [1]
  | valued v => v.kind :: BitVec.ofNat 8 (v.value.length + 2) :: v.value

/-- The shift of a window-scale option. -/
def TcpOption.shift : TcpOption → Option U8
  | nop => none
  | valued v => if v.kind = 3 then v.value.head? else none

/-- A well-formed option list: END options stand behind all others. -/
structure OptionList where
  options : List TcpOption
  ends : Nat

def OptionList.encode (l : OptionList) : List U8 :=
  l.options.flatMap TcpOption.encode ++ List.replicate l.ends 0

/-- The window-scale option if there is one. -/
def OptionList.wscale (l : OptionList) : Wscale :=
  match l.options.findSome? TcpOption.shift with
  | some shift => ⟨3, 3, shift⟩
  | none => ⟨0, 0, 0⟩

/-- The option bytes and what is behind them. -/
def followedBy (bytes : List U8) (payload : Bytes) : Bytes := fun k =>
  bytes[k]?.getD (payload (k - bytes.length))

/-- The scan ends and gives the option. -/
def Extracts (l : OptionList) (payload : Bytes) (optLen : Int) : Prop :=
  ∃ turns reads, extractScale (followedBy l.encode payload) optLen turns = .ok (l.wscale, reads)

/-- The scan goes on to the byte behind the options: there are none, or the last
of them is no END and three bytes long at least. -/
def OptionList.RunsThrough (l : OptionList) : Prop :=
  l.ends = 0 ∧ ∀ o ∈ l.options.getLast?, 3 ≤ o.encode.length

/-- There is a window-scale option, or else at most two END options, and no 3 at
the place the scan runs through to. -/
def OptionList.Found (l : OptionList) (payload : Bytes) : Prop :=
  (∃ o ∈ l.options, o.shift.isSome) ∨ l.ends ≤ 2 ∧ (l.RunsThrough → payload 0 ≠ 3)

/-- From here the scan gives these bytes. -/
def Gives (mem : Bytes) (n off : Nat) (reads : List Nat) (wscale : Wscale) : Prop :=
  ∃ stop all, ScansTo mem n off reads stop all ∧ (copyScale mem stop all).1 = wscale

section Steps

variable {mem : Bytes} {n off : Nat} {reads : List Nat} {wscale : Wscale}

theorem extract_scale_iff : (∃ turns reads, extractScale mem n turns = .ok (wscale, reads)) ↔
    Gives mem n 0 [] wscale := by
  constructor
  · rintro ⟨turns, reads, hrun⟩
    obtain ⟨⟨stop, all⟩, hscan, hcopy⟩ := bind_ok hrun
    exact ⟨stop, all, ⟨turns, hscan⟩, congrArg Prod.fst (Except.ok.inj hcopy)⟩
  · rintro ⟨stop, all, ⟨turns, hscan⟩, rfl⟩
    refine ⟨turns, (copyScale mem stop all).2, ?_⟩
    rw [extractScale, hscan]
    rfl

theorem gives_stop (h : ¬ (mem off ≠ 3 ∧ off + 2 < n)) : Gives mem n off reads wscale ↔
    (if mem off = 3 then ⟨mem off, mem (off + 1), mem (off + 2)⟩ else ⟨0, 0, 0⟩) = wscale := by
  have hcopy : ∀ all, (copyScale mem off all).1 =
      if mem off = 3 then ⟨mem off, mem (off + 1), mem (off + 2)⟩ else ⟨0, 0, 0⟩ := by
    intro all
    unfold copyScale
    split <;> rfl
  constructor
  · rintro ⟨stop, all, hscan, rfl⟩
    obtain ⟨rfl, rfl⟩ := (scans_to_stop h).mp hscan
    exact (hcopy _).symm
  · rintro rfl
    exact ⟨off, _, (scans_to_stop h).mpr ⟨rfl, rfl⟩, hcopy _⟩

theorem gives_nop (hbyte : mem off = 1) (hin : off + 2 < n) :
    Gives mem n off reads wscale ↔ Gives mem n (off + 1) (reads ++ [off]) wscale :=
  exists_congr fun _ => exists_congr fun _ => and_congr_left fun _ => scans_to_nop hbyte hin

theorem gives_option (hnop : mem off ≠ 1) (hscale : mem off ≠ 3) (hin : off + 2 < n) :
    Gives mem n off reads wscale ↔
      Gives mem n (off + (mem (off + 1)).toNat) (reads ++ [off, off + 1]) wscale :=
  exists_congr fun _ => exists_congr fun _ => and_congr_left fun _ =>
    scans_to_option hnop hscale hin

end Steps

section Memory

variable {pre post : List U8} {byte : U8} {payload : Bytes}

theorem followed_by_at (pre post : List U8) (byte : U8) (payload : Bytes) :
    followedBy (pre ++ byte :: post) payload pre.length = byte := by
  simp [followedBy]

theorem followed_by_next (pre post : List U8) (byte next : U8) (payload : Bytes) :
    followedBy (pre ++ byte :: next :: post) payload (pre.length + 1) = next := by
  simp [followedBy]

theorem followed_by_end (bytes : List U8) (payload : Bytes) :
    followedBy bytes payload bytes.length = payload 0 := by
  simp [followedBy]

end Memory

namespace OptionList

variable {o : TcpOption} {options : List TcpOption} {ends : Nat}

theorem encode_cons : encode ⟨o :: options, ends⟩ = o.encode ++ encode ⟨options, ends⟩ := by
  simp [encode]

theorem length_le {l : OptionList} (h : o ∈ l.options) : o.encode.length ≤ l.encode.length := by
  rw [encode, List.length_append]
  refine Nat.le_trans ?_ (Nat.le_add_right ..)
  rw [List.flatMap_def]
  exact (List.sublist_flatten_of_mem (List.mem_map_of_mem h)).length_le

theorem shift_length (h : o.shift.isSome) : o.encode.length = 3 := by
  cases o with
  | nop => cases h
  | valued v =>
    simp only [TcpOption.shift] at h
    split at h
    · rename_i hkind
      simp [TcpOption.encode, v.oneShift hkind]
    · cases h

theorem ends_le (l : OptionList) : l.ends ≤ l.encode.length := by
  simp [encode]

/-- The first option makes no difference to where the scan ends. -/
theorem runs_through_cons (h : 3 ≤ (encode ⟨o :: options, ends⟩).length) :
    RunsThrough ⟨o :: options, ends⟩ ↔ RunsThrough ⟨options, ends⟩ := by
  refine and_congr_right fun hends => ?_
  have hends : ends = 0 := hends
  subst hends
  cases options with
  | nil =>
    have hlong : 3 ≤ o.encode.length := by simpa [encode] using h
    simp [hlong]
  | cons o' options => rw [List.getLast?_cons_cons]

theorem found_cons {payload : Bytes} (hshift : o.shift = none)
    (h : 3 ≤ (encode ⟨o :: options, ends⟩).length) :
    Found ⟨o :: options, ends⟩ payload ↔ Found ⟨options, ends⟩ payload := by
  unfold Found
  rw [runs_through_cons h]
  simp [hshift]

theorem wscale_cons (hshift : o.shift = none) :
    wscale ⟨o :: options, ends⟩ = wscale ⟨options, ends⟩ := by
  simp [wscale, hshift]

theorem kind_of_shift_none {v : Valued} (hshift : (TcpOption.valued v).shift = none) :
    v.kind ≠ 3 := by
  intro hkind
  obtain ⟨x, hx⟩ := List.length_eq_one_iff.mp (v.oneShift hkind)
  simp [TcpOption.shift, hkind, hx] at hshift

/-- The bytes of a window-scale option are what it is asked for. -/
theorem wscale_of_shift {v : Valued} {shift : U8}
    (hshift : (TcpOption.valued v).shift = some shift) :
    (TcpOption.valued v).encode = [3, 3, shift] ∧
      wscale ⟨.valued v :: options, ends⟩ = ⟨3, 3, shift⟩ := by
  have hlength := shift_length (Option.isSome_iff_exists.mpr ⟨shift, hshift⟩)
  refine ⟨?_, by simp [wscale, hshift]⟩
  simp only [TcpOption.shift] at hshift
  split at hshift
  · rename_i hkind
    obtain ⟨x, hx⟩ := List.length_eq_one_iff.mp (v.oneShift hkind)
    rw [hx] at hshift
    obtain rfl := Option.some.inj hshift
    simp [TcpOption.encode, hkind, hx]
  · cases hshift

end OptionList

section Walk

variable {pre : List U8} {payload : Bytes}

/-- The first byte of what is left, when that is not more than two bytes, is not
a 3: a window-scale option takes three. -/
theorem short_head {l : OptionList} {byte : U8} {rest : List U8}
    (h : l.encode = byte :: rest) (hshort : l.encode.length ≤ 2) : byte ≠ 3 := by
  obtain ⟨options, ends⟩ := l
  cases options with
  | nil =>
    cases ends with
    | zero => cases h
    | succ ends =>
      obtain ⟨rfl, -⟩ := List.cons.inj h
      decide
  | cons o options =>
    rw [OptionList.encode_cons] at h hshort
    cases o with
    | nop =>
      obtain ⟨rfl, -⟩ := List.cons.inj h
      decide
    | valued v =>
      obtain ⟨rfl, -⟩ := List.cons.inj h
      intro hkind
      have hone := v.oneShift hkind
      simp only [TcpOption.encode, List.length_append, List.length_cons] at hshort
      omega

/-- With one or two bytes left the scan ends, and finds nothing. -/
theorem gives_short (pre : List U8) (payload : Bytes) (reads : List Nat) {l : OptionList}
    (hpos : l.encode ≠ []) (hshort : l.encode.length ≤ 2) :
    Gives (followedBy (pre ++ l.encode) payload) (pre ++ l.encode).length pre.length reads
        l.wscale ∧
      l.ends ≤ 2 ∧ ¬ l.RunsThrough := by
  obtain ⟨byte, rest, hbytes⟩ := List.exists_cons_of_ne_nil hpos
  have hbyte : followedBy (pre ++ l.encode) payload pre.length = byte := by
    rw [hbytes]
    exact followed_by_at pre rest byte payload
  have hnone : l.options.findSome? TcpOption.shift = none := by
    refine List.findSome?_eq_none_iff.mpr fun o ho => ?_
    by_contra hne
    have hlong := OptionList.shift_length (Option.isSome_iff_ne_none.mpr hne)
    have hle := OptionList.length_le ho
    omega
  have hwscale : l.wscale = ⟨0, 0, 0⟩ := by
    rw [OptionList.wscale, hnone]
  refine ⟨(gives_stop ?_).mpr ?_, Nat.le_trans l.ends_le hshort, ?_⟩
  · rintro ⟨-, hlong⟩
    rw [List.length_append] at hlong
    omega
  · rw [hbyte, if_neg (short_head hbytes hshort), hwscale]
  · rintro ⟨hends, hlast⟩
    cases hopts : l.options.getLast? with
    | none =>
      have hnil := List.getLast?_eq_none_iff.mp hopts
      simp [OptionList.encode, hnil, hends] at hpos
    | some o =>
      have hle := OptionList.length_le (List.mem_of_getLast? hopts)
      have hlong := hlast o hopts
      omega

/-- Nothing is left: the scan looks at the byte behind the options. -/
theorem gives_behind (reads : List Nat) :
    Gives (followedBy pre payload) pre.length pre.length reads ⟨0, 0, 0⟩ ↔ payload 0 ≠ 3 := by
  rw [gives_stop (by omega), followed_by_end]
  by_cases hthree : payload 0 = 3
  · rw [if_pos hthree, hthree]
    simp
  · rw [if_neg hthree]
    exact iff_of_true rfl hthree

/-- Only END options are left. -/
theorem gives_ends (ends : Nat) (reads : List Nat) :
    Gives (followedBy (pre ++ OptionList.encode ⟨[], ends⟩) payload)
        (pre ++ OptionList.encode ⟨[], ends⟩).length pre.length reads ⟨0, 0, 0⟩ ↔
      ends ≤ 2 ∧ (OptionList.RunsThrough ⟨[], ends⟩ → payload 0 ≠ 3) := by
  rcases Nat.eq_zero_or_pos ends with rfl | hpos
  · have hthrough : OptionList.RunsThrough ⟨[], 0⟩ := ⟨rfl, by simp⟩
    have hnil : pre ++ OptionList.encode ⟨[], 0⟩ = pre := by simp [OptionList.encode]
    rw [hnil, gives_behind]
    simp [hthrough]
  by_cases htwo : ends ≤ 2
  · have hne : OptionList.encode ⟨[], ends⟩ ≠ [] := by
      simp [OptionList.encode]
      omega
    have hshort : (OptionList.encode ⟨[], ends⟩).length ≤ 2 := by
      simpa [OptionList.encode] using htwo
    obtain ⟨hgives, -, hthrough⟩ := gives_short pre payload reads hne hshort
    exact iff_of_true hgives ⟨htwo, fun h => absurd h hthrough⟩
  · obtain ⟨k, rfl⟩ : ∃ k, ends = k + 3 := ⟨ends - 3, by omega⟩
    have hbytes : OptionList.encode ⟨[], k + 3⟩ = 0 :: 0 :: 0 :: List.replicate k 0 := rfl
    rw [hbytes]
    refine iff_of_false ?_ fun h => htwo h.1
    rintro ⟨stop, all, hscan, -⟩
    refine not_scans_to_zero ?_ ?_ ?_ (followed_by_next ..) hscan
    · rw [followed_by_at]
      decide
    · rw [followed_by_at]
      decide
    · simp

/-- The scan stops at a window-scale option. -/
theorem gives_scale (shift : U8) (rest : List U8) (reads : List Nat) :
    Gives (followedBy (pre ++ 3 :: 3 :: shift :: rest) payload)
      (pre ++ 3 :: 3 :: shift :: rest).length pre.length reads ⟨3, 3, shift⟩ := by
  have hbyte := followed_by_at pre (3 :: shift :: rest) 3 payload
  have hnext : followedBy (pre ++ 3 :: 3 :: shift :: rest) payload (pre.length + 1) = 3 :=
    followed_by_next ..
  have hlast : followedBy (pre ++ 3 :: 3 :: shift :: rest) payload (pre.length + 2) = shift := by
    simp [followedBy]
  refine (gives_stop fun hgo => hgo.1 hbyte).mpr ?_
  rw [if_pos hbyte, hbyte, hnext, hlast]

/-- It goes on behind any other option that does not end the area. -/
theorem gives_behind_option {o : TcpOption} {rest : List U8} {reads : List Nat} {wscale : Wscale}
    (hshift : o.shift = none) (hlong : 3 ≤ (o.encode ++ rest).length) : ∃ reads',
    Gives (followedBy (pre ++ (o.encode ++ rest)) payload) (pre ++ (o.encode ++ rest)).length
        pre.length reads wscale ↔
      Gives (followedBy (pre ++ o.encode ++ rest) payload) (pre ++ o.encode ++ rest).length
        (pre ++ o.encode).length reads' wscale := by
  have hin : pre.length + 2 < (pre ++ (o.encode ++ rest)).length := by
    rw [List.length_append]
    omega
  rw [List.append_assoc]
  cases o with
  | nop =>
    have hoff : (pre ++ TcpOption.nop.encode).length = pre.length + 1 := List.length_append
    rw [hoff]
    exact ⟨_, gives_nop (followed_by_at pre rest 1 payload) hin⟩
  | valued v =>
    have hkind : followedBy (pre ++ ((TcpOption.valued v).encode ++ rest)) payload pre.length =
        v.kind := followed_by_at ..
    have hlength : followedBy (pre ++ ((TcpOption.valued v).encode ++ rest)) payload
        (pre.length + 1) = BitVec.ofNat 8 (v.value.length + 2) := followed_by_next ..
    have hoff : (pre ++ (TcpOption.valued v).encode).length =
        pre.length + (BitVec.ofNat 8 (v.value.length + 2)).toNat := by
      rw [BitVec.toNat_ofNat, Nat.mod_eq_of_lt v.fits]
      simp [TcpOption.encode]
    rw [hoff, ← hlength]
    refine ⟨_, gives_option ?_ ?_ hin⟩
    · rw [hkind]
      exact v.notNop
    · rw [hkind]
      exact OptionList.kind_of_shift_none hshift

/-- The scan from the first option that is left. -/
theorem gives_iff (pre : List U8) (payload : Bytes) (options : List TcpOption) (ends : Nat)
    (reads : List Nat) :
    Gives (followedBy (pre ++ OptionList.encode ⟨options, ends⟩) payload)
        (pre ++ OptionList.encode ⟨options, ends⟩).length pre.length reads
        (OptionList.wscale ⟨options, ends⟩) ↔
      OptionList.Found ⟨options, ends⟩ payload := by
  induction options generalizing pre reads with
  | nil =>
    have hnone : ¬ ∃ o ∈ ([] : List TcpOption), o.shift.isSome := by simp
    exact (gives_ends ends reads).trans (or_iff_right hnone).symm
  | cons o options ih =>
    by_cases hshort : (OptionList.encode ⟨o :: options, ends⟩).length ≤ 2
    · have hne : OptionList.encode ⟨o :: options, ends⟩ ≠ [] := by
        rw [OptionList.encode_cons]
        cases o <;> simp [TcpOption.encode]
      obtain ⟨hgives, hends, hthrough⟩ := gives_short pre payload reads hne hshort
      exact iff_of_true hgives (.inr ⟨hends, fun h => absurd h hthrough⟩)
    have hlong : 3 ≤ (OptionList.encode ⟨o :: options, ends⟩).length := by omega
    cases hshift : o.shift with
    | some shift =>
      have hfound : OptionList.Found ⟨o :: options, ends⟩ payload :=
        .inl ⟨o, List.mem_cons_self, by simp [hshift]⟩
      refine iff_of_true ?_ hfound
      cases o with
      | nop => cases hshift
      | valued v =>
        obtain ⟨hencode, hwscale⟩ := OptionList.wscale_of_shift hshift
        rw [hwscale, OptionList.encode_cons, hencode]
        exact gives_scale shift _ reads
    | none =>
      rw [OptionList.found_cons hshift hlong, OptionList.wscale_cons hshift]
      rw [OptionList.encode_cons] at hlong ⊢
      obtain ⟨reads', hbehind⟩ := gives_behind_option hshift hlong
      exact hbehind.trans (ih _ reads')

end Walk

/-- The option is extracted exactly if there is one or its absence is found out. -/
theorem window_scale_iff (l : OptionList) (payload : Bytes) {doff : BitVec 4} (h : 5 ≤ doff)
    (hfills : l.encode.length = doff.toNat * 4 - 20) :
    Extracts l payload (optLen doff) ↔ l.Found payload := by
  rw [opt_len_eq h, ← hfills]
  exact extract_scale_iff.trans (gives_iff [] payload l.options l.ends [])

def maximumSegment : TcpOption := .valued ⟨2, [5, 180], by decide, by decide, by decide, by decide⟩

def scaleBySeven : TcpOption := .valued ⟨3, [7], by decide, by decide, by decide, by decide⟩

/-- A segment size, a NOP and a window scale. -/
theorem window_scale_iff_seven :
    Extracts ⟨[maximumSegment, .nop, scaleBySeven], 0⟩ (fun _ => 0) (optLen 7) :=
  (window_scale_iff ⟨[maximumSegment, .nop, scaleBySeven], 0⟩ _ (by decide) (by decide)).mpr
    (.inl ⟨scaleBySeven, by simp, by decide⟩)

/-- A segment size fills the options, and the payload begins with a 3. -/
theorem payload_taken_for_scale : ¬ ∀ (l : OptionList) payload (doff : BitVec 4), 5 ≤ doff →
    l.encode.length = doff.toNat * 4 - 20 → Extracts l payload (optLen doff) := by
  intro h
  have hextracts := h ⟨[maximumSegment], 0⟩ (fun _ => 3) 6 (by decide) (by decide)
  rw [opt_len_eq (by decide)] at hextracts
  have hgives := extract_scale_iff.mp hextracts
  have hfound := (gives_iff [] (fun _ => 3) [maximumSegment] 0 []).mp hgives
  rcases hfound with ⟨o, ho, hshift⟩ | ⟨-, hthrough⟩
  · rw [List.mem_singleton.mp ho] at hshift
    exact absurd hshift (by decide)
  · refine hthrough ⟨rfl, fun o ho => ?_⟩ rfl
    obtain rfl := Option.some.inj ho
    decide

end ApTelemetry.Flow
