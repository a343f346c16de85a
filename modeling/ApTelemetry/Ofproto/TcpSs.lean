import Mathlib.Data.List.TakeWhile
import ApTelemetry.Ofproto.MainLinger

namespace ApTelemetry.Ofproto
open Lib

/-- What a request is to say about a flow. -/
structure Ends where
  ipSrc : List Char
  ipDst : List Char
  srcPort : U16
  dstPort : U16
  deriving DecidableEq

/-- The ends of a flow record, whose words stand in network order. -/
def flowEnds (data : List U8) : Ends where
  ipSrc := dotted (load8 data 0) (load8 data 1) (load8 data 2) (load8 data 3)
  ipDst := dotted (load8 data 4) (load8 data 5) (load8 data 6) (load8 data 7)
  srcPort := le16 (load8 data 9) (load8 data 8)
  dstPort := le16 (load8 data 11) (load8 data 10)

/-- A string in an array of characters. -/
def cstring (field : List U8) : List Char :=
  (field.takeWhile fun b => b ≠ 0).map fun b => Char.ofNat b.toNat

/-- The ends a `struct tcp_ss` gives a reader that takes its ports for numbers,
low byte first, as `server.c` does. -/
def requestEnds (message : List U8) : Ends where
  ipSrc := cstring ((message.drop 4).take 18)
  ipDst := cstring ((message.drop 22).take 18)
  srcPort := load16 message 40
  dstPort := load16 message 42

/-- The characters of a dotted address. -/
def Plain (text : List Char) : Prop := ∀ c ∈ text, c.isDigit = true ∨ c = '.'

theorem octet_digits (a : U8) : (Nat.toDigits 10 a.toNat).length ≤ 3 ∧
    ∀ c ∈ Nat.toDigits 10 a.toNat, c.isDigit = true := by
  have hlt := a.isLt
  constructor
  · rw [Nat.length_toDigits_le_iff (by omega) (by omega)]
    omega
  · intro c hc
    exact Nat.isDigit_of_mem_toDigits (by omega) (by omega) hc

section Dotted

variable (a b c d : U8)

theorem dotted_eq : dotted a b c d = Nat.toDigits 10 a.toNat ++ '.' :: (Nat.toDigits 10 b.toNat ++
    '.' :: (Nat.toDigits 10 c.toNat ++ '.' :: Nat.toDigits 10 d.toNat)) := by
  simp [dotted, List.intercalate, List.intersperse]

theorem dotted_length : (dotted a b c d).length ≤ 15 := by
  have ha := (octet_digits a).1
  have hb := (octet_digits b).1
  have hc := (octet_digits c).1
  have hd := (octet_digits d).1
  simp only [dotted_eq, List.length_append, List.length_cons]
  omega

theorem dotted_plain : Plain (dotted a b c d) := by
  intro x hx
  simp only [dotted_eq, List.mem_append, List.mem_cons] at hx
  rcases hx with h | rfl | h | rfl | h | rfl | h
  · exact Or.inl ((octet_digits a).2 x h)
  · exact Or.inr rfl
  · exact Or.inl ((octet_digits b).2 x h)
  · exact Or.inr rfl
  · exact Or.inl ((octet_digits c).2 x h)
  · exact Or.inr rfl
  · exact Or.inl ((octet_digits d).2 x h)

/-- The dots of every address are among the characters looked for. -/
theorem strpbrk_dotted : strpbrk (dotted a b c d) find192 ≠ none := by
  have hdot : '.' ∈ dotted a b c d := by simp [dotted_eq]
  have hne : (dotted a b c d).dropWhile (fun x => x ∉ find192) ≠ [] := by
    intro h
    have hall := List.dropWhile_eq_nil_iff.mp h '.' hdot
    revert hall
    decide
  unfold strpbrk
  split
  · exact absurd (by assumption) hne
  · simp

end Dotted

theorem ip_text_read (o : ByteOrder) (data : List U8) (i : Nat) :
    ipText o (o.read32 data i) =
      dotted (load8 data i) (load8 data (i + 1)) (load8 data (i + 2)) (load8 data (i + 3)) := by
  rw [ipText, o.bytes32_swap_read]
  rfl

/-- A text in an array of `size` characters, the rest cleared. -/
def padded (size : Nat) (text : List Char) : List U8 :=
  text.map ascii ++ List.replicate (size - text.length) 0

theorem ascii_of_digit {c : Char} (h : c.isDigit = true ∨ c = '.') :
    ascii c ≠ 0 ∧ Char.ofNat (ascii c).toNat = c := by
  have hrange : c.toNat < 256 ∧ c.toNat ≠ 0 := by
    rcases h with h | rfl
    · simp only [Char.isDigit, Bool.and_eq_true, decide_eq_true_eq] at h
      have hlow : 48 ≤ c.toNat := h.1
      have hhigh : c.toNat ≤ 57 := h.2
      omega
    · decide
  have hnat : (ascii c).toNat = c.toNat := by
    rw [ascii, BitVec.toNat_ofNat, Nat.mod_eq_of_lt hrange.1]
  refine ⟨?_, ?_⟩
  · intro hzero
    rw [hzero] at hnat
    exact hrange.2 hnat.symm
  · rw [hnat, Char.ofNat_toNat]

theorem cstring_padded {text : List Char} {size : Nat} (hp : Plain text)
    (hlen : text.length < size) : cstring (padded size text) = text := by
  obtain ⟨k, hk⟩ : ∃ k, size - text.length = k + 1 := ⟨size - text.length - 1, by omega⟩
  have htake : (padded size text).takeWhile (fun b => b ≠ 0) = text.map ascii := by
    rw [padded, hk, List.replicate_succ, List.takeWhile_append_of_pos]
    · simp
    · intro b hb
      obtain ⟨c, hc, rfl⟩ := List.mem_map.mp hb
      simpa using (ascii_of_digit (hp c hc)).1
  rw [cstring, htake, List.map_map]
  conv_rhs => rw [← List.map_id text]
  exact List.map_congr_left fun c hc => (ascii_of_digit (hp c hc)).2

theorem padded_take {text : List Char} {n size : Nat} (hn : text.length ≤ n) (hs : n ≤ size) :
    (padded size text).take n = padded n text := by
  rw [padded, List.take_append, List.take_of_length_le (by simpa using hn), List.take_replicate,
    List.length_map, Nat.min_eq_left (by omega), padded]

theorem sprintf20_ok {text : List Char} (h : text.length < 20) :
    sprintf20 text = .ok (padded 20 text) := by
  have hsplit : List.replicate 20 (0 : U8) = [] ++ (List.replicate (text.length + 1) 0 ++
      List.replicate (19 - text.length) 0) := by
    rw [List.nil_append, List.replicate_append_replicate]
    congr 1
    omega
  have hrest : 20 - text.length = 1 + (19 - text.length) := by omega
  rw [sprintf20, hsplit, blit_append List.length_nil (by simp), padded, hrest,
    ← List.replicate_append_replicate]
  simp

@[simp] theorem length_padded {text : List Char} {size : Nat} (h : text.length ≤ size) :
    (padded size text).length = size := by
  simp only [padded, List.length_append, List.length_map, List.length_replicate]
  omega

/-- The block as it is sent, for texts that fit their fields. -/
def message (src dst : List Char) (srcPort dstPort : List U8) : List U8 :=
  List.replicate 4 0 ++ (padded 18 src ++ (padded 18 dst ++ (srcPort ++ (dstPort ++
    List.replicate 4 0))))

/-- Each copy goes two bytes too far, into what the next store overwrites. -/
theorem tcp_ss_ok (o : ByteOrder) (tmp : TcpFlow) (hsrc : (ipText o tmp.ipSrc).length < 18)
    (hdst : (ipText o tmp.ipDst).length < 18) :
    tcpSs o tmp = .ok (message (ipText o tmp.ipSrc) (ipText o tmp.ipDst)
      (o.bytes16 (swap16 tmp.sourceaddr)) (o.bytes16 (swap16 tmp.destination))) := by
  generalize hs : ipText o tmp.ipSrc = src at hsrc ⊢
  generalize hd : ipText o tmp.ipDst = dst at hdst ⊢
  generalize hp : o.bytes16 (swap16 tmp.sourceaddr) = srcPort
  generalize hq : o.bytes16 (swap16 tmp.destination) = dstPort
  have hplen : srcPort.length = 2 := by rw [← hp]; cases o <;> rfl
  have hqlen : dstPort.length = 2 := by rw [← hq]; cases o <;> rfl
  have hover (text : List Char) (h : text.length < 18) :
      ∃ extra, extra.length = 2 ∧ padded 20 text = padded 18 text ++ extra := by
    refine ⟨(padded 20 text).drop 18, by simp [h.le.trans (by omega : 18 ≤ 20)], ?_⟩
    rw [← padded_take (Nat.le_of_lt h) (by omega : 18 ≤ 20), List.take_append_drop]
  obtain ⟨extra, hlen, hsplit⟩ := hover src hsrc
  obtain ⟨extra', hlen', hsplit'⟩ := hover dst hdst
  have hsrc18 : (padded 18 src).length = 18 := length_padded (Nat.le_of_lt hsrc)
  have hdst18 : (padded 18 dst).length = 18 := length_padded (Nat.le_of_lt hdst)
  -- the block in front of each copy, split around the part it replaces
  have hfirst : blit (List.replicate 4 0 ++ (List.replicate 20 0 ++ List.replicate 24 0)) 4
      (padded 20 src) = .ok (List.replicate 4 0 ++ (padded 20 src ++ List.replicate 24 0)) :=
    blit_append rfl (by rw [length_padded (by omega)]; rfl)
  have hsecond : blit ((List.replicate 4 0 ++ padded 18 src) ++
      ((extra ++ List.replicate 18 0) ++ List.replicate 6 0)) 22 (padded 20 dst) =
      .ok ((List.replicate 4 0 ++ padded 18 src) ++ (padded 20 dst ++ List.replicate 6 0)) :=
    blit_append (by simp [hsrc18]) (by rw [length_padded (by omega)]; simp [hlen])
  have hthird : blit ((List.replicate 4 0 ++ padded 18 src ++ padded 18 dst) ++
      (extra' ++ List.replicate 6 0)) 40 srcPort =
      .ok ((List.replicate 4 0 ++ padded 18 src ++ padded 18 dst) ++
        (srcPort ++ List.replicate 6 0)) :=
    blit_append (by simp [hsrc18, hdst18]) (hlen'.trans hplen.symm)
  have hfourth : blit ((List.replicate 4 0 ++ padded 18 src ++ padded 18 dst ++ srcPort) ++
      (List.replicate 2 0 ++ List.replicate 4 0)) 42 dstPort =
      .ok ((List.replicate 4 0 ++ padded 18 src ++ padded 18 dst ++ srcPort) ++
        (dstPort ++ List.replicate 4 0)) :=
    blit_append (by simp [hsrc18, hdst18, hplen]) (by simp [hqlen])
  have hzero : List.replicate 48 (0 : U8) =
      List.replicate 4 0 ++ (List.replicate 20 0 ++ List.replicate 24 0) := rfl
  have hzero24 : List.replicate 24 (0 : U8) = List.replicate 18 0 ++ List.replicate 6 0 := rfl
  have hzero6 : List.replicate 6 (0 : U8) = List.replicate 2 0 ++ List.replicate 4 0 := rfl
  have hsrc20 := sprintf20_ok (hsrc.trans (by omega : 18 < 20))
  have hdst20 := sprintf20_ok (hdst.trans (by omega : 18 < 20))
  simp only [List.append_assoc] at hsecond hthird hfourth
  simp only [tcpSs, hs, hd, hp, hq, hsrc20, hdst20, bind, Except.bind]
  rw [hzero, hfirst]
  simp only [hsplit, hzero24, List.append_assoc]
  rw [hsecond]
  simp only [hsplit', List.append_assoc]
  rw [hthird]
  simp only [hzero6]
  rw [hfourth, message]

theorem request_ends_message {src dst : List Char} (hsrc : Plain src) (hdst : Plain dst)
    (hsrcLen : src.length < 18) (hdstLen : dst.length < 18) (p0 p1 q0 q1 : U8) :
    requestEnds (message src dst [p0, p1] [q0, q1]) = ⟨src, dst, le16 p0 p1, le16 q0 q1⟩ := by
  have hsrc18 : (padded 18 src).length = 18 := length_padded (Nat.le_of_lt hsrcLen)
  have hdst18 : (padded 18 dst).length = 18 := length_padded (Nat.le_of_lt hdstLen)
  have hat4 : ((message src dst [p0, p1] [q0, q1]).drop 4).take 18 = padded 18 src := by
    rw [message, List.drop_left' List.length_replicate, List.take_left' hsrc18]
  have hat22 : ((message src dst [p0, p1] [q0, q1]).drop 22).take 18 = padded 18 dst := by
    rw [message, ← List.append_assoc, List.drop_left' (by simp [hsrc18]), List.take_left' hdst18]
  have hat40 : (message src dst [p0, p1] [q0, q1]).drop 40 =
      [p0, p1] ++ ([q0, q1] ++ List.replicate 4 0) := by
    rw [message, ← List.append_assoc, ← List.append_assoc,
      List.drop_left' (by simp [hsrc18, hdst18])]
  have hat42 : (message src dst [p0, p1] [q0, q1]).drop 42 = [q0, q1] ++ List.replicate 4 0 := by
    rw [← List.drop_drop (i := 2) (j := 40), hat40]
    rfl
  simp only [requestEnds, hat4, hat22, load16, hat40, hat42, cstring_padded hsrc hsrcLen,
    cstring_padded hdst hdstLen]
  rfl

/-- The block made for a flow. -/
def flowMessage (o : ByteOrder) (tmp : TcpFlow) : List U8 :=
  message (ipText o tmp.ipSrc) (ipText o tmp.ipDst) (o.bytes16 (swap16 tmp.sourceaddr))
    (o.bytes16 (swap16 tmp.destination))

theorem ip_text_length (o : ByteOrder) (ip : U32) : (ipText o ip).length < 18 :=
  Nat.lt_of_le_of_lt (dotted_length _ _ _ _) (by omega)

theorem ip_text_plain (o : ByteOrder) (ip : U32) : Plain (ipText o ip) := dotted_plain _ _ _ _

/-- The block says of a flow record what stands in it, on either kind of machine. -/
theorem request_ends_flow (o : ByteOrder) (data : List U8) :
    requestEnds (flowMessage o (readTcpFlow o data)) = flowEnds data := by
  have hlen := ip_text_length o
  have hplain := ip_text_plain o
  rw [flowMessage, readTcpFlow, o.bytes16_swap_read, o.bytes16_swap_read,
    request_ends_message (hplain _) (hplain _) (hlen _) (hlen _), ip_text_read, ip_text_read,
    flowEnds]

/-- A flow with packets, of which exactly one address is the station's. -/
def Qualifies (station : Mac) (tmp : TcpFlow) : Prop :=
  tmp.packets ≠ 0 ∧ (tmp.ethSrc = station ↔ tmp.ethDst ≠ station)

instance (station : Mac) (tmp : TcpFlow) : Decidable (Qualifies station tmp) :=
  inferInstanceAs (Decidable (_ ∧ _))

theorem strcmp_linger_eq (s t : Mac) : strcmpLinger s t = if s = t then 0 else 1 := by
  have hbyte (a b : U8) : a.toInt - b.toInt = 0 ↔ a = b := by
    rw [Int.sub_eq_zero, BitVec.toInt_inj]
  have hall : ([(s.b0, t.b0), (s.b1, t.b1), (s.b2, t.b2), (s.b3, t.b3), (s.b4, t.b4),
      (s.b5, t.b5)].filter fun p => p.1.toInt - p.2.toInt = 0).length = 6 ↔ s = t := by
    refine (List.length_filter_eq_length_iff (l := [_, _, _, _, _, _])).trans ?_
    cases s
    cases t
    simp [hbyte]
  rw [strcmpLinger]
  simp only [hall]

/-- `strpbrk` lets every flow pass that got so far. -/
theorem choose_flow_eq (o : ByteOrder) (station : Mac) (tmp : TcpFlow) :
    chooseFlow o station tmp =
      .ok (if Qualifies station tmp then some (flowMessage o tmp) else none) := by
  have hone : strcmpLinger tmp.ethSrc station + strcmpLinger tmp.ethDst station = 1 ↔
      (tmp.ethSrc = station ↔ tmp.ethDst ≠ station) := by
    rw [strcmp_linger_eq, strcmp_linger_eq]
    by_cases hs : tmp.ethSrc = station <;> by_cases hd : tmp.ethDst = station <;> simp [hs, hd]
  have hfound : strpbrk (ipText o tmp.ipSrc) find192 ≠ none := strpbrk_dotted _ _ _ _
  unfold chooseFlow
  by_cases hp : tmp.packets = 0
  · have hnot : ¬ Qualifies station tmp := fun h => h.1 hp
    rw [if_pos hp, if_neg hnot]
  by_cases hq : tmp.ethSrc = station ↔ tmp.ethDst ≠ station
  · have hqualifies : Qualifies station tmp := ⟨hp, hq⟩
    obtain ⟨rest, hrest⟩ := Option.ne_none_iff_exists'.mp hfound
    rw [if_neg hp, if_pos (hone.mpr hq), if_pos hqualifies, hrest,
      tcp_ss_ok o tmp (ip_text_length o _) (ip_text_length o _)]
    rfl
  · have hnot : ¬ Qualifies station tmp := fun h => hq h.2
    rw [if_neg hp, if_neg (mt hone.mp hq), if_neg hnot]

end ApTelemetry.Ofproto
