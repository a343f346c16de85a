import ApTelemetry.TcpInfo.Server

namespace ApTelemetry.TcpInfo
open Lib Ofproto

/-- An address, by its octets. -/
structure Ip where
  a : U8
  b : U8
  c : U8
  d : U8
  deriving DecidableEq

def Ip.text (ip : Ip) : Str := dotted ip.a ip.b ip.c ip.d

/-- What is asked: the ends of a connection. -/
structure Query where
  src : Ip
  dst : Ip
  srcPort : U16
  dstPort : U16
  deriving DecidableEq

/-- The query as it stands in `struct tcp_ss`. -/
def Query.ends (q : Query) : Ends := ⟨q.src.text, q.dst.text, q.srcPort, q.dstPort⟩

/-- A text that can stand between a colon and a blank. -/
structure Word (s : Str) : Prop where
  ne : s ≠ []
  blank : ' ' ∉ s
  colon : ':' ∉ s
  dot : '.' ∉ s
  feed : '\n' ∉ s

/-- The names that `ss` prints for some ports. -/
structure Services where
  name : U16 → Option Str
  word : ∀ p s, name p = some s → Word s

/-- A port as `ss` prints it. -/
def Services.text (services : Services) (port : U16) : Str :=
  (services.name port).getD (Nat.toDigits 10 port.toNat)

/-- A connection in the output of `ss -4 -t -i`: the columns of its first line with
the blanks between them, and the words of its information line. -/
structure Row where
  state : Str
  gap0 : Nat
  recvQ : Nat
  gap1 : Nat
  sendQ : Nat
  gap2 : Nat
  localIp : Ip
  localPort : U16
  gap3 : Nat
  peerIp : Ip
  peerPort : U16
  gap4 : Nat
  words : List Str
  deriving DecidableEq

def blanks (n : Nat) : Str := List.replicate n ' '

namespace Row

/-- The line up to the local address. -/
def front (c : Row) : Str :=
  c.state ++ blanks (c.gap0 + 1) ++ Nat.toDigits 10 c.recvQ ++ blanks (c.gap1 + 1) ++
    Nat.toDigits 10 c.sendQ ++ blanks c.gap2 ++ [' ']

/-- The connection line without its line feed. -/
def line (services : Services) (c : Row) : Str :=
  c.front ++ (c.localIp.text ++ ':' :: (services.text c.localPort ++ ' ' :: (blanks c.gap3 ++
    (c.peerIp.text ++ ':' :: (services.text c.peerPort ++ blanks c.gap4)))))

/-- The information line without its line feed. -/
def info (c : Row) : Str := '\t' :: ' ' :: [' '].intercalate c.words

/-- The number of the first word that shows one under a name. -/
def number (name : Str) (c : Row) : Option Nat :=
  c.words.findSome? fun w => if name.isPrefixOf w then Str.toNat? (w.drop name.length) else none

def cwnd (c : Row) : Option Nat := c.number "cwnd:".toList

def mss (c : Row) : Option Nat := c.number "mss:".toList

def ends (c : Row) : Query := ⟨c.localIp, c.peerIp, c.localPort, c.peerPort⟩

end Row

/-- A connection as `ss` lists it. Its line fits into an output line of 300 characters,
and its information line, which starts with the name of an algorithm, shows no address. -/
structure Conn (services : Services) extends Row where
  state_ne : state ≠ []
  state_plain : ∀ x ∈ state, x ≠ '.' ∧ x ≠ ':' ∧ x ≠ '\n'
  fits : (toRow.line services).length < 299
  info_long : 4 ≤ toRow.info.length
  info_line : '\n' ∉ toRow.info
  info_plain : ∀ ip : Ip, ¬ ip.text <:+: toRow.info

/-- The first line of the output. -/
def header : Str :=
  "State      Recv-Q Send-Q      Local Address:Port          Peer Address:Port   ".toList

/-- The output of `ss`. -/
def output {services : Services} (conns : List (Conn services)) : Str :=
  header ++ '\n' :: conns.flatMap fun c => c.line services ++ '\n' :: (c.info ++ ['\n'])

/-- The lines that `fgets` makes of an information line. -/
def infoLines (c : Row) : List Str := Str.fgetsAll 299 299 (c.info ++ ['\n'])

/-- The line that is read behind the line of a connection. -/
def infoLine (c : Row) : Str := (infoLines c).headD []

/-- A connection that the server takes for the one asked for: the addresses stand
somewhere in its own, and its ports as they are read are the ports asked for. -/
structure Taken (services : Services) (q : Query) (behind : Behind) (c : Row) : Prop where
  src : q.src.text <:+: c.localIp.text
  dst : q.dst.text <:+: c.localIp.text ∨ q.dst.text <:+: c.peerIp.text
  srcPort : atoi (services.text c.localPort ++ behind.src) = q.srcPort.toNat
  blank : 0 < c.gap4
  dstPort : portDst (services.text c.peerPort ++ behind.dst) = q.dstPort.toNat

instance (services : Services) (q : Query) (behind : Behind) (c : Row) :
    Decidable (Taken services q behind c) :=
  decidable_of_iff (q.src.text <:+: c.localIp.text ∧
    (q.dst.text <:+: c.localIp.text ∨ q.dst.text <:+: c.peerIp.text) ∧
    atoi (services.text c.localPort ++ behind.src) = q.srcPort.toNat ∧ 0 < c.gap4 ∧
    portDst (services.text c.peerPort ++ behind.dst) = q.dstPort.toNat)
    ⟨fun h => ⟨h.1, h.2.1, h.2.2.1, h.2.2.2.1, h.2.2.2.2⟩,
      fun h => ⟨h.src, h.dst, h.srcPort, h.blank, h.dstPort⟩⟩

/-- The front part of a list up to the first item of a kind, that item included. -/
def upTo {α : Type} (stop : α → Bool) : List α → List α
  | [] => []
  | x :: xs => if stop x then [x] else x :: upTo stop xs

/-- Behind this information line no further line is read. -/
def Row.stops (c : Row) : Bool :=
  (cwndText (infoLine c)).isNone || (mssText (infoLine c)).isNone

section Readings

variable {services : Services}

/-- Each connection with what lies behind the copies made of its lines; `i` is the
number of the first line. -/
def placed (behind : Nat → Behind) : Nat → List (Conn services) → List (Row × Behind)
  | _, [] => []
  | i, c :: conns =>
    (c.toRow, behind i) :: placed behind (i + 1 + (infoLines c.toRow).length) conns

/-- The connections whose information lines are read. -/
def consulted (services : Services) (q : Query) (entries : List (Row × Behind)) :
    List (Row × Behind) :=
  upTo (fun e => e.1.stops) (entries.filter fun e => Taken services q e.2 e.1)

/-- The numbers read behind `cwnd:`, in the order of the lines. -/
def cwndsRead (entries : List (Row × Behind)) : List Int :=
  entries.filterMap fun e => (cwndText (infoLine e.1)).map fun str => atoi (str ++ e.2.cwnd)

/-- The numbers read behind `mss:`, which is searched where a `cwnd` was found. -/
def mssRead (entries : List (Row × Behind)) : List Int :=
  entries.filterMap fun e => (cwndText (infoLine e.1)).bind fun _ =>
    (mssText (infoLine e.1)).map fun str => atoi (str ++ e.2.mss)

end Readings

section Texts

variable {services : Services} {ip : Ip}

theorem Ip.text_plain {c : Char} (h : c ∈ ip.text) : c.isDigit = true ∨ c = '.' :=
  dotted_plain ip.a ip.b ip.c ip.d c h

theorem Ip.dot_mem (ip : Ip) : '.' ∈ ip.text := by
  simp [Ip.text, dotted_eq]

theorem Ip.text_ne (ip : Ip) : ip.text ≠ [] := List.ne_nil_of_mem ip.dot_mem

theorem Ip.not_mem {c : Char} (hdigit : c.isDigit = false) (hdot : c ≠ '.') : c ∉ ip.text := by
  intro h
  rcases Ip.text_plain h with h | h
  · simp [hdigit] at h
  · exact hdot h

/-- An address is not found in a text without a dot. -/
theorem Ip.absent {s : Str} (h : '.' ∉ s) : ¬ ip.text <:+: s :=
  fun hi => h (hi.subset ip.dot_mem)

theorem Services.text_word (services : Services) (port : U16) : Word (services.text port) := by
  unfold Services.text
  cases hname : services.name port with
  | some s => exact services.word port s hname
  | none =>
    have hdigits : ∀ c ∈ Nat.toDigits 10 port.toNat, c.isDigit = true := to_digits_digit
    refine ⟨Nat.toDigits_ne_nil, fun h => ?_, fun h => ?_, fun h => ?_, fun h => ?_⟩
    · exact absurd (hdigits _ h) (by decide)
    · exact absurd (hdigits _ h) (by decide)
    · exact absurd (hdigits _ h) (by decide)
    · exact absurd (hdigits _ h) (by decide)

end Texts

namespace Row

variable {services : Services} {c : Row} {ip : Ip}

/-- The line up to the peer's address. -/
def toPeer (services : Services) (c : Row) : Str :=
  c.front ++ (c.localIp.text ++ ':' :: (services.text c.localPort ++ ' ' :: blanks c.gap3))

theorem line_peer (services : Services) (c : Row) : c.line services =
    c.toPeer services ++ (c.peerIp.text ++ ':' :: (services.text c.peerPort ++ blanks c.gap4)) := by
  simp [line, toPeer]

theorem not_mem_blanks {x : Char} (h : x ≠ ' ') (n : Nat) : x ∉ blanks n := by
  simp [blanks, h]

theorem not_mem_digits {x : Char} (h : x.isDigit = false) (n : Nat) : x ∉ Nat.toDigits 10 n := by
  intro hm
  simp [to_digits_digit x hm] at h

theorem front_ne (c : Row) : 0 < c.front.length := by
  simp [front]

theorem not_mem_front {x : Char} (hstate : x ∉ c.state) (hblank : x ≠ ' ')
    (hdigit : x.isDigit = false) : x ∉ c.front := by
  simp [front, hstate, not_mem_blanks hblank, not_mem_digits hdigit, hblank]

/-- Addresses are not found in front of the local one. -/
theorem front_passes (h : '.' ∉ c.state) : Passes ip.text c.front := by
  have hdot : '.' ∉ c.front := not_mem_front h (by decide) (by decide)
  obtain ⟨init, hinit⟩ : ∃ init, c.front = init ++ [' '] := ⟨_, rfl⟩
  rw [hinit]
  rw [hinit, List.mem_append, not_or] at hdot
  exact passes_of_end (Ip.absent hdot.1) (Ip.not_mem (by decide) (by decide)) ip.text_ne

/-- Nor across a local address in which they are not found. -/
theorem to_peer_passes (services : Services) (h : '.' ∉ c.state)
    (hlocal : ¬ ip.text <:+: c.localIp.text) : Passes ip.text (c.toPeer services) := by
  have hword := services.text_word c.localPort
  have hgap : Passes ip.text (services.text c.localPort ++ ' ' :: blanks c.gap3) := by
    obtain ⟨init, hinit⟩ : ∃ init, services.text c.localPort ++ ' ' :: blanks c.gap3 =
        init ++ [' '] := by
      refine ⟨services.text c.localPort ++ blanks c.gap3, ?_⟩
      rw [List.append_assoc]
      exact congrArg _ (List.replicate_succ'.symm.trans List.replicate_succ).symm
    have hdot : '.' ∉ services.text c.localPort ++ ' ' :: blanks c.gap3 := by
      simp [hword.dot, not_mem_blanks]
    rw [hinit, List.mem_append, not_or] at hdot
    rw [hinit]
    exact passes_of_end (Ip.absent hdot.1) (Ip.not_mem (by decide) (by decide)) ip.text_ne
  have haddr : Passes ip.text (c.localIp.text ++ [':']) :=
    passes_of_end hlocal (Ip.not_mem (by decide) (by decide)) ip.text_ne
  have hall := (front_passes h).append (haddr.append hgap)
  simpa [toPeer] using hall

/-- Where an address is found in the line. -/
theorem find_local (services : Services) (h : '.' ∉ c.state)
    (hlocal : ip.text <:+: c.localIp.text) (rest : Str) :
    ∃ before after, c.localIp.text = before ++ (ip.text ++ after) ∧
      strlinger (c.line services ++ rest) ip.text = ((c.front ++ before).length : Nat) := by
  obtain ⟨before, after, hsplit, hindex⟩ := index_of_infix hlocal
  refine ⟨before, after, hsplit, strlinger_some ip.text_ne ?_⟩
  rw [line, List.append_assoc, front_passes h, List.append_assoc, hindex, List.length_append]
  rfl

theorem find_peer (services : Services) (h : '.' ∉ c.state) (hlocal : ¬ ip.text <:+: c.localIp.text)
    (hpeer : ip.text <:+: c.peerIp.text) (rest : Str) :
    ∃ before after, c.peerIp.text = before ++ (ip.text ++ after) ∧
      strlinger (c.line services ++ rest) ip.text =
        ((c.toPeer services ++ before).length : Nat) := by
  obtain ⟨before, after, hsplit, hindex⟩ := index_of_infix hpeer
  refine ⟨before, after, hsplit, strlinger_some ip.text_ne ?_⟩
  rw [line_peer, List.append_assoc, to_peer_passes services h hlocal, List.append_assoc, hindex,
    List.length_append]
  rfl

theorem find_none (h : '.' ∉ c.state) (hlocal : ¬ ip.text <:+: c.localIp.text)
    (hpeer : ¬ ip.text <:+: c.peerIp.text) :
    strlinger (c.line services ++ ['\n']) ip.text = -1 := by
  have haddr : Passes ip.text (c.peerIp.text ++ [':']) :=
    passes_of_end hpeer (Ip.not_mem (by decide) (by decide)) ip.text_ne
  have hword := services.text_word c.peerPort
  have hfeed : Passes ip.text (services.text c.peerPort ++ blanks c.gap4 ++ ['\n']) := by
    refine passes_of_end (Ip.absent ?_) (Ip.not_mem (by decide) (by decide)) ip.text_ne
    simp [hword.dot, not_mem_blanks]
  have hall := (to_peer_passes services h hlocal).append (haddr.append hfeed) []
  refine strlinger_none ip.text_ne ?_
  have hnil : indexOf ip.text [] = none := if_neg ip.text_ne
  rw [hnil] at hall
  simpa [line_peer] using hall

/-- An address is found behind the first character where it stands in one of the two. -/
theorem found_iff (h : '.' ∉ c.state) : 0 < strlinger (c.line services ++ ['\n']) ip.text ↔
    ip.text <:+: c.localIp.text ∨ ip.text <:+: c.peerIp.text := by
  have hfront := c.front_ne
  by_cases hlocal : ip.text <:+: c.localIp.text
  · obtain ⟨before, after, -, hindex⟩ := find_local services h hlocal ['\n']
    rw [hindex, List.length_append]
    exact iff_of_true (by omega) (.inl hlocal)
  · by_cases hpeer : ip.text <:+: c.peerIp.text
    · obtain ⟨before, after, -, hindex⟩ := find_peer services h hlocal hpeer ['\n']
      rw [hindex, toPeer, List.length_append, List.length_append]
      exact iff_of_true (by omega) (.inr hpeer)
    · rw [find_none h hlocal hpeer]
      exact iff_of_false (by omega) (not_or.mpr ⟨hlocal, hpeer⟩)

end Row

end ApTelemetry.TcpInfo
