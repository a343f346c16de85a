import ApTelemetry.Lib.Buffer
import ApTelemetry.Lib.Table
import ApTelemetry.Structs
import Mathlib.Algebra.BigOperators.Fin
import Mathlib.Data.BitVec
import Mathlib.Data.Fin.VecNotation
import Mathlib.Data.Fintype.Pi
import Mathlib.Tactic.Abel

namespace ApTelemetry.SchGeneric
open Lib

abbrev Band := Fin 3

structure SkBuff (H : Type) where
  hdr : H
  len : U32
  pktLen : U32
  gsoSegs : U32
  priority : U32

/-- A packet that has left its queue: `taken` by a dequeue, or freed in a reset. -/
structure Leaving (H : Type) where
  skb : SkBuff H
  taken : Bool

/-- The qdisc, its `gso_skb`, and the history of what came and what has left, which nothing
reads. -/
structure Qdisc (H : Type) where
  parent : U32
  oneTxQueue : Bool
  bitmap : U32
  bands : Band → List (SkBuff H)
  qlen : U32
  backlog : U32
  drops : U32
  requeues : U32
  overlimits : U32
  packets : U32
  bytes : U64
  gsoSkb : List (SkBuff H)
  admitted : List (SkBuff H)
  left : List (Leaving H)

def prio2band : Fin 16 → Band := ![1, 2, 2, 2, 1, 2, 0, 0, 1, 1, 1, 1, 1, 1, 1, 1]

/-- Where `-1` means no band. -/
def bitmap2band : List (Option Band) :=
  [none, some 0, some 1, some 0, some 2, some 0, some 1, some 0]

variable {H : Type}

/-- `skb->priority & TC_PRIO_MAX` are the last four bits. -/
def SkBuff.band (skb : SkBuff H) : Band := prio2band (skb.priority.setWidth 4).toFin

def pfifoFastEnqueue (txQueueLen : Nat) (skb : SkBuff H) (q : Qdisc H) : Bool × Qdisc H :=
  if q.qlen.toNat < txQueueLen then
    (true, { q with
      bitmap := q.bitmap ||| (1 : U32) <<< skb.band.val
      qlen := q.qlen + 1
      bands := Function.update q.bands skb.band (q.bands skb.band ++ [skb])
      backlog := q.backlog + skb.pktLen
      admitted := q.admitted ++ [skb] })
  else (false, { q with drops := q.drops + 1 })

/-- `__qdisc_dequeue_head` with a packet at the head of the band. -/
def takeHead (band : Band) (skb : SkBuff H) (rest : List (SkBuff H)) (q : Qdisc H) : Qdisc H :=
  { q with
    bands := Function.update q.bands band rest
    backlog := q.backlog - skb.pktLen
    bytes := q.bytes + skb.pktLen.setWidth 64
    packets := q.packets + skb.gsoSegs
    left := q.left ++ [⟨skb, true⟩] }

/-- `priv->bitmap &= ~(1 << band)` -/
def clearIfEmpty (band : Band) (q : Qdisc H) : Qdisc H :=
  if (q.bands band).isEmpty then { q with bitmap := q.bitmap &&& ~~~((1 : U32) <<< band.val) }
  else q

def pfifoFastDequeue (q : Qdisc H) : Except Fault (Option (SkBuff H) × Qdisc H) :=
  match bitmap2band[q.bitmap.toNat]? with
  | none => .error .outside
  | some none => .ok (none, q)
  | some (some band) =>
    match q.bands band with
    | [] => .ok (none, clearIfEmpty band { q with qlen := q.qlen - 1 })
    | skb :: rest =>
      .ok (some skb, clearIfEmpty band { takeHead band skb rest q with qlen := q.qlen - 1 })

def pfifoFastReset (q : Qdisc H) : Qdisc H :=
  { q with
    bands := fun _ => []
    bitmap := 0
    backlog := 0
    qlen := 0
    left := q.left ++ (q.bands 0 ++ q.bands 1 ++ q.bands 2).map fun skb => ⟨skb, false⟩ }

def qdiscReset (q : Qdisc H) : Qdisc H :=
  let q := pfifoFastReset q
  if q.gsoSkb.isEmpty then q else { q with gsoSkb := [], qlen := 0 }

section Bitmap

/-- The bitmap of the bands that have packets. -/
def bitmapOf (busy : Band → Bool) : U32 :=
  (if busy 0 then 1 else 0) ||| (if busy 1 then 2 else 0) ||| (if busy 2 then 4 else 0)

/-- The first band that has packets. -/
def firstBand (busy : Band → Bool) : Option Band := (List.finRange 3).find? busy

theorem bitmap_of_set (busy : Band → Bool) (band : Band) :
    bitmapOf busy ||| (1 : U32) <<< band.val = bitmapOf (Function.update busy band true) := by
  decide +revert

theorem bitmap_of_clear (busy : Band → Bool) (band : Band) :
    bitmapOf busy &&& ~~~((1 : U32) <<< band.val) = bitmapOf (Function.update busy band false) := by
  decide +revert

/-- The table has an entry for each bitmap that can occur, and it is the right one. -/
theorem bitmap_to_band (busy : Band → Bool) :
    bitmap2band[(bitmapOf busy).toNat]? = some (firstBand busy) := by
  decide +revert

theorem first_band_none (busy : Band → Bool) (h : firstBand busy = none) (b : Band) :
    busy b = false := by
  decide +revert

/-- All bands in front of the first one are empty. -/
theorem first_band_some (busy : Band → Bool) (band : Band) (h : firstBand busy = some band) :
    busy band = true ∧ ∀ b < band, busy b = false := by
  decide +revert

end Bitmap

def ofBand (b : Band) (packets : List (SkBuff H)) : List (SkBuff H) :=
  packets.filter fun skb => skb.band = b

theorem of_band_append (b : Band) (packets packets' : List (SkBuff H)) :
    ofBand b (packets ++ packets') = ofBand b packets ++ ofBand b packets' :=
  List.filter_append ..

def bytesOf (packets : List (SkBuff H)) : U32 := (packets.map SkBuff.pktLen).sum

def Leaving.bytes (l : Leaving H) : U64 := if l.taken then l.skb.pktLen.setWidth 64 else 0

/-- The bitmap, the backlog and the bytes are exact, and each band has what was admitted to it
and has not left it, in order. -/
structure Qdisc.Exact (q : Qdisc H) : Prop where
  bitmap : q.bitmap = bitmapOf fun b => !(q.bands b).isEmpty
  backlog : q.backlog = ∑ b, bytesOf (q.bands b)
  bytes : q.bytes = (q.left.map Leaving.bytes).sum
  home : ∀ b, ∀ skb ∈ q.bands b, skb.band = b
  order : ∀ b, ofBand b q.admitted = ofBand b (q.left.map Leaving.skb) ++ q.bands b

def Qdisc.queued (q : Qdisc H) : Nat := ∑ b, (q.bands b).length

/-- What a dequeue does to the qdisc. -/
structure Dequeued (q : Qdisc H) (skb : SkBuff H) (t : Qdisc H) : Prop where
  head : q.bands skb.band = skb :: t.bands skb.band
  first : ∀ b < skb.band, q.bands b = []
  others : ∀ b ≠ skb.band, t.bands b = q.bands b
  exact : t.Exact
  qlen : t.qlen = q.qlen - 1
  queued : t.queued + 1 = q.queued
  left : t.left = q.left ++ [⟨skb, true⟩]
  kept : t.gsoSkb = q.gsoSkb ∧ t.admitted = q.admitted ∧ t.parent = q.parent ∧
    t.oneTxQueue = q.oneTxQueue ∧ t.requeues = q.requeues

section Operations

variable {q : Qdisc H}

theorem busy_update (bands : Band → List (SkBuff H)) (band : Band) (queue : List (SkBuff H)) :
    (fun b => !(Function.update bands band queue b).isEmpty) =
      Function.update (fun b => !(bands b).isEmpty) band !queue.isEmpty := by
  funext b
  cases decEq b band with
  | isTrue hb =>
    subst hb
    rw [Function.update_self, Function.update_self]
  | isFalse hb => rw [Function.update_of_ne hb, Function.update_of_ne hb]

theorem Qdisc.Exact.enqueue (h : q.Exact) (txQueueLen : Nat) (skb : SkBuff H) :
    (pfifoFastEnqueue txQueueLen skb q).2.Exact := by
  rw [pfifoFastEnqueue]
  split
  · refine ⟨?_, ?_, h.bytes, ?_, ?_⟩
    · change q.bitmap ||| (1 : U32) <<< skb.band.val = _
      simp only [busy_update, h.bitmap, bitmap_of_set]
      congr 2
      simp
    · have hsum := sum_update q.bands skb.band (q.bands skb.band ++ [skb]) bytesOf
      apply add_right_cancel (b := bytesOf (q.bands skb.band))
      change q.backlog + skb.pktLen + _ = _
      rw [hsum, h.backlog]
      simp only [bytesOf, List.map_append, List.map_cons, List.map_nil, List.sum_append,
        List.sum_singleton]
      abel
    · refine update_forall (P := fun b (queue : List (SkBuff H)) => ∀ skb ∈ queue, skb.band = b)
        ?_ h.home
      intro skb' hskb'
      rcases List.mem_append.mp hskb' with hold | hnew
      · exact h.home _ _ hold
      · rw [List.mem_singleton.mp hnew]
    · intro b
      change ofBand b (q.admitted ++ [skb]) = _ ++ Function.update q.bands skb.band _ b
      rw [of_band_append, h.order]
      cases decEq b skb.band with
      | isTrue hb =>
        subst hb
        rw [Function.update_self]
        simp [ofBand]
      | isFalse hb =>
        rw [Function.update_of_ne hb]
        simp [ofBand, Ne.symm hb]
  · exact ⟨h.bitmap, h.backlog, h.bytes, h.home, h.order⟩

/-- The bits of the bands are right again after a band has lost a packet. -/
theorem clear_bitmap {band : Band} {rest : List (SkBuff H)} {t : Qdisc H} (h : q.Exact)
    (hbusy : q.bands band ≠ []) (hbitmap : t.bitmap = q.bitmap)
    (hbands : t.bands = Function.update q.bands band rest) :
    (clearIfEmpty band t).bitmap = bitmapOf fun b => !(t.bands b).isEmpty := by
  have hsame : Function.update (fun b => !(q.bands b).isEmpty) band true =
      fun b => !(q.bands b).isEmpty := by
    rw [Function.update_eq_self_iff]
    simpa using hbusy
  rw [clearIfEmpty, hbands, Function.update_self]
  simp only [busy_update]
  split
  · rename_i hempty
    change t.bitmap &&& _ = _
    rw [hbitmap, h.bitmap, bitmap_of_clear, hempty]
    rfl
  · rename_i hsome
    rw [hbitmap, h.bitmap, Bool.eq_false_of_not_eq_true hsome]
    exact congrArg bitmapOf hsame.symm

theorem clear_if_empty (band : Band) (t : Qdisc H) :
    clearIfEmpty band t = { t with bitmap := (clearIfEmpty band t).bitmap } := by
  rw [clearIfEmpty]
  split <;> rfl

theorem take_head {skb : SkBuff H} {rest : List (SkBuff H)} (h : q.Exact)
    (hhead : q.bands skb.band = skb :: rest) (hfirst : ∀ b < skb.band, q.bands b = []) :
    Dequeued q skb
      (clearIfEmpty skb.band { takeHead skb.band skb rest q with qlen := q.qlen - 1 }) := by
  have hbusy : q.bands skb.band ≠ [] := hhead ▸ List.cons_ne_nil _ _
  have hbitmap := clear_bitmap (t := { takeHead skb.band skb rest q with qlen := q.qlen - 1 })
    h hbusy rfl rfl
  rw [clear_if_empty]
  refine ⟨?_, hfirst, fun b hb => Function.update_of_ne hb .., ⟨hbitmap, ?_, ?_, ?_, ?_⟩, rfl, ?_,
    rfl, rfl, rfl, rfl, rfl, rfl⟩
  · change _ = skb :: Function.update q.bands skb.band rest skb.band
    rw [Function.update_self, hhead]
  · have hsum := sum_update q.bands skb.band rest bytesOf
    apply add_right_cancel (b := bytesOf (q.bands skb.band))
    change q.backlog - skb.pktLen + _ = _
    refine Eq.trans ?_ hsum.symm
    rw [h.backlog, hhead, bytesOf, List.map_cons, List.sum_cons]
    change _ - _ + (skb.pktLen + bytesOf rest) = _
    abel
  · change q.bytes + skb.pktLen.setWidth 64 =
      ((q.left ++ [(⟨skb, true⟩ : Leaving H)]).map Leaving.bytes).sum
    rw [h.bytes]
    simp [Leaving.bytes]
  · refine update_forall (P := fun b (queue : List (SkBuff H)) => ∀ skb ∈ queue, skb.band = b) ?_
      h.home
    exact fun skb' hskb' => h.home _ _ (hhead ▸ List.mem_cons_of_mem _ hskb')
  · intro b
    change ofBand b q.admitted =
      ofBand b ((q.left ++ [(⟨skb, true⟩ : Leaving H)]).map Leaving.skb) ++
      Function.update q.bands skb.band rest b
    rw [h.order, List.map_append, of_band_append, List.append_assoc]
    cases decEq b skb.band with
    | isTrue hb =>
      subst hb
      rw [Function.update_self, hhead]
      simp [ofBand]
    | isFalse hb =>
      rw [Function.update_of_ne hb]
      simp [ofBand, Ne.symm hb]
  · have hsum := sum_update q.bands skb.band rest List.length
    rw [hhead, List.length_cons] at hsum
    change (∑ b, (Function.update q.bands skb.band rest b).length) + 1 = q.queued
    rw [Qdisc.queued]
    omega

theorem dequeue_runs (h : q.Exact) :
    (pfifoFastDequeue q = .ok (none, q) ∧ ∀ b, q.bands b = []) ∨
      ∃ skb t, pfifoFastDequeue q = .ok (some skb, t) ∧ Dequeued q skb t := by
  have htable : bitmap2band[q.bitmap.toNat]? = some (firstBand fun b => !(q.bands b).isEmpty) := by
    rw [h.bitmap, bitmap_to_band]
  rw [pfifoFastDequeue, htable]
  cases hband : firstBand fun b => !(q.bands b).isEmpty with
  | none =>
    have hnone := first_band_none _ hband
    exact Or.inl ⟨rfl, fun b => by simpa using hnone b⟩
  | some band =>
    obtain ⟨hbusy, hbefore⟩ := first_band_some _ band hband
    cases hhead : q.bands band with
    | nil => simp [hhead] at hbusy
    | cons skb rest =>
      obtain rfl := h.home band skb (hhead ▸ List.mem_cons_self ..)
      refine Or.inr ⟨skb, _, ?_, take_head h hhead fun b hb => by simpa using hbefore b hb⟩
      simp only [hhead]

theorem Qdisc.Exact.of_band_bands (h : q.Exact) (b c : Band) :
    ofBand b (q.bands c) = if c = b then q.bands c else [] := by
  split
  · rename_i hcb
    subst hcb
    exact List.filter_eq_self.mpr fun skb hskb => decide_eq_true (h.home c skb hskb)
  · rename_i hcb
    refine List.filter_eq_nil_iff.mpr fun skb hskb => ?_
    rw [h.home c skb hskb]
    simpa using hcb

/-- The packets freed have left their bands, and none is queued. -/
theorem Qdisc.Exact.reset (h : q.Exact) : (qdiscReset q).Exact := by
  have hreset : (pfifoFastReset q).Exact := by
    refine ⟨?_, ?_, ?_, fun _ _ hskb => absurd hskb List.not_mem_nil, fun b => ?_⟩
    · change 0 = bitmapOf fun _ => false
      decide
    · exact Finset.sum_const_zero.symm
    · change q.bytes = ((q.left ++ _).map Leaving.bytes).sum
      rw [List.map_append, List.sum_append, h.bytes]
      simp [Function.comp_def, Leaving.bytes]
    · change ofBand b q.admitted = ofBand b ((q.left ++ _).map Leaving.skb) ++ []
      have hleft : ofBand b (q.bands 0 ++ (q.bands 1 ++ q.bands 2)) = q.bands b := by
        rw [of_band_append, of_band_append, h.of_band_bands, h.of_band_bands, h.of_band_bands]
        match b with
        | 0 => simp
        | 1 => simp
        | 2 => simp
      rw [h.order, List.append_nil, List.map_append, of_band_append, List.map_map]
      simp [Function.comp_def, hleft]
  rw [qdiscReset]
  split
  · exact hreset
  · exact ⟨hreset.bitmap, hreset.backlog, hreset.bytes, hreset.home, hreset.order⟩

end Operations

end ApTelemetry.SchGeneric
