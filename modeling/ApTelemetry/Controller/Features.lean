import Mathlib.Algebra.Field.Rat
import Mathlib.Data.Rat.Cast.Order
import Mathlib.Tactic.IntervalCases
import ApTelemetry.Structs
import ApTelemetry.Tree.BstSearch

namespace ApTelemetry.Controller
open ApTelemetry.Tree

/-- `enum sta_l`, the features a tree may test. -/
inductive StaL where
  | noncongestion
  | congestion
  | timeBusy
  | timeRx
  | timeTx
  | noise
  | q3bytes
  | q3packets
  | q3qlen
  | q3backlog
  | q3drops
  | q3requeues
  | qfbytes
  | qfpackets
  | qfqlen
  | qfbacklog
  | qfdrops
  | qfrequeues
  | neibours
  | inactiveTime
  | rxBytes
  | rxPackets
  | txBytes
  | txPackets
  | txRetries
  | txFailed
  | signal
  | signalAvg
  | expectedThroughput
  | stationCount
  deriving DecidableEq

/-- The constants count from one. -/
def StaL.id (f : StaL) : Nat := f.ctorIdx + 1

/-- The `float` arithmetic of `main_linger`: the casts from integers, the
product, and the constant `times`. -/
structure FloatOps (V : Type) where
  cast : Int → V
  mul : V → V → V
  times : V

namespace FloatOps

variable {V : Type} (ops : FloatOps V) {w : Nat}

def unsigned (x : BitVec w) : V := ops.cast x.toNat
def signed (x : BitVec w) : V := ops.cast x.toInt
def scaled (x : BitVec w) : V := ops.mul (ops.unsigned x) ops.times

end FloatOps

variable {V : Type} (ops : FloatOps V) (apst : Apstates) (lkst : Linkstates)

/-- What each feature names, scaled where the code scales it. -/
def measurement : StaL → V
  | .noncongestion => ops.scaled apst.noncongestion
  | .congestion => ops.scaled apst.congestion
  | .timeBusy => ops.scaled apst.timeBusy
  | .timeRx => ops.scaled apst.timeRx
  | .timeTx => ops.scaled apst.timeTx
  | .noise => ops.signed apst.noise
  | .q3bytes => ops.scaled apst.q3bytes
  | .q3packets => ops.scaled apst.q3packets
  | .q3qlen => ops.unsigned apst.q3qlen
  | .q3backlog => ops.unsigned apst.q3backlog
  | .q3drops => ops.unsigned apst.q3drops
  | .q3requeues => ops.scaled apst.q3requeues
  | .qfbytes => ops.scaled apst.qfbytes
  | .qfpackets => ops.scaled apst.qfpackets
  | .qfqlen => ops.unsigned apst.qfqlen
  | .qfbacklog => ops.unsigned apst.qfbacklog
  | .qfdrops => ops.unsigned apst.qfdrops
  | .qfrequeues => ops.scaled apst.qfrequeues
  | .neibours => ops.unsigned apst.neibours
  | .inactiveTime => ops.scaled lkst.inactiveTime
  | .rxBytes => ops.scaled lkst.rxBytes
  | .rxPackets => ops.scaled lkst.rxPackets
  | .txBytes => ops.scaled lkst.txBytes
  | .txPackets => ops.scaled lkst.txPackets
  | .txRetries => ops.scaled lkst.txRetries
  | .txFailed => ops.scaled lkst.txFailed
  | .signal => ops.signed lkst.signal
  | .signalAvg => ops.signed lkst.signalAvg
  | .expectedThroughput => ops.unsigned lkst.expectedThroughput
  | .stationCount => ops.unsigned apst.stationCount

/-- A pair of statements of `main_linger`: the slot whose value is assigned, the
value, and the slot that `assign_string` names. -/
structure Assignment (V : Type) where
  slot : StaL
  value : V
  named : StaL

def assignments : List (Assignment V) := [
  ⟨.congestion, ops.scaled apst.congestion, .congestion⟩,
  ⟨.noncongestion, ops.scaled apst.noncongestion, .noncongestion⟩,
  ⟨.stationCount, ops.unsigned apst.stationCount, .stationCount⟩,
  ⟨.stationCount, ops.unsigned apst.neibours, .neibours⟩,
  ⟨.timeBusy, ops.scaled apst.timeBusy, .timeBusy⟩,
  ⟨.timeRx, ops.scaled apst.timeRx, .timeRx⟩,
  ⟨.timeTx, ops.scaled apst.timeTx, .timeTx⟩,
  ⟨.noise, ops.signed apst.noise, .noise⟩,
  ⟨.q3packets, ops.scaled apst.q3packets, .q3packets⟩,
  ⟨.q3bytes, ops.scaled apst.q3bytes, .q3bytes⟩,
  ⟨.q3qlen, ops.unsigned apst.q3qlen, .q3qlen⟩,
  ⟨.q3backlog, ops.unsigned apst.q3backlog, .q3backlog⟩,
  ⟨.q3drops, ops.unsigned apst.q3drops, .q3drops⟩,
  ⟨.q3requeues, ops.scaled apst.q3requeues, .q3requeues⟩,
  ⟨.qfpackets, ops.scaled apst.qfpackets, .qfpackets⟩,
  ⟨.qfbytes, ops.scaled apst.qfbytes, .qfbytes⟩,
  ⟨.qfqlen, ops.unsigned apst.qfqlen, .qfqlen⟩,
  ⟨.qfbacklog, ops.unsigned apst.qfbacklog, .qfbacklog⟩,
  ⟨.qfdrops, ops.unsigned apst.qfdrops, .qfdrops⟩,
  ⟨.qfrequeues, ops.scaled apst.qfrequeues, .qfrequeues⟩,
  ⟨.signal, ops.signed lkst.signal, .signal⟩,
  ⟨.signalAvg, ops.signed lkst.signalAvg, .signalAvg⟩,
  ⟨.qfrequeues, ops.scaled lkst.inactiveTime, .inactiveTime⟩,
  ⟨.qfrequeues, ops.scaled lkst.rxBytes, .rxBytes⟩,
  ⟨.qfrequeues, ops.scaled lkst.rxPackets, .rxPackets⟩,
  ⟨.qfrequeues, ops.scaled lkst.txBytes, .txBytes⟩,
  ⟨.qfrequeues, ops.scaled lkst.txPackets, .txPackets⟩,
  ⟨.qfrequeues, ops.scaled lkst.txRetries, .txRetries⟩,
  ⟨.qfrequeues, ops.scaled lkst.txFailed, .txFailed⟩,
  ⟨.stationCount, ops.unsigned lkst.expectedThroughput, .expectedThroughput⟩]

def setValue (fstates : Nat → ItemValue V) (f : StaL) (value : V) : Nat → ItemValue V :=
  Function.update fstates f.id { fstates f.id with value }

def assignString (fstates : Nat → ItemValue V) (f : StaL) : Nat → ItemValue V :=
  Function.update fstates f.id { fstates f.id with name := f.id }

def assign (fstates : Nat → ItemValue V) (a : Assignment V) : Nat → ItemValue V :=
  assignString (setValue fstates a.slot a.value) a.named

/-- The array `fstates` for one link, over what it held before. -/
def fillFstates (before : Nat → ItemValue V) : Nat → ItemValue V :=
  (assignments ops apst lkst).foldl assign before

/-- `destroy_item_list` after each link. -/
def destroyItemList (fstates : Nat → ItemValue V) : Nat → ItemValue V := fun i =>
  if i < 31 then ⟨0, ops.cast 0⟩ else fstates i

/-- The slots that get a name but no value of their own. -/
def StaL.unwritten : StaL → Bool
  | .neibours | .inactiveTime | .rxBytes | .rxPackets | .txBytes | .txPackets | .txRetries
  | .txFailed | .expectedThroughput => true
  | _ => false

/-- What the assignments leave in a slot. Their values all went to two slots, of
which the last assignment stays. -/
def leftValue (before : Nat → ItemValue V) (f : StaL) : V :=
  if f.unwritten then (before f.id).value
  else if f = .qfrequeues then ops.scaled lkst.txFailed
  else if f = .stationCount then ops.unsigned lkst.expectedThroughput
  else measurement ops apst lkst f

theorem fill_value (before : Nat → ItemValue V) (f : StaL) :
    (fillFstates ops apst lkst before f.id).value = leftValue ops apst lkst before f := by
  cases f <;> rfl

theorem fill_name (before : Nat → ItemValue V) (f : StaL) :
    (fillFstates ops apst lkst before f.id).name = f.id := by
  cases f <;> rfl

/-- Every slot carries its name and the measurement that name stands for. -/
def Faithful (fstates : Nat → ItemValue V) : Prop :=
  ∀ f : StaL, fstates f.id = ⟨f.id, measurement ops apst lkst f⟩

/-- The nine slots never written hold their measurements from before, and the
two slots written over get the value they had anyway. -/
structure Coincides (before : Nat → ItemValue V) : Prop where
  unwritten : ∀ f : StaL, f.unwritten = true → (before f.id).value = measurement ops apst lkst f
  qfrequeues : ops.scaled lkst.txFailed = ops.scaled apst.qfrequeues
  stationCount : ops.unsigned lkst.expectedThroughput = ops.unsigned apst.stationCount

theorem left_value_of_written {before : Nat → ItemValue V} {f : StaL}
    (hf : f.unwritten = false) (hq : f ≠ .qfrequeues) (hs : f ≠ .stationCount) :
    leftValue ops apst lkst before f = measurement ops apst lkst f := by
  rw [leftValue, hf, if_neg Bool.false_ne_true, if_neg hq, if_neg hs]

theorem faithful_iff_coincides (before : Nat → ItemValue V) :
    Faithful ops apst lkst (fillFstates ops apst lkst before) ↔
      Coincides ops apst lkst before := by
  have hvalues : Faithful ops apst lkst (fillFstates ops apst lkst before) ↔
      ∀ f, leftValue ops apst lkst before f = measurement ops apst lkst f := by
    refine forall_congr' fun f => ?_
    rw [← fill_value, ← fill_name ops apst lkst before f]
    constructor
    · intro h
      rw [h]
    · intro h
      rw [← h]
  rw [hvalues]
  constructor
  · intro h
    refine ⟨?_, h .qfrequeues, h .stationCount⟩
    intro f hf
    have hleft := h f
    rwa [leftValue, if_pos hf] at hleft
  · rintro ⟨hunwritten, hqf, hsc⟩ f
    by_cases hf : f.unwritten = true
    · rw [leftValue, if_pos hf]
      exact hunwritten f hf
    by_cases hq : f = .qfrequeues
    · subst hq
      exact hqf
    by_cases hs : f = .stationCount
    · subst hs
      exact hsc
    exact left_value_of_written ops apst lkst (Bool.eq_false_iff.mpr hf) hq hs

theorem id_onto {i : Nat} (hlow : 1 ≤ i) (hhigh : i ≤ 30) : ∃ f : StaL, f.id = i := by
  refine ⟨StaL.ofNat (i - 1), ?_⟩
  interval_cases i <;> rfl

/-- The array as the search reads it. -/
def fstatesVector (before : Nat → ItemValue V) : FeatureVector V where
  slot := fillFstates ops apst lkst before
  named i hlow hhigh := by
    obtain ⟨f, rfl⟩ := id_onto hlow hhigh
    exact fill_name ops apst lkst before f

/-- A faithful array leads every tree to the leaf of the measurements. -/
theorem faithful_search [LE V] [DecidableLE V] {before : Nat → ItemValue V}
    (h : Faithful ops apst lkst (fillFstates ops apst lkst before)) (t : FeatureTree V)
    (father : Int) {y : Int → V} (hy : ∀ f : StaL, y f.id = measurement ops apst lkst f) :
    bstSearch (createTree (t.message father)) (fillFstates ops apst lkst before) 31 =
      some (t.tree.eval y).linked := by
  rw [FeatureTree.message, create_tree_records t.tree father t.distinct]
  have hsearch := bst_search_linked (fstatesVector ops apst lkst before) t.tree t.bounded
  have hagree : ∀ n ∈ t.tree.names, (fstatesVector ops apst lkst before).value n = y n := by
    intro n hn
    obtain ⟨hlow, hhigh⟩ := t.bounded n hn
    obtain ⟨f, hf⟩ := id_onto (i := n.toNat) (by omega) (by omega)
    have hn' : n = (f.id : Int) := by omega
    rw [hn', hy f]
    exact congrArg ItemValue.value (h f)
  rwa [t.tree.eval_congr hagree] at hsearch

/-- The array is faithful exactly when the misdirected assignments do no harm,
and then every tree is evaluated on the measurements it names. -/
theorem fstates_faithful_iff [LE V] [DecidableLE V] (before : Nat → ItemValue V) :
    (Faithful ops apst lkst (fillFstates ops apst lkst before) ↔
      Coincides ops apst lkst before) ∧
    (Coincides ops apst lkst before → ∀ (t : FeatureTree V) (father : Int) (y : Int → V),
      (∀ f : StaL, y f.id = measurement ops apst lkst f) →
        bstSearch (createTree (t.message father)) (fillFstates ops apst lkst before) 31 =
          some (t.tree.eval y).linked) := by
  have hiff := faithful_iff_coincides ops apst lkst before
  refine ⟨hiff, ?_⟩
  intro h t father y hy
  exact faithful_search ops apst lkst (hiff.mpr h) t father hy

/-- Rational numbers in place of `float`. -/
def rational : FloatOps ℚ := ⟨fun z => z, (· * ·), 1 / 1000000⟩

/-- An access point that hears five neighbours, and a link with nothing sent. -/
def fiveNeibours : Apstates :=
  ⟨5, 0, 0, 0, 0, 0, 0, 0, 0, 0, 0, 0, 0, 0, 0, 0, 0, 0, 0, 0, 0, 0, 0, 0⟩

def idleLink : Linkstates := ⟨⟨0, 0, 0, 0, 0, 0⟩, 0, 0, 0, 0, 0, 0, 0, 0, 0, 0, 0, 0⟩

/-- In a cleared array the number of neighbours stays zero. -/
theorem neibours_not_filled : ¬ Faithful rational fiveNeibours idleLink
    (fillFstates rational fiveNeibours idleLink (destroyItemList rational fun _ => ⟨0, 0⟩)) := by
  rw [faithful_iff_coincides]
  intro h
  have hvalue := h.unwritten .neibours rfl
  simp [destroyItemList, StaL.id, measurement, FloatOps.unsigned, rational, fiveNeibours] at hvalue

end ApTelemetry.Controller
