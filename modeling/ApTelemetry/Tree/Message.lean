import ApTelemetry.Lib.Scan
import ApTelemetry.Tree.CreateTree

namespace ApTelemetry.Tree
open Lib

variable {V : Type} (atof : List Char → V) (zero : V)

/-- Field `k` of a record; what follows the fifth is not read. -/
def setField (r : Rawdata V) (q : List Char) : Nat → Rawdata V
  | 0 => { r with father := atoi q }
  | 1 => { r with itself := atoi q }
  | 2 => { r with name := atoi q }
  | 3 => { r with value := atof q }
  | 4 => { r with class_ := atoi q }
  | _ => r

/-- The inner loop of `init_linger_m`, from a cleared record. -/
def parseRecord (p : List Char) : Rawdata V :=
  (tokens ',' p).zipIdx.foldl (fun r q => setField atof r q.1 q.2) ⟨0, 0, 0, zero, 0⟩

/-- The records of a message, in order. -/
def parseRecords (inputtxt : List Char) : List (Rawdata V) :=
  (tokens '|' inputtxt).map (parseRecord atof zero)

end ApTelemetry.Tree
