import ApTelemetry.Createtree.BstSearch
import ApTelemetry.Newanalysis.Rebuild

namespace ApTelemetry.Newanalysis
open Lib Createtree

section Decides

variable {V : Type} (F : FloatText V) (g : Drawing) (T : Fitted V)

/-- Every feature has a name that the exporter and the program take for one, and there is one. -/
structure Fitted.Named : Prop where
  tests : T.tree.names ≠ []
  names : ∀ n ∈ T.tree.names, n ≠ [] ∧ n ≠ Createtree.leaf ∧ ¬ "class".toList <:+: n

variable {T}

/-- The root is the first one sent, and it is its own father. -/
theorem Fitted.Named.first (h : T.Named) : ∃ e es, treeEntries T.tree = e :: es ∧
    entries 0 T.tree = e :: es ∧ e.father = some 0 := by
  have hnames := h.names
  cases htree : T.tree with
  | leaf x c => exact absurd (by rw [htree]; rfl) h.tests
  | split x n v c l r =>
    rw [htree] at hnames
    have hroot := hnames n List.mem_cons_self
    refine ⟨⟨some 0, x, n, some v, c⟩, entries x l ++ entries x r, ?_, ?_, rfl⟩
    · rw [treeEntries, entries, split_entries_kept hroot.2.2]
      rfl
    · rw [entries, split_entries_kept hroot.2.2]
      rfl

/-- The records that the program reads are those of the tree. -/
theorem Fitted.Named.parsed (h : T.Named) :
    parseRecords F.atof F.zero (stringtosend F.str (treeEntries T.tree)) =
      T.tree.records F.zero 0 := by
  obtain ⟨e, es, hsent, hentries, hfather⟩ := h.first
  have hplain := entries_plain 0 (by decide) T.tree T.ids_lt T.classes_lt T.names_plain
  have hnamed := entries_name 0 T.tree fun n hn => (h.names n hn).1
  have hrecords := entries_records F.zero 0 T.tree fun n hn => (h.names n hn).2.2
  have hentries' : entries ((0 : Nat) : Int) T.tree = e :: es := hentries
  rw [hentries'] at hplain
  rw [hentries] at hnamed hrecords
  rw [hsent, records_of_named F hfather (parse_sent F hplain) hnamed, hrecords]

/-- One test of the queue. -/
def oneQueue : Fitted Nat where
  tree := .split 0 ['q'] 5 0 (.leaf 1 1) (.leaf 2 2)
  root := rfl
  distinct := by decide
  ids_lt := by decide
  classes_lt := by decide
  names_plain := by
    intro n hn c hc
    cases List.mem_singleton.mp hn
    cases List.mem_singleton.mp hc
    decide

end Decides

end ApTelemetry.Newanalysis
