import StripePruning.Table.Basic

/-!
# Rearrangements in place

A table that is kept while calls put its rows into other orders.  Each call
works out a list of row numbers and rewrites the columns one after the other,
so a call that fails could leave some columns behind in the new order and
others in the old one.  `Table.perform` therefore gives the table that a call
leaves together with the outcome of the call.
-/

namespace StripePruning

/-- The calls that put the rows of a table into another order. -/
inductive Rearrangement where
  /-- Row `i` becomes the former row `rows[i]`. -/
  | reorder (rows : Array Nat)
  | sortByCardinality
  | shuffle
  | applySorting (sorting : Sorting)

namespace Table

/-- The row numbers that a call rewrites the columns by, if it rewrites them
at all. -/
def rowsFor (t : Table) : Rearrangement → Except Error (Option (Array Nat))
  | .reorder rows => .ok (some rows)
  | .sortByCardinality | .applySorting .byCardinality => .ok (some t.sortedRows)
  | .shuffle | .applySorting .random => t.shuffledRows.map some
  | .applySorting .none => .ok none

/-- Columns rewritten one after the other.  The first one that cannot be
rewritten ends it: this column and those behind it stay as they were. -/
def rewriteColumns (rows : Array Nat) : List Column → List Column × Except Error Unit
  | [] => ([], .ok ())
  | c :: rest =>
    match c.reorder rows with
    | .ok rewritten =>
      let (others, outcome) := rewriteColumns rows rest
      (rewritten :: others, outcome)
    | .error error => (c :: rest, .error error)

/-- The table with its columns rewritten, and whether all of them could be. -/
def rewrite (t : Table) (rows : Array Nat) : Table × Except Error Unit :=
  let (columns, outcome) := rewriteColumns rows t.columns
  ({ t with columns }, outcome)

/-- The table that a call leaves and the outcome of the call. -/
def perform (t : Table) (call : Rearrangement) : Table × Except Error Unit :=
  match t.rowsFor call with
  | .ok (some rows) => t.rewrite rows
  | .ok none => (t, .ok ())
  | .error error => (t, .error error)

/-- The table that a sequence of calls leaves, whether or not they fail. -/
def performAll (t : Table) (calls : List Rearrangement) : Table :=
  calls.foldl (fun t call => (t.perform call).1) t

end Table

end StripePruning
