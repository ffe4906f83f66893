import StripePruning.Error

/-!
# Sorting modes

The arrangement of the rows that a run asks for.
-/

namespace StripePruning

/-- How the rows of a table are arranged. -/
inductive Sorting where
  /-- As they are. -/
  | none
  /-- By all columns, the one with the fewest different values first. -/
  | byCardinality
  /-- At random. -/
  | random
deriving DecidableEq

namespace Sorting

/-- The mode of a table that no mode is asked for. -/
def standard : Sorting := .none

/-- The name of a mode. -/
def name : Sorting → String
  | .none => "NONE"
  | .byCardinality => "BY_CARDINALITY"
  | .random => "RANDOM"

/-- The mode with a name, spelled exactly. -/
def ofName (name : String) : Except Error Sorting :=
  if name = "NONE" then .ok .none
  else if name = "BY_CARDINALITY" then .ok .byCardinality
  else if name = "RANDOM" then .ok .random
  else .error (.invalidSorting name)

end Sorting

end StripePruning
