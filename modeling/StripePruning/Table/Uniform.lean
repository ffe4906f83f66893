import Std.Data.HashSet
import StripePruning.Random.Checked
import StripePruning.Table.Basic

/-!
# Uniform columns

A synthetic column with a given number of rows and of different values.  The
different values are drawn first, each fills one row, the other rows take one
of them at random, and the rows are shuffled.
-/

namespace StripePruning

namespace Uniform

variable {g : Type} [RandomSource g]

/-- Draws until `count` different values are there that are not null. -/
def drawDistinct (count : Nat) :
    Nat → Std.HashSet Int64 → Array Int64 → Draw g (Array Int64)
  | 0, _, drawn => if drawn.size < count then fun _ => none else pure drawn
  | limit + 1, seen, drawn =>
    if drawn.size < count then do
      let value ← Draw.int64
      if value ≠ Column.nullValue ∧ !seen.contains value then
        drawDistinct count limit (seen.insert value) (drawn.push value)
      else
        drawDistinct count limit seen drawn
    else
      pure drawn

/-- The values of `rows` rows with `unique` different values, these found among at most
`limit` drawn ones. -/
def drawValues (rows unique : Nat) (limit : Nat := drawLimit) : Draw g (Array Int64) := do
  let distinct ← drawDistinct unique limit ∅ #[]
  let repeats ← Draw.repeated (rows - unique) (Draw.oneOf distinct)
  Draw.shuffle (distinct ++ repeats)

/-- The same values, drawn with a check of every step that might not be valid. -/
def drawValuesChecked (rows unique : Nat) (limit : Nat := drawLimit) :
    CheckedDraw g (Array Int64) := do
  let distinct ← CheckedDraw.ofDraw (drawDistinct unique limit ∅ #[])
  let repeats ← CheckedDraw.repeated (rows - unique) (CheckedDraw.oneOf distinct)
  CheckedDraw.shuffle (distinct ++ repeats)

/-- The name of a column of `rows` rows with `unique` different values. -/
def columnName (rows unique : Nat) : String :=
  s!"uni_{rows / 1000}K_val_{unique}_uniq"

/-- The table of one uniform column, drawn from a source. -/
def tableFrom (source : g) (rows unique : Nat) (limit : Nat := drawLimit) :
    Except Error Table :=
  if rows < unique then
    .error (.invalidConfig (.tooManyUniqueValues unique rows))
  else if unique = 0 ∧ 0 < rows then
    .error (.invalidConfig .noUniqueValues)
  else
    match (drawValues rows unique limit).run source with
    | some (values, _) => Table.ofColumns "" [Column.ofValues (columnName rows unique) values]
    | none => .error .unfinishedDraw

/-- The seed of uniform columns. -/
def seed : UInt64 := 42

/-- The table of one uniform column, the same for every run. -/
def table (rows unique : Nat) : Except Error Table :=
  tableFrom (Keystream.ofSeed seed) rows unique

end Uniform

end StripePruning
