import StripePruning.Number.Reading
import StripePruning.Text.Blank

/-!
# Lines of a workload

A workload is written line by line.  A line with the word `selectivity` opens
a segment and is its label; `point:` and `range:` lines are queries; all other
lines are ignored.  A number must fill its field, blanks around it apart.
-/

namespace StripePruning

/-- A query of a workload. -/
inductive Query where
  | point (value : Int64)
  | range (first last : Int64)
deriving DecidableEq

/-- The least and the greatest value that a query asks for. -/
def Query.bounds : Query → Int64 × Int64
  | .point value => (value, value)
  | .range first last => (first, last)

/-- What a line of a workload says. -/
inductive WorkloadLine where
  /-- Opens a segment with a label. -/
  | segment (label : String)
  | query (query : Query)
  | ignored
deriving DecidableEq

namespace WorkloadLine

/-- The word that makes a line a label. -/
def labelMark : List Char := "selectivity".toList

/-- What a point query starts with. -/
def pointMark : List Char := "point:".toList

/-- What a range query starts with. -/
def rangeMark : List Char := "range:".toList

/-- A line without the line ends behind it. -/
def dropLineEnds (line : List Char) : List Char :=
  (line.reverse.dropWhile isLineEnd).reverse

/-- The number in a field. -/
def field? (text : List Char) : Option Int64 :=
  readInt64? (trimBlanks text)

/-- The query that a line without its line ends stands for. -/
def query? (line : List Char) : Option Query :=
  match after? rangeMark line with
  | some rest => do
    let (first, last) ← cutAt? ',' rest
    return .range (← field? first) (← field? last)
  | none => do
    let rest ← after? pointMark line
    return .point (← field? rest)

/-- What a line says. -/
def parse (text : String) : WorkloadLine :=
  let line := dropLineEnds text.toList
  if occursIn labelMark line then .segment (String.ofList line)
  else
    match query? line with
    | some q => .query q
    | none => .ignored

end WorkloadLine

end StripePruning
