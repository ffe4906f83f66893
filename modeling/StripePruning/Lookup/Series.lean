import StripePruning.Lookup.Batch
import StripePruning.Lookup.Stopwatch

/-!
# Lookup series

A series looks up every value of a batch in an index, pass after pass, until its
least time is over.  So how many lookups it counts depends on its stopwatch.  The
series of a run come in two kinds: values that a column holds and values that it
does not.
-/

namespace StripePruning

/-- The kinds of lookup series. -/
inductive LookupKind where
  | positiveDistinct
  | negative

namespace LookupKind

/-- The kinds in the order they are run. -/
def all : List LookupKind := [.positiveDistinct, .negative]

/-- The name of a kind. -/
def name : LookupKind → String
  | .positiveDistinct => "PositiveDistinctLookup"
  | .negative => "NegativeLookup"

/-- Draws the batch of a kind. -/
def draw {g : Type} [RandomSource g] (kind : LookupKind) (c : Column) (size : Nat) :
    Draw g (Array Int64) :=
  match kind with
  | .positiveDistinct => Batch.positiveDistinct c size
  | .negative => Batch.negative c size

/-- The batch of a kind for a seed. -/
def batch (kind : LookupKind) (c : Column) (size : Nat) (seed : UInt64) :
    Except Error (Array Int64) :=
  Batch.seeded seed (kind.draw c size)

/-- The name of the series over an index. -/
def seriesName (kind : LookupKind) (column : String) (stripeSize : Nat) (index : String) :
    String :=
  s!"{kind.name}/{column}/{stripeSize}/{index}"

end LookupKind

/-- A timed series of lookups. -/
structure LookupMeasurement where
  name : String
  lookups : Nat
  elapsed : Duration := {}

namespace LookupMeasurement

/-- The mean time of a lookup in nanoseconds, zero without lookups. -/
def nanosPerLookup (m : LookupMeasurement) : Float :=
  if m.lookups = 0 then 0.0
  else m.elapsed.totalNanos.toFloat / m.lookups.toFloat

/-- The lookups in a second, zero if no time went by. -/
def lookupsPerSecond (m : LookupMeasurement) : Float :=
  let seconds := m.elapsed.inSeconds
  if seconds == 0.0 then 0.0 else m.lookups.toFloat / seconds

/-- A measurement as a text. -/
def text (m : LookupMeasurement) : String :=
  s!"{m.name}: {fixedPlaces 1 m.nanosPerLookup} ns/lookup, " ++
    s!"{fixedPlaces 0 m.lookupsPerSecond} lookups/s ({m.lookups} lookups)"

/-- Passes over a batch until the stopwatch shows the least time: `pass` of them are
over, and `lookups` is what they counted.  A batch without values gets one pass,
after which the stopwatch is not asked.  The answers of the index do not count. -/
def repeatPasses (watch : Stopwatch) (least : Duration) (name : String) (values : Array Int64)
    (pass lookups : Nat) : LookupMeasurement :=
  let lookups := lookups + values.size
  if values.isEmpty then { name, lookups, elapsed := watch.reading pass }
  else if least.totalNanos ≤ watch.nanos pass then
    { name, lookups, elapsed := watch.reading (pass + 1) }
  else repeatPasses watch least name values (pass + 1) lookups
termination_by watch.reach least.totalNanos - pass
decreasing_by
  rename_i hshown
  have hlater := watch.lt_reach (Nat.lt_of_not_le hshown)
  omega

/-- The series over a batch: at least one pass. -/
def measure (watch : Stopwatch) (least : Duration) (name : String) (values : Array Int64) :
    LookupMeasurement :=
  repeatPasses watch least name values 0 0

end LookupMeasurement

end StripePruning
