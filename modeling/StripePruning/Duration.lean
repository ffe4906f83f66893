/-!
# Durations

A measured time in whole seconds and nanoseconds.
-/

namespace StripePruning

/-- A length of time. -/
structure Duration where
  seconds : Nat := 0
  /-- Below one second. -/
  nanoseconds : Nat := 0

namespace Duration

/-- The nanoseconds of a second. -/
def nanosPerSecond : Nat := 1000000000

/-- The duration of some seconds and any number of nanoseconds. -/
def ofParts (seconds nanoseconds : Nat) : Duration :=
  { seconds := seconds + nanoseconds / nanosPerSecond
    nanoseconds := nanoseconds % nanosPerSecond }

/-- The duration of some milliseconds. -/
def ofMillis (millis : Nat) : Duration :=
  ofParts 0 (millis * 1000000)

/-- The whole duration in nanoseconds. -/
def totalNanos (d : Duration) : Nat :=
  d.seconds * nanosPerSecond + d.nanoseconds

/-- The whole duration in seconds. -/
def inSeconds (d : Duration) : Float :=
  d.seconds.toFloat + d.nanoseconds.toFloat / nanosPerSecond.toFloat

end Duration

end StripePruning
