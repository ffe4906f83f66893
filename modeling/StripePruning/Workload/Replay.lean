import StripePruning.Duration
import StripePruning.Workload.Answer
import StripePruning.Workload.Trace

/-!
# Replaying a workload

A replay answers the queries of a trace with an index and sums up the stripes
that qualify, segment by segment.  It reports each label when it is met and
each segment with queries when it is over, in the order of the trace.
-/

namespace StripePruning

/-- The queries between two labels of a workload, summed up. -/
structure Segment where
  /-- The label that opened the segment; there is none before the first. -/
  label : Option String := none
  queries : Nat := 0
  /-- The qualifying stripes of all queries. -/
  blocks : Nat := 0
  searchTime : Duration := {}

namespace Segment

/-- The segment with one more query, which `blocks` stripes qualify for. -/
def record (s : Segment) (blocks : Nat) : Segment :=
  { s with queries := s.queries + 1, blocks := s.blocks + blocks }

/-- The mean number of qualifying stripes of a query, zero without queries. -/
def meanBlocks (s : Segment) : Float :=
  if s.queries = 0 then 0.0 else s.blocks.toFloat / s.queries.toFloat

/-- The mean time of a query in seconds, zero without queries. -/
def meanSearchSeconds (s : Segment) : Float :=
  if s.queries = 0 then 0.0 else s.searchTime.inSeconds / s.queries.toFloat

end Segment

/-- What a replay reports. -/
inductive ReplayEvent where
  | label (text : String)
  | segment (segment : Segment)

/-- What a replay has reported so far, the segments that are over, and the
segment that is open. -/
structure Replay where
  events : Array ReplayEvent := #[]
  segments : Array Segment := #[]
  current : Segment := {}

namespace Replay

/-- Reports the open segment and keeps it, if it has queries. -/
def flush (r : Replay) : Replay :=
  if r.current.queries = 0 then r
  else
    { r with
      events := r.events.push (.segment r.current)
      segments := r.segments.push r.current }

/-- Closes the open segment, reports a label and opens its segment. -/
def openSegment (r : Replay) (label : String) : Replay :=
  let r := r.flush
  { r with events := r.events.push (.label label), current := { label := some label } }

/-- Counts a query that `blocks` stripes qualify for. -/
def countQuery (r : Replay) (blocks : Nat) : Replay :=
  { r with current := r.current.record blocks }

/-- What a replay comes to: the events that it reported, and the segments or
the error that ended it. -/
structure Outcome where
  events : List ReplayEvent
  result : Except Error (List Segment)

variable {ι : Type} [StripeIndex ι]

/-- The outcome of a replay that is over. -/
def close (r : Replay) : ReadEnd → Outcome
  | .complete =>
    let r := r.flush
    { events := r.events.toList, result := .ok r.segments.toList }
  | .broken => { events := r.events.toList, result := .error .unreadableInput }

/-- The outcome of a replay that goes on with some lines. -/
def runLines (index : ι) (n : Nat) (ending : ReadEnd) : Replay → List String → Outcome
  | r, [] => r.close ending
  | r, text :: rest =>
    match WorkloadLine.parse text with
    | .segment label => runLines index n ending (r.openSegment label) rest
    | .ignored => runLines index n ending r rest
    | .query query =>
      match query.qualifyingStripes index n with
      | .ok found => runLines index n ending (r.countQuery found.count) rest
      | .error error => { events := r.events.toList, result := .error error }

/-- Replays a trace against an index over the first `n` stripes. -/
def run (index : ι) (n : Nat) (trace : Trace) : Outcome :=
  runLines index n trace.ending {} trace.lines

/-- Replays the trace in a file. -/
def runFile (files : Files) (index : ι) (n : Nat) (path : RawText) : Outcome :=
  match files.entry path with
  | .ok (.file content) => run index n (Trace.ofBytes content)
  | .ok .directory => run index n { lines := [], ending := .broken }
  | .error _ => { events := [], result := .error .unreadableInput }

end Replay

end StripePruning
