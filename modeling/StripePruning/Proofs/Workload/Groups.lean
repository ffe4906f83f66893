import StripePruning.Proofs.Workload.Answers
import StripePruning.Workload.Replay

/-!
# A replay goes group by group

The labels of a workload cut its lines into groups.  This module says what a
replay comes to in terms of the groups and without any state, and shows that the
replay, which sees one line at a time, comes to the same.

* `Group.ofLines` cuts the lines, and `Group.events` is what a group is reported
  as: its label, and its segment if it has queries.
* `Replay.At` is the invariant: what has been reported, and the group that is open.
  Its step lemmas are `At.openSegment`, `At.countQuery` and `At.close`.
* `At.runLines` is the run over the lines that are left, and `run_eq_groups` the
  run from the start with what follows for labels, queries and traces in two parts.
-/

namespace StripePruning

/-! ## Groups of lines -/

namespace WorkloadLine

/-- The label that a line is, if it is one. -/
def toLabel? : WorkloadLine → Option String
  | .segment label => some label
  | .query _ => none
  | .ignored => none

/-- The query that a line is, if it is one. -/
def toQuery? : WorkloadLine → Option Query
  | .query q => some q
  | .segment _ => none
  | .ignored => none

/-- The queries of the lines before the first label. -/
def queriesBefore (lines : List WorkloadLine) : List Query :=
  (lines.takeWhile (·.toLabel?.isNone)).filterMap toQuery?

@[simp] theorem queriesBefore_segment (label : String) (rest : List WorkloadLine) :
    queriesBefore (.segment label :: rest) = [] := rfl

@[simp] theorem queriesBefore_query (query : Query) (rest : List WorkloadLine) :
    queriesBefore (.query query :: rest) = query :: queriesBefore rest := rfl

@[simp] theorem queriesBefore_ignored (rest : List WorkloadLine) :
    queriesBefore (.ignored :: rest) = queriesBefore rest := rfl

end WorkloadLine

/-- Some queries in a row under one label, or before all labels. -/
structure Group where
  label : Option String := none
  queries : List Query := []

namespace Group

open WorkloadLine

/-- The groups that the labels of some lines open. -/
def labelled : List WorkloadLine → List Group
  | [] => []
  | .segment label :: rest =>
    { label := some label, queries := queriesBefore rest } :: labelled rest
  | .query _ :: rest => labelled rest
  | .ignored :: rest => labelled rest

/-- The groups of some lines: one before the first label and one for each label. -/
def ofLines (lines : List WorkloadLine) : List Group :=
  { queries := queriesBefore lines } :: labelled lines

/-- The group with more queries. -/
def extend (group : Group) (queries : List Query) : Group :=
  { group with queries := group.queries ++ queries }

variable (blocks : Query → Nat)

/-- The queries of a group summed up, given the number of stripes that qualify for
each. -/
def segment (group : Group) : Segment :=
  { label := group.label
    queries := group.queries.length
    blocks := (group.queries.map blocks).sum }

/-- The segment of a group that has queries. -/
def segments (group : Group) : List Segment :=
  if group.queries = [] then [] else [group.segment blocks]

/-- What is reported of a group. -/
def events (group : Group) : List ReplayEvent :=
  (group.label.map ReplayEvent.label).toList
    ++ (group.segments blocks).map ReplayEvent.segment

end Group

namespace ReplayEvent

/-- The segment that an event reports, if it reports one. -/
def segment? : ReplayEvent → Option Segment
  | .segment s => some s
  | .label _ => none

/-- The label that an event reports, if it reports one. -/
def label? : ReplayEvent → Option String
  | .label text => some text
  | .segment _ => none

end ReplayEvent

namespace Group

open WorkloadLine

/-! ## Views of the groups -/

variable {blocks : Query → Nat}

/-- The labels of the groups are the labels of the lines. -/
theorem filterMap_label_ofLines (lines : List WorkloadLine) :
    (ofLines lines).filterMap label = lines.filterMap toLabel? := by
  have hlabelled : (labelled lines).filterMap label = lines.filterMap toLabel? := by
    induction lines with
    | nil => rfl
    | cons line rest ih =>
      cases line <;> simp [labelled, List.filterMap_cons, toLabel?, ih]
  rw [ofLines, List.filterMap_cons_none rfl, hlabelled]

/-- The queries of the groups are the queries of the lines, none of them lost,
doubled or moved. -/
theorem flatMap_queries_ofLines (lines : List WorkloadLine) :
    (ofLines lines).flatMap queries = lines.filterMap toQuery? := by
  induction lines with
  | nil => rfl
  | cons line rest ih =>
    rw [ofLines, List.flatMap_cons] at ih ⊢
    cases line <;> simpa [labelled, List.filterMap_cons, toQuery?] using ih

/-- A label cuts the groups of the lines in two. -/
theorem ofLines_append (before : List WorkloadLine) (label : String)
    (rest : List WorkloadLine) :
    ofLines (before ++ .segment label :: rest)
      = ofLines before ++ labelled (.segment label :: rest) := by
  induction before with
  | nil => rfl
  | cons line more ih =>
    obtain ⟨hqueries, hlabelled⟩ := List.cons.inj ih
    cases line <;> simp_all [ofLines, labelled]

/-! ## Views of what is reported -/

theorem filterMap_segment_events (group : Group) :
    (group.events blocks).filterMap ReplayEvent.segment? = group.segments blocks := by
  obtain ⟨label, queries⟩ := group
  rw [events, segments]
  cases label <;> split <;> rfl

theorem filterMap_label_events (group : Group) :
    (group.events blocks).filterMap ReplayEvent.label? = group.label.toList := by
  obtain ⟨label, queries⟩ := group
  rw [events, segments]
  cases label <;> split <;> rfl

/-- The reported labels are those of the groups, each of them once. -/
theorem filterMap_label_flatMap (groups : List Group) :
    (groups.flatMap (events blocks)).filterMap ReplayEvent.label? = groups.filterMap label := by
  induction groups with
  | nil => rfl
  | cons group rest ih =>
    rw [List.flatMap_cons, List.filterMap_append, filterMap_label_events, ih,
      List.filterMap_cons]
    cases group.label <;> rfl

/-- The reported segments are those of the groups with queries. -/
theorem filterMap_segment_flatMap (groups : List Group) :
    (groups.flatMap (events blocks)).filterMap ReplayEvent.segment?
      = groups.flatMap (segments blocks) := by
  simp only [List.filterMap_flatMap, filterMap_segment_events]

/-- What is reported of lines that a label cuts in two is what is reported of the
two parts.  The second part has no queries before its first label. -/
theorem flatMap_events_append (blocks : Query → Nat) (before : List WorkloadLine)
    (label : String) (rest : List WorkloadLine) :
    (ofLines (before ++ .segment label :: rest)).flatMap (events blocks)
      = (ofLines before).flatMap (events blocks)
        ++ (ofLines (.segment label :: rest)).flatMap (events blocks) := by
  rw [ofLines_append, List.flatMap_append]
  rfl

/-- A number that the segments sum up is the sum over all queries, since a group
without queries adds nothing to it. -/
theorem sum_flatMap_segments {number : Segment → Nat} {weight : Query → Nat}
    (h : ∀ group : Group, number (group.segment blocks) = (group.queries.map weight).sum)
    (groups : List Group) :
    ((groups.flatMap (segments blocks)).map number).sum
      = ((groups.flatMap queries).map weight).sum := by
  induction groups with
  | nil => rfl
  | cons group rest ih =>
    have hgroup : ((group.segments blocks).map number).sum = (group.queries.map weight).sum := by
      rw [segments]
      split
      · simp [*]
      · simp [h]
    rw [List.flatMap_cons, List.map_append, List.sum_append, hgroup, ih, List.flatMap_cons,
      List.map_append, List.sum_append]

end Group

/-! ## One step of a replay -/

namespace Replay

open WorkloadLine

section Lines

variable {ι : Type} [StripeIndex ι] {index : ι} {n : Nat} {ending : ReadEnd} {r : Replay}
  {text : String} {rest : List String}

theorem runLines_segment {label : String} (hline : parse text = .segment label) :
    runLines index n ending r (text :: rest)
      = runLines index n ending (r.openSegment label) rest := by
  rw [runLines, hline]

theorem runLines_ignored (hline : parse text = .ignored) :
    runLines index n ending r (text :: rest) = runLines index n ending r rest := by
  rw [runLines, hline]

theorem runLines_query {query : Query} {answer : Bitmap} (hline : parse text = .query query)
    (hanswer : query.qualifyingStripes index n = .ok answer) :
    runLines index n ending r (text :: rest)
      = runLines index n ending (r.countQuery answer.count) rest := by
  rw [runLines, hline]
  simp only [hanswer]

end Lines

/-- The outcome of a replay that has read all lines: the segments are those of the
events in order. -/
def Outcome.ofEvents (events : List ReplayEvent) : Outcome :=
  { events, result := .ok (events.filterMap ReplayEvent.segment?) }

/-- A replay has reported some events and goes on inside a group. -/
structure At (blocks : Query → Nat) (r : Replay) (events : List ReplayEvent) (group : Group) :
    Prop where
  events_eq : r.events.toList = events
  segments_eq : r.segments.toList = events.filterMap ReplayEvent.segment?
  current_eq : r.current = group.segment blocks

variable {blocks : Query → Nat} {r : Replay} {events : List ReplayEvent} {group : Group}

theorem at_start (blocks : Query → Nat) : At blocks {} [] {} :=
  ⟨rfl, rfl, rfl⟩

/-- Closing a group reports its segment if it has queries. -/
theorem At.flush (h : At blocks r events group) :
    At blocks r.flush (events ++ (group.segments blocks).map ReplayEvent.segment) group := by
  have hqueries : r.current.queries = 0 ↔ group.queries = [] := by
    rw [h.current_eq, Group.segment, List.length_eq_zero_iff]
  rw [Replay.flush, Group.segments]
  by_cases hempty : group.queries = []
  · rw [if_pos (hqueries.2 hempty), if_pos hempty, List.map_nil, List.append_nil]
    exact h
  · rw [if_neg (hempty ∘ hqueries.1), if_neg hempty]
    refine ⟨?_, ?_, h.current_eq⟩
    · simp [h.events_eq, h.current_eq]
    · simp [h.segments_eq, h.current_eq, ReplayEvent.segment?]

/-- A label closes the group, is reported and opens its own group. -/
theorem At.openSegment (h : At blocks r events group) (label : String) :
    At blocks (r.openSegment label)
      (events ++ (group.segments blocks).map ReplayEvent.segment ++ [.label label])
      { label := some label } := by
  refine ⟨?_, ?_, rfl⟩
  · simp [Replay.openSegment, h.flush.events_eq]
  · simp [Replay.openSegment, h.flush.segments_eq, ReplayEvent.segment?]

/-- A query goes to the group that is open. -/
theorem At.countQuery (h : At blocks r events group) (query : Query) :
    At blocks (r.countQuery (blocks query)) events (group.extend [query]) := by
  refine ⟨h.events_eq, h.segments_eq, ?_⟩
  rw [Replay.countQuery, h.current_eq]
  simp [Segment.record, Group.segment, Group.extend]

/-- The end of the lines closes the last group. -/
theorem At.close (h : At blocks r events group) :
    r.close .complete
      = .ofEvents (events ++ (group.segments blocks).map ReplayEvent.segment) := by
  rw [Replay.close, Outcome.ofEvents, ← h.flush.segments_eq, ← h.flush.events_eq]

/-! ## A whole replay -/

/-- The lines that are left extend the open group up to the first label, and then
come the groups of the labels. -/
theorem At.runLines {index : Index} {n : Nat}
    (hanswer : ∀ query : Query, ∃ answer,
      query.qualifyingStripes index n = .ok answer ∧ answer.count = blocks query)
    (h : At blocks r events group) (lines : List String) :
    Replay.runLines index n .complete r lines
      = .ofEvents (events
          ++ ((group.extend (queriesBefore (lines.map parse))).segments blocks).map .segment
          ++ (Group.labelled (lines.map parse)).flatMap (Group.events blocks)) := by
  -- A label moves what is open into the events, and a query extends what is open.
  induction lines generalizing r events group with
  | nil =>
    rw [Replay.runLines, h.close]
    simp [queriesBefore, Group.labelled, Group.extend]
  | cons text rest ih =>
    rw [List.map_cons]
    cases hline : parse text with
    | segment label =>
      rw [runLines_segment hline, ih (h.openSegment label)]
      simp [Group.labelled, Group.extend, Group.events]
    | ignored =>
      rw [runLines_ignored hline, ih h, Group.labelled, queriesBefore_ignored]
    | query query =>
      obtain ⟨answer, hok, hcount⟩ := hanswer query
      rw [runLines_query hline hok, hcount, ih (h.countQuery query)]
      simp [Group.labelled, Group.extend]

/-- A replay from the start reports what its groups are reported as. -/
theorem run_eq_ofEvents (blocks : Query → Nat) {index : Index} {n : Nat}
    (hanswer : ∀ query : Query, ∃ answer,
      query.qualifyingStripes index n = .ok answer ∧ answer.count = blocks query)
    (lines : List String) :
    run index n { lines, ending := .complete }
      = .ofEvents ((Group.ofLines (lines.map parse)).flatMap (Group.events blocks)) := by
  rw [run, (at_start blocks).runLines hanswer]
  simp [Group.ofLines, Group.events, Group.extend]

/-- A replay always succeeds.  It reports group by group: the label, and the
segment if the group has queries, with the number of its queries and the sum of the
stripes that qualify for them.  The segments it returns are the reported ones.

So every label is reported once and every query counted once, under its own label,
and the replay of a trace that a label cuts in two parts is the replay of the first
part followed by the replay of the second. -/
theorem run_eq_groups (index : Index) (n : Nat) :
    ∃ answer : Query → Bitmap,
      (∀ query : Query, query.qualifyingStripes index n = .ok (answer query)) ∧
      ∀ lines : List String, ∃ events segments,
        run index n { lines, ending := .complete } = { events, result := .ok segments } ∧
        events = (Group.ofLines (lines.map parse)).flatMap
          (Group.events fun query => (answer query).count) ∧
        segments = events.filterMap ReplayEvent.segment? ∧
        events.filterMap ReplayEvent.label? = (lines.map parse).filterMap toLabel? ∧
        (Group.ofLines (lines.map parse)).flatMap Group.queries
          = (lines.map parse).filterMap toQuery? ∧
        (segments.map Segment.queries).sum = ((lines.map parse).filterMap toQuery?).length ∧
        (segments.map Segment.blocks).sum
          = (((lines.map parse).filterMap toQuery?).map fun query => (answer query).count).sum ∧
        ∀ before text rest label, lines = before ++ text :: rest → parse text = .segment label →
          ∃ first second,
            (run index n { lines := before, ending := .complete }).result = .ok first ∧
            (run index n { lines := text :: rest, ending := .complete }).result = .ok second ∧
            segments = first ++ second ∧
            events = (run index n { lines := before, ending := .complete }).events
              ++ (run index n { lines := text :: rest, ending := .complete }).events := by
  choose answer hanswer using fun query : Query => query.qualifyingStripes_ok index n
  have hrun := run_eq_ofEvents (fun query => (answer query).count)
    fun query => ⟨answer query, (hanswer query).1, rfl⟩
  refine ⟨answer, fun query => (hanswer query).1, fun lines => ?_⟩
  refine ⟨_, _, hrun lines, rfl, rfl, ?_, Group.flatMap_queries_ofLines _, ?_, ?_, ?_⟩
  · rw [Group.filterMap_label_flatMap, Group.filterMap_label_ofLines]
  · have hone : ∀ group : Group, (group.segment fun query => (answer query).count).queries
        = (group.queries.map fun _ => 1).sum := by
      simp [Group.segment, List.map_const']
    rw [Group.filterMap_segment_flatMap, Group.sum_flatMap_segments hone,
      Group.flatMap_queries_ofLines]
    simp [List.map_const']
  · rw [Group.filterMap_segment_flatMap, ← Group.flatMap_queries_ofLines]
    exact Group.sum_flatMap_segments (fun _ => rfl) _
  -- A label cuts the groups in two, and with them the events and the segments.
  · rintro before text rest label rfl hline
    have hcut := Group.flatMap_events_append (fun query => (answer query).count)
      (before.map parse) label (rest.map parse)
    refine ⟨_, _, congrArg Outcome.result (hrun before), congrArg Outcome.result (hrun _),
      ?_, ?_⟩
    · rw [List.map_append, List.map_cons, hline, hcut, List.filterMap_append]
    · rw [hrun, hrun, List.map_append, List.map_cons, hline, hcut]
      rfl

/-- The index over four rows in two stripes, with a bitmap for every value. -/
def fourRows : Index :=
  match IndexConfig.build .perValueBitmap (Column.ofValues "c" #[7, 1, 5, 3]) 2 with
  | .ok index => index
  | .error _ => .perValueBitmap (.empty 2)

/-- The stripes that qualified for the queries of a replay, segment by segment. -/
def blocksOf (outcome : Outcome) : Option (List Nat) :=
  outcome.result.toOption.map fun segments => segments.map Segment.blocks

/-- A query before all labels, a label without queries, and a label with a line that
says nothing and a query. -/
theorem run_eq_groups_idle_label :
    ∃ events segments,
      run fourRows 2
        { lines := ["point:7", "selectivity 0.5", "selectivity 1", "pause", "range:1,3"] }
        = { events, result := .ok segments } ∧
      events.filterMap ReplayEvent.label? = ["selectivity 0.5", "selectivity 1"] ∧
      (segments.map Segment.queries).sum = 2 ∧
      segments.map Segment.blocks = [1, 2] ∧
      ∃ first second,
        (run fourRows 2 { lines := ["point:7", "selectivity 0.5"] }).result = .ok first ∧
        (run fourRows 2
          { lines := ["selectivity 1", "pause", "range:1,3"] }).result = .ok second ∧
        segments = first ++ second := by
  obtain ⟨answer, -, hlines⟩ := run_eq_groups fourRows 2
  obtain ⟨events, segments, hrun, -, -, hlabels, -, hqueries, -, hparts⟩ :=
    hlines ["point:7", "selectivity 0.5", "selectivity 1", "pause", "range:1,3"]
  have hparse : parse "selectivity 1" = .segment "selectivity 1" := by decide +kernel
  obtain ⟨first, second, hfirst, hsecond, hsegments, -⟩ :=
    hparts ["point:7", "selectivity 0.5"] "selectivity 1" ["pause", "range:1,3"] _ rfl hparse
  have hblocks : blocksOf (run fourRows 2
      { lines := ["point:7", "selectivity 0.5", "selectivity 1", "pause", "range:1,3"] })
        = some [1, 2] := by decide +kernel
  rw [hrun] at hblocks
  refine ⟨events, segments, hrun, ?_, ?_, Option.some.inj hblocks, first, second, hfirst, hsecond,
    hsegments⟩
  · rw [hlabels]
    decide +kernel
  · rw [hqueries]
    decide +kernel

end Replay

end StripePruning
