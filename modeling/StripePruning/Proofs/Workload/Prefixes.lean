import StripePruning.Proofs.Workload.Traces

/-!
# A replay reports as it reads

A replay reports what is over when a line is read, and never takes a report back.  So what it has
reported after some lines does not depend on what comes after them.

* `Replay.follow` takes in one line.  `runLines_append` says that a replay of some lines and
  more goes on from where the lines have brought it, and `events_prefix_runLines` that it keeps
  what it has reported.
* `Group.reported` is what has been reported inside a group, and `At.foldl_follow` keeps this
  through a run of lines.
* `run_of_broken` puts this together: a replay whose trace breaks behind some lines has reported
  what any replay has that starts with them, and no part of the group that is open.
-/

namespace StripePruning

open WorkloadLine (parse queriesBefore)

/-! ## Groups that are over -/

namespace Group

variable {blocks : Query → Nat}

/-- What has been reported inside a group behind some others: everything about the others, and
its label. -/
def reported (blocks : Query → Nat) (closed : List Group) (opened : Group) : List ReplayEvent :=
  closed.flatMap (events blocks) ++ (opened.label.map ReplayEvent.label).toList

/-- With its segment, everything about the open group is reported. -/
theorem reported_append_segments (closed : List Group) (opened : Group) :
    reported blocks closed opened ++ (opened.segments blocks).map .segment
      = (closed ++ [opened]).flatMap (events blocks) := by
  simp [reported, events]

theorem reported_concat (closed : List Group) (opened : Group) (label : String) :
    reported blocks (closed ++ [opened]) { label := some label }
      = reported blocks closed opened ++ (opened.segments blocks).map .segment
        ++ [.label label] := by
  rw [reported_append_segments]
  rfl

/-- Only a segment that sums up all queries of a group is reported. -/
theorem exists_of_segment_mem {segment : Segment} {groups : List Group}
    (h : .segment segment ∈ groups.flatMap (events blocks)) :
    ∃ group ∈ groups, group.queries ≠ [] ∧ segment = group.segment blocks := by
  obtain ⟨group, hgroup, hevent⟩ := List.mem_flatMap.mp h
  unfold events at hevent
  cases List.mem_append.mp hevent with
  | inl hlabel => simp at hlabel
  | inr hsegment =>
    obtain ⟨found, hfound, heq⟩ := List.mem_map.mp hsegment
    unfold segments at hfound
    split at hfound
    · exact absurd hfound List.not_mem_nil
    · rename_i hqueries
      refine ⟨group, hgroup, hqueries, ?_⟩
      rw [← ReplayEvent.segment.inj heq]
      exact List.mem_singleton.mp hfound

end Group

namespace Replay

/-! ## One line after the other -/

variable {blocks : Query → Nat} {r : Replay}

/-- Takes in what a line says, given the number of stripes that qualify for each query. -/
def follow (blocks : Query → Nat) (r : Replay) : WorkloadLine → Replay
  | .segment label => r.openSegment label
  | .query query => r.countQuery (blocks query)
  | .ignored => r

theorem events_prefix_flush (r : Replay) : r.events.toList <+: r.flush.events.toList := by
  unfold flush
  split
  · exact List.prefix_refl _
  · simp

theorem events_prefix_follow (r : Replay) (line : WorkloadLine) :
    r.events.toList <+: (r.follow blocks line).events.toList := by
  cases line with
  | segment label =>
    refine r.events_prefix_flush.trans ?_
    simp [follow, openSegment]
  | query query => exact List.prefix_refl _
  | ignored => exact List.prefix_refl _

section Lines

variable {index : Index} {n : Nat} {ending : ReadEnd}
  (hanswer : ∀ query : Query, ∃ answer,
    query.qualifyingStripes index n = .ok answer ∧ answer.count = blocks query)

include hanswer

theorem runLines_cons (text : String) (rest : List String) :
    runLines index n ending r (text :: rest)
      = runLines index n ending (r.follow blocks (parse text)) rest := by
  cases hline : parse text with
  | segment label => exact runLines_segment hline
  | ignored => exact runLines_ignored hline
  | query query =>
    obtain ⟨answer, hok, hcount⟩ := hanswer query
    rw [runLines_query hline hok, hcount]
    rfl

/-- A replay of some lines and more goes on from where the lines have brought it. -/
theorem runLines_append (lines more : List String) :
    runLines index n ending r (lines ++ more)
      = runLines index n ending ((lines.map parse).foldl (follow blocks) r) more := by
  induction lines generalizing r with
  | nil => rfl
  | cons text rest ih =>
    rw [List.cons_append, runLines_cons hanswer, ih]
    rfl

/-- What has been reported stays. -/
theorem events_prefix_runLines (lines : List String) :
    r.events.toList <+: (runLines index n ending r lines).events := by
  induction lines generalizing r with
  | nil =>
    cases ending with
    | complete => exact r.events_prefix_flush
    | broken => exact List.prefix_refl _
  | cons text rest ih =>
    rw [runLines_cons hanswer]
    exact (r.events_prefix_follow (parse text)).trans ih

end Lines

/-! ## What has been reported -/

/-- Lines go to the open group up to the first label, and each label opens a group. -/
theorem At.foldl_follow {before : List Group} {group : Group}
    (h : At blocks r (Group.reported blocks before group) group) (lines : List WorkloadLine) :
    ∃ closed opened,
      group.extend (queriesBefore lines) :: Group.labelled lines = closed ++ [opened] ∧
      At blocks (lines.foldl (follow blocks) r)
        (Group.reported blocks (before ++ closed) opened) opened := by
  induction lines generalizing r before group with
  | nil =>
    refine ⟨[], group, ?_, by simpa using h⟩
    simp [Group.extend, queriesBefore, Group.labelled]
  | cons line rest ih =>
    cases line with
    | segment label =>
      have hnext : At blocks (r.follow blocks (.segment label))
          (Group.reported blocks (before ++ [group]) { label := some label })
          { label := some label } := by
        rw [Group.reported_concat]
        exact h.openSegment label
      obtain ⟨closed, opened, hgroups, hat⟩ := ih hnext
      refine ⟨group :: closed, opened, ?_, by simpa using hat⟩
      rw [List.cons_append, ← hgroups]
      simp [Group.extend, Group.labelled]
    | query query =>
      have hnext : At blocks (r.follow blocks (.query query))
          (Group.reported blocks before (group.extend [query])) (group.extend [query]) :=
        h.countQuery query
      obtain ⟨closed, opened, hgroups, hat⟩ := ih hnext
      refine ⟨closed, opened, ?_, hat⟩
      rw [← hgroups]
      simp [Group.extend, Group.labelled]
    | ignored =>
      exact ih h

/-- Some lines bring a replay into their last group, wherever it goes from there. -/
theorem exists_after {index : Index} {n : Nat}
    (hanswer : ∀ query : Query, ∃ answer,
      query.qualifyingStripes index n = .ok answer ∧ answer.count = blocks query)
    (lines : List String) :
    ∃ after closed last, Group.ofLines (lines.map parse) = closed ++ [last] ∧
      At blocks after (Group.reported blocks closed last) last ∧
      ∀ more ending,
        run index n { lines := lines ++ more, ending } = runLines index n ending after more := by
  have hstart : At blocks {} (Group.reported blocks [] {}) {} := at_start blocks
  obtain ⟨closed, last, hgroups, hat⟩ := hstart.foldl_follow (lines.map parse)
  refine ⟨_, closed, last, ?_, hat, fun more ending => runLines_append hanswer lines more⟩
  rw [← hgroups]
  simp [Group.ofLines, Group.extend]

/-- A replay whose trace breaks behind some lines ends with an error and has reported what every
replay has when it comes to the end of these lines, whatever follows them and however its
trace ends.  That is what a replay of the lines alone reports, except for the segment of the
last group.  So each reported segment sums up a whole group of lines, whatever follows.

A trace breaks at a line that is not text, and nothing behind this line changes the outcome. -/
theorem run_of_broken (index : Index) (n : Nat) :
    ∃ answer : Query → Bitmap,
      (∀ query : Query, query.qualifyingStripes index n = .ok (answer query)) ∧
      ∀ lines : List String, ∃ (after : Replay) (last : Group),
        (Group.ofLines (lines.map parse)).getLast? = some last ∧
        run index n { lines, ending := .broken }
          = { events := after.events.toList, result := .error .unreadableInput } ∧
        (run index n { lines, ending := .complete }).events
          = after.events.toList
            ++ (last.segments fun query => (answer query).count).map .segment ∧
        (∀ more ending,
          run index n { lines := lines ++ more, ending } = runLines index n ending after more ∧
          after.events.toList <+: (run index n { lines := lines ++ more, ending }).events ∧
          ∀ segment, .segment segment ∈ after.events.toList →
            ∃ group ∈ Group.ofLines ((lines ++ more).map parse), group.queries ≠ [] ∧
              segment = group.segment fun query => (answer query).count) ∧
        ∀ (front : String) (bad behind : ByteArray), (Trace.ofText front).lines = lines →
          (front = "" ∨ ∃ text, front = text ++ "\n") → String.fromUTF8? bad = none →
          lineFeed ∉ bad.data.toList →
          (∀ byte, behind.data.toList.head? = some byte → byte = lineFeed) →
          run index n (Trace.ofBytes (front.toUTF8 ++ bad ++ behind))
            = { events := after.events.toList, result := .error .unreadableInput } := by
  choose answer hanswer using fun query : Query => query.qualifyingStripes_ok index n
  have hcount : ∀ query : Query, ∃ found,
      query.qualifyingStripes index n = .ok found ∧ found.count = (answer query).count :=
    fun query => ⟨answer query, (hanswer query).1, rfl⟩
  refine ⟨answer, fun query => (hanswer query).1, fun lines => ?_⟩
  obtain ⟨after, closed, last, hgroups, hat, happend⟩ := exists_after hcount lines
  have hend : ∀ ending, run index n { lines, ending } = after.close ending := by
    intro ending
    have hrun := happend [] ending
    rwa [List.append_nil] at hrun
  refine ⟨after, last, ?_, hend .broken, ?_, fun more ending => ⟨happend more ending, ?_, ?_⟩, ?_⟩
  · rw [hgroups, List.getLast?_concat]
  · rw [hend, hat.close, hat.events_eq]
    rfl
  · rw [happend]
    exact events_prefix_runLines hcount more
  · intro segment hsegment
    have hreported : after.events.toList <+: (runLines index n .complete after more).events :=
      events_prefix_runLines hcount more
    rw [← happend, run_eq_ofEvents _ hcount] at hreported
    exact Group.exists_of_segment_mem (hreported.subset hsegment)
  · intro front bad behind hfront hwhole hbad hline hbehind
    have hends : EndsInMark (· == '\n') front.toList := by
      cases hwhole with
      | inl hempty => simp [hempty, EndsInMark]
      | inr htext =>
        obtain ⟨text, rfl⟩ := htext
        rw [String.toList_append]
        exact endsInMark_concat (· == '\n') (beq_self_eq_true '\n') text.toList
    rw [Trace.ofBytes_of_not_text hends hbad hline hbehind, hfront]
    exact hend .broken

/-- A byte that is not text stands behind a label and its query, and another query behind it. -/
theorem run_of_broken_byte :
    String.fromUTF8? ⟨#[0xFF]⟩ = none ∧ lineFeed ∉ [(0xFF : UInt8)] ∧
      ∃ events segment,
        run fourRows 2
            (Trace.ofBytes ("selectivity 1\npoint:7\n".toUTF8 ++ ⟨#[0xFF]⟩ ++ "\npoint:9".toUTF8))
          = { events, result := .error .unreadableInput } ∧
        (run fourRows 2 { lines := ["selectivity 1", "point:7"] }).events
          = events ++ [.segment segment] ∧
        segment.label = some "selectivity 1" ∧ segment.queries = 1 ∧ segment.blocks = 1 := by
  have hbad : String.fromUTF8? ⟨#[0xFF]⟩ = none := by decide +kernel
  have hlines : (Trace.ofText "selectivity 1\npoint:7\n").lines = ["selectivity 1", "point:7"] := by
    decide +kernel
  have hlast : (Group.ofLines (["selectivity 1", "point:7"].map parse)).getLast?
      = some { label := some "selectivity 1", queries := [.point 7] } := by
    rfl
  obtain ⟨answer, hanswer, hruns⟩ := run_of_broken fourRows 2
  obtain ⟨after, last, hgroup, -, hcomplete, -, hbytes⟩ := hruns ["selectivity 1", "point:7"]
  rw [hlast] at hgroup
  obtain rfl := Option.some_inj.mp hgroup
  have hblocks : (answer (.point 7)).count = 1 := by
    have hcount : ((Query.point 7).qualifyingStripes fourRows 2).toOption.map Bitmap.count
        = some 1 := by decide +kernel
    rw [hanswer] at hcount
    exact Option.some.inj hcount
  refine ⟨hbad, by decide, after.events.toList, _, ?_, hcomplete, rfl, rfl, ?_⟩
  · exact hbytes _ ⟨#[0xFF]⟩ "\npoint:9".toUTF8 hlines (Or.inr ⟨"selectivity 1\npoint:7", rfl⟩) hbad
      (by decide) (by decide +kernel)
  · show (answer (.point 7)).count + 0 = 1
    rw [hblocks]

end Replay

end StripePruning
