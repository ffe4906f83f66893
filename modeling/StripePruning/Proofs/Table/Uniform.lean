import Mathlib.Data.Finset.Dedup
import Mathlib.Data.Finset.Card
import StripePruning.Proofs.Column.Rows
import StripePruning.Proofs.Random.Checked
import StripePruning.Table.Uniform

/-!
# Uniform columns hold what was asked for

A uniform column has a given number of rows and of different values.  This holds for every
source of random words: values that are drawn again, drawn null values and the shuffle
change neither.

* `Collected` is the invariant of the loop that draws the different values, and
  `yields_drawDistinct` what the loop ends with.
* `passes_drawValuesChecked` says that no step of the whole drawing is invalid, and
  `yields_drawValues` what it gives.
* `tableFrom_uniform` says for which numbers there is no uniform column, and what it holds
  otherwise.
-/

namespace StripePruning

namespace Column

/-- The number of different values counts every value of the rows once. -/
theorem cardinality_ofValues (name : String) (values : Array Int64) :
    (Column.ofValues name values).cardinality = values.toList.toFinset.card := by
  have hnodup : (Std.TreeSet.ofList values.toList : Std.TreeSet Int64).toList.Nodup :=
    Std.TreeSet.distinct_toList.imp fun hne heq => hne (Std.compare_eq_iff_eq.2 heq)
  have hmem : (Std.TreeSet.ofList values.toList : Std.TreeSet Int64).toList.toFinset
      = values.toList.toFinset := by
    ext value
    simp [Std.TreeSet.mem_toList, Std.TreeSet.mem_ofList]
  rw [cardinality, ofValues, ← hmem, List.toFinset_card_of_nodup hnodup,
    Std.TreeSet.length_toList]

end Column

namespace Uniform

/-! ## The different values -/

/-- The values drawn so far are different and not null, the set of seen values holds them and
no other, and there are not more than asked for. -/
structure Collected (count : Nat) (seen : Std.HashSet Int64) (drawn : Array Int64) : Prop where
  nodup : drawn.toList.Nodup
  mem_seen : ∀ value, value ∈ seen ↔ value ∈ drawn
  ne_null : ∀ value, value ∈ drawn → value ≠ Column.nullValue
  size_le : drawn.size ≤ count

theorem collected_empty (count : Nat) : Collected count ∅ #[] := by
  constructor <;> simp

/-- A value that is new and not null is added to the list and to the set. -/
theorem Collected.push {count : Nat} {seen : Std.HashSet Int64} {drawn : Array Int64}
    (h : Collected count seen drawn) (hsize : drawn.size < count) {value : Int64}
    (hnull : value ≠ Column.nullValue) (hnew : seen.contains value = false) :
    Collected count (seen.insert value) (drawn.push value) := by
  have hfresh : value ∉ drawn := by
    rw [← h.mem_seen, Std.HashSet.mem_iff_contains, hnew]
    decide
  constructor
  · rw [Array.toList_push, List.nodup_append]
    refine ⟨h.nodup, List.nodup_singleton value, fun other hother last hlast => ?_⟩
    rw [List.mem_singleton.1 hlast]
    rintro rfl
    exact hfresh (Array.mem_toList_iff.1 hother)
  · intro other
    rw [Std.HashSet.mem_insert, Array.mem_push, h.mem_seen, beq_iff_eq]
    exact or_comm.trans (or_congr_right eq_comm)
  · intro other hother
    rcases Array.mem_push.1 hother with hold | rfl
    · exact h.ne_null other hold
    · exact hnull
  · rw [Array.size_push]
    exact hsize

/-- The values are complete once there are as many as asked for. -/
theorem Collected.complete {count : Nat} {seen : Std.HashSet Int64} {drawn : Array Int64}
    (h : Collected count seen drawn) (hsize : ¬ drawn.size < count) :
    drawn.size = count ∧ drawn.toList.Nodup ∧ Column.nullValue ∉ drawn :=
  ⟨Nat.le_antisymm h.size_le (Nat.le_of_not_lt hsize), h.nodup,
    fun hnull => h.ne_null _ hnull rfl⟩

variable {g : Type} [RandomSource g]

/-- However often a value is drawn again, the loop ends with as many different values as
asked for, none of them null. -/
theorem yields_drawDistinct (count limit : Nat) {seen : Std.HashSet Int64}
    {drawn : Array Int64} (h : Collected count seen drawn) :
    Draw.Yields (drawDistinct count limit seen drawn : Draw g (Array Int64)) fun distinct =>
      distinct.size = count ∧ distinct.toList.Nodup ∧ Column.nullValue ∉ distinct := by
  induction limit generalizing seen drawn with
  | zero =>
    rw [drawDistinct]
    split
    · intro source value rest hrun
      exact absurd hrun (Option.some_ne_none _).symm
    · rename_i hsize
      exact Draw.yields_pure (h.complete hsize)
  | succ limit ih =>
    rw [drawDistinct]
    split
    · rename_i hsize
      refine (Draw.yields_true Draw.int64).bind fun value _ => ?_
      split
      · rename_i hnew
        exact ih (h.push hsize hnew.1 (by simpa using hnew.2))
      · exact ih h
    · rename_i hsize
      exact Draw.yields_pure (h.complete hsize)

/-- One different value is the first one drawn that is not null. -/
theorem drawDistinct_one (limit : Nat) :
    (drawDistinct 1 (limit + 1) ∅ #[] : Draw g (Array Int64))
      = Draw.int64 >>= fun value =>
          if value ≠ Column.nullValue then pure #[value] else drawDistinct 1 limit ∅ #[] := by
  rw [drawDistinct, if_pos (by decide)]
  refine bind_congr fun value => ?_
  by_cases hvalue : value = Column.nullValue
  · simp [hvalue]
  · have hfresh : value ≠ Column.nullValue ∧ !(∅ : Std.HashSet Int64).contains value := by
      simp [hvalue]
    rw [if_pos hfresh, if_pos hvalue]
    cases limit with
    | zero => rfl
    | succ limit => rfl

/-! ## All values -/

variable {rows unique : Nat}

/-- The numbers of rows and of different values for which there is a uniform column: each
different value fills a row, and without any there are no rows to fill. -/
def Fillable (rows unique : Nat) : Prop :=
  ¬ (rows < unique ∨ unique = 0 ∧ 0 < rows)

theorem Fillable.pos (h : Fillable rows unique) (hmore : 0 < rows - unique) : 0 < unique := by
  unfold Fillable at h
  omega

/-- There is a value to choose for every row that is left, and every exchange is one of two
rows. -/
theorem passes_drawValuesChecked (h : Fillable rows unique) (limit : Nat) :
    CheckedDraw.Passes (drawValuesChecked rows unique limit : CheckedDraw g (Array Int64))
      (drawValues rows unique limit) := by
  refine (CheckedDraw.passes_ofDraw _).bind
    (yields_drawDistinct unique limit (collected_empty unique)) fun distinct hdistinct => ?_
  have hsome (hmore : 0 < rows - unique) : 0 < distinct.size := by
    have hpos := h.pos hmore
    have hsize := hdistinct.1
    omega
  have hrepeats := CheckedDraw.passes_repeated_of_pos (g := g) (rows - unique) fun hmore =>
    CheckedDraw.passes_oneOf (hsome hmore)
  exact hrepeats.bind (Draw.yields_true _) fun repeats _ => CheckedDraw.passes_shuffle _

/-- There are as many values as rows, exactly as many different ones as asked for, and none
is null. -/
theorem yields_drawValues (h : Fillable rows unique) (limit : Nat) :
    Draw.Yields (drawValues rows unique limit : Draw g (Array Int64)) fun values =>
      values.size = rows ∧ values.toList.toFinset.card = unique ∧
        Column.nullValue ∉ values := by
  refine (yields_drawDistinct unique limit (collected_empty unique)).bind
    fun distinct ⟨hsize, hnodup, hnull⟩ => ?_
  have hsome (hmore : 0 < rows - unique) : 0 < distinct.size := by
    have hpos := h.pos hmore
    omega
  have hrepeats := Draw.yields_repeated_of_pos (g := g) (rows - unique) fun hmore =>
    Draw.yields_oneOf (hsome hmore)
  refine hrepeats.bind fun repeats ⟨hcount, hmem⟩ => ?_
  refine (Draw.yields_shuffle (distinct ++ repeats)).mono fun values hperm => ?_
  -- The repeated values are among the different ones, so they add none.
  have hfinset : values.toList.toFinset = distinct.toList.toFinset := by
    rw [List.toFinset_eq_of_perm _ _ hperm]
    ext value
    simp only [Array.toList_append, List.mem_toFinset, List.mem_append, Array.mem_toList_iff]
    exact ⟨fun hvalue => hvalue.elim id (hmem value), Or.inl⟩
  refine ⟨?_, ?_, ?_⟩
  · have hlength := hperm.length_eq
    simp only [Array.toList_append, List.length_append, Array.length_toList] at hlength
    unfold Fillable at h
    omega
  · rw [hfinset, List.toFinset_card_of_nodup hnodup, Array.length_toList, hsize]
  · rw [← Array.mem_toList_iff, ← List.mem_toFinset, hfinset, List.mem_toFinset,
      Array.mem_toList_iff]
    exact hnull

/-! ## The table -/

theorem ofColumns_one (name : String) (c : Column) :
    Table.ofColumns name [c] = .ok { name, columns := [c] } := by
  simp [Table.ofColumns]

/-- What is drawn for numbers that can be filled becomes the one column of a table. -/
theorem tableFrom_of_run (h : Fillable rows unique) {limit : Nat} {source rest : g}
    {values : Array Int64}
    (hrun : (drawValues rows unique limit).run source = some (values, rest)) :
    tableFrom source rows unique limit
      = .ok { name := "", columns := [Column.ofValues (columnName rows unique) values] } := by
  obtain ⟨hmany, hnone⟩ := not_or.1 h
  rw [tableFrom, if_neg hmany, if_neg hnone, hrun]
  exact ofColumns_one "" _

/-- Numbers that can be filled are never at fault. -/
theorem tableFrom_ne_invalidConfig (h : Fillable rows unique) (source : g) (limit : Nat)
    (fault : ConfigFault) : tableFrom source rows unique limit ≠ .error (.invalidConfig fault) := by
  cases hrun : (drawValues rows unique limit).run source with
  | none =>
    obtain ⟨hmany, hnone⟩ := not_or.1 h
    rw [tableFrom, if_neg hmany, if_neg hnone, hrun]
    intro heq
    cases heq
  | some pair =>
    rw [tableFrom_of_run h hrun]
    intro heq
    cases heq

/-- There is no uniform column for more different values than rows, or for rows without any
value, and this is the only fault of the numbers.  Otherwise no step of the drawing is
invalid, whatever the source of random words and however many values it may take to find
different ones.  When the drawing ends, the table has one column with the rows that were
asked for.  They hold exactly as many different values as asked for, which is what the
column counts, and no null value.  Without rows and values the column is empty. -/
theorem tableFrom_uniform (source : g) (rows unique limit : Nat) :
    ((∃ fault, tableFrom source rows unique limit = .error (.invalidConfig fault)) ↔
        rows < unique ∨ unique = 0 ∧ 0 < rows) ∧
      (¬ (rows < unique ∨ unique = 0 ∧ 0 < rows) →
        CheckedDraw.Passes (drawValuesChecked rows unique limit : CheckedDraw g (Array Int64))
            (drawValues rows unique limit) ∧
          ∀ values rest, (drawValues rows unique limit).run source = some (values, rest) →
            ∃ c, tableFrom source rows unique limit = .ok { name := "", columns := [c] } ∧
              c.values = values ∧ c.numRows = rows ∧
              c.values.toList.toFinset.card = unique ∧ c.cardinality = unique ∧
              Column.nullValue ∉ c.values ∧ c.contains Column.nullValue = false) ∧
      tableFrom source 0 0 limit
        = .ok { name := "", columns := [Column.ofValues (columnName 0 0) #[]] } := by
  refine ⟨⟨?_, ?_⟩, fun h => ⟨passes_drawValuesChecked h limit, ?_⟩, ?_⟩
  · rintro ⟨fault, hfault⟩
    by_contra h
    exact tableFrom_ne_invalidConfig h source limit fault hfault
  · intro h
    by_cases hmany : rows < unique
    · exact ⟨.tooManyUniqueValues unique rows, by rw [tableFrom, if_pos hmany]⟩
    · have hnone := h.resolve_left hmany
      exact ⟨.noUniqueValues, by rw [tableFrom, if_neg hmany, if_pos hnone]⟩
  · intro values rest hrun
    obtain ⟨hsize, hcard, hnull⟩ := yields_drawValues h limit source values rest hrun
    refine ⟨_, tableFrom_of_run h hrun, rfl, hsize, hcard, ?_, hnull, ?_⟩
    · rw [Column.cardinality_ofValues]
      exact hcard
    · rw [← Bool.not_eq_true, Column.contains_ofValues]
      exact hnull
  · have hfillable : Fillable 0 0 := by
      unfold Fillable
      omega
    have hrun : (drawValues 0 0 limit : Draw g (Array Int64)).run source = some (#[], source) := by
      cases limit <;> rfl
    exact tableFrom_of_run hfillable hrun

/-- Three rows with one value, with the stream of the usual seed. -/
theorem tableFrom_uniform_three_rows :
    ¬ (3 < 1 ∨ 1 = 0 ∧ 0 < 3) ∧ ∃ values rest c,
      (drawValues 3 1 8).run (Keystream.ofSeed seed) = some (values, rest) ∧
        tableFrom (Keystream.ofSeed seed) 3 1 8 = .ok { name := "", columns := [c] } ∧
          c.numRows = 3 ∧ c.cardinality = 1 := by
  have hfillable : ¬ (3 < 1 ∨ 1 = 0 ∧ 0 < 3) := by decide
  have hdraw : ((drawValues 3 1 8).run (Keystream.ofSeed seed)).isSome = true := by
    rw [drawValues, drawDistinct_one]
    decide +kernel
  obtain ⟨⟨values, rest⟩, hrun⟩ := Option.isSome_iff_exists.1 hdraw
  obtain ⟨-, hfilled, -⟩ := tableFrom_uniform (Keystream.ofSeed seed) 3 1 8
  obtain ⟨c, htable, -, hrows, -, hcardinality, -⟩ := (hfilled hfillable).2 values rest hrun
  exact ⟨hfillable, values, rest, c, hrun, htable, hrows, hcardinality⟩

end Uniform

end StripePruning
