import StripePruning.Lookup.Checked
import StripePruning.Proofs.Lookup.Values
import StripePruning.Proofs.Number.Order
import StripePruning.Proofs.Random.Checked
import StripePruning.Proofs.Table.Rows

/-!
# What the batches hold

A batch is drawn without an invalid step, has the size that was asked for, and holds the
values that its kind promises.

* `Coin.ofProbability_of_le` and `Coin.ofProbability_of_ge` are the coins of rates outside
  the interval from zero to one, and `ofProbability_hitProbability` says that moving a rate
  into the interval does not change its coin.
* The `passes_` lemmas say for each kind of batch that no step is invalid.
* `PositiveBatch`, `NegativeBatch` and `MixedBatch` say what is drawn, and
  `batches_deliver` that it is.
-/

namespace StripePruning

/-! ## Coins -/

namespace Coin

theorem ofProbability_of_le {p : Float} (h : p.isNaN = true ∨ p ≤ 0.0) :
    ofProbability p = .below 0 := by
  unfold ofProbability
  split
  · rfl
  · rename_i hnumber
    rw [if_pos (h.resolve_left hnumber)]

theorem ofProbability_of_ge {p : Float} (h : 1.0 ≤ p) : ofProbability p = .always := by
  have hnumber := Double.isNaN_eq_false_of_le h
  rw [ofProbability, if_neg (ne_true_of_eq_false hnumber), if_neg (Double.not_le_zero h), if_pos h]

end Coin

namespace CheckedBatch

open CheckedDraw Batch

variable {c : Column} {hitRate : Float} {values : Array Int64}

/-- A hit has a probability that lies between zero and one. -/
theorem hitProbability_mem (values : Array Int64) (hitRate : Float) :
    0.0 ≤ hitProbability values hitRate ∧ hitProbability values hitRate ≤ 1.0 := by
  unfold hitProbability
  split
  · exact ⟨Double.zero_le_zero, Double.zero_le_one⟩
  · rename_i hguard
    have hnumber : hitRate.isNaN = false :=
      eq_false_of_ne_true fun h => hguard (Bool.or_eq_true_iff.2 (Or.inr h))
    split
    · exact ⟨Double.zero_le_zero, Double.zero_le_one⟩
    · rename_i hlow
      split
      · exact ⟨Double.zero_le_one, Double.one_le_one⟩
      · rename_i hhigh
        exact ⟨(Double.lt_or_le hnumber Double.isNaN_zero).resolve_left hlow,
          (Double.lt_or_le Double.isNaN_one hnumber).resolve_left hhigh⟩

/-- A rate outside the interval from zero to one has the coin of the nearer end. -/
theorem ofProbability_hitProbability (values : Array Int64) (hitRate : Float) :
    Coin.ofProbability (hitProbability values hitRate)
      = if values.isEmpty then .below 0 else Coin.ofProbability hitRate := by
  have hzero : Coin.ofProbability 0.0 = .below 0 :=
    Coin.ofProbability_of_le (Or.inr Double.zero_le_zero)
  by_cases hempty : values.isEmpty = true
  · rw [hitProbability, if_pos (Bool.or_eq_true_iff.2 (Or.inl hempty)), if_pos hempty, hzero]
  rw [if_neg hempty]
  by_cases hnumber : hitRate.isNaN = true
  · rw [hitProbability, if_pos (Bool.or_eq_true_iff.2 (Or.inr hnumber)), hzero,
      Coin.ofProbability_of_le (Or.inl hnumber)]
  have hguard : ¬ (values.isEmpty || hitRate.isNaN) = true := fun h =>
    (Bool.or_eq_true_iff.1 h).elim hempty hnumber
  rw [hitProbability, if_neg hguard]
  by_cases hlow : hitRate < 0.0
  · rw [if_pos hlow, hzero, Coin.ofProbability_of_le (Or.inr (Double.le_of_lt hlow))]
  rw [if_neg hlow]
  by_cases hhigh : 1.0 < hitRate
  · rw [if_pos hhigh, Coin.ofProbability_of_ge Double.one_le_one,
      Coin.ofProbability_of_ge (Double.le_of_lt hhigh)]
  · rw [if_neg hhigh]

/-! ## No step is invalid -/

variable {g : Type} [RandomSource g]

theorem passes_drawEvenly (values : Array Int64) (size : Nat) :
    Passes (drawEvenly values size : CheckedDraw g (Array Int64))
      (Batch.drawEvenly values size) := by
  unfold drawEvenly Batch.drawEvenly
  split
  · exact passes_pure #[]
  · rename_i hempty
    exact passes_repeated (passes_oneOf (size_pos_of_isEmpty hempty)) size

omit [RandomSource g] in
/-- Whatever the rank, it points to a value. -/
theorem passes_valueOfRank (h : 0 < values.size) (rank : Float) :
    Passes (valueOfRank values rank : CheckedDraw g Int64)
      (pure (values.getD (placeOfRank values.size rank) Column.nullValue)) := by
  have hplace := placeOfRank_lt h rank
  have hposition : 0 < max 1 (min values.size rank.toUInt64.toNat) := by omega
  have hclamp := passes_clamp (g := g) (n := rank.toUInt64.toNat) (Nat.succ_le_of_lt h)
  unfold Passes at hclamp
  unfold valueOfRank
  rw [hclamp]
  exact passes_demand_bind hposition (passes_valueAt hplace Column.nullValue)

omit [RandomSource g] in
theorem passes_positiveRanked (rank : Nat → Draw g Float) (c : Column) (size : Nat) :
    Passes (positiveRanked rank c size) (Batch.positiveRanked rank c size) := by
  unfold positiveRanked Batch.positiveRanked
  dsimp only
  split
  · exact passes_pure #[]
  · rename_i hempty
    have hpos := size_pos_of_isEmpty hempty
    refine passes_repeated ?_ size
    exact (passes_ofDraw _).bind (Draw.yields_true _) fun drawn _ => passes_valueOfRank hpos drawn

theorem passes_negative (c : Column) (size limit : Nat) :
    Passes (negative c size limit : CheckedDraw g (Array Int64)) (Batch.negative c size limit) :=
  passes_repeated (passes_ofDraw _) size

theorem passes_mixed (c : Column) (hitRate : Float) (size limit : Nat) :
    Passes (mixed c hitRate size limit : CheckedDraw g (Array Int64))
      (Batch.mixed c hitRate size limit) := by
  have htoss := passes_toss (g := g) (hitProbability_mem (presentValues c) hitRate)
  rw [ofProbability_hitProbability] at htoss
  refine passes_repeated ?_ size
  by_cases hempty : (presentValues c).isEmpty = true
  -- Without values the coin never shows heads, so none is chosen.
  · rw [if_pos hempty] at htoss ⊢
    refine htoss.bind Draw.yields_toss_zero fun heads hheads => ?_
    rw [hheads]
    exact passes_ofDraw _
  · rw [if_neg hempty] at htoss ⊢
    refine htoss.bind (Draw.yields_true _) fun heads _ => ?_
    cases heads with
    | true => exact passes_oneOf (size_pos_of_isEmpty hempty)
    | false => exact passes_ofDraw _

/-! ## What is drawn -/

/-- A row holds a value, and it is not the null value. -/
def HeldBy (c : Column) (value : Int64) : Prop :=
  value ∈ c.values ∧ value ≠ Column.nullValue

/-- As many values of rows as asked for, or none if no row holds a value. -/
structure PositiveBatch (c : Column) (size : Nat) (drawn : Array Int64) : Prop where
  size_eq : (∃ value, HeldBy c value) → drawn.size = size
  eq_empty : (¬ ∃ value, HeldBy c value) → drawn = #[]
  held : ∀ value, value ∈ drawn → HeldBy c value

/-- As many values that no row holds as asked for. -/
structure NegativeBatch (c : Column) (size : Nat) (drawn : Array Int64) : Prop where
  size_eq : drawn.size = size
  absent : ∀ value, value ∈ drawn → value ∉ c.values

/-- As many values as asked for.  The hit rate decides whether values of rows and values
that no row holds may be among them. -/
structure MixedBatch (c : Column) (hitRate : Float) (size : Nat) (drawn : Array Int64) :
    Prop where
  size_eq : drawn.size = size
  either : ∀ value, value ∈ drawn → HeldBy c value ∨ value ∉ c.values
  absent : (hitRate.isNaN = true ∨ hitRate ≤ 0.0) ∨ (¬ ∃ value, HeldBy c value) →
    ∀ value, value ∈ drawn → value ∉ c.values
  held : 1.0 ≤ hitRate → (∃ value, HeldBy c value) → ∀ value, value ∈ drawn → HeldBy c value

theorem mem_presentValues_iff_heldBy (hc : c.Permuted) (value : Int64) :
    value ∈ presentValues c ↔ HeldBy c value :=
  mem_presentValues.trans (and_congr_left fun _ => hc.contains_iff)

theorem contains_eq_false_iff (hc : c.Permuted) (value : Int64) :
    c.contains value = false ↔ value ∉ c.values := by
  rw [← hc.contains_iff, Bool.not_eq_true]

/-- There is nothing to choose from if no row holds a value. -/
theorem isEmpty_iff_not_heldBy (hvalues : ∀ value, value ∈ values ↔ HeldBy c value) :
    values.isEmpty = true ↔ ¬ ∃ value, HeldBy c value := by
  simp [← hvalues, Array.eq_empty_iff_forall_not_mem]

theorem positiveBatch_of_mem (hvalues : ∀ value, value ∈ values ↔ HeldBy c value) {size : Nat}
    {drawn : Array Int64} (h : (drawn.size = if values.isEmpty then 0 else size) ∧
      ∀ value, value ∈ drawn → value ∈ values) : PositiveBatch c size drawn := by
  obtain ⟨hsize, hmem⟩ := h
  have hempty := isEmpty_iff_not_heldBy hvalues
  constructor
  · intro hheld
    rw [hsize, if_neg fun h => hempty.1 h hheld]
  · intro hnone
    rw [if_pos (hempty.2 hnone)] at hsize
    exact Array.eq_empty_of_size_eq_zero hsize
  · intro value hvalue
    exact (hvalues value).1 (hmem value hvalue)

/-- A coin that never shows heads leaves only values that the column does not hold. -/
theorem yields_mixed_absent
    (h : (presentValues c).isEmpty = true ∨ Coin.ofProbability hitRate = .below 0)
    (size limit : Nat) :
    Draw.Yields (Batch.mixed c hitRate size limit : Draw g (Array Int64)) fun drawn =>
      ∀ value, value ∈ drawn → c.contains value = false := by
  have hcoin : (if (presentValues c).isEmpty then .below 0 else Coin.ofProbability hitRate)
      = .below 0 := by
    split
    · rfl
    · rename_i hempty
      exact h.resolve_left hempty
  rw [Batch.mixed, hcoin]
  refine (Draw.yields_repeated ?_ size).mono fun drawn hdrawn => hdrawn.2
  refine Draw.yields_toss_zero.bind fun heads hheads => ?_
  rw [hheads]
  exact yields_drawAbsent c limit

/-- A coin that always shows heads leaves only values that the column holds. -/
theorem yields_mixed_held (hempty : ¬ (presentValues c).isEmpty = true)
    (h : Coin.ofProbability hitRate = .always) (size limit : Nat) :
    Draw.Yields (Batch.mixed c hitRate size limit : Draw g (Array Int64)) fun drawn =>
      ∀ value, value ∈ drawn → value ∈ presentValues c := by
  rw [Batch.mixed, if_neg hempty, h]
  refine (Draw.yields_repeated ?_ size).mono fun drawn hdrawn => hdrawn.2
  refine Draw.yields_toss_always.bind fun heads hheads => ?_
  rw [hheads]
  exact Draw.yields_oneOf (size_pos_of_isEmpty hempty)

theorem yields_negativeBatch (hc : c.Permuted) (size limit : Nat) :
    Draw.Yields (Batch.negative c size limit : Draw g (Array Int64)) (NegativeBatch c size) := by
  refine (Draw.yields_repeated (yields_drawAbsent c limit) size).mono fun drawn hdrawn => ?_
  refine ⟨hdrawn.1, fun value hvalue => ?_⟩
  exact (contains_eq_false_iff hc value).1 (hdrawn.2 value hvalue)

theorem yields_mixedBatch (hc : c.Permuted) (hitRate : Float) (size limit : Nat) :
    Draw.Yields (Batch.mixed c hitRate size limit : Draw g (Array Int64))
      (MixedBatch c hitRate size) := by
  have hpresent := mem_presentValues_iff_heldBy hc
  have habsent := contains_eq_false_iff hc
  have hempty := isEmpty_iff_not_heldBy hpresent
  have hmisses : Draw.Yields (Batch.mixed c hitRate size limit : Draw g (Array Int64)) fun drawn =>
      (hitRate.isNaN = true ∨ hitRate ≤ 0.0) ∨ (¬ ∃ value, HeldBy c value) →
        ∀ value, value ∈ drawn → c.contains value = false := by
    refine Draw.yields_imp fun h => yields_mixed_absent ?_ size limit
    exact h.symm.imp hempty.2 Coin.ofProbability_of_le
  have hhits : Draw.Yields (Batch.mixed c hitRate size limit : Draw g (Array Int64)) fun drawn =>
      1.0 ≤ hitRate ∧ (∃ value, HeldBy c value) →
        ∀ value, value ∈ drawn → value ∈ presentValues c := by
    refine Draw.yields_imp fun h => yields_mixed_held ?_ (Coin.ofProbability_of_ge h.1) size limit
    exact fun hnone => hempty.1 hnone h.2
  have hall := (yields_mixed c hitRate size limit).and (hmisses.and hhits)
  refine hall.mono fun drawn ⟨⟨hsize, heither⟩, hmiss, hhit⟩ => ⟨hsize, ?_, ?_, ?_⟩
  · intro value hvalue
    exact (heither value hvalue).imp (hpresent value).1 (habsent value).1
  · intro h value hvalue
    exact (habsent value).1 (hmiss h value hvalue)
  · intro h hheld value hvalue
    exact (hpresent value).1 (hhit ⟨h, hheld⟩ value hvalue)

/-- Of a column whose rows were only put into other orders, every kind of batch is drawn
without an empty range, a place past the end, crossed bounds or an impossible probability,
whatever the source of random words, and holds what its kind promises.  Positive batches
hold values of rows; for those with drawn ranks this does not depend on the ranks.
Negative batches hold values that no row holds, and mixed ones both kinds, only one of
them where the hit rate leaves no choice.  It does not matter how many values may be
drawn in search of one that no row holds. -/
theorem batches_deliver (hc : c.Permuted) (size : Nat) :
    Delivers (positiveDistinct c size : CheckedDraw g (Array Int64))
        (Batch.positiveDistinct c size) (PositiveBatch c size) ∧
      Delivers (positiveUniform c size : CheckedDraw g (Array Int64))
        (Batch.positiveUniform c size) (PositiveBatch c size) ∧
      (∀ rank : Nat → Draw g Float, Delivers (positiveRanked rank c size)
        (Batch.positiveRanked rank c size) (PositiveBatch c size)) ∧
      Delivers (positiveZipf c size : CheckedDraw g (Array Int64))
        (Batch.positiveZipf c size) (PositiveBatch c size) ∧
      ∀ limit,
        Delivers (negative c size limit : CheckedDraw g (Array Int64))
            (Batch.negative c size limit) (NegativeBatch c size) ∧
          ∀ hitRate, Delivers (mixed c hitRate size limit : CheckedDraw g (Array Int64))
            (Batch.mixed c hitRate size limit) (MixedBatch c hitRate size) := by
  have hvalues := mem_presentValues_iff_heldBy hc
  have hrows (value : Int64) : value ∈ presentRows c ↔ HeldBy c value := mem_presentRows
  have hranked (rank : Nat → Draw g Float) : Delivers (positiveRanked rank c size)
      (Batch.positiveRanked rank c size) (PositiveBatch c size) :=
    ⟨passes_positiveRanked rank c size,
      (yields_positiveRanked rank c size).mono fun _ => positiveBatch_of_mem hvalues⟩
  refine ⟨⟨passes_drawEvenly _ size, ?_⟩, ⟨passes_drawEvenly _ size, ?_⟩, hranked,
    hranked Zipf.rank, fun limit => ⟨⟨passes_negative c size limit, ?_⟩, fun hitRate =>
      ⟨passes_mixed c hitRate size limit, ?_⟩⟩⟩
  · exact (yields_drawEvenly _ size).mono fun _ => positiveBatch_of_mem hvalues
  · exact (yields_drawEvenly _ size).mono fun _ => positiveBatch_of_mem hrows
  · exact yields_negativeBatch hc size limit
  · exact yields_mixedBatch hc hitRate size limit

/-- Four rows in another order, one of them null. -/
def rearranged : Column :=
  { Column.ofValues "c" #[7, Column.nullValue, 7, 8] with values := #[8, Column.nullValue, 7, 7] }

/-- A mixed batch with the stream of the usual seed meets no fault. -/
theorem batches_deliver_rearranged :
    (Column.ofValues "c" #[7, Column.nullValue, 7, 8]).reorder #[3, 1, 0, 2] = .ok rearranged ∧
      rearranged.Permuted ∧ ∃ drawn rest,
        StateT.run (mixed rearranged 0.5 4).run (Keystream.ofSeed standardSeed)
          = some (.ok drawn, rest) ∧ MixedBatch rearranged 0.5 4 drawn := by
  have hreorder : (Column.ofValues "c" #[7, Column.nullValue, 7, 8]).reorder #[3, 1, 0, 2]
      = .ok rearranged := by
    simp [Column.reorder, Column.numRows, Column.ofValues, rearranged]
  have hperm : [3, 1, 0, 2].Perm (List.range 4) := by decide
  have hc : rearranged.Permuted :=
    (Column.Permuted.ofValues "c" #[7, Column.nullValue, 7, 8]).reorder hperm hreorder
  have hdraw : ((Batch.mixed rearranged 0.5 4).run
      (Keystream.ofSeed standardSeed)).isSome = true := by
    decide +kernel
  obtain ⟨⟨drawn, rest⟩, hrun⟩ := Option.isSome_iff_exists.1 hdraw
  obtain ⟨-, -, -, -, hlimit⟩ := batches_deliver (g := Keystream) hc 4
  have hmixed := (hlimit drawLimit).2
  refine ⟨hreorder, hc, drawn, rest, ?_, (hmixed 0.5).yields _ drawn rest hrun⟩
  rw [(hmixed 0.5).passes.run_eq, hrun]
  rfl

end CheckedBatch

end StripePruning
