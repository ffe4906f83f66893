import StripePruning.Index.Config
import StripePruning.Proofs.Index.Exact
import StripePruning.Proofs.Index.Filters
import StripePruning.Proofs.Index.Zones
import StripePruning.Proofs.Steps

/-!
# What keeps an index from being built

No index can be built with stripes of no rows.  Filters also need a probability between
zero and one, and they cannot be stored for more than `PerStripeBloom.maxStripes`
stripes.  Nothing else keeps an index from being built: `build_eq_error_iff` says so for
each family, and for configurations.
-/

namespace StripePruning

variable {c : Column} {stripeSize : Nat} {error : Error}

/-- The zone map of a column fails for stripes of no rows only. -/
theorem ZoneMap.build_eq_error_iff :
    ZoneMap.build c stripeSize = .error error ↔
      stripeSize = 0 ∧ error = .construction ZoneMap.label .zeroStripeSize := by
  rw [ZoneMap.build, checkStripeSize_bind_eq_error]
  simp [pure, Except.pure]

/-- The bitmaps of a column fail for stripes of no rows only. -/
theorem PerValueBitmap.build_eq_error_iff :
    PerValueBitmap.build c stripeSize = .error error ↔
      stripeSize = 0 ∧ error = .construction PerValueBitmap.label .zeroStripeSize := by
  constructor
  · intro h
    rcases checkStripeSize_bind_eq_error.1 h with hzero | ⟨hsize, -⟩
    · exact hzero
    · obtain ⟨p, hp, -⟩ := PerValueBitmap.build_records c hsize
      rw [hp] at h
      cases h
  · exact fun hzero => checkStripeSize_bind_eq_error.2 (Or.inl hzero)

/-- The filters of a column fail for stripes of no rows, for a probability out of range and
for too many stripes, in this order. -/
theorem PerStripeBloom.build_eq_error_iff {probability : Float} :
    PerStripeBloom.build c stripeSize probability = .error error ↔
      stripeSize = 0 ∧ error = .construction (PerStripeBloom.label probability) .zeroStripeSize ∨
        0 < stripeSize ∧
          ((0.0 < probability && probability < 1.0) = false ∧
              error = .construction (PerStripeBloom.label probability)
                (.probabilityOutside probability) ∨
            (0.0 < probability && probability < 1.0) = true ∧
              PerStripeBloom.maxStripes < c.numStripes stripeSize ∧
              error = .tooManyStripes (c.numStripes stripeSize)) := by
  rw [PerStripeBloom.build, checkStripeSize_bind_eq_error]
  refine or_congr_right (and_congr_right fun hsize => ?_)
  rw [← Column.length_chunks c hsize]
  cases hrange : (0.0 < probability && probability < 1.0) with
  | false => simp [bind, Except.bind, throw, throwThe, MonadExceptOf.throw, eq_comm]
  | true =>
    by_cases hmany : PerStripeBloom.maxStripes < (chunks stripeSize c.values.toList).length
    · simp [bind, Except.bind, throw, throwThe, MonadExceptOf.throw, hmany, eq_comm]
    · simp [pure, Except.pure, hmany]

namespace IndexConfig

variable {config : IndexConfig}

/-- A configuration fails as the index of its family does. -/
theorem build_eq_error_iff :
    config.build c stripeSize = .error error ↔
      stripeSize = 0 ∧ error = .construction config.indexName .zeroStripeSize ∨
        0 < stripeSize ∧ ∃ probability, config = .perStripeBloom probability ∧
          ((0.0 < probability && probability < 1.0) = false ∧
              error = .construction config.indexName (.probabilityOutside probability) ∨
            (0.0 < probability && probability < 1.0) = true ∧
              PerStripeBloom.maxStripes < c.numStripes stripeSize ∧
              error = .tooManyStripes (c.numStripes stripeSize)) := by
  cases config with
  | zoneMap =>
    rw [build, except_bind_eq_error, ZoneMap.build_eq_error_iff]
    simp [pure, Except.pure, indexName]
  | perStripeBloom probability =>
    rw [build, except_bind_eq_error, PerStripeBloom.build_eq_error_iff]
    simp [pure, Except.pure, indexName]
  | perValueBitmap =>
    rw [build, except_bind_eq_error, PerValueBitmap.build_eq_error_iff]
    simp [pure, Except.pure, indexName]

/-- The errors about the parameters of an index: stripes of no rows, and a probability out of
range. -/
theorem exists_construction_error_iff :
    (∃ error, config.build c stripeSize = .error error ∧ error.isConstruction = true) ↔
      stripeSize = 0 ∨ ∃ probability, config = .perStripeBloom probability ∧
        (0.0 < probability && probability < 1.0) = false := by
  constructor
  · rintro ⟨error, hbuild, hconstruction⟩
    rcases build_eq_error_iff.1 hbuild with
      ⟨hzero, -⟩ | ⟨-, probability, hconfig, ⟨hrange, -⟩ | ⟨-, -, rfl⟩⟩
    · exact Or.inl hzero
    · exact Or.inr ⟨probability, hconfig, hrange⟩
    · cases hconstruction
  · rintro (hzero | ⟨probability, hconfig, hrange⟩)
    · exact ⟨_, build_eq_error_iff.2 (Or.inl ⟨hzero, rfl⟩), rfl⟩
    · rcases Nat.eq_zero_or_pos stripeSize with hzero | hsize
      · exact ⟨_, build_eq_error_iff.2 (Or.inl ⟨hzero, rfl⟩), rfl⟩
      · have hbuild : config.build c stripeSize
            = .error (.construction config.indexName (.probabilityOutside probability)) :=
          build_eq_error_iff.2 (Or.inr ⟨hsize, probability, hconfig, Or.inl ⟨hrange, rfl⟩⟩)
        exact ⟨_, hbuild, rfl⟩

/-- The only other error: filters for more stripes than can be stored. -/
theorem build_eq_other_error_iff :
    config.build c stripeSize = .error error ∧ error.isConstruction = false ↔
      0 < stripeSize ∧
        (∃ probability, config = .perStripeBloom probability ∧
          (0.0 < probability && probability < 1.0) = true) ∧
        PerStripeBloom.maxStripes < c.numStripes stripeSize ∧
        error = .tooManyStripes (c.numStripes stripeSize) := by
  constructor
  · rintro ⟨hbuild, hconstruction⟩
    rcases build_eq_error_iff.1 hbuild with
      ⟨-, rfl⟩ | ⟨hsize, probability, hconfig, ⟨-, rfl⟩ | ⟨hrange, hmany, herror⟩⟩
    · cases hconstruction
    · cases hconstruction
    · exact ⟨hsize, ⟨probability, hconfig, hrange⟩, hmany, herror⟩
  · rintro ⟨hsize, ⟨probability, hconfig, hrange⟩, hmany, rfl⟩
    refine ⟨build_eq_error_iff.2 (Or.inr ⟨hsize, probability, hconfig, Or.inr ?_⟩), rfl⟩
    exact ⟨hrange, hmany, rfl⟩

end IndexConfig

end StripePruning
