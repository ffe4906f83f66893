import StripePruning.Proofs.Random.Outcomes
import StripePruning.Random.Checked

/-!
# Drawings without an invalid step

A checked drawing ends with a fault where a step of it is not valid.  `Passes` says that
this never happens: from every source the drawing gives what the plain drawing gives, or
does not end where that does not end.  There is one rule for each way to build a checked
drawing.  A rule for a step that is checked asks for what the check asks for, and what
follows a drawing may rely on what the plain drawing can give.
-/

namespace StripePruning

namespace CheckedDraw

variable {g α β : Type}

/-- No step of a checked drawing is invalid, and it draws what the plain one draws. -/
def Passes (checked : CheckedDraw g α) (plain : Draw g α) : Prop :=
  checked = ofDraw plain

/-- What a checked drawing gives if no step of it is invalid. -/
theorem Passes.run_eq {checked : CheckedDraw g α} {plain : Draw g α} (h : Passes checked plain)
    (source : g) :
    StateT.run checked.run source
      = (plain.run source).map fun drawn => (.ok drawn.1, drawn.2) := by
  rw [h, ofDraw, ExceptT.run_lift, StateT.run_map]
  rfl

/-- No step of a checked drawing is invalid, it draws what the plain one draws, and that has
a property. -/
structure Delivers (checked : CheckedDraw g α) (plain : Draw g α) (property : α → Prop) :
    Prop where
  passes : Passes checked plain
  yields : plain.Yields property

/-- What a checked drawing gives is a value with the property, and no fault. -/
theorem Delivers.outcome {checked : CheckedDraw g α} {plain : Draw g α} {property : α → Prop}
    (h : Delivers checked plain property) {source rest : g} {outcome : Except DrawFault α}
    (hrun : StateT.run checked.run source = some (outcome, rest)) :
    ∃ value, outcome = .ok value ∧ plain.run source = some (value, rest) ∧ property value := by
  rw [h.passes.run_eq] at hrun
  obtain ⟨⟨value, rest'⟩, hplain, heq⟩ := Option.map_eq_some_iff.1 hrun
  obtain ⟨rfl, rfl⟩ := Prod.mk.inj heq
  exact ⟨value, rfl, hplain, h.yields source value rest' hplain⟩

/-! ## Rules for the ways to build a drawing -/

theorem passes_ofDraw (draw : Draw g α) : Passes (ofDraw draw) draw := rfl

theorem passes_pure (value : α) : Passes (pure value : CheckedDraw g α) (pure value) := rfl

theorem Passes.bind {checked : CheckedDraw g α} {plain : Draw g α} {property : α → Prop}
    {next : α → CheckedDraw g β} {next' : α → Draw g β} (h : Passes checked plain)
    (hplain : plain.Yields property)
    (hnext : ∀ value, property value → Passes (next value) (next' value)) :
    Passes (checked >>= next) (plain >>= next') := by
  apply ExceptT.ext
  unfold Passes at h
  rw [h, ofDraw, ofDraw, ExceptT.lift_bind, ExceptT.run_bind_lift, ExceptT.run_bind_lift]
  refine hplain.bind_congr fun value hvalue => ?_
  rw [hnext value hvalue]
  rfl

/-- A condition that holds lets a drawing go on. -/
theorem passes_demand_bind {condition : Prop} [Decidable condition] {fault : DrawFault}
    {next : CheckedDraw g α} {plain : Draw g α} (h : condition) (hnext : Passes next plain) :
    Passes (demand condition fault >>= fun _ => next) plain := by
  rw [demand, if_pos h, pure_bind]
  exact hnext

theorem passes_repeatInto {one : CheckedDraw g α} {plain : Draw g α} (h : Passes one plain)
    (count : Nat) (drawn : Array α) :
    Passes (repeatInto one count drawn) (Draw.repeatInto plain count drawn) := by
  induction count generalizing drawn with
  | zero => exact passes_pure drawn
  | succ count ih => exact h.bind (Draw.yields_true plain) fun value _ => ih (drawn.push value)

theorem passes_repeated {one : CheckedDraw g α} {plain : Draw g α} (h : Passes one plain)
    (count : Nat) : Passes (repeated count one) (Draw.repeated count plain) :=
  passes_repeatInto h count #[]

/-- A drawing that is not repeated even once may have invalid steps. -/
theorem passes_repeated_of_pos {one : CheckedDraw g α} {plain : Draw g α} (count : Nat)
    (h : 0 < count → Passes one plain) :
    Passes (repeated count one) (Draw.repeated count plain) := by
  cases count with
  | zero => exact passes_pure #[]
  | succ count => exact passes_repeated (h (Nat.succ_pos count)) (count + 1)

/-! ## Values and numbers -/

/-- A place before the end has a value. -/
theorem passes_valueAt {values : Array α} {place : Nat} (h : place < values.size)
    (fallback : α) :
    Passes (valueAt values place : CheckedDraw g α) (pure (values.getD place fallback)) := by
  have hvalue : values[place]? = some (values.getD place fallback) := by simp [h]
  rw [valueAt, hvalue]
  exact passes_pure _

theorem passes_clamp {low high n : Nat} (h : low ≤ high) :
    Passes (clamp low high n : CheckedDraw g Nat) (pure (max low (min high n))) :=
  passes_demand_bind h (passes_pure _)

variable [RandomSource g]

theorem passes_below {n : Nat} (h : 0 < n) :
    Passes (below n : CheckedDraw g Nat) (Draw.below n) :=
  passes_demand_bind h (passes_ofDraw _)

theorem passes_indexBelow {n : Nat} (h : 0 < n) :
    Passes (indexBelow n : CheckedDraw g Nat) (Draw.indexBelow n) :=
  passes_demand_bind h (passes_ofDraw _)

/-- There is a value to draw from an array that is not empty. -/
theorem passes_oneOf [Inhabited α] {values : Array α} (h : 0 < values.size) :
    Passes (oneOf values : CheckedDraw g α) (Draw.oneOf values) :=
  (passes_below h).bind (Draw.yields_below h) fun _ hindex => passes_valueAt hindex default

theorem passes_toss {p : Float} (h : 0.0 ≤ p ∧ p ≤ 1.0) :
    Passes (toss p : CheckedDraw g Bool) (Coin.ofProbability p).toss :=
  passes_demand_bind h (passes_ofDraw _)

/-! ## Shuffles -/

omit [RandomSource g] in
theorem passes_swap {values : Array α} {i j : Nat} (hi : i < values.size) (hj : j < values.size) :
    Passes (swap values i j : CheckedDraw g (Array α)) (pure (values.swapIfInBounds i j)) :=
  passes_demand_bind hi (passes_demand_bind hj (passes_pure _))

/-- Every exchange is one of two places of the array, as exchanges do not change its size. -/
theorem passes_shuffleDown (count : Nat) {values : Array α} (h : count ≤ values.size) :
    Passes (shuffleDown count values : CheckedDraw g (Array α))
      (Draw.shuffleDown count values) := by
  fun_induction Draw.shuffleDown count values (g := g) with
  | case1 values => exact passes_pure values
  | case2 values => exact passes_pure values
  | case3 count values ih =>
    have hrange : 0 < count + 2 := by omega
    refine (passes_indexBelow hrange).bind (Draw.yields_indexBelow hrange) fun index hindex => ?_
    have hsize : (values.swapIfInBounds (count + 1) index).size = values.size := by simp
    have hswap := passes_swap (g := g) (i := count + 1) (j := index) (by omega)
      (Nat.lt_of_lt_of_le hindex h)
    unfold Passes at hswap
    rw [hswap]
    exact ih index (by omega)

theorem passes_shuffle (values : Array α) :
    Passes (shuffle values : CheckedDraw g (Array α)) (Draw.shuffle values) :=
  passes_shuffleDown values.size (Nat.le_refl _)

end CheckedDraw

end StripePruning
