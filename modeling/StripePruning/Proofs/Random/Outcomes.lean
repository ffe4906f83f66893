import StripePruning.Random.Range

/-!
# What a drawing can give

A drawing turns the words of a random source into a value.  `Draw.Yields` says
that every value it can give, for every source and every state of it, has a
property; a drawing that does not end gives none.  There is one rule for each
way to build a drawing, so that the property of a batch follows from those of
its parts and no proof runs a source.
-/

namespace StripePruning

theorem size_pos_of_isEmpty {α : Type} {values : Array α} (h : ¬ values.isEmpty = true) :
    0 < values.size := by
  simpa [Nat.pos_iff_ne_zero] using h

namespace Draw

variable {g α β : Type}

/-- Every value that a drawing gives has a property. -/
def Yields (draw : Draw g α) (property : α → Prop) : Prop :=
  ∀ source value rest, draw.run source = some (value, rest) → property value

/-! ## Rules for the ways to build a drawing -/

theorem Yields.mono {draw : Draw g α} {property property' : α → Prop}
    (h : Yields draw property) (himp : ∀ value, property value → property' value) :
    Yields draw property' :=
  fun source value rest hrun => himp value (h source value rest hrun)

theorem Yields.and {draw : Draw g α} {property property' : α → Prop} (h : Yields draw property)
    (h' : Yields draw property') : Yields draw fun value => property value ∧ property' value :=
  fun source value rest hrun => ⟨h source value rest hrun, h' source value rest hrun⟩

theorem yields_imp {draw : Draw g α} {condition : Prop} {property : α → Prop}
    (h : condition → Yields draw property) : Yields draw fun value => condition → property value :=
  fun source value rest hrun hcondition => h hcondition source value rest hrun

theorem yields_true (draw : Draw g α) : Yields draw fun _ => True :=
  fun _ _ _ _ => trivial

theorem yields_pure {value : α} {property : α → Prop} (h : property value) :
    Yields (pure value : Draw g α) property := by
  intro source value' rest hrun
  obtain ⟨rfl, -⟩ := Prod.mk.inj (Option.some.inj hrun)
  exact h

/-- What follows a drawing may rely on what the drawing gave. -/
theorem Yields.bind {draw : Draw g α} {next : α → Draw g β} {property : α → Prop}
    {property' : β → Prop} (hdraw : Yields draw property)
    (hnext : ∀ value, property value → Yields (next value) property') :
    Yields (draw >>= next) property' := by
  intro source value rest hrun
  cases hfirst : draw.run source with
  | none => simp [StateT.run_bind, hfirst] at hrun
  | some pair =>
    obtain ⟨first, middle⟩ := pair
    have hnextRun : (next first).run middle = some (value, rest) := by
      simpa [StateT.run_bind, hfirst] using hrun
    exact hnext first (hdraw source first middle hfirst) middle value rest hnextRun

/-- It does not matter what would follow a value that a drawing cannot give. -/
theorem Yields.bind_congr {draw : Draw g α} {next next' : α → Draw g β} {property : α → Prop}
    (hdraw : Yields draw property) (hnext : ∀ value, property value → next value = next' value) :
    draw >>= next = draw >>= next' := by
  apply StateT.ext
  intro source
  rw [StateT.run_bind, StateT.run_bind]
  cases hrun : draw.run source with
  | none => rfl
  | some pair =>
    obtain ⟨value, rest⟩ := pair
    show (next value).run rest = (next' value).run rest
    rw [hnext value (hdraw source value rest hrun)]

/-- The first accepted value has whatever every accepted value has. -/
theorem yields_firstOf {attempt : Draw g (Option α)} {property : α → Prop}
    (h : Yields attempt fun result => ∀ value, result = some value → property value)
    (limit : Nat) : Yields (firstOf attempt limit) property := by
  induction limit with
  | zero =>
    intro source value rest hrun
    exact absurd hrun (Option.some_ne_none _).symm
  | succ limit ih =>
    rw [firstOf]
    refine h.bind fun result hresult => ?_
    cases result with
    | none => exact ih
    | some value => exact yields_pure (hresult value rfl)

private theorem yields_repeatInto {one : Draw g α} {property : α → Prop} (h : Yields one property)
    (count : Nat) (drawn : Array α) (hdrawn : ∀ value, value ∈ drawn → property value) :
    Yields (repeatInto one count drawn) fun values =>
      values.size = drawn.size + count ∧ ∀ value, value ∈ values → property value := by
  induction count generalizing drawn with
  | zero => exact yields_pure ⟨rfl, hdrawn⟩
  | succ count ih =>
    rw [repeatInto]
    refine h.bind fun value hvalue => ?_
    refine (ih (drawn.push value) ?_).mono fun values hvalues => ?_
    · intro other hother
      rcases Array.mem_push.1 hother with hold | rfl
      · exact hdrawn other hold
      · exact hvalue
    · refine ⟨?_, hvalues.2⟩
      rw [hvalues.1, Array.size_push]
      omega

/-- A repeated drawing gives as many values as asked for, each with the property
of the single drawing. -/
theorem yields_repeated {one : Draw g α} {property : α → Prop} (h : Yields one property)
    (count : Nat) :
    Yields (repeated count one) fun values =>
      values.size = count ∧ ∀ value, value ∈ values → property value := by
  refine (yields_repeatInto h count #[] (by simp)).mono fun values hvalues => ?_
  exact ⟨by simpa using hvalues.1, hvalues.2⟩

/-- A drawing that is not repeated even once need not have the property. -/
theorem yields_repeated_of_pos {one : Draw g α} {property : α → Prop} (count : Nat)
    (h : 0 < count → Yields one property) :
    Yields (repeated count one) fun values =>
      values.size = count ∧ ∀ value, value ∈ values → property value := by
  cases count with
  | zero => exact yields_pure ⟨rfl, by simp⟩
  | succ count => exact yields_repeated (h (Nat.succ_pos count)) (count + 1)

/-- Nothing is drawn where there is nothing to choose from. -/
theorem yields_repeated_unless_isEmpty {values : Array α} {one : Draw g α} (size : Nat)
    (hone : 0 < values.size → Yields one (· ∈ values)) :
    Yields (if values.isEmpty then pure #[] else repeated size one) fun drawn =>
      (drawn.size = if values.isEmpty then 0 else size) ∧
        ∀ value, value ∈ drawn → value ∈ values := by
  by_cases hempty : values.isEmpty = true
  · simp only [hempty, if_true]
    exact yields_pure ⟨rfl, by simp⟩
  · simp only [hempty, if_false, Bool.false_eq_true]
    exact yields_repeated (hone (size_pos_of_isEmpty hempty)) size

/-! ## Numbers, values and coins -/

variable [RandomSource g]

/-- An accepted word stands for a number of the range. -/
theorem acceptWord?_lt {bits n word index : Nat} (hn : 0 < n) (hword : word < Nat.pow 2 bits)
    (h : acceptWord? bits n word = some index) : index < n := by
  obtain ⟨-, hindex⟩ := Option.ite_none_right_eq_some.1 h
  have hrange : 0 < Nat.pow 2 bits := Nat.two_pow_pos bits
  rw [← Option.some.inj hindex, Nat.div_lt_iff_lt_mul hrange, Nat.mul_comm n]
  exact Nat.mul_lt_mul_of_pos_right hword hn

theorem yields_below {n : Nat} (hn : 0 < n) : Yields (below n : Draw g Nat) (· < n) := by
  refine yields_firstOf ?_ drawLimit
  refine (yields_true wide).bind fun word _ => yields_pure fun index hindex => ?_
  exact acceptWord?_lt hn word.toNat_lt hindex

theorem yields_indexBelow {n : Nat} (hn : 0 < n) : Yields (indexBelow n : Draw g Nat) (· < n) := by
  unfold indexBelow
  split
  · refine yields_firstOf ?_ drawLimit
    refine (yields_true word).bind fun word _ => yields_pure fun index hindex => ?_
    exact acceptWord?_lt hn word.toNat_lt hindex
  · exact yields_below hn

/-- A value drawn from an array that is not empty is one of the array. -/
theorem yields_oneOf [Inhabited α] {values : Array α} (h : 0 < values.size) :
    Yields (oneOf values : Draw g α) (· ∈ values) := by
  refine (yields_below h).bind fun index hindex => yields_pure ?_
  simp [hindex]

theorem perm_swapIfInBounds (values : Array α) (i j : Nat) :
    (values.swapIfInBounds i j).toList.Perm values.toList := by
  rw [Array.swapIfInBounds_def]
  split
  · split
    · exact (Array.swap_perm _ _).toList
    · exact List.Perm.refl _
  · exact List.Perm.refl _

theorem yields_shuffleDown (count : Nat) (values : Array α) :
    Yields (shuffleDown count values : Draw g (Array α)) fun shuffled =>
      shuffled.toList.Perm values.toList := by
  fun_induction shuffleDown count values (g := g) with
  | case1 values => exact yields_pure (List.Perm.refl _)
  | case2 values => exact yields_pure (List.Perm.refl _)
  | case3 count values ih =>
    refine (yields_true (indexBelow (count + 2))).bind fun index _ => ?_
    refine (ih index).mono fun shuffled hshuffled => ?_
    exact hshuffled.trans (perm_swapIfInBounds values (count + 1) index)

/-- A shuffle loses no value and repeats none, whatever is drawn. -/
theorem yields_shuffle (values : Array α) :
    Yields (shuffle values : Draw g (Array α)) fun shuffled =>
      shuffled.toList.Perm values.toList :=
  yields_shuffleDown values.size values

/-- A coin with threshold zero never shows heads. -/
theorem yields_toss_zero : Yields (Coin.toss (.below 0) : Draw g Bool) (· = false) := by
  refine (yields_true wide).bind fun word _ => yields_pure ?_
  simp

theorem yields_toss_always : Yields (Coin.toss .always : Draw g Bool) (· = true) :=
  yields_pure rfl

end Draw

end StripePruning
