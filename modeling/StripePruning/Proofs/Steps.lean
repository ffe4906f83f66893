import Mathlib.Data.List.Forall2
import StripePruning.Index.Basic

/-!
# Steps that may fail

Laws of `Except` for programs that are a sequence of steps.

* `except_bind_eq_ok` and `except_bind_eq_error` take a sequence of two steps apart,
  and `checkStripeSize_bind_eq_ok` and `checkStripeSize_bind_eq_error` the one that
  every index is built by.
* `foldlM_ok` is the run lemma for loops that cannot fail: every step succeeds and
  keeps the invariant.  `mapM_eq_ok_iff` says when a loop over a list succeeds, place by
  place, and what its results tell of its values is derived from that.
* `mapM_combine_eq_ok_iff` is for loops whose results are combined, and
  `mapM_zipIdx_bind_eq_ok_iff` splits a loop of two steps into two loops.
* `mapM_written` reads a list back from what is written of its values.
* `FailsWith` says what all errors of a step have in common.  There is one rule for each
  way to build a step, so that the property of a whole computation follows from those of
  its parts.
-/

namespace StripePruning

variable {ε α β : Type}

/-- Two steps in a row succeed if each of them does. -/
theorem except_bind_eq_ok {step : Except ε α} {next : α → Except ε β} {result : β} :
    (step >>= next) = .ok result ↔ ∃ value, step = .ok value ∧ next value = .ok result := by
  cases step <;> simp [bind, Except.bind]

theorem except_map_eq_ok {f : α → β} {step : Except ε α} {result : β} :
    step.map f = .ok result ↔ ∃ value, step = .ok value ∧ f value = result := by
  cases step <;> simp [Except.map]

/-- Two steps in a row fail if the first one does, or if the second one does with what
the first one gave. -/
theorem except_bind_eq_error {step : Except ε α} {next : α → Except ε β} {error : ε} :
    (step >>= next) = .error error ↔
      step = .error error ∨ ∃ value, step = .ok value ∧ next value = .error error := by
  cases step <;> simp [bind, Except.bind]

/-- What is built behind the check of the stripe size is built for stripes of at
least one row. -/
theorem checkStripeSize_bind_eq_ok {label : String} {stripeSize : Nat}
    {next : Unit → Except Error α} {result : α} :
    (checkStripeSize label stripeSize >>= next) = .ok result ↔
      0 < stripeSize ∧ next () = .ok result := by
  rw [checkStripeSize]
  by_cases hsize : stripeSize = 0
  · simp [hsize, bind, Except.bind]
  · simp [hsize, bind, Except.bind, Nat.pos_of_ne_zero hsize]

/-- What is built behind the check of the stripe size fails for stripes of no rows, and
otherwise as it fails without the check. -/
theorem checkStripeSize_bind_eq_error {label : String} {stripeSize : Nat}
    {next : Unit → Except Error α} {error : Error} :
    (checkStripeSize label stripeSize >>= next) = .error error ↔
      stripeSize = 0 ∧ error = .construction label .zeroStripeSize ∨
        0 < stripeSize ∧ next () = .error error := by
  rw [checkStripeSize]
  by_cases hsize : stripeSize = 0
  · simp [hsize, bind, Except.bind, eq_comm]
  · simp [hsize, bind, Except.bind, Nat.pos_of_ne_zero hsize]

/-! ## Loops -/

/-- A loop succeeds and keeps an invariant that every step keeps. -/
theorem foldlM_ok {step : β → α → Except ε β} {invariant : β → Prop} {values : List α}
    (hstep : ∀ value, value ∈ values → ∀ state, invariant state →
      ∃ state', step state value = .ok state' ∧ invariant state')
    {state : β} (hstate : invariant state) :
    ∃ state', values.foldlM step state = .ok state' ∧ invariant state' := by
  induction values generalizing state with
  | nil => exact ⟨state, rfl, hstate⟩
  | cons value rest ih =>
    obtain ⟨middle, hfirst, hmiddle⟩ := hstep value List.mem_cons_self state hstate
    obtain ⟨last, hrest, hlast⟩ :=
      ih (fun other hother => hstep other (List.mem_cons_of_mem value hother)) hmiddle
    refine ⟨last, ?_, hlast⟩
    rw [List.foldlM_cons, hfirst]
    exact hrest

/-- A loop over a list succeeds if every step of it does. -/
theorem mapM_ok {step : α → Except ε β} {result : α → β} {values : List α}
    (h : ∀ value, value ∈ values → step value = .ok (result value)) :
    values.mapM step = .ok (values.map result) := by
  induction values with
  | nil => rfl
  | cons value rest ih =>
    have hrest := ih fun other hother => h other (List.mem_cons_of_mem value hother)
    rw [List.mapM_cons, h value List.mem_cons_self, hrest]
    rfl

/-- A loop over a list gives a result if every step of it does. -/
theorem exists_mapM_ok {step : α → Except ε β} {values : List α}
    (h : ∀ value, value ∈ values → ∃ result, step value = .ok result) :
    ∃ results, values.mapM step = .ok results := by
  induction values with
  | nil => exact ⟨[], rfl⟩
  | cons value rest ih =>
    obtain ⟨result, hfirst⟩ := h value List.mem_cons_self
    obtain ⟨results, hrest⟩ := ih fun other hother => h other (List.mem_cons_of_mem value hother)
    refine ⟨result :: results, ?_⟩
    rw [List.mapM_cons, hfirst, hrest]
    rfl

/-- What is written can be read back from a list if each of its values can. -/
theorem mapM_written {read : β → Option α} {write : α → β} {values : List α}
    (h : ∀ value, value ∈ values → read (write value) = some value) :
    (values.map write).mapM read = some values := by
  induction values with
  | nil => rfl
  | cons value rest ih =>
    have hrest := ih fun other hother => h other (List.mem_cons_of_mem value hother)
    rw [List.map_cons, List.mapM_cons, h value List.mem_cons_self, hrest]
    rfl

/-- Every value that is read from a list is read from one of its members. -/
theorem exists_of_mem_mapM_some {read : α → Option β} {values : List α} {results : List β}
    (h : values.mapM read = some results) {result : β} (hresult : result ∈ results) :
    ∃ value, value ∈ values ∧ read value = some result := by
  induction values generalizing results with
  | nil =>
    obtain rfl := Option.some.inj h
    exact absurd hresult List.not_mem_nil
  | cons first rest ih =>
    rw [List.mapM_cons] at h
    obtain ⟨found, hfirst, h⟩ := Option.bind_eq_some_iff.1 h
    obtain ⟨others, hrest, h⟩ := Option.bind_eq_some_iff.1 h
    obtain rfl := Option.some.inj h
    rcases List.mem_cons.1 hresult with hfound | hother
    · exact ⟨first, List.mem_cons_self, hfound ▸ hfirst⟩
    · obtain ⟨value, hvalue, hread⟩ := ih hrest hother
      exact ⟨value, List.mem_cons_of_mem first hvalue, hread⟩

/-- A loop over a list succeeds exactly if the step at each place gives the result at that place.
What is known of the results of a loop follows by induction on the right-hand side. -/
theorem mapM_eq_ok_iff {step : α → Except ε β} {values : List α} {results : List β} :
    values.mapM step = .ok results ↔
      List.Forall₂ (fun value result => step value = .ok result) values results := by
  induction values generalizing results with
  | nil =>
    rw [List.forall₂_nil_left_iff]
    constructor
    · intro h
      exact (Except.ok.inj h).symm
    · intro h
      rw [h]
      rfl
  | cons value rest ih =>
    rw [List.forall₂_cons_left_iff, List.mapM_cons]
    constructor
    · intro h
      obtain ⟨result, hfirst, h⟩ := except_bind_eq_ok.1 h
      obtain ⟨others, hrest, h⟩ := except_bind_eq_ok.1 h
      exact ⟨result, others, hfirst, ih.1 hrest, (Except.ok.inj h).symm⟩
    · intro h
      obtain ⟨result, others, hfirst, hrest, hresults⟩ := h
      rw [hfirst, ih.2 hrest, hresults]
      rfl

/-- Every step of a loop that succeeds does so itself. -/
theorem exists_of_mapM_ok {step : α → Except ε β} {values : List α} {results : List β}
    (h : values.mapM step = .ok results) {value : α} (hvalue : value ∈ values) :
    ∃ result, step value = .ok result := by
  rw [mapM_eq_ok_iff] at h
  induction h with
  | nil => exact absurd hvalue List.not_mem_nil
  | cons hfirst hrest ih =>
    cases List.mem_cons.1 hvalue with
    | inl hvalue => exact ⟨_, hvalue ▸ hfirst⟩
    | inr hvalue => exact ih hvalue

/-- A loop that succeeds has no results only if it has no steps. -/
theorem mapM_ok_eq_nil_iff {step : α → Except ε β} {values : List α} {results : List β}
    (h : values.mapM step = .ok results) : results = [] ↔ values = [] := by
  cases mapM_eq_ok_iff.1 h with
  | nil => simp
  | cons hfirst hrest => simp

/-- Every result of a loop that succeeds is the result of a step. -/
theorem exists_of_mem_mapM_ok {step : α → Except ε β} {values : List α} {results : List β}
    (h : values.mapM step = .ok results) {result : β} (hresult : result ∈ results) :
    ∃ value, value ∈ values ∧ step value = .ok result := by
  rw [mapM_eq_ok_iff] at h
  induction h with
  | nil => exact absurd hresult List.not_mem_nil
  | cons hfirst hrest ih =>
    cases List.mem_cons.1 hresult with
    | inl hfound => exact ⟨_, List.mem_cons_self, hfound ▸ hfirst⟩
    | inr hother =>
      obtain ⟨value, hvalue, hstep⟩ := ih hother
      exact ⟨value, List.mem_cons_of_mem _ hvalue, hstep⟩

/-- The values of a loop that succeeds can be told from its results if each of them can. -/
theorem map_of_mapM_ok {step : α → Except ε β} {back : β → α} {values : List α} {results : List β}
    (hback : ∀ value result, step value = .ok result → back result = value)
    (h : values.mapM step = .ok results) : results.map back = values := by
  rw [mapM_eq_ok_iff] at h
  induction h with
  | nil => rfl
  | cons hfirst hrest ih => rw [List.map_cons, hback _ _ hfirst, ih]

/-- What is written can be read back from a list if each of its values can, also if not all
values can be written. -/
theorem mapM_read_of_mapM_ok {write : α → Except ε β} {read : β → Option α} {values : List α}
    {written : List β} (hread : ∀ value out, write value = .ok out → read out = some value)
    (h : values.mapM write = .ok written) : written.mapM read = some values := by
  rw [mapM_eq_ok_iff] at h
  induction h with
  | nil => rfl
  | cons hfirst hrest ih =>
    rw [List.mapM_cons, hread _ _ hfirst, ih]
    rfl

/-- Two loops in a row, where the second one takes the values together with the results of the
first, give what is made of the results of a third one. -/
theorem mapM_zip_ok {γ δ : Type} {first : α → Except ε β} (second : α × β → Except ε γ)
    {target : α → Except ε δ} (make : δ → γ) {values : List α}
    (h : ∀ value, value ∈ values → ∃ middle found, first value = .ok middle ∧
      target value = .ok found ∧ second (value, middle) = .ok (make found)) :
    ∃ middles founds, values.mapM first = .ok middles ∧ values.mapM target = .ok founds ∧
      (values.zip middles).mapM second = .ok (founds.map make) := by
  induction values with
  | nil => exact ⟨[], [], rfl, rfl, rfl⟩
  | cons value rest ih =>
    obtain ⟨middle, found, hfirst, htarget, hsecond⟩ := h value List.mem_cons_self
    obtain ⟨middles, founds, hfirsts, htargets, hseconds⟩ :=
      ih fun other hother => h other (List.mem_cons_of_mem value hother)
    refine ⟨middle :: middles, found :: founds, ?_, ?_, ?_⟩
    · rw [List.mapM_cons, hfirst, hfirsts]
      rfl
    · rw [List.mapM_cons, htarget, htargets]
      rfl
    · rw [List.zip_cons_cons, List.mapM_cons, hsecond, hseconds]
      rfl

/-- A loop succeeds exactly if all of its steps do, and what is made of its results is made
of those of the steps. -/
theorem mapM_combine_eq_ok_iff {γ : Type} {step : α → Except ε β} (combine : List β → γ)
    {succeeds : α → Prop} {result : α → β} {values : List α} {combined : γ}
    (h : ∀ value, value ∈ values → ∀ out,
      step value = .ok out ↔ succeeds value ∧ out = result value) :
    (values.mapM step >>= fun results => .ok (combine results)) = .ok combined ↔
      (∀ value, value ∈ values → succeeds value) ∧ combined = combine (values.map result) := by
  have hok (hsucceeds : ∀ value, value ∈ values → succeeds value) :
      values.mapM step = .ok (values.map result) :=
    mapM_ok fun value hvalue => (h value hvalue _).2 ⟨hsucceeds value hvalue, rfl⟩
  constructor
  · intro hloop
    obtain ⟨results, hresults, hcombined⟩ := except_bind_eq_ok.1 hloop
    have hsucceeds (value : α) (hvalue : value ∈ values) : succeeds value := by
      obtain ⟨out, hout⟩ := exists_of_mapM_ok hresults hvalue
      exact ((h value hvalue out).1 hout).1
    obtain rfl : values.map result = results := by
      rw [hok hsucceeds] at hresults
      exact Except.ok.inj hresults
    exact ⟨hsucceeds, (Except.ok.inj hcombined).symm⟩
  · rintro ⟨hsucceeds, rfl⟩
    rw [hok hsucceeds]
    rfl

/-- A loop whose steps are sequences of two steps succeeds exactly if two loops in a row do.
Their errors may differ, since the second loop starts late.  The second steps know their
positions. -/
theorem mapM_zipIdx_bind_eq_ok_iff {γ : Type} (first : α → Except ε β)
    (second : Nat → β → Except ε γ) {values : List α} {start : Nat} {results : List γ} :
    ((values.zipIdx start).mapM fun entry => first entry.1 >>= second entry.2) = .ok results ↔
      ∃ middle, values.mapM first = .ok middle ∧
        ((middle.zipIdx start).mapM fun entry => second entry.2 entry.1) = .ok results := by
  induction values generalizing start results with
  | nil =>
    constructor
    · intro h
      exact ⟨[], rfl, h⟩
    · rintro ⟨_, ⟨⟩, h⟩
      exact h
  | cons value rest ih =>
    simp only [List.zipIdx_cons, List.mapM_cons, except_bind_eq_ok, ih]
    constructor
    · rintro ⟨last, ⟨out, hfirst, hsecond⟩, others, ⟨middle, hmiddle, hothers⟩, hresults⟩
      refine ⟨out :: middle, ⟨out, hfirst, middle, hmiddle, rfl⟩, ?_⟩
      rw [List.zipIdx_cons, List.mapM_cons, hsecond, hothers]
      exact hresults
    · rintro ⟨_, ⟨out, hfirst, middle, hmiddle, ⟨⟩⟩, h⟩
      simp only [List.zipIdx_cons, List.mapM_cons, except_bind_eq_ok] at h
      obtain ⟨last, hsecond, others, hothers, hresults⟩ := h
      exact ⟨last, ⟨out, hfirst, hsecond⟩, others, ⟨middle, hmiddle, hothers⟩, hresults⟩

/-! ## Errors -/

/-- Every error that a step can end with has a property. -/
def FailsWith (step : Except ε α) (property : ε → Prop) : Prop :=
  ∀ error, step = .error error → property error

variable {property : ε → Prop}

theorem failsWith_ok (value : α) : FailsWith (.ok value) property := by
  intro error herror
  cases herror

theorem failsWith_error {error : ε} (h : property error) :
    FailsWith (.error error : Except ε α) property := by
  intro error' herror
  obtain rfl := Except.error.inj herror
  exact h

theorem FailsWith.ite {condition : Prop} [Decidable condition] {first second : Except ε α}
    (hfirst : FailsWith first property) (hsecond : FailsWith second property) :
    FailsWith (if condition then first else second) property := by
  split
  · exact hfirst
  · exact hsecond

theorem FailsWith.mono {property' : ε → Prop} {step : Except ε α}
    (h : FailsWith step property) (himp : ∀ error, property error → property' error) :
    FailsWith step property' :=
  fun error herror => himp error (h error herror)

theorem FailsWith.bind {step : Except ε α} {next : α → Except ε β}
    (hstep : FailsWith step property)
    (hnext : ∀ value, step = .ok value → FailsWith (next value) property) :
    FailsWith (step >>= next) property := by
  intro error herror
  rcases except_bind_eq_error.1 herror with h | ⟨value, hvalue, h⟩
  · exact hstep error h
  · exact hnext value hvalue error h

theorem FailsWith.mapM {step : α → Except ε β} {values : List α}
    (h : ∀ value, value ∈ values → FailsWith (step value) property) :
    FailsWith (values.mapM step) property := by
  induction values with
  | nil => exact failsWith_ok []
  | cons value rest ih =>
    rw [List.mapM_cons]
    refine (h value List.mem_cons_self).bind fun result _ => ?_
    refine (ih fun other hother => h other (List.mem_cons_of_mem value hother)).bind ?_
    exact fun results _ => failsWith_ok (result :: results)

theorem FailsWith.foldlM {step : β → α → Except ε β} {values : List α}
    (h : ∀ state value, FailsWith (step state value) property) (state : β) :
    FailsWith (values.foldlM step state) property := by
  induction values generalizing state with
  | nil => exact failsWith_ok state
  | cons value rest ih =>
    rw [List.foldlM_cons]
    exact (h state value).bind fun next _ => ih next

theorem FailsWith.forM {step : α → Except ε Unit} {values : List α}
    (h : ∀ value, value ∈ values → FailsWith (step value) property) :
    FailsWith (values.forM step) property := by
  induction values with
  | nil => exact failsWith_ok ()
  | cons value rest ih =>
    exact (h value List.mem_cons_self).bind fun _ _ =>
      ih fun other hother => h other (List.mem_cons_of_mem value hother)

end StripePruning
