import StripePruning.Error
import StripePruning.Lookup.Stopwatch

/-!
# Logged computations

A computation that writes lines and may fail.  The lines written before a
failure stay, so a reader sees how far it came.  `Logged.forEach` is a loop
whose turns are timed.
-/

namespace StripePruning

/-- The lines that a computation has written and what it came to. -/
structure Logged (α : Type) where
  lines : List String
  result : Except Error α

namespace Logged

variable {α β γ : Type}

/-- A computation that goes on with the value of another one. -/
def andThen (x : Logged α) (next : α → Logged β) : Logged β :=
  match x.result with
  | .ok value =>
    let y := next value
    { lines := x.lines ++ y.lines, result := y.result }
  | .error error => { lines := x.lines, result := .error error }

instance : Monad Logged where
  pure value := { lines := [], result := .ok value }
  bind := andThen

/-- A result without lines. -/
def ofResult (result : Except Error α) : Logged α :=
  { lines := [], result }

/-- Writes some lines. -/
def write (lines : List String) : Logged Unit :=
  { lines, result := .ok () }

instance : MonadLift (Except Error) Logged where
  monadLift := ofResult

/-- A step for each value, with the stopwatches of its turn. -/
def forEach (timer : Timer) (values : List α) (step : Timer → α → Logged β) : Logged (List β) :=
  values.zipIdx.mapM fun turn => step (timer.turn turn.2) turn.1

/-! ## What a computation comes to -/

@[simp]
theorem result_pure (value : α) : (pure value : Logged α).result = .ok value :=
  rfl

@[simp]
theorem result_ofResult (result : Except Error α) : (ofResult result).result = result :=
  rfl

@[simp]
theorem result_monadLift (result : Except Error α) : (liftM result : Logged α).result = result :=
  rfl

@[simp]
theorem result_write (lines : List String) : (write lines).result = .ok () :=
  rfl

/-- A result that is given goes on without a line. -/
theorem liftM_ok_bind (value : α) (next : α → Logged β) :
    (liftM (Except.ok (ε := Error) value) : Logged α) >>= next = next value :=
  rfl

/-- An error that is given ends a computation without a line. -/
theorem liftM_error_bind (error : Error) (next : α → Logged β) :
    (liftM (Except.error (α := α) error) : Logged α) >>= next = ofResult (.error error) :=
  rfl

/-- The result of a sequence is the sequence of the results, whatever lines are
written. -/
@[simp]
theorem result_bind (x : Logged α) (next : α → Logged β) :
    (x >>= next).result = x.result >>= fun value => (next value).result := by
  rcases x with ⟨lines, error | value⟩ <;> rfl

theorem map_id_eq (x : Logged α) : id <$> x = x := by
  rcases x with ⟨lines, error | value⟩
  · rfl
  · exact congrArg (Logged.mk · (.ok value)) (List.append_nil lines)

/-- Sequences may be grouped in any way, since lines are only added at the end. -/
theorem bind_bind (x : Logged α) (first : α → Logged β) (second : β → Logged γ) :
    x >>= first >>= second = x >>= fun value => first value >>= second := by
  rcases x with ⟨lines, error | value⟩
  · rfl
  · show andThen (andThen ⟨lines, .ok value⟩ first) second
      = andThen ⟨lines, .ok value⟩ fun value => andThen (first value) second
    simp only [andThen]
    rcases first value with ⟨more, error | next⟩
    · rfl
    · simp only [List.append_assoc]

instance : LawfulMonad Logged :=
  LawfulMonad.mk' Logged map_id_eq (fun _ _ => rfl) bind_bind

/-- The result of a loop is the loop over the results. -/
@[simp]
theorem result_mapM (step : α → Logged β) (values : List α) :
    (values.mapM step).result = values.mapM fun value => (step value).result := by
  induction values with
  | nil => rfl
  | cons value rest ih =>
    rw [List.mapM_cons, List.mapM_cons]
    simp only [result_bind, result_pure, ih]
    rfl

@[simp]
theorem result_forEach (timer : Timer) (values : List α) (step : Timer → α → Logged β) :
    (forEach timer values step).result
      = values.zipIdx.mapM fun turn => (step (timer.turn turn.2) turn.1).result :=
  result_mapM _ _

end Logged

end StripePruning
