/-!
# Rounding a quotient

`roundQuotient` rounds a quotient of two naturals to the nearest natural.
A `Tie` says where an exact half goes.
-/

namespace StripePruning

/-- Where a value half way between two neighbours goes. -/
inductive Tie where
  /-- To the neighbour above. -/
  | up
  /-- To the even neighbour. -/
  | even
deriving DecidableEq

/-- Whether a remainder of `twice / 2` units out of `den` moves a value above
its lower neighbour `low`. -/
def Tie.roundsUp (tie : Tie) (low twice den : Nat) : Bool :=
  if twice = den then
    match tie with
    | .up => true
    | .even => low % 2 == 1
  else
    twice > den

/-- The natural nearest to `num / den`. -/
def roundQuotient (tie : Tie) (num den : Nat) : Nat :=
  let low := num / den
  if tie.roundsUp low (2 * (num % den)) den then low + 1 else low

end StripePruning
