/-!
# Shapes of text

A shape is a text in which `0` stands for any digit and every other character
for itself: `0000-00-00` is the shape of a date.
-/

namespace StripePruning

/-- What follows a shape in a text that starts with it. -/
def afterShape? (isDigit : Char → Bool) : List Char → List Char → Option (List Char)
  | [], text => some text
  | _ :: _, [] => none
  | s :: shape, c :: text =>
    if (if s = '0' then isDigit c else s = c) then afterShape? isDigit shape text else none

/-- Whether a text has a shape. -/
def hasShape (isDigit : Char → Bool) (shape text : List Char) : Bool :=
  match afterShape? isDigit shape text with
  | some rest => rest.isEmpty
  | none => false

/-- The shape of a date. -/
def dateShape : List Char := "0000-00-00".toList

/-- The shape of a time of day. -/
def timeShape : List Char := "00:00:00".toList

end StripePruning
