/-!
# Pieces of a text

Searching and cutting lists of characters.  Cutting at a mark works for bytes as
well.
-/

namespace StripePruning

/-- Whether `piece` occurs in `text`. -/
def occursIn (piece text : List Char) : Bool :=
  match text with
  | [] => piece.isEmpty
  | c :: rest => piece.isPrefixOf (c :: rest) || occursIn piece rest

/-- What follows `lead` in a text that starts with it. -/
def after? : List Char → List Char → Option (List Char)
  | [], text => some text
  | _ :: _, [] => none
  | l :: lead, c :: text => if l = c then after? lead text else none

section Marks

variable {α : Type} [DecidableEq α]

/-- The parts of a text before and after the first `mark`. -/
def cutAt? (mark : α) : List α → Option (List α × List α)
  | [] => none
  | c :: rest =>
    if c = mark then some ([], rest)
    else (cutAt? mark rest).map fun (before, behind) => (c :: before, behind)

/-- Puts a character in front of a text that is already split: a `mark` opens a
part of its own, and anything else joins the part behind it. -/
def splitStep (mark c : α) (parts : List (List α)) : List (List α) :=
  if c = mark then [] :: parts
  else
    match parts with
    | part :: parts => (c :: part) :: parts
    | [] => [[c]]

/-- The parts of a text between the occurrences of `mark`. -/
def splitAtEach (mark : α) (text : List α) : List (List α) :=
  text.foldr (splitStep mark) [[]]

end Marks

/-- A text with the ASCII letters in lower case. -/
def lowerCase (text : List Char) : List Char :=
  text.map Char.toLower

end StripePruning
