import StripePruning.Number.Notation

/-!
# Tokens of JSON

The text of a JSON value is a sequence of marks, strings and atoms; an atom is
a word or a number, and blanks between tokens have no meaning.  `Token.scan?`
cuts a text into tokens and `Token.text` writes a token.
-/

namespace StripePruning

namespace Json

/-- A token. -/
inductive Token where
  | openArray
  | closeArray
  | openObject
  | closeObject
  | comma
  | colon
  /-- A string.  One with half of a surrogate pair stands for no text. -/
  | string (text : Option String)
  /-- A word or a number as it is written. -/
  | atom (text : String)
deriving DecidableEq

/-! ## Strings -/

/-- An element of a string: a character, or a code unit written as an escape. -/
inductive Unit16 where
  | char (c : Char)
  | code (n : Nat)
deriving DecidableEq

/-- Whether a code unit is the first half of a surrogate pair. -/
def isHighHalf (n : Nat) : Bool := 0xD800 ≤ n && n < 0xDC00

/-- Whether a code unit is the second half of a surrogate pair. -/
def isLowHalf (n : Nat) : Bool := 0xDC00 ≤ n && n < 0xE000

/-- The character of a surrogate pair. -/
def pairChar (high low : Nat) : Char :=
  Char.ofNat (0x10000 + (high - 0xD800) * 0x400 + (low - 0xDC00))

/-- The characters that the elements of a string stand for, behind those already
`done` in reverse. -/
def decodeUnits (done : List Char) : List Unit16 → Option String
  | [] => some (String.ofList done.reverse)
  | .char c :: rest => decodeUnits (c :: done) rest
  | .code high :: rest =>
    if isLowHalf high then none
    else if isHighHalf high then
      match rest with
      | .code low :: rest =>
        if isLowHalf low then decodeUnits (pairChar high low :: done) rest else none
      | _ => none
    else decodeUnits (Char.ofNat high :: done) rest

/-- The character that a short escape stands for. -/
def escaped? : Char → Option Char
  | '"' => some '"'
  | '\\' => some '\\'
  | '/' => some '/'
  | 'b' => some '\x08'
  | 'f' => some '\x0c'
  | 'n' => some '\n'
  | 'r' => some '\r'
  | 't' => some '\t'
  | _ => none

/-- The value of a hexadecimal digit. -/
def hexValue? (c : Char) : Option Nat :=
  if c.isDigit then some (c.toNat - '0'.toNat)
  else if 'a' ≤ c ∧ c ≤ 'f' then some (c.toNat - 'a'.toNat + 10)
  else if 'A' ≤ c ∧ c ≤ 'F' then some (c.toNat - 'A'.toNat + 10)
  else none

/-! ## Scanning -/

/-- What the next character is part of. -/
inductive Place where
  | betweenTokens
  /-- An atom, with its characters so far in reverse. -/
  | atom (chars : List Char)
  /-- A string, with its elements so far in reverse. -/
  | string (units : List Unit16)
  /-- The character behind a backslash. -/
  | escape (units : List Unit16)
  /-- The digits of a code unit: the number so far and how many digits follow. -/
  | code (units : List Unit16) (value digits : Nat)

/-- The tokens read so far and the place behind them. -/
structure Scanner where
  place : Place := .betweenTokens
  tokens : Array Token := #[]

namespace Scanner

/-- The mark that a character is. -/
def mark? : Char → Option Token
  | '[' => some .openArray
  | ']' => some .closeArray
  | '\x7b' => some .openObject
  | '\x7d' => some .closeObject
  | ',' => some .comma
  | ':' => some .colon
  | _ => none

/-- Whether a character separates tokens. -/
def isSpace (c : Char) : Bool :=
  c = ' ' || c = '\n' || c = '\r' || c = '\t'

/-- Adds a token. -/
def emit (s : Scanner) (token : Token) : Scanner :=
  { place := .betweenTokens, tokens := s.tokens.push token }

/-- Ends the atom that is being read, if there is one. -/
def endAtom (s : Scanner) : Scanner :=
  match s.place with
  | .atom chars => s.emit (.atom (String.ofList chars.reverse))
  | _ => s

/-- A character outside strings. -/
def outside (s : Scanner) (c : Char) : Scanner :=
  if isSpace c then s.endAtom
  else if c = '"' then { s.endAtom with place := .string [] }
  else
    match mark? c with
    | some token => s.endAtom.emit token
    | none =>
      match s.place with
      | .atom chars => { s with place := .atom (c :: chars) }
      | _ => { s with place := .atom [c] }

/-- A character of a string.  Control characters are not allowed. -/
def inside? (s : Scanner) (units : List Unit16) (c : Char) : Option Scanner :=
  if c = '"' then some (s.emit (.string (decodeUnits [] units.reverse)))
  else if c = '\\' then some { s with place := .escape units }
  else if c.toNat < 0x20 then none
  else some { s with place := .string (.char c :: units) }

/-- A character behind a backslash. -/
def escape? (s : Scanner) (units : List Unit16) (c : Char) : Option Scanner :=
  if c = 'u' then some { s with place := .code units 0 4 }
  else (escaped? c).map fun d => { s with place := .string (.char d :: units) }

/-- A digit of a code unit. -/
def code? (s : Scanner) (units : List Unit16) (value digits : Nat) (c : Char) : Option Scanner :=
  (hexValue? c).map fun d =>
    let value := 16 * value + d
    if digits ≤ 1 then { s with place := .string (.code value :: units) }
    else { s with place := .code units value (digits - 1) }

/-- Takes one character. -/
def step? (s : Scanner) (c : Char) : Option Scanner :=
  match s.place with
  | .betweenTokens => some (s.outside c)
  | .atom _ => some (s.outside c)
  | .string units => s.inside? units c
  | .escape units => s.escape? units c
  | .code units value digits => s.code? units value digits c

/-- The tokens at the end of a text, which is not within a string. -/
def finish? (s : Scanner) : Option (List Token) :=
  match s.place with
  | .betweenTokens => some s.tokens.toList
  | .atom _ => some s.endAtom.tokens.toList
  | _ => none

end Scanner

/-- The tokens of a text. -/
def Token.scan? (text : String) : Option (List Token) := do
  (← text.toList.foldlM Scanner.step? {}).finish?

/-! ## Writing -/

/-- Two hexadecimal digits. -/
def hexPair (n : Nat) : String :=
  String.ofList [(n / 16).digitChar, (n % 16).digitChar]

/-- A character of a string as it is written. -/
def escapedText (c : Char) : String :=
  if c = '"' then "\\\""
  else if c = '\\' then "\\\\"
  else if c = '\x08' then "\\b"
  else if c = '\x0c' then "\\f"
  else if c = '\n' then "\\n"
  else if c = '\r' then "\\r"
  else if c = '\t' then "\\t"
  else if c.toNat < 0x20 then "\\u00" ++ hexPair c.toNat
  else String.singleton c

/-- A text between quotes. -/
def quoted (text : String) : String :=
  "\"" ++ String.join (text.toList.map escapedText) ++ "\""

/-- A token as it is written.  A string without a text is written empty. -/
def Token.text : Token → String
  | .openArray => "["
  | .closeArray => "]"
  | .openObject => "\x7b"
  | .closeObject => "\x7d"
  | .comma => ","
  | .colon => ":"
  | .string text => quoted (text.getD "")
  | .atom text => text

end Json

end StripePruning
