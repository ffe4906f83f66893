import StripePruning.Json.Numeral
import StripePruning.Json.Token

/-!
# JSON values

A JSON value as a tree.  `Json.ofText?` reads the value that a text stands for
and `Json.text` writes a value without blanks.  Objects keep their members in
the order of the text, repeated keys included; what they mean is up to the
reader of the tree.
-/

namespace StripePruning

/-- A JSON value. -/
inductive Json where
  | null
  | bool (value : Bool)
  /-- A number as it is written. -/
  | number (text : String)
  /-- A string; one with half of a surrogate pair stands for no text. -/
  | string (text : Option String)
  | array (items : List Json)
  | object (members : List (Option String × Json))

namespace Json

/-! ## Reading -/

/-- The value of an atom: a word or a number. -/
def ofAtom? (text : String) : Option Json :=
  match text with
  | "null" => some .null
  | "true" => some (.bool true)
  | "false" => some (.bool false)
  | _ => (Numeral.ofChars? text.toList).map fun _ => .number text

/-- A container around the value that is being read, with what came before the
value in reverse. -/
inductive Frame where
  | array (items : List Json)
  | member (members : List (Option String × Json)) (key : Option String)

/-- What may come next. -/
inductive Builder where
  | atValue (around : List Frame)
  /-- A value or the end of an array that has just begun. -/
  | atFirstItem (around : List Frame)
  /-- A comma or the end of an array. -/
  | behindItem (items : List Json) (around : List Frame)
  /-- A key or the end of an object that has just begun. -/
  | atFirstKey (around : List Frame)
  | atKey (members : List (Option String × Json)) (around : List Frame)
  | atColon (members : List (Option String × Json)) (key : Option String) (around : List Frame)
  /-- A comma or the end of an object. -/
  | behindMember (members : List (Option String × Json)) (around : List Frame)
  /-- Nothing: the value is complete. -/
  | done (value : Json)

namespace Builder

/-- Puts a complete value into the container around it. -/
def complete (value : Json) : List Frame → Builder
  | [] => .done value
  | .array items :: around => .behindItem (value :: items) around
  | .member members key :: around => .behindMember ((key, value) :: members) around

/-- The first token of a value. -/
def start? (around : List Frame) : Token → Option Builder
  | .openArray => some (.atFirstItem around)
  | .openObject => some (.atFirstKey around)
  | .string text => some (complete (.string text) around)
  | .atom text => (ofAtom? text).map fun value => complete value around
  | _ => none

/-- Takes one token. -/
def step? (b : Builder) (token : Token) : Option Builder :=
  match b, token with
  | .atValue around, token => start? around token
  | .atFirstItem around, .closeArray => some (complete (.array []) around)
  | .atFirstItem around, token => start? (.array [] :: around) token
  | .behindItem items around, .comma => some (.atValue (.array items :: around))
  | .behindItem items around, .closeArray => some (complete (.array items.reverse) around)
  | .atFirstKey around, .closeObject => some (complete (.object []) around)
  | .atFirstKey around, .string key => some (.atColon [] key around)
  | .atKey members around, .string key => some (.atColon members key around)
  | .atColon members key around, .colon => some (.atValue (.member members key :: around))
  | .behindMember members around, .comma => some (.atKey members around)
  | .behindMember members around, .closeObject =>
    some (complete (.object members.reverse) around)
  | _, _ => none

/-- The value, if it is complete. -/
def result? : Builder → Option Json
  | .done value => some value
  | _ => none

end Builder

/-- The value that some tokens stand for. -/
def ofTokens? (tokens : List Token) : Option Json := do
  (← tokens.foldlM Builder.step? (.atValue [])).result?

/-- The value that a text stands for. -/
def ofText? (text : String) : Option Json := do
  ofTokens? (← Token.scan? text)

/-! ## Writing -/

mutual

/-- The tokens of a value. -/
def tokens : Json → List Token
  | .null => [.atom "null"]
  | .bool value => [.atom (if value then "true" else "false")]
  | .number text => [.atom text]
  | .string text => [.string text]
  | .array items => .openArray :: itemTokens items ++ [.closeArray]
  | .object members => .openObject :: memberTokens members ++ [.closeObject]

/-- The tokens of some values with commas between them. -/
def itemTokens : List Json → List Token
  | [] => []
  | [item] => tokens item
  | item :: items => tokens item ++ .comma :: itemTokens items

/-- The tokens of some members with commas between them. -/
def memberTokens : List (Option String × Json) → List Token
  | [] => []
  | [(key, value)] => .string key :: .colon :: tokens value
  | (key, value) :: members =>
    .string key :: .colon :: tokens value ++ .comma :: memberTokens members

end

/-- A value as text, without blanks. -/
def text (value : Json) : String :=
  String.join (value.tokens.map Token.text)

/-! ## Strictness -/

/-- The most containers that may lie within each other in a value that is read
strictly. -/
def nestingLimit : Nat := 127

mutual

/-- Whether all numbers of a value are finite doubles, all strings are text, and
no more than `depth` containers lie within each other. -/
def isStrict (depth : Nat) : Json → Bool
  | .null => true
  | .bool _ => true
  | .number text => ((Numeral.ofChars? text.toList).bind Numeral.float?).isSome
  | .string text => text.isSome
  | .array items => 0 < depth && itemsAreStrict (depth - 1) items
  | .object members => 0 < depth && membersAreStrict (depth - 1) members

/-- Whether all of some values are strict. -/
def itemsAreStrict (depth : Nat) : List Json → Bool
  | [] => true
  | item :: items => isStrict depth item && itemsAreStrict depth items

/-- Whether the keys and values of some members are strict. -/
def membersAreStrict (depth : Nat) : List (Option String × Json) → Bool
  | [] => true
  | (key, value) :: members =>
    key.isSome && isStrict depth value && membersAreStrict depth members

end

/-! ## Values of one kind -/

/-- The natural number that a value is. -/
def size? : Json → Option Nat
  | .number text => (Numeral.ofChars? text.toList).bind Numeral.size?
  | _ => none

/-- The double that a value is. -/
def float? : Json → Option Float
  | .number text => (Numeral.ofChars? text.toList).bind Numeral.float?
  | _ => none

/-- The truth value that a value is. -/
def bool? : Json → Option Bool
  | .bool value => some value
  | _ => none

/-- The text that a value is. -/
def text? : Json → Option String
  | .string text => text
  | _ => none

/-- The values of an array. -/
def list? {α : Type} (one : Json → Option α) : Json → Option (List α)
  | .array items => items.mapM one
  | _ => none

/-- The members of an object whose keys are all text. -/
def members? : Json → Option (List (String × Json))
  | .object members => members.mapM fun (key, value) => key.map fun key => (key, value)
  | _ => none

/-- The value of a key that occurs at most once, if it occurs at all.  Without a
result the key is repeated. -/
def field? (members : List (String × Json)) (key : String) : Option (Option Json) :=
  match members.filter fun member => member.1 == key with
  | [] => some none
  | [(_, value)] => some (some value)
  | _ => none

/-! ## Values from data -/

/-- The number that a natural number is written as. -/
def ofNat (n : Nat) : Json :=
  .number (toString n)

/-- The number that a double is written as, null if it is not finite. -/
def ofFloat (x : Float) : Json :=
  match compact? x with
  | some text => .number text
  | none => .null

/-- A string with a text. -/
def ofString (text : String) : Json :=
  .string (some text)

/-- An array of strings. -/
def ofStrings (texts : List String) : Json :=
  .array (texts.map ofString)

/-- An object with the given members. -/
def ofMembers (members : List (String × Json)) : Json :=
  .object (members.map fun (key, value) => (some key, value))

end Json

end StripePruning
