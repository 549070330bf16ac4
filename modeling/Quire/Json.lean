/-
Module: Quire.Json
Purpose: JSON documents as trees, and their text.
Main exports: Numeral, Json, Json.render
-/

/-!
The tree keeps what the text says and no more: numbers as they are written, repeated names of an
object in their order, and strings whose escapes make no text. What reads a document decides what to
make of them.
-/

namespace Quire

/-- A number as it is written: its sign, the digits before and after the point, and the exponent
with its sign. -/
structure Numeral where
  negative : Bool
  whole : List Char
  fraction : Option (List Char)
  exponent : Option (Bool × List Char)
deriving DecidableEq, Repr

/-- The text of a JSON string. There is none when an escape stands for half of a pair of surrogates
whose other half is missing. -/
abbrev JsonText := Option String

/-- A JSON document. -/
inductive Json where
  | null
  | bool (b : Bool)
  | number (numeral : Numeral)
  | string (text : JsonText)
  | array (items : List Json)
  | object (members : List (JsonText × Json))
deriving Repr

/-! ### Writing -/

namespace Numeral

/-- A sign where there is one. -/
def renderSign (negative : Bool) : String :=
  if negative then "-" else ""

/-- A number in its own digits. -/
def render (numeral : Numeral) : String :=
  renderSign numeral.negative ++ String.ofList numeral.whole ++
    (match numeral.fraction with
      | some digits => "." ++ String.ofList digits
      | none => "") ++
    (match numeral.exponent with
      | some (negative, digits) => "e" ++ renderSign negative ++ String.ofList digits
      | none => "")

end Numeral

namespace Json

/-- The lower-case hexadecimal digit of a number below sixteen. -/
def hexDigit (n : Nat) : Char :=
  if n < 10 then Char.ofNat ('0'.toNat + n) else Char.ofNat ('a'.toNat + (n - 10))

/-- A character inside a string: quotes, backslashes and control characters are escaped, the common
ones among them by a letter, and all others stand for themselves. -/
def escape (c : Char) : List Char :=
  if c = '"' then ['\\', '"']
  else if c = '\\' then ['\\', '\\']
  else if c.toNat = 0x08 then ['\\', 'b']
  else if c.toNat = 0x0C then ['\\', 'f']
  else if c = '\n' then ['\\', 'n']
  else if c = '\r' then ['\\', 'r']
  else if c = '\t' then ['\\', 't']
  else if c.toNat < 0x20 then
    ['\\', 'u', '0', '0', hexDigit (c.toNat / 16), hexDigit (c.toNat % 16)]
  else [c]

/-- A text between quotes. -/
def quoted (text : String) : String :=
  "\"" ++ String.ofList (text.toList.flatMap escape) ++ "\""

/-- A string between quotes. One that has no text is written as empty. -/
def renderText (text : JsonText) : String :=
  quoted (text.getD "")

mutual

/-- The text of a document, without blanks. -/
def render : Json → String
  | .null => "null"
  | .bool true => "true"
  | .bool false => "false"
  | .number numeral => numeral.render
  | .string text => renderText text
  | .array items => "[" ++ ",".intercalate (renderItems items) ++ "]"
  | .object members => "\x7b" ++ ",".intercalate (renderMembers members) ++ "\x7d"
termination_by structural json => json

/-- The texts of the items of an array. -/
def renderItems : List Json → List String
  | [] => []
  | item :: rest => render item :: renderItems rest
termination_by structural items => items

/-- The texts of the members of an object. -/
def renderMembers : List (JsonText × Json) → List String
  | [] => []
  | (name, value) :: rest => (renderText name ++ ":" ++ render value) :: renderMembers rest
termination_by structural members => members

end

end Json

end Quire
