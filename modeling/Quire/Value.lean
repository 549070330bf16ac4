/-
Module: Quire.Value
Purpose: The values that templates work on, their look-ups and their text.
Main exports: Value, Kind, Value.kind, Value.isTruthy, Value.member?, Value.display
-/
import Quire.Fields
import Quire.Binary64
import Quire.Decimal.Shortest
import Quire.Text.Search

namespace Quire

/-- A dynamically typed value. The fields of an object have distinct names. -/
inductive Value where
  | null
  | bool (b : Bool)
  | number (x : Binary64)
  | string (text : String)
  | array (items : List Value)
  | object (fields : List (String × Value))
deriving Inhabited, Repr

/-- What a value is, regardless of which one it is. -/
inductive Kind where
  | null
  | boolean
  | number
  | string
  | array
  | object
deriving DecidableEq, Repr

/-- The name of a kind, as messages give it. -/
def Kind.name : Kind → String
  | .null => "null"
  | .boolean => "boolean"
  | .number => "number"
  | .string => "string"
  | .array => "array"
  | .object => "object"

namespace Value

/-! ### Making values -/

/-- The number nearest to an integer. -/
def ofInt (n : Int) : Value :=
  .number (.ofInt n)

/-- The number nearest to a natural number. -/
def ofNat (n : Nat) : Value :=
  .number (.ofNat n)

/-- The text of one character. -/
def ofChar (c : Char) : Value :=
  .string (String.singleton c)

/-- What is absent is null. -/
def ofOption : Option Value → Value
  | none => .null
  | some value => value

/-- The object with the given entries. A repeated name keeps its first place and its last value. -/
def ofPairs (pairs : List (String × Value)) : Value :=
  .object (Fields.ofPairs pairs)

/-! ### Looking at values -/

/-- The kind of a value. -/
def kind : Value → Kind
  | .null => .null
  | .bool _ => .boolean
  | .number _ => .number
  | .string _ => .string
  | .array _ => .array
  | .object _ => .object

/-- Null, false, zero, what is not a number, and empty text and collections are falsy. All else is
truthy. -/
def isTruthy : Value → Bool
  | .null => false
  | .bool b => b
  | .number x => !x.isZero && !x.isNaN
  | .string text => !text.isEmpty
  | .array items => !items.isEmpty
  | .object fields => !fields.isEmpty

/-- The member of a value that one segment of a path names: the field of an object, or the item of
an array at a position. Other values have no members. -/
def member? (value : Value) (segment : String) : Option Value :=
  match value with
  | .object fields => Fields.find? segment fields
  | .array items => (Text.position? segment).bind fun position => items[position]?
  | _ => none

/-! ### The text of a value -/

/-- Numbers are written with the fewest digits that read back, without an exponent, and without a
point unless digits follow it. A number midway between two such decimals takes the larger one. -/
def displayNumber (x : Binary64) : String :=
  if x.isNaN then "NaN"
  else
    let sign := if x.negative then "-" else ""
    if !x.isFinite then sign ++ "inf"
    else if x.isZero then sign ++ "0"
    else
      let (whole, fraction) := (Decimal.shortest .away x).positional
      sign ++ String.ofList (if fraction = [] then whole else whole ++ '.' :: fraction)

example : displayNumber ⟨0x3FB999999999999A⟩ = "0.1" := by decide +kernel
example : displayNumber ⟨0x44B52D02C7E14AF6⟩ = "100000000000000000000000" := by decide +kernel
example : displayNumber ⟨0x8000000000000000⟩ = "-0" := by decide +kernel

mutual

/-- The text a value shows as: nothing for null, the items of an array with commas between them,
and no more than a mark for an object. -/
def display : Value → String
  | .null => ""
  | .bool true => "true"
  | .bool false => "false"
  | .number x => displayNumber x
  | .string text => text
  | .array items => ",".intercalate (displayAll items)
  | .object _ => "[object]"
termination_by structural value => value

/-- The texts of the items of an array. -/
def displayAll : List Value → List String
  | [] => []
  | item :: rest => display item :: displayAll rest
termination_by structural items => items

end

end Value

end Quire
