/-
Module: Quire.Value.Comparison
Purpose: Equality, order and membership of values.
Main exports: Value.same, Value.comparison, Value.contains
-/
import Quire.Value
import Quire.Decimal.Literal
import Quire.Text.Blank

/-!
Equality is strict: values of different kinds differ. Order is by kind too, except that booleans
and the texts of numbers count as numbers beside a value that is not text.
-/

namespace Quire

namespace Value

mutual

/-- Equality of values. Numbers are equal as numbers, so that one which is not a number differs
from itself; objects are equal whatever the order of their fields. -/
def same : Value → Value → Bool
  | .null, .null => true
  | .bool a, .bool b => a == b
  | .number x, .number y => x.same y
  | .string a, .string b => a == b
  | .array items, .array others => sameItems items others
  | .object fields, .object others =>
      fields.length == others.length && sameFields fields others
  | _, _ => false
termination_by structural value => value

/-- Equality of arrays, item by item. -/
def sameItems : List Value → List Value → Bool
  | [], [] => true
  | item :: items, other :: others => same item other && sameItems items others
  | _, _ => false
termination_by structural items => items

/-- Whether each of the fields has an equal one under its name among the others. -/
def sameFields : List (String × Value) → List (String × Value) → Bool
  | [], _ => true
  | (name, value) :: rest, others =>
      (match Fields.find? name others with
        | some other => same value other
        | none => false) && sameFields rest others
termination_by structural fields => fields

end

/-- The number that a value counts as: itself, one or zero for a boolean, and for a text the number
it denotes once the blanks around it are taken off. -/
def asNumber : Value → Option Binary64
  | .number x => some x
  | .bool true => some (.ofNat 1)
  | .bool false => some (.ofNat 0)
  | .string text => Decimal.literal? (Text.trim text.toList)
  | _ => none

/-- How a value compares with another. Two texts compare by their code points and all other values
by the numbers they count as; values that count as none are unordered. -/
def comparison (left right : Value) : Option Ordering :=
  match left, right with
  | .string a, .string b => some (compare a b)
  | _, _ => do
      let x ← left.asNumber
      let y ← right.asNumber
      x.comparison y

/-- Whether a value holds another: an array an equal item, a text the text of the other, an object
a field under that text. Null is held by nothing. -/
def contains (haystack needle : Value) : Bool :=
  match needle, haystack with
  | .null, _ => false
  | _, .array items => items.any fun item => item.same needle
  | _, .string text => Text.occursIn needle.display text
  | _, .object fields => Fields.has fields needle.display
  | _, _ => false

end Value

end Quire
