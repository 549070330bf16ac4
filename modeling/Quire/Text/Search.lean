/-
Module: Quire.Text.Search
Purpose: Cutting text at a mark, finding one text inside another, and reading a position.
Main exports: pieces, occursIn, position?
-/
import Quire.Power

namespace Quire.Text

/-- The runs of characters between the occurrences of a mark. There is always at least one run, and
one more than there are marks. -/
def runs (mark : Char) : List Char → List (List Char)
  | [] => [[]]
  | c :: cs =>
      if c = mark then [] :: runs mark cs
      else match runs mark cs with
        | [] => [[c]]
        | run :: rest => (c :: run) :: rest

/-- The pieces of a string between the occurrences of a mark. -/
def pieces (mark : Char) (text : String) : List String :=
  (runs mark text.toList).map String.ofList

/-- Whether one run of characters stands somewhere inside another. -/
def isInfix (needle : List Char) : List Char → Bool
  | [] => needle.isEmpty
  | c :: cs => needle.isPrefixOf (c :: cs) || isInfix needle cs

/-- Whether a text stands somewhere inside another. The empty text stands in every text. -/
def occursIn (needle haystack : String) : Bool :=
  isInfix needle.toList haystack.toList

/-- The number that a run of ASCII decimal digits denotes, most significant digit first. -/
def digitsValue (digits : List Char) : Nat :=
  digits.foldl (fun value digit => 10 * value + (digit.toNat - '0'.toNat)) 0

/-- A position in an array is written with decimal digits, after at most one plus sign, and is no
larger than a 64-bit word can hold. -/
def position? (text : String) : Option Nat :=
  let digits := match text.toList with
    | '+' :: rest => rest
    | cs => cs
  let value := digitsValue digits
  if digits ≠ [] ∧ digits.all Char.isDigit ∧ value < twoTo 64 then some value else none

end Quire.Text
