/-
Module: Quire.Json.Reader
Purpose: Reading the text of a JSON document.
Main exports: Json.read?
-/
import Quire.Json
import Quire.Text.Search

/-!
Every reader takes what it reads from the front of the characters and leaves the rest. A document is
one value with nothing but blanks around it.
-/

namespace Quire

namespace Json

/-- The blanks of JSON. -/
def isBlank (c : Char) : Bool :=
  c == ' ' || c == '\n' || c == '\t' || c == '\r'

/-- The characters from the first that is not blank. -/
def skip (cs : List Char) : List Char :=
  cs.dropWhile isBlank

/-! ### Strings -/

/-- A character, or half of a pair of surrogates, as a string spells it. -/
inductive Spelled where
  | char (c : Char)
  | high (half : Nat)
  | low (half : Nat)
deriving DecidableEq, Repr

/-- What the number of an escape stands for. -/
def Spelled.ofCode (code : Nat) : Spelled :=
  if 0xD800 ≤ code ∧ code < 0xDC00 then .high (code - 0xD800)
  else if 0xDC00 ≤ code ∧ code < 0xE000 then .low (code - 0xDC00)
  else .char (Char.ofNat code)

/-- The characters that are spelled. Each first half must be followed by a second, and no second
half may stand without a first. -/
def Spelled.text? : List Spelled → Option (List Char)
  | [] => some []
  | .char c :: rest => (text? rest).map (c :: ·)
  | .high first :: .low second :: rest =>
      (text? rest).map (Char.ofNat (0x10000 + first * 0x400 + second) :: ·)
  | _ => none

/-- The value of a hexadecimal digit in either case. -/
def hexValue? (c : Char) : Option Nat :=
  if '0' ≤ c ∧ c ≤ '9' then some (c.toNat - '0'.toNat)
  else if 'a' ≤ c ∧ c ≤ 'f' then some (c.toNat - 'a'.toNat + 10)
  else if 'A' ≤ c ∧ c ≤ 'F' then some (c.toNat - 'A'.toNat + 10)
  else none

/-- The character that a letter after a backslash stands for. -/
def unescape? (c : Char) : Option Char :=
  if c = '"' ∨ c = '\\' ∨ c = '/' then some c
  else if c = 'b' then some (Char.ofNat 0x08)
  else if c = 'f' then some (Char.ofNat 0x0C)
  else if c = 'n' then some '\n'
  else if c = 'r' then some '\r'
  else if c = 't' then some '\t'
  else none

/-- The rest of a string after its opening quote, and what follows its closing quote. Control
characters must be escaped. -/
def spell? : List Char → Option (List Spelled × List Char)
  | [] => none
  | '"' :: rest => some ([], rest)
  | '\\' :: 'u' :: a :: b :: c :: d :: rest => do
      let code := ((← hexValue? a) * 16 + (← hexValue? b)) * 256
        + ((← hexValue? c) * 16 + (← hexValue? d))
      let (others, after) ← spell? rest
      return (.ofCode code :: others, after)
  | '\\' :: letter :: rest => do
      let c ← unescape? letter
      let (others, after) ← spell? rest
      return (.char c :: others, after)
  | c :: rest =>
      if c = '\\' ∨ c.toNat < 0x20 then none
      else do
        let (others, after) ← spell? rest
        return (.char c :: others, after)

/-- The rest of a string after its opening quote, as text. -/
def string? (cs : List Char) : Option (JsonText × List Char) :=
  (spell? cs).map fun (spelled, rest) => ((Spelled.text? spelled).map String.ofList, rest)

/-! ### Numbers -/

/-- At least one digit, and the characters after the last. -/
def digits? (cs : List Char) : Option (List Char × List Char) :=
  let digits := cs.takeWhile Char.isDigit
  if digits = [] then none else some (digits, cs.dropWhile Char.isDigit)

/-- The digits after a point, if a point comes first. -/
def fraction? : List Char → Option (Option (List Char) × List Char)
  | '.' :: rest => (digits? rest).map fun (digits, after) => (some digits, after)
  | cs => some (none, cs)

/-- The exponent, if its letter comes first. -/
def exponent? : List Char → Option (Option (Bool × List Char) × List Char)
  | [] => some (none, [])
  | mark :: rest =>
      if mark = 'e' ∨ mark = 'E' then
        let (negative, unsigned) := match rest with
          | '-' :: more => (true, more)
          | '+' :: more => (false, more)
          | more => (false, more)
        (digits? unsigned).map fun (digits, after) => (some (negative, digits), after)
      else some (none, mark :: rest)

/-- A number: perhaps a minus sign, digits of which the first is no zero unless it is the only one,
perhaps a point with digits, and perhaps an exponent. -/
def numeral? (cs : List Char) : Option (Numeral × List Char) := do
  let (negative, unsigned) := match cs with
    | '-' :: rest => (true, rest)
    | rest => (false, rest)
  let (whole, afterWhole) ← digits? unsigned
  if whole.head? = some '0' ∧ 1 < whole.length then none
  else
    let (fraction, afterFraction) ← fraction? afterWhole
    let (exponent, rest) ← exponent? afterFraction
    return (⟨negative, whole, fraction, exponent⟩, rest)

/-! ### Values -/

mutual

/-- A value. The first argument bounds the steps. -/
def value? : Nat → List Char → Option (Json × List Char)
  | 0, _ => none
  | steps + 1, cs =>
      match skip cs with
      | '[' :: rest =>
          match skip rest with
          | ']' :: after => some (.array [], after)
          | _ => (items? steps rest).map fun (items, after) => (.array items, after)
      | '\x7b' :: rest =>
          match skip rest with
          | '\x7d' :: after => some (.object [], after)
          | _ => (members? steps rest).map fun (members, after) => (.object members, after)
      | '"' :: rest => (string? rest).map fun (text, after) => (.string text, after)
      | 'n' :: 'u' :: 'l' :: 'l' :: rest => some (.null, rest)
      | 't' :: 'r' :: 'u' :: 'e' :: rest => some (.bool true, rest)
      | 'f' :: 'a' :: 'l' :: 's' :: 'e' :: rest => some (.bool false, rest)
      | rest => (numeral? rest).map fun (numeral, after) => (.number numeral, after)

/-- At least one item of an array, and the bracket that closes it. -/
def items? : Nat → List Char → Option (List Json × List Char)
  | 0, _ => none
  | steps + 1, cs => do
      let (item, afterItem) ← value? steps cs
      match skip afterItem with
      | ',' :: rest =>
          let (others, after) ← items? steps rest
          return (item :: others, after)
      | ']' :: after => return ([item], after)
      | _ => none

/-- At least one member of an object, and the brace that closes it. -/
def members? : Nat → List Char → Option (List (JsonText × Json) × List Char)
  | 0, _ => none
  | steps + 1, cs =>
      match skip cs with
      | '"' :: rest => do
          let (name, afterName) ← string? rest
          match skip afterName with
          | ':' :: afterColon =>
              let (value, afterValue) ← value? steps afterColon
              match skip afterValue with
              | ',' :: rest =>
                  let (others, after) ← members? steps rest
                  return ((name, value) :: others, after)
              | '\x7d' :: after => return ([(name, value)], after)
              | _ => none
          | _ => none
      | _ => none

end

/-- The document that a text is. Each character takes at most two steps to read. -/
def read? (text : String) : Option Json :=
  let cs := text.toList
  match value? (2 * cs.length + 2) cs with
  | some (json, rest) => if (skip rest).isEmpty then some json else none
  | none => none

end Json

end Quire
