/-
Module: Quire.Condition
Purpose: The conditions of branches: their form and their truth.
Main exports: Operand, Operator, Condition, Condition.parse?, Condition.holds
-/
import Quire.Context
import Quire.Path

namespace Quire

/-- One side of a comparison. -/
inductive Operand where
  | number (x : Binary64)
  | path (dotted : String)
deriving DecidableEq, Repr

namespace Operand

/-- A text that reads as a finite number is that number, and any other is a path. -/
def ofText (text : List Char) : Operand :=
  match Decimal.literal? text with
  | some x => .number x
  | none => .path (String.ofList text)

/-- The value of an operand. A path that leads nowhere counts as null. -/
def value (context : Context) : Operand → Value
  | .number x => .number x
  | .path dotted => (context.lookup dotted).getD .null

end Operand

/-- How two values are compared. -/
inductive Operator where
  | equal
  | unequal
  | less
  | greater
  | atMost
  | atLeast
  | within
deriving DecidableEq, Repr

namespace Operator

/-- The symbol of an operator. -/
def symbol : Operator → String
  | .equal => "=="
  | .unequal => "!="
  | .less => "<"
  | .greater => ">"
  | .atMost => "<="
  | .atLeast => ">="
  | .within => "in"

/-- Whether a comparison comes out true. Values without an order are neither less nor greater, and
not equal in order either. -/
def holds (operator : Operator) (left right : Value) : Bool :=
  match operator with
  | .equal => left.same right
  | .unequal => !left.same right
  | .less => left.comparison right == some .lt
  | .greater => left.comparison right == some .gt
  | .atMost => (left.comparison right).any Ordering.isLE
  | .atLeast => (left.comparison right).any Ordering.isGE
  | .within => right.contains left

/-- The operator written in punctuation at the front, and the characters after it. -/
def scanSymbol? : List Char → Option (Operator × List Char)
  | '=' :: '=' :: rest => some (.equal, rest)
  | '!' :: '=' :: rest => some (.unequal, rest)
  | '<' :: '=' :: rest => some (.atMost, rest)
  | '>' :: '=' :: rest => some (.atLeast, rest)
  | '<' :: rest => some (.less, rest)
  | '>' :: rest => some (.greater, rest)
  | _ => none

/-- The operator between two operands and the characters from the right operand on. Punctuation may
have blanks around it, and the word `in` must. -/
def scan? (cs : List Char) : Option (Operator × List Char) :=
  match scanSymbol? (Text.trimStart cs) with
  | some (operator, rest) => some (operator, Text.trimStart rest)
  | none => (Path.afterIn? cs).map fun rest => (.within, rest)

end Operator

/-- A test for truth, or a comparison of two operands. -/
structure Condition where
  left : Operand
  comparison : Option (Operator × Operand)
deriving DecidableEq, Repr

namespace Condition

/-- The condition that a text states, blanks at its ends aside: one operand, or two with an operator
between them. -/
def parse? (text : String) : Option Condition := do
  let (left, rest) ← Path.scan? (Text.trim text.toList)
  if rest = [] then return ⟨.ofText left, none⟩
  let (operator, afterOperator) ← Operator.scan? rest
  let right ← Path.whole? afterOperator
  return ⟨.ofText left, some (operator, .ofText right)⟩

/-- Whether a condition holds. Without an operator the operand is tested for truth. -/
def holds (context : Context) (condition : Condition) : Bool :=
  let left := condition.left.value context
  match condition.comparison with
  | none => left.isTruthy
  | some (operator, right) => operator.holds left (right.value context)

end Condition

end Quire
