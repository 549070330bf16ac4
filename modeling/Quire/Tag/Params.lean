/-
Module: Quire.Tag.Params
Purpose: The parameters of blocks and of branches.
Main exports: blockName?, parseGuard
-/
import Quire.Condition
import Quire.Error

namespace Quire

/-! ### Blocks -/

/-- The characters of block names. -/
def isBlockChar (c : Char) : Bool :=
  c.isAlphanum || c == '-' || c == '_'

/-- The name of a block: letters and digits of ASCII, hyphens and underscores, at least one. -/
def blockName? (params : String) : Option String :=
  let name := Text.trim params.toList
  if name ≠ [] ∧ name.all isBlockChar then some (String.ofList name) else none

/-! ### Branches -/

/-- The condition that the parameters of a branch state: what follows a leading word `if`, or all of
them where there is no such word. -/
def branchText (cs : List Char) : List Char :=
  match cs with
  | 'i' :: 'f' :: c :: rest => if Text.isBlank c then Text.trimStart rest else cs
  | _ => cs

/-- The condition of a branch; without parameters it has none. -/
def parseGuard (params : String) : Except Fault (Option Condition) :=
  match Text.trim params.toList with
  | [] => .ok none
  | cs =>
      let text := String.ofList (branchText cs)
      match Condition.parse? text with
      | some condition => .ok (some condition)
      | none => .error (.invalidParams "else if" text)

end Quire
