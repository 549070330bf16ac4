/-
Module: Quire.Reference
Purpose: References from one template to another.
Main exports: Reference, Reference.parse?, Context.templateName
-/
import Quire.Context
import Quire.Error
import Quire.Path

/-!
A name in quotes is known when a template is built. A path leads to the name only when the template
is rendered, and must then lead to one.
-/

namespace Quire

/-- How a tag refers to a template. -/
inductive Reference where
  /-- By its name, in quotes. -/
  | quoted (name : String)
  /-- By the path of a variable that holds its name. -/
  | bare (path : String)
deriving DecidableEq, Repr

namespace Reference

/-- The characters a quoted name may begin with. -/
def isNameStart (c : Char) : Bool :=
  c.isAlphanum || c == '_' || c == '-' || c == '/'

/-- The characters a quoted name may go on with. -/
def isNameChar (c : Char) : Bool :=
  isNameStart c || c == '.'

/-- The name in front of a quote that ends the characters. -/
def quotedName? (quote : Char) (cs : List Char) : Option String :=
  match cs.span isNameChar with
  | (first :: rest, [mark]) =>
      if isNameStart first ∧ mark = quote then some (String.ofList (first :: rest)) else none
  | _ => none

/-- A reference is a name in double or single quotes, or a dotted path. -/
def parse? (params : String) : Option Reference :=
  match params.toList with
  | '"' :: rest => (quotedName? '"' rest).map .quoted
  | '\'' :: rest => (quotedName? '\'' rest).map .quoted
  | cs => (Path.whole? cs).map fun path => .bare (String.ofList path)

end Reference

namespace Context

/-- The name of the template that a variable holds: a text that is not empty. -/
def templateName (context : Context) (path : String) : Except Error String :=
  match context.lookup path with
  | none => .error (.missingVariable path)
  | some (.string name) => if name.isEmpty then .error (.invalidFilename path) else .ok name
  | some _ => .error (.invalidFilename path)

end Context

end Quire
