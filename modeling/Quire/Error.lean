/-
Module: Quire.Error
Purpose: Why a template cannot be built or rendered.
Main exports: Fault, Error, Fault.message, Error.message, Error.causes
-/

namespace Quire

/-- What is wrong with a malformed template. -/
inductive Fault where
  /-- The parameters do not have the form that their tag asks for. -/
  | invalidParams (tag params : String)
  /-- A loop uses a name that reads as a number. -/
  | reservedName (params : String)
  /-- Something precedes an inheritance tag. -/
  | misplacedExtends
  /-- A branch stands outside every conditional. -/
  | elseOutsideIf
  /-- A branch follows the one that has no condition. -/
  | branchAfterElse
  | unknownTag (name : String)
  /-- Two blocks of one template share a name. -/
  | duplicateBlock (name : String)
  /-- A closing marker does not fit the innermost open tag, or no tag is open. -/
  | unexpectedClose (expected : Option String) (found : String)
  /-- The template ends inside a tag. -/
  | unclosed (tag : String)
  /-- A template refers to itself; the names lead from it back to it. -/
  | circular (names : List String)
deriving DecidableEq, Repr

/-- Why a template cannot be built or rendered. -/
inductive Error where
  /-- A template is malformed. -/
  | malformed (template : String) (fault : Fault)
  /-- No template has the name. -/
  | missingTemplate (name : String)
  /-- The path that should lead to the name of a template leads nowhere. -/
  | missingVariable (path : String)
  /-- The value at the path is not the name of a template. -/
  | invalidFilename (path : String)
  /-- The value at the path is of a kind that a loop cannot go through. -/
  | notLoopable (path found : String)
  /-- Loading the template would nest templates deeper than the limit. -/
  | tooDeep (name : String) (limit : Nat)
deriving DecidableEq, Repr

namespace Fault

/-- The wording of a fault. -/
def message : Fault → String
  | .invalidParams tag params => "Invalid '" ++ tag ++ "' tag syntax: '" ++ params ++ "'"
  | .reservedName params => "Invalid variable names in '\x7b% for " ++ params ++ " %\x7d'"
  | .misplacedExtends => "Extends tag is not at the beginning of template"
  | .elseOutsideIf => "'else' tag encountered outside an 'if' block"
  | .branchAfterElse => "Invalid placement of 'else' tag within an 'if' block"
  | .unknownTag name => "Unknown tag '" ++ name ++ "'"
  | .duplicateBlock name => "Block '" ++ name ++ "' is defined more than once"
  | .unexpectedClose (some expected) found =>
      "Closing tag 'end" ++ found ++ "' does not match open tag '" ++ expected ++ "'"
  | .unexpectedClose none found => "Closing tag 'end" ++ found ++ "' has no open tag"
  | .unclosed tag => "Unexpected end of template (expected 'end" ++ tag ++ "')"
  | .circular names => "Circular template reference: " ++ " -> ".intercalate names

end Fault

namespace Error

/-- The wording of an error. -/
def message : Error → String
  | .malformed template fault =>
      "Syntax error in template '" ++ template ++ "': " ++ fault.message
  | .missingTemplate name => "Template not found: " ++ name
  | .missingVariable path => "Variable not found: " ++ path
  | .invalidFilename path => "Variable '" ++ path ++ "' is not a valid filename"
  | .notLoopable path found =>
      "'" ++ path ++ "' is not a valid variable for looping (found " ++ found ++ ")"
  | .tooDeep name limit =>
      "Template nesting deeper than " ++ toString limit ++ " while loading '" ++ name ++ "'"

/-- Whether a template is malformed, rather than impossible to find or to render. -/
def isMalformed : Error → Bool
  | .malformed _ _ => true
  | _ => false

/-- What lies behind an error, one step after another: behind a malformed template the statement
that it is malformed, and behind that its fault. -/
def causes (error : Error) : List String :=
  match error with
  | .malformed _ fault => [error.message, fault.message]
  | _ => []

end Error

end Quire
