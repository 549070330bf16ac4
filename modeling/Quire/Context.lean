/-
Module: Quire.Context
Purpose: The variables a template sees, in nested scopes.
Main exports: Scope, Context, Context.insert, Context.push, Context.pop?, Context.find?,
  Context.lookup
-/
import Quire.Value.Comparison

namespace Quire

/-- One layer of variables. -/
abbrev Scope := Fields Value

/-- A chain of scopes. There is always an outermost one. A context is a value, so keeping one is
taking a snapshot. -/
structure Context where
  innermost : Scope
  outer : List Scope
deriving Inhabited

namespace Context

/-- One empty scope. -/
def empty : Context := ⟨[], []⟩

/-- The scopes from the innermost outwards. -/
def scopes (context : Context) : List Scope :=
  context.innermost :: context.outer

/-- Sets a variable in the innermost scope. -/
def insert (context : Context) (name : String) (value : Value) : Context :=
  { context with innermost := Fields.put name value context.innermost }

/-- One scope with the given variables, set one after another. -/
def ofPairs (pairs : List (String × Value)) : Context :=
  ⟨Fields.ofPairs pairs, []⟩

/-- Opens a scope inside the innermost one. -/
def push (context : Context) (scope : Scope) : Context :=
  ⟨scope, context.scopes⟩

/-- The innermost scope and the context without it. The outermost scope cannot be taken off. -/
def pop? (context : Context) : Option (Scope × Context) :=
  match context.outer with
  | [] => none
  | next :: rest => some (context.innermost, ⟨next, rest⟩)

/-- The number of scopes. -/
def depth (context : Context) : Nat :=
  context.scopes.length

/-- The variable of a name in the innermost scope that has one. -/
def find? (context : Context) (name : String) : Option Value :=
  context.scopes.findSome? (Fields.find? name)

/-- Whether some scope has a variable of a name. -/
def has (context : Context) (name : String) : Bool :=
  (context.find? name).isSome

/-- The value at a dotted path: its first segment names a variable, and each further one a member
of the value reached so far. -/
def lookup (context : Context) (path : String) : Option Value :=
  match Text.pieces '.' path with
  | [] => none
  | first :: segments => (context.find? first).bind fun value => segments.foldlM Value.member? value

/-- Whether two contexts have equal scopes all the way out, the order of variables aside. -/
def same (left right : Context) : Bool :=
  left.depth == right.depth &&
    (left.scopes.zip right.scopes).all fun pair =>
      (Value.object pair.1).same (Value.object pair.2)

end Context

end Quire
