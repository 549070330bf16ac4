/-
Module: Quire.Loop
Purpose: Loops: how they are written and what their rounds see.
Main exports: Loop, Loop.parse, Loop.entries, Loop.scopes
-/
import Quire.Context
import Quire.Error
import Quire.Path

namespace Quire

/-- What a loop goes through, and the names it gives to each entry. -/
structure Loop where
  item : String
  index : Option String
  path : String
deriving DecidableEq, Repr

namespace Loop

/-! ### The form of a loop -/

/-- The name of the position after a comma, if there is a comma, and the characters after it. -/
def index? (cs : List Char) : Option (Option (List Char) × List Char) :=
  match Text.trimStart cs with
  | ',' :: rest => (Path.nameRun? (Text.trimStart rest)).map fun (name, after) => (some name, after)
  | _ => some (none, cs)

/-- The names and the path of a loop: an item, perhaps a comma and an index, the word `in` between
blanks, and a path. -/
def shape? (cs : List Char) : Option (List Char × Option (List Char) × List Char) := do
  let (item, afterItem) ← Path.nameRun? cs
  let (index, afterIndex) ← index? afterItem
  let afterIn ← Path.afterIn? afterIndex
  let path ← Path.whole? afterIn
  return (item, index, path)

/-- Whether a name reads as a number. -/
def isReserved (name : List Char) : Bool :=
  (Decimal.literal? name).isSome

/-- The loop that parameters describe. Its names, and the first segment of its path, must not read
as numbers. -/
def parse (params : String) : Except Fault Loop :=
  match shape? (Text.trim params.toList) with
  | none => .error (.invalidParams "for" params)
  | some (item, index, path) =>
      if isReserved item || index.any isReserved || isReserved (path.takeWhile (· != '.')) then
        .error (.reservedName params)
      else
        .ok ⟨String.ofList item, index.map String.ofList, String.ofList path⟩

/-! ### The rounds of a loop -/

/-- The entries of a collection, each with its index: the items of an array and the characters of a
text with their positions, the values of an object with their names. -/
def entries? : Value → Option (List (Value × Value))
  | .array items => some (items.zipIdx.map fun (item, position) => (item, .ofNat position))
  | .object fields => some (fields.map fun (name, value) => (value, .string name))
  | .string text => some (text.toList.zipIdx.map fun (c, position) => (.ofChar c, .ofNat position))
  | _ => none

/-- The entries that a loop goes through. There are none where the path leads nowhere or to a falsy
value. -/
def entries (loop : Loop) (context : Context) : Except Error (List (Value × Value)) :=
  match context.lookup loop.path with
  | none => .ok []
  | some value =>
      if value.isTruthy then
        match entries? value with
        | some found => .ok found
        | none => .error (.notLoopable loop.path value.kind.name)
      else .ok []

/-- What a loop's body sees of the loop itself. -/
def progress (position length : Nat) : Value :=
  .ofPairs [
    ("counter", .ofNat (position + 1)),
    ("counter0", .ofNat position),
    ("first", .bool (position == 0)),
    ("last", .bool (position + 1 == length)),
    ("length", .ofNat length)]

/-- The variables of one round: the item, the index if it has a name, and last the loop itself. Of
equal names the later one counts. -/
def scope (loop : Loop) (length : Nat) (entry : Value × Value) (position : Nat) : Scope :=
  let item := Fields.put loop.item entry.1 []
  let indexed := match loop.index with
    | some name => Fields.put name entry.2 item
    | none => item
  Fields.put "forloop" (progress position length) indexed

/-- The variables of every round of a loop, in order. -/
def scopes (loop : Loop) (context : Context) : Except Error (List Scope) := do
  let found ← loop.entries context
  return found.zipIdx.map fun (entry, position) => loop.scope found.length entry position

end Loop

end Quire
