/-
Module: Quire.Json.Codec
Purpose: Values, sources, shelves and settings as JSON documents.
Main exports: Value.toJson, Json.toValue?, Source.toJson, Json.toSource?, Shelf.toJson,
  Json.toShelf?, Config.toJson, Json.toConfig?
-/
import Quire.Json.Number
import Quire.Json.Reader
import Quire.Shelf
import Quire.Engine

/-!
A value is its document. Lexemes are objects with one member, named for what they are. The parts of
an object with fixed names may also be given as an array in their order.
-/

namespace Quire

/-- A string with a text. -/
def Json.ofText (text : String) : Json :=
  .string (some text)

/-- An object with the given members. -/
def Json.ofMembers (members : List (String × Json)) : Json :=
  .object (members.map fun (name, value) => (some name, value))

/-! ### Values -/

namespace Value

mutual

/-- The document of a value. Numbers that are not finite become null. -/
def toJson : Value → Json
  | .null => .null
  | .bool b => .bool b
  | .number x => if x.isFinite then .number (.ofBinary64 x) else .null
  | .string text => .ofText text
  | .array items => .array (itemsToJson items)
  | .object fields => .object (fieldsToJson fields)
termination_by structural value => value

/-- The documents of the items of an array. -/
def itemsToJson : List Value → List Json
  | [] => []
  | item :: rest => toJson item :: itemsToJson rest
termination_by structural items => items

/-- The documents of the fields of an object. -/
def fieldsToJson : List (String × Value) → List (JsonText × Json)
  | [] => []
  | (name, value) :: rest => (some name, toJson value) :: fieldsToJson rest
termination_by structural fields => fields

end

end Value

namespace Json

/-- How deep arrays and objects may be nested in the document of a value. -/
def maxNesting : Nat := 127

mutual

/-- The value of a document whose arrays and objects are nested no deeper than `room`. What number a
numeral denotes is for `read` to say. -/
def valueWithin (read : Numeral → Option Binary64) (room : Nat) : Json → Option Value
  | .null => some .null
  | .bool b => some (.bool b)
  | .number numeral => (read numeral).map .number
  | .string text => text.map .string
  | .array items => if room = 0 then none else (itemsWithin read (room - 1) items).map .array
  | .object members =>
      if room = 0 then none else (fieldsWithin read (room - 1) members).map .ofPairs
termination_by structural json => json

/-- The values of the items of an array. -/
def itemsWithin (read : Numeral → Option Binary64) (room : Nat) : List Json → Option (List Value)
  | [] => some []
  | item :: rest => do
      let value ← valueWithin read room item
      let others ← itemsWithin read room rest
      return value :: others
termination_by structural items => items

/-- The fields of an object, repeated names included. -/
def fieldsWithin (read : Numeral → Option Binary64) (room : Nat) :
    List (JsonText × Json) → Option (List (String × Value))
  | [] => some []
  | (name, json) :: rest => do
      let text ← name
      let value ← valueWithin read room json
      let others ← fieldsWithin read room rest
      return (text, value) :: others
termination_by structural members => members

end

/-- The value of a document. A repeated name keeps its first place and its last value. -/
def toValue? (json : Json) : Option Value :=
  valueWithin Numeral.toBinary64? maxNesting json

/-! ### Parts with fixed names -/

/-- The text of a string. -/
def text? : Json → Option String
  | .string text => text
  | _ => none

/-- The members of an object under their names. -/
def named? (members : List (JsonText × Json)) : Option (List (String × Json)) :=
  members.mapM fun (name, value) => name.map fun text => (text, value)

/-- The parts of the given names, each there at most once. Members of other names are left aside.
In an array the parts come in the order of their names, and the last ones may be missing. -/
def parts? (names : List String) : Json → Option (List (Option Json))
  | .array items =>
      if names.length < items.length then none
      else some ((items.map some) ++ List.replicate (names.length - items.length) none)
  | .object members => do
      let named ← named? members
      names.mapM fun name =>
        match named.filter fun member => member.1 == name with
        | [] => some none
        | [member] => some (some member.2)
        | _ => none
  | _ => none

end Json

/-! ### Sources -/

namespace Lexeme

/-- The document of a lexeme. -/
def toJson : Lexeme → Json
  | .text content => .ofMembers [("Text", .ofText content)]
  | .value path => .ofMembers [("Variable", .ofText path)]
  | .opening name params =>
      .ofMembers [("Open", .ofMembers [("name", .ofText name), ("params", .ofText params)])]
  | .closing name => .ofMembers [("Close", .ofMembers [("name", .ofText name)])]

end Lexeme

/-- The document of a source. -/
def Source.toJson (source : Source) : Json :=
  .array (source.lexemes.map Lexeme.toJson)

namespace Json

/-- The lexeme of a document. -/
def toLexeme? : Json → Option Lexeme
  | .object [(some "Text", json)] => json.text?.map .text
  | .object [(some "Variable", json)] => json.text?.map .value
  | .object [(some "Open", json)] => do
      match ← json.parts? ["name", "params"] with
      | [some name, some params] => return .opening (← name.text?) (← params.text?)
      | _ => none
  | .object [(some "Close", json)] => do
      match ← json.parts? ["name"] with
      | [some name] => return .closing (← name.text?)
      | _ => none
  | _ => none

/-- The source of a document. -/
def toSource? : Json → Option Source
  | .array items => (items.mapM toLexeme?).map .ofList
  | _ => none

/-! ### Shelves -/

/-- The shelf of a document. Of templates with one name the last stays. -/
def toShelf? (json : Json) : Option Shelf := do
  match ← json.parts? ["templates"] with
  | [some (.object members)] =>
      let named ← named? members
      let templates ← named.mapM fun (name, source) => source.toSource?.map fun s => (name, s)
      return .ofPairs templates
  | _ => none

/-! ### Settings -/

/-- The policy of a document: its name, alone or as the name of a null. -/
def toMissingInclude? : Json → Option MissingInclude
  | .string (some "Silent") => some .silent
  | .string (some "Error") => some .error
  | .object [(some "Silent", .null)] => some .silent
  | .object [(some "Error", .null)] => some .error
  | _ => none

/-- The 64-bit word of a document. -/
def toWord? : Json → Option Nat
  | .number numeral => numeral.toWord?
  | _ => none

/-- The settings of a document. Those that are missing are the default ones. -/
def toConfig? (json : Json) : Option Config := do
  match ← json.parts? ["max_depth", "missing_include"] with
  | [depth, policy] =>
      let default : Config := {}
      let maxDepth ← match depth with
        | some found => found.toWord?
        | none => some default.maxDepth
      let missingInclude ← match policy with
        | some found => found.toMissingInclude?
        | none => some default.missingInclude
      return ⟨maxDepth, missingInclude⟩
  | _ => none

end Json

/-- The document of a shelf. -/
def Shelf.toJson (shelf : Shelf) : Json :=
  let templates := shelf.templates.map fun (name, source) => (name, source.toJson)
  .ofMembers [("templates", .ofMembers templates)]

/-- The document of settings. -/
def Config.toJson (config : Config) : Json :=
  .ofMembers [
    ("max_depth", .number (.ofNat config.maxDepth)),
    ("missing_include", .ofText config.missingInclude.name)]

end Quire
