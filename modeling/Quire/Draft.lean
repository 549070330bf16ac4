/-
Module: Quire.Draft
Purpose: What one pass over a template leaves: text, and loads put off until after the pass.
Main exports: Purpose, Request, Piece, Stop, Draft, Draft.andThen, Draft.each
-/
import Quire.Template

/-!
A pass never loads a template whose name a variable holds. It leaves a request in its place, with
all that rendering the template will need. A pass that fails keeps the requests made before.
-/

namespace Quire

/-- Block bodies that replace the bodies of the blocks of their names. -/
abbrev Overrides := Fields (List Node)

/-- What a requested template is for. -/
inductive Purpose where
  | inclusion
  | inheritance
deriving DecidableEq, Repr

/-- A template to be loaded and rendered later, with the context and the block bodies of the place
that asked for it. -/
structure Request where
  purpose : Purpose
  name : String
  context : Context
  overrides : Overrides

/-- A piece of what a pass leaves. -/
inductive Piece where
  | text (text : String)
  | request (request : Request)

/-- Why rendering ends before its time. -/
inductive Stop where
  | error (error : Error)
  /-- Replaced blocks are open inside one another beyond the engine's measure. -/
  | endless
deriving DecidableEq, Repr

/-- The pieces left by a pass, and why it stopped if it did not come to its end. -/
structure Draft where
  pieces : List Piece
  stop : Option Stop

namespace Draft

/-- Nothing. -/
def empty : Draft := ⟨[], none⟩

/-- A piece of text. -/
def text (text : String) : Draft := ⟨[.text text], none⟩

/-- A load put off. -/
def request (request : Request) : Draft := ⟨[.request request], none⟩

/-- A stop at once. -/
def halt (stop : Stop) : Draft := ⟨[], some stop⟩

/-- An error at once. -/
def fail (error : Error) : Draft := halt (.error error)

/-- One pass and then another, which is made only if the first comes to its end. -/
def andThen (first : Draft) (second : Unit → Draft) : Draft :=
  match first.stop with
  | some _ => first
  | none =>
      let rest := second ()
      ⟨first.pieces ++ rest.pieces, rest.stop⟩

/-- One pass for each item in turn, up to the first that stops. -/
def each {α : Type} (pass : α → Draft) : List α → Draft
  | [] => empty
  | item :: rest => (pass item).andThen fun _ => each pass rest

/-- The requests of a draft, in the order in which they were made. -/
def requests (draft : Draft) : List Request :=
  draft.pieces.filterMap fun
    | .request request => some request
    | .text _ => none

end Draft

end Quire
