/-
Module: Quire.Shelf
Purpose: Templates kept in memory under their names.
Main exports: Shelf, Shelf.add, Shelf.find?, Shelf.ofPairs
-/
import Quire.Fields
import Quire.Source

namespace Quire

/-- Sources of templates by name. -/
structure Shelf where
  templates : Fields Source
deriving DecidableEq, Repr

namespace Shelf

/-- No templates. -/
def empty : Shelf := ⟨[]⟩

/-- Adds a template, or replaces the one of its name. -/
def add (shelf : Shelf) (name : String) (source : Source) : Shelf :=
  ⟨Fields.put name source shelf.templates⟩

/-- The source of a template. -/
def find? (shelf : Shelf) (name : String) : Option Source :=
  Fields.find? name shelf.templates

/-- Whether there is a template of a name. -/
def has (shelf : Shelf) (name : String) : Bool :=
  (shelf.find? name).isSome

/-- A shelf with the given templates, added one after another. -/
def ofPairs (templates : List (String × Source)) : Shelf :=
  ⟨Fields.ofPairs templates⟩

end Shelf

end Quire
