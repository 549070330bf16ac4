/-
Module: Quire.Source
Purpose: The lexed form in which templates are handed to the engine.
Main exports: Lexeme, Source, Source.push, Source.ofText, Source.ofList
-/

namespace Quire

/-- A unit of template input. -/
inductive Lexeme where
  /-- Literal text. -/
  | text (text : String)
  /-- A substitution of the value at a path. -/
  | value (path : String)
  /-- A tag by its name, with its parameters as they were written. -/
  | opening (name params : String)
  /-- The closing marker of a tag, by the name of the tag it closes. -/
  | closing (name : String)
deriving DecidableEq, Repr

/-- A lexed template. -/
structure Source where
  lexemes : List Lexeme
deriving DecidableEq, Repr

namespace Source

/-- The source of nothing. -/
def empty : Source := ⟨[]⟩

/-- A lexeme at the end of a source. -/
def push (source : Source) (lexeme : Lexeme) : Source :=
  ⟨source.lexemes ++ [lexeme]⟩

/-- A text at the end. -/
def text (source : Source) (text : String) : Source :=
  source.push (.text text)

/-- A substitution at the end. -/
def value (source : Source) (path : String) : Source :=
  source.push (.value path)

/-- A tag at the end. -/
def opening (source : Source) (name params : String) : Source :=
  source.push (.opening name params)

/-- A closing marker at the end. -/
def closing (source : Source) (name : String) : Source :=
  source.push (.closing name)

/-- The source of a single piece of text, which may be empty. -/
def ofText (text : String) : Source :=
  empty.text text

/-- The source of the given lexemes. -/
def ofList (lexemes : List Lexeme) : Source :=
  ⟨lexemes⟩

end Source

end Quire
