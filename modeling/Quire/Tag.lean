/-
Module: Quire.Tag
Purpose: The tags a template may use.
Main exports: Tag, Tag.all, Tag.name, Tag.encloses, Tag.named?
-/

namespace Quire

/-- The tags of the template language. -/
inductive Tag where
  | block
  | inheritance
  | inclusion
  | loop
  | conditional
  | otherwise
deriving DecidableEq, Repr

namespace Tag

/-- Every tag, in the order in which they are registered. -/
def all : List Tag :=
  [.block, .inheritance, .inclusion, .loop, .conditional, .otherwise]

/-- The name a tag is written with. -/
def name : Tag → String
  | .block => "block"
  | .inheritance => "extends"
  | .inclusion => "include"
  | .loop => "for"
  | .conditional => "if"
  | .otherwise => "else"

/-- Whether a tag encloses what follows it, up to a closing marker. -/
def encloses : Tag → Bool
  | .block | .loop | .conditional => true
  | .inheritance | .inclusion | .otherwise => false

/-- The tag with a name. -/
def named? (name : String) : Option Tag :=
  all.find? fun tag => tag.name == name

/-- A tag's entry in the registry, as text. -/
def entry (tag : Tag) : String :=
  "TagSpec \x7b name: \"" ++ tag.name ++ "\", expects_closing: " ++
    (if tag.encloses then "true" else "false") ++ ", .. \x7d"

end Tag

end Quire
