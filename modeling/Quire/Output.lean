/-
Module: Quire.Output
Purpose: Rendered output with places that are filled later.
Main exports: Fragment, Output, Cells, Output.append, Cells.fresh, Cells.allot, Cells.set,
  Cells.text
-/

/-!
An output is a sequence of texts and cells. A cell is a place whose contents may be set, any number
of times, after the place has been put into outputs; every output that holds the cell shows what it
holds at the time.
-/

namespace Quire

/-- The identity of a cell. -/
structure CellId where
  index : Nat
deriving DecidableEq, Repr

/-- A piece of output. -/
inductive Fragment where
  | text (text : String)
  | cell (id : CellId)
deriving DecidableEq, Repr

/-- Rendered output. Adjacent texts are merged as they are appended. -/
structure Output where
  fragments : List Fragment
deriving DecidableEq, Repr

namespace Output

/-- The output of nothing. -/
def empty : Output := ⟨[]⟩

/-- Fragments before others; texts that meet become one. -/
def join : List Fragment → List Fragment → List Fragment
  | [], others => others
  | [.text first], .text second :: others => .text (first ++ second) :: others
  | fragment :: rest, others => fragment :: join rest others

/-- One output before another. -/
def append (first second : Output) : Output :=
  ⟨join first.fragments second.fragments⟩

/-- The output of a text. -/
def ofText (text : String) : Output :=
  if text.isEmpty then empty else ⟨[.text text]⟩

/-- The output of a cell. -/
def ofCell (id : CellId) : Output := ⟨[.cell id]⟩

/-- A text at the end of an output. -/
def pushText (output : Output) (text : String) : Output :=
  output.append (ofText text)

/-- A cell at the end of an output. -/
def pushCell (output : Output) (id : CellId) : Output :=
  output.append (ofCell id)

/-- Whether an output has no fragments. -/
def isEmpty (output : Output) : Bool :=
  output.fragments.isEmpty

/-- The cells that stand in an output itself, in order. -/
def cells (output : Output) : List CellId :=
  output.fragments.filterMap fun
    | .cell id => some id
    | .text _ => none

end Output

/-- The contents of all cells there are. -/
structure Cells where
  contents : Array Output
deriving DecidableEq, Repr

namespace Cells

/-- No cells. -/
def empty : Cells := ⟨#[]⟩

/-- How many cells there are. The next one takes this number for its identity. -/
def size (cells : Cells) : Nat :=
  cells.contents.size

/-- A further cell with the given contents. -/
def fresh (cells : Cells) (output : Output) : CellId × Cells :=
  (⟨cells.size⟩, ⟨cells.contents.push output⟩)

/-- So many further cells, all empty. -/
def allot (cells : Cells) (count : Nat) : Cells :=
  ⟨cells.contents ++ Array.replicate count .empty⟩

/-- The cells after the contents of one have been replaced. -/
def set (cells : Cells) (id : CellId) (output : Output) : Cells :=
  ⟨cells.contents.setIfInBounds id.index output⟩

/-- What a cell holds. -/
def content (cells : Cells) (id : CellId) : Output :=
  cells.contents[id.index]?.getD .empty

/-- The text of a fragment, looking through cells inside one another no deeper than a bound. -/
def fragmentText (cells : Cells) : Nat → Fragment → String
  | _, .text text => text
  | 0, .cell _ => ""
  | bound + 1, .cell id =>
      String.join ((cells.content id).fragments.map (fragmentText cells bound))

/-- The text of an output. Cells that do not hold themselves are no deeper inside one another than
there are cells. -/
def text (cells : Cells) (output : Output) : String :=
  String.join (output.fragments.map (cells.fragmentText cells.size))

/-- The text of what a cell holds. -/
def cellText (cells : Cells) (id : CellId) : String :=
  cells.text (cells.content id)

end Cells

end Quire
