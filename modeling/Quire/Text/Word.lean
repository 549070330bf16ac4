/-
Module: Quire.Text.Word
Purpose: The characters a name is made of.
Main exports: isWord
-/
import Quire.Text.Word.BasicPlane
import Quire.Text.Word.HigherPlanes

namespace Quire.Text

/-- Whether a code point lies in one of the closed ranges. -/
def inRanges (ranges : List (Nat × Nat)) (code : Nat) : Bool :=
  ranges.any fun range => range.1 ≤ code && code ≤ range.2

/-- The word characters of ASCII: letters, digits and the underscore. -/
def isAsciiWord (c : Char) : Bool :=
  c.isAlphanum || c == '_'

/-- A word character is alphabetic, a combining mark, a decimal digit, a connector punctuation such
as the underscore, or one of the two zero-width joiners, as Unicode 16 classifies them. -/
def isWord (c : Char) : Bool :=
  let code := c.toNat
  if code < 0x80 then isAsciiWord c
  else if code < 0x1000 then inRanges wordRangesLow code
  else if code < 0x10000 then inRanges wordRangesHigh code
  else if code < 0x11800 then inRanges wordRangesScripts code
  else inRanges wordRangesBeyond code

end Quire.Text
