/-
Module: Quire.Path
Purpose: Names and dotted paths as tags write them.
Main exports: Path.nameRun?, Path.scan?, Path.whole?
-/
import Quire.Text.Word
import Quire.Text.Blank

/-!
A name is a run of word characters, and a path is names with a dot between each and the next.
Scanning takes the longest name or path at the front of the characters.
-/

namespace Quire

namespace Path

open Text

/-- Whether a word character comes first. -/
def startsWithWord : List Char → Bool
  | [] => false
  | c :: _ => isWord c

/-- The longest run in which dots stand only before word characters, and the characters after it. -/
def run : List Char → List Char × List Char
  | [] => ([], [])
  | c :: cs =>
      if isWord c || (c == '.' && startsWithWord cs) then
        let (taken, rest) := run cs
        (c :: taken, rest)
      else ([], c :: cs)

/-- The longest path at the front and the characters after it. -/
def scan? (cs : List Char) : Option (List Char × List Char) :=
  if startsWithWord cs then some (run cs) else none

/-- The characters, if together they are one path. -/
def whole? (cs : List Char) : Option (List Char) :=
  match scan? cs with
  | some (path, []) => some path
  | _ => none

/-- The longest name at the front and the characters after it. -/
def nameRun? (cs : List Char) : Option (List Char × List Char) :=
  if startsWithWord cs then some (cs.takeWhile isWord, cs.dropWhile isWord) else none

/-- The characters after at least one blank and all that follow it. -/
def blanks? : List Char → Option (List Char)
  | [] => none
  | c :: cs => if isBlank c then some (trimStart cs) else none

/-- The characters after the word `in` with at least one blank on each side. -/
def afterIn? (cs : List Char) : Option (List Char) :=
  match blanks? cs with
  | some ('i' :: 'n' :: rest) => blanks? rest
  | _ => none

end Path

end Quire
