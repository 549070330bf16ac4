/-
Module: Quire.Proofs.Paths
Purpose: Blanks, names and paths as runs of characters, and that trimming and scanning find them.
Main exports: Text.Blanks, Text.FlushLeft, Text.FlushRight, Text.trim_padded, Text.exists_padded,
  Path.IsName, Path.IsPath, Path.run_append, Path.scan?_eq_some_iff, Path.whole?_eq_some_iff,
  Path.nameRun?_eq_some_iff, Path.afterIn?_eq_some_iff
-/
import Mathlib.Data.List.TakeWhile
import Quire.Path

/-!
Parameters of tags are names and paths with blanks between and around them. A word character is
never blank, so the blanks in front of a name are exactly those at which a scan may begin, and no
text can be taken apart in two ways. What a scanner takes is described here by the characters alone:
a path is names with dots between them, whatever scans it.
-/

namespace Quire

namespace Text

/-! ### Blanks -/

/-- The code points of the blank characters. -/
def blankCodes : List Nat :=
  [0x09, 0x0A, 0x0B, 0x0C, 0x0D, 0x20, 0x85, 0xA0, 0x1680, 0x2000, 0x2001, 0x2002, 0x2003, 0x2004,
    0x2005, 0x2006, 0x2007, 0x2008, 0x2009, 0x200A, 0x2028, 0x2029, 0x202F, 0x205F, 0x3000]

theorem toNat_mem_blankCodes {c : Char} (blank : isBlank c = true) : c.toNat ∈ blankCodes := by
  simp only [isBlank, Bool.or_eq_true, Bool.and_eq_true, decide_eq_true_eq, beq_iff_eq] at blank
  simp only [blankCodes, List.mem_cons, List.not_mem_nil, or_false]
  omega

theorem isWord_of_mem_blankCodes : ∀ code ∈ blankCodes, isWord (Char.ofNat code) = false := by
  decide +kernel

/-- No character is both blank and part of a word. -/
theorem isBlank_of_isWord {c : Char} (word : isWord c = true) : isBlank c = false := by
  by_contra blank
  have listed := toNat_mem_blankCodes (by simpa using blank)
  have other := isWord_of_mem_blankCodes c.toNat listed
  rw [Char.ofNat_toNat, word] at other
  exact nomatch other

/-- The characters are all blank. -/
def Blanks (cs : List Char) : Prop :=
  ∀ c ∈ cs, isBlank c = true

instance (cs : List Char) : Decidable (Blanks cs) :=
  decidable_of_iff (cs.all isBlank = true) List.all_eq_true

/-- The characters do not begin with a blank. -/
def FlushLeft (cs : List Char) : Prop :=
  ∀ c ∈ cs.head?, isBlank c = false

/-- The characters do not end with a blank. -/
def FlushRight (cs : List Char) : Prop :=
  ∀ c ∈ cs.getLast?, isBlank c = false

section

variable {cs before after pad : List Char}

theorem blanks_nil : Blanks [] := nofun

theorem Blanks.append (first : Blanks before) (second : Blanks after) :
    Blanks (before ++ after) := by
  intro c member
  rcases List.mem_append.1 member with member | member
  · exact first c member
  · exact second c member

theorem Blanks.reverse (blanks : Blanks pad) : Blanks pad.reverse := by
  intro c member
  exact blanks c (List.mem_reverse.1 member)

theorem FlushLeft.append (flush : FlushLeft cs) (some : cs ≠ []) (more : List Char) :
    FlushLeft (cs ++ more) := by
  cases cs with
  | nil => exact absurd rfl some
  | cons c rest => exact flush

theorem FlushRight.prepend (flush : FlushRight cs) (some : cs ≠ []) (others : List Char) :
    FlushRight (others ++ cs) := by
  intro c last
  have tail : (others ++ cs).getLast? = cs.getLast? := by
    rw [List.getLast?_append, Option.or_of_isSome (by simpa using some)]
  exact flush c (tail ▸ last)

/-! ### Trimming -/

theorem trimStart_append (blanks : Blanks pad) (cs : List Char) :
    trimStart (pad ++ cs) = trimStart cs :=
  List.dropWhile_append_of_pos blanks

theorem trimStart_of_flushLeft (flush : FlushLeft cs) : trimStart cs = cs := by
  cases cs with
  | nil => rfl
  | cons c rest => simp [trimStart, flush c rfl]

theorem flushLeft_trimStart (cs : List Char) : FlushLeft (trimStart cs) := by
  intro c first
  have stopped := List.head?_dropWhile_not isBlank cs
  rw [trimStart, Option.mem_def] at first
  simpa only [first] using stopped

/-- The characters in front of which trimming stops are blank. -/
theorem exists_pad_trimStart (cs : List Char) : ∃ pad, Blanks pad ∧ cs = pad ++ trimStart cs :=
  ⟨cs.takeWhile isBlank, fun _ => List.mem_takeWhile_imp, List.takeWhile_append_dropWhile.symm⟩

theorem trimEnd_eq (cs : List Char) : trimEnd cs = (trimStart cs.reverse).reverse := rfl

theorem flushLeft_reverse : FlushLeft cs.reverse ↔ FlushRight cs := by
  rw [FlushLeft, FlushRight, List.head?_reverse]

/-- The characters behind which trimming stops are blank. -/
theorem exists_pad_trimEnd (cs : List Char) : ∃ pad, Blanks pad ∧ cs = trimEnd cs ++ pad := by
  obtain ⟨pad, blanks, split⟩ := exists_pad_trimStart cs.reverse
  refine ⟨pad.reverse, blanks.reverse, ?_⟩
  rw [trimEnd_eq, ← List.reverse_append, ← split, List.reverse_reverse]

theorem flushRight_trim (cs : List Char) : FlushRight (trim cs) := by
  rw [trim, trimEnd_eq, ← flushLeft_reverse, List.reverse_reverse]
  exact flushLeft_trimStart _

theorem flushLeft_trim (cs : List Char) : FlushLeft (trim cs) := by
  obtain ⟨pad, _, split⟩ := exists_pad_trimEnd (trimStart cs)
  have flush := flushLeft_trimStart cs
  rw [split] at flush
  intro c first
  rw [trim] at first
  exact flush c (by rw [List.head?_append, first]; rfl)

/-- Any characters are those that trimming leaves, with blanks on both sides. -/
theorem exists_padded (cs : List Char) :
    ∃ before after, Blanks before ∧ Blanks after ∧ cs = before ++ trim cs ++ after := by
  obtain ⟨before, leading, front⟩ := exists_pad_trimStart cs
  obtain ⟨after, trailing, back⟩ := exists_pad_trimEnd (trimStart cs)
  refine ⟨before, after, leading, trailing, ?_⟩
  rw [trim, List.append_assoc, ← back, ← front]

/-- Blanks on both sides are taken off, and nothing else is. -/
theorem trim_padded (leading : Blanks before) (trailing : Blanks after) (left : FlushLeft cs)
    (right : FlushRight cs) : trim (before ++ cs ++ after) = cs := by
  have ends : trimEnd (cs ++ after) = cs := by
    rw [trimEnd_eq, List.reverse_append, trimStart_append trailing.reverse,
      trimStart_of_flushLeft (flushLeft_reverse.2 right), List.reverse_reverse]
  rw [trim, List.append_assoc, trimStart_append leading]
  by_cases empty : cs = []
  · have nothing : trimStart after = [] := by
      have all := trimStart_append trailing []
      rwa [List.append_nil] at all
    rw [empty, List.nil_append, nothing]
    rfl
  · rw [trimStart_of_flushLeft (left.append empty after), ends]

theorem trim_of_flush (left : FlushLeft cs) (right : FlushRight cs) : trim cs = cs := by
  simpa using trim_padded blanks_nil blanks_nil left right

@[simp] theorem trim_trim (cs : List Char) : trim (trim cs) = trim cs :=
  trim_of_flush (flushLeft_trim cs) (flushRight_trim cs)

theorem trim_eq_nil_iff : trim cs = [] ↔ Blanks cs := by
  constructor
  · intro empty
    obtain ⟨before, after, leading, trailing, split⟩ := exists_padded cs
    rw [split, empty, List.append_nil]
    exact leading.append trailing
  · intro blanks
    have padded : trim (cs ++ [] ++ []) = [] := trim_padded blanks blanks_nil nofun nofun
    simpa using padded

/-- It is clear where blanks end in front of characters that do not begin with one. -/
theorem blanks_append_inj {pad' cs' : List Char} (blanks : Blanks pad) (blanks' : Blanks pad')
    (flush : FlushLeft cs) (flush' : FlushLeft cs') (same : pad ++ cs = pad' ++ cs') :
    pad = pad' ∧ cs = cs' := by
  have rest : cs = cs' := by
    rw [← trimStart_of_flushLeft flush, ← trimStart_append blanks, same, trimStart_append blanks',
      trimStart_of_flushLeft flush']
  subst rest
  exact ⟨List.append_cancel_right same, rfl⟩

/-- It is clear where blanks end and begin around characters that neither begin nor end with one. -/
theorem padded_inj {before' cs' after' : List Char} (some : cs ≠ []) (leading : Blanks before)
    (trailing : Blanks after) (left : FlushLeft cs) (right : FlushRight cs)
    (leading' : Blanks before') (trailing' : Blanks after') (left' : FlushLeft cs')
    (right' : FlushRight cs') (same : before ++ cs ++ after = before' ++ cs' ++ after') :
    before = before' ∧ cs = cs' ∧ after = after' := by
  have middle : cs = cs' := by
    rw [← trim_padded leading trailing left right, same,
      trim_padded leading' trailing' left' right']
  subst middle
  rw [List.append_assoc, List.append_assoc] at same
  obtain ⟨front, back⟩ := blanks_append_inj leading leading' (left.append some after)
    (left.append some after') same
  exact ⟨front, rfl, List.append_cancel_left back⟩

end

end Text

/-! ### Names and paths -/

namespace Path

open Text

/-- A name: word characters, at least one. -/
structure IsName (cs : List Char) : Prop where
  some : cs ≠ []
  word : ∀ c ∈ cs, isWord c = true

/-- A path: names with a dot between each and the next. -/
inductive IsPath : List Char → Prop where
  | name {name : List Char} (isName : IsName name) : IsPath name
  | dotted {name path : List Char} (isName : IsName name) (further : IsPath path) :
      IsPath (name ++ '.' :: path)

/-- The characters cannot continue a path in front of them. -/
def Stops (rest : List Char) : Prop :=
  run rest = ([], rest)

section

variable {c : Char} {cs name path rest : List Char}

@[simp] theorem startsWithWord_cons (c : Char) (cs : List Char) :
    startsWithWord (c :: cs) = isWord c := rfl

theorem startsWithWord_append (word : startsWithWord cs = true) (rest : List Char) :
    startsWithWord (cs ++ rest) = true := by
  cases cs with
  | nil => exact nomatch word
  | cons c cs => exact word

theorem IsName.startsWithWord (isName : IsName name) : startsWithWord name = true := by
  obtain ⟨some, word⟩ := isName
  cases name with
  | nil => exact absurd rfl some
  | cons c cs => exact word c List.mem_cons_self

theorem isName_singleton (word : isWord c = true) : IsName [c] :=
  ⟨List.cons_ne_nil c [], by simpa using word⟩

theorem IsName.flushRight (isName : IsName name) : FlushRight name := by
  intro c last
  exact isBlank_of_isWord (isName.word c (List.mem_of_getLast? last))

theorem IsPath.startsWithWord (isPath : IsPath path) : startsWithWord path = true := by
  cases isPath with
  | name isName => exact isName.startsWithWord
  | dotted isName further => exact startsWithWord_append isName.startsWithWord _

theorem ne_nil_of_startsWithWord (word : startsWithWord cs = true) : cs ≠ [] := by
  rintro rfl
  exact nomatch word

theorem flushLeft_of_startsWithWord (word : startsWithWord cs = true) : FlushLeft cs := by
  cases cs with
  | nil => exact nofun
  | cons c cs =>
      rintro _ ⟨⟩
      exact isBlank_of_isWord word

theorem IsPath.ne_nil (isPath : IsPath path) : path ≠ [] :=
  ne_nil_of_startsWithWord isPath.startsWithWord

theorem IsPath.flushLeft (isPath : IsPath path) : FlushLeft path :=
  flushLeft_of_startsWithWord isPath.startsWithWord

theorem IsPath.flushRight (isPath : IsPath path) : FlushRight path := by
  induction isPath with
  | name isName => exact isName.flushRight
  | @dotted name path _ further ih =>
      have last := ih.prepend further.ne_nil (name ++ ['.'])
      simpa using last

/-- A word character in front of a path makes the first name of the path longer. -/
theorem IsPath.cons (word : isWord c = true) (isPath : IsPath path) : IsPath (c :: path) := by
  have longer : ∀ {name}, IsName name → IsName (c :: name) := fun isName =>
    ⟨List.cons_ne_nil c _, List.forall_mem_cons.2 ⟨word, isName.word⟩⟩
  cases isPath with
  | name isName => exact .name (longer isName)
  | dotted isName further => exact .dotted (longer isName) further

/-! ### Scanning -/

theorem run_cons_of_isWord (word : isWord c = true) :
    run (c :: cs) = (c :: (run cs).1, (run cs).2) := by
  simp [run, word]

theorem run_dot (word : Path.startsWithWord cs = true) :
    run ('.' :: cs) = ('.' :: (run cs).1, (run cs).2) := by
  simp [run, word]

theorem stops_nil : Stops [] := rfl

theorem stops_cons (other : isWord c = false) (dot : c ≠ '.') : Stops (c :: cs) := by
  simp [Stops, run, other, dot]

theorem Stops.of_not_run (other : isWord c = false)
    (lone : (c == '.' && Path.startsWithWord cs) = false) : Stops (c :: cs) := by
  simp [Stops, run, other, lone]

/-- The run at the front of a path and of what comes after it is the path and the run after it. -/
theorem run_append (isPath : IsPath path) (rest : List Char) :
    run (path ++ rest) = (path ++ (run rest).1, (run rest).2) := by
  have words : ∀ {name}, (∀ c ∈ name, isWord c = true) → ∀ rest,
      run (name ++ rest) = (name ++ (run rest).1, (run rest).2) := by
    intro name word rest
    induction name with
    | nil => rfl
    | cons c name ih =>
        obtain ⟨first, others⟩ := List.forall_mem_cons.1 word
        rw [List.cons_append, run_cons_of_isWord first, ih others, List.cons_append]
  induction isPath with
  | name isName => exact words isName.word rest
  | @dotted name path isName further ih =>
      rw [List.append_assoc, words isName.word, List.cons_append,
        run_dot (startsWithWord_append further.startsWithWord rest), ih]
      simp

/-- What is taken and what is left are the characters, and no path can go on with what is left. -/
theorem run_split (cs : List Char) : (run cs).1 ++ (run cs).2 = cs ∧ Stops (run cs).2 := by
  induction cs with
  | nil => exact ⟨rfl, rfl⟩
  | cons c cs ih =>
      by_cases more : (isWord c || (c == '.' && Path.startsWithWord cs)) = true
      · simp only [run, if_pos more, List.cons_append, ih.1, true_and]
        exact ih.2
      · simp only [Stops, run, if_neg more, List.nil_append, and_self]

/-- What is taken from a word character on is a path. -/
theorem isPath_run : ∀ {cs : List Char}, Path.startsWithWord cs = true → IsPath (run cs).1
  | [c], word => by
      rw [run_cons_of_isWord word]
      exact .name (isName_singleton word)
  | c :: d :: cs, word => by
      rw [run_cons_of_isWord word]
      by_cases further : isWord d = true
      · have longer : IsPath (run (d :: cs)).1 := isPath_run further
        exact longer.cons word
      · have single : IsName [c] := isName_singleton word
        by_cases dotted : (d == '.' && Path.startsWithWord cs) = true
        · obtain ⟨dot, more⟩ := (Bool.and_eq_true _ _).mp dotted
          cases beq_iff_eq.1 dot
          rw [run_dot more]
          exact .dotted single (isPath_run more)
        · have stop : Stops (d :: cs) :=
            .of_not_run (by simpa using further) (by simpa using dotted)
          rw [stop]
          exact .name single

/-- Scanning takes a path off the front, and takes as much as it can. -/
theorem scan?_eq_some_iff :
    scan? cs = some (path, rest) ↔ IsPath path ∧ Stops rest ∧ cs = path ++ rest := by
  constructor
  · intro scanned
    simp only [scan?] at scanned
    split at scanned
    · rename_i word
      obtain ⟨split, stop⟩ := run_split cs
      have taken := isPath_run word
      rw [Option.some.inj scanned] at split stop taken
      exact ⟨taken, stop, split.symm⟩
    · exact nomatch scanned
  · rintro ⟨isPath, stop, rfl⟩
    simp only [scan?, startsWithWord_append isPath.startsWithWord, if_true, run_append isPath]
    rw [stop, List.append_nil]

/-- All of the characters are taken exactly if they are a path. -/
theorem whole?_eq_some_iff : whole? cs = some path ↔ IsPath cs ∧ path = cs := by
  constructor
  · intro taken
    simp only [whole?] at taken
    split at taken
    · rename_i found
      cases taken
      obtain ⟨isPath, _, rfl⟩ := scan?_eq_some_iff.1 found
      simpa using isPath
    · exact nomatch taken
  · rintro ⟨isPath, rfl⟩
    have found : scan? path = some (path, []) :=
      scan?_eq_some_iff.2 ⟨isPath, stops_nil, (List.append_nil path).symm⟩
    simp only [whole?, found]

/-- A name is taken off the front up to the first character that is not part of a word. -/
theorem nameRun?_eq_some_iff : nameRun? cs = some (name, rest) ↔
    IsName name ∧ Path.startsWithWord rest = false ∧ cs = name ++ rest := by
  constructor
  · intro taken
    simp only [nameRun?] at taken
    split at taken
    · rename_i word
      cases taken
      refine ⟨⟨?_, fun _ => List.mem_takeWhile_imp⟩, ?_, List.takeWhile_append_dropWhile.symm⟩
      · cases cs with
        | nil => exact nomatch word
        | cons c cs =>
            rw [startsWithWord_cons] at word
            simp [word]
      · have stopped := List.head?_dropWhile_not isWord cs
        cases left : cs.dropWhile isWord with
        | nil => rfl
        | cons c cs => simpa [left] using stopped
    · exact nomatch taken
  · rintro ⟨isName, stop, rfl⟩
    have none : rest.takeWhile isWord = [] ∧ rest.dropWhile isWord = rest := by
      cases rest with
      | nil => exact ⟨rfl, rfl⟩
      | cons c rest =>
          rw [startsWithWord_cons] at stop
          simp [stop]
    simp [nameRun?, startsWithWord_append isName.startsWithWord,
      List.takeWhile_append_of_pos isName.word, List.dropWhile_append_of_pos isName.word, none]

/-- At least one blank is taken off the front, and all that follow it. -/
theorem blanks?_eq_some_iff : blanks? cs = some rest ↔
    ∃ pad, pad ≠ [] ∧ Blanks pad ∧ FlushLeft rest ∧ cs = pad ++ rest := by
  constructor
  · intro taken
    cases cs with
    | nil => exact nomatch taken
    | cons c cs =>
        simp only [blanks?] at taken
        split at taken
        · rename_i blank
          cases taken
          obtain ⟨pad, blanks, split⟩ := exists_pad_trimStart cs
          refine ⟨c :: pad, List.cons_ne_nil c pad, List.forall_mem_cons.2 ⟨blank, blanks⟩,
            flushLeft_trimStart cs, ?_⟩
          rw [List.cons_append, ← split]
        · exact nomatch taken
  · rintro ⟨pad, some, blanks, flush, rfl⟩
    cases pad with
    | nil => exact absurd rfl some
    | cons c pad =>
        obtain ⟨blank, others⟩ := List.forall_mem_cons.1 blanks
        simp [blanks?, blank, trimStart_append others, trimStart_of_flushLeft flush]

/-- The word `in` is taken off the front together with the blanks that it must have around it. -/
theorem afterIn?_eq_some_iff : afterIn? cs = some rest ↔
    ∃ before after, (before ≠ [] ∧ Blanks before) ∧ (after ≠ [] ∧ Blanks after) ∧ FlushLeft rest ∧
      cs = before ++ ['i', 'n'] ++ after ++ rest := by
  constructor
  · intro taken
    simp only [afterIn?] at taken
    split at taken
    · rename_i between found
      obtain ⟨before, leading, blanks, _, rfl⟩ := blanks?_eq_some_iff.1 found
      obtain ⟨after, trailing, blanks', flush, rfl⟩ := blanks?_eq_some_iff.1 taken
      exact ⟨before, after, ⟨leading, blanks⟩, ⟨trailing, blanks'⟩, flush, by simp⟩
    · exact nomatch taken
  · rintro ⟨before, after, ⟨leading, blanks⟩, ⟨trailing, blanks'⟩, flush, rfl⟩
    have first : blanks? (before ++ ['i', 'n'] ++ after ++ rest) =
        some ('i' :: 'n' :: (after ++ rest)) := by
      refine blanks?_eq_some_iff.2 ⟨before, leading, blanks, ?_, by simp⟩
      rintro _ ⟨⟩
      rfl
    have second : blanks? (after ++ rest) = some rest :=
      blanks?_eq_some_iff.2 ⟨after, trailing, blanks', flush, rfl⟩
    simp only [afterIn?, first, second]

end

end Path

end Quire
