/-
Module: Quire.Proofs.LoopGrammar
Purpose: Which parameters state a loop, that none of them can be read in two ways, and that the
  names of a loop are paths wherever a condition uses them.
Main exports: Decimal.literal?_of_isPath, Loop.Writing, Loop.Writing.Proper, Loop.Writing.Reserved,
  Loop.Writing.Proper.unique, Loop.Writing.parse_cases, Loop.operand_of_parse, loop_grammar
-/
import Quire.Loop
import Quire.Proofs.Conditions
import Quire.Proofs.Digits
import Quire.Proofs.Rounding

/-!
A loop is written as an item, perhaps a comma and an index, the word `in` and a path, with blanks in
the gaps. As with conditions the grammar is told by the parts of such a text, and each part can be
recovered from the whole, even where `in` is the name of the item, the index or the path.

Of the path only the first name must not read as a number, but then the path as a whole does not
read as one either. A number with a point in it has nothing but digits in front of the point, and
what follows them only makes it larger: a sign cannot stand in a path, so neither the number nor its
exponent is negative. Digits that are too many for a number therefore stay too many.
-/

namespace Quire

/-! ### Paths that read as numbers -/

namespace Decimal

/-- There is no sign among the characters. -/
def Unsigned (cs : List Char) : Prop :=
  ∀ c ∈ cs, c ≠ '-' ∧ c ≠ '+'

variable {cs name rest : List Char}

theorem Unsigned.subset (unsigned : Unsigned cs) (among : rest ⊆ cs) : Unsigned rest :=
  fun c member => unsigned c (among member)

theorem unsigned_of_digits (digits : ∀ c ∈ cs, c.isDigit = true) : Unsigned cs := by
  intro c member
  have digit := digits c member
  constructor
  · rintro rfl
    exact nomatch digit
  · rintro rfl
    exact nomatch digit

theorem signed_of_unsigned (unsigned : Unsigned cs) : signed cs = (false, cs) := by
  unfold signed
  split
  · exact absurd rfl (unsigned _ List.mem_cons_self).1
  · exact absurd rfl (unsigned _ List.mem_cons_self).2
  · rfl

/-- An exponent without a sign is not negative. -/
theorem exponent?_nonneg (unsigned : Unsigned cs) {exponent : Int}
    (read : exponent? cs = some exponent) : 0 ≤ exponent := by
  cases cs with
  | nil =>
      cases read
      exact Int.le_refl 0
  | cons mark rest =>
      have bare := signed_of_unsigned (unsigned.subset (List.subset_cons_self mark rest))
      simp only [exponent?, bare] at read
      split at read
      · cases read
        exact Int.natCast_nonneg _
      · exact nomatch read

/-- There is no point in an exponent. -/
theorem exponent?_of_point {mark : Char} (unsigned : Unsigned (mark :: cs)) (point : '.' ∈ cs) :
    exponent? (mark :: cs) = none := by
  have bare := signed_of_unsigned (unsigned.subset (List.subset_cons_self mark cs))
  simp only [exponent?, bare]
  rw [if_neg]
  rintro ⟨_, _, digits⟩
  exact nomatch List.all_eq_true.1 digits '.' point

/-- Digits that stand alone are a number if they are not too many. -/
theorem isSome_literal?_of_digits (some : cs ≠ []) (digits : ∀ c ∈ cs, c.isDigit = true)
    (finite : (Binary64.ofDecimal false (Text.digitsValue cs) 0).isFinite = true) :
    (literal? cs).isSome = true := by
  have bare := signed_of_unsigned (unsigned_of_digits digits)
  have run : digitRun (cs ++ []) = (cs, []) := digitRun_append digits nofun
  rw [List.append_nil] at run
  simp [literal?, bare, run, fractionRun, exponent?, some, finite]

/-- If digits with a point behind them begin a number, they are a number if they stand alone. -/
theorem isSome_literal?_of_point (some : cs ≠ []) (digits : ∀ c ∈ cs, c.isDigit = true)
    (unsigned : Unsigned (cs ++ '.' :: rest)) {x : Binary64}
    (read : literal? (cs ++ '.' :: rest) = .some x) : (literal? cs).isSome = true := by
  apply isSome_literal?_of_digits some digits
  have run : digitRun (cs ++ '.' :: rest) = (cs, '.' :: rest) :=
    digitRun_append digits (by rintro _ ⟨⟩; rfl)
  simp only [literal?, signed_of_unsigned unsigned, run, fractionRun, Option.bind_eq_bind,
    Option.bind_eq_some_iff] at read
  obtain ⟨exponent, raised, read⟩ := read
  split at read
  · cases read
  · split at read
    · rename_i finite
      have after : (digitRun rest).2 ⊆ cs ++ '.' :: rest := by
        apply List.subset_append_of_subset_right
        apply List.subset_cons_of_subset
        exact (List.dropWhile_suffix Char.isDigit).subset
      have nonneg := exponent?_nonneg (unsigned.subset after) raised
      apply Binary64.isFinite_ofDecimal_mono _ finite
      -- the exponent takes back no more places than there are digits behind the point
      have places : (-(exponent - (digitRun rest).1.length)).toNat ≤
          (digitRun rest).1.length + (exponent - (digitRun rest).1.length).toNat := by omega
      have one : tenTo (0 : Int).toNat = 1 := rfl
      rw [Int.neg_zero, one, Nat.mul_one, Nat.mul_one, Text.digitsValue_append]
      calc
        _ ≤ Text.digitsValue cs * tenTo ((digitRun rest).1.length +
            (exponent - (digitRun rest).1.length).toNat) :=
          Nat.mul_le_mul_left _ (tenTo_le_tenTo places)
        _ = Text.digitsValue cs * tenTo (digitRun rest).1.length *
            tenTo (exponent - (digitRun rest).1.length).toNat := by
          rw [tenTo_add, Nat.mul_assoc]
        _ ≤ _ := Nat.mul_le_mul_right _ (Nat.le_add_right _ _)
    · cases read

/-- If anything but digits stands in front of a point, there is no number. -/
theorem literal?_of_point (name : Path.IsName cs) (other : ¬ ∀ c ∈ cs, c.isDigit = true)
    (unsigned : Unsigned (cs ++ '.' :: rest)) : literal? (cs ++ '.' :: rest) = none := by
  have split := List.takeWhile_append_dropWhile (p := Char.isDigit) (l := cs)
  cases behind : cs.dropWhile Char.isDigit with
  | nil =>
      rw [behind, List.append_nil] at split
      rw [← split] at other
      exact absurd (fun _ => List.mem_takeWhile_imp) other
  | cons c back =>
      rw [behind] at split
      have stop : c.isDigit = false := by
        have first := List.head?_dropWhile_not Char.isDigit cs
        simpa [behind] using first
      have word : Text.isWord c = true := name.word c (by rw [← split]; simp)
      have run : digitRun (cs ++ '.' :: rest) =
          (cs.takeWhile Char.isDigit, c :: (back ++ '.' :: rest)) := by
        rw [← split, List.append_assoc, split]
        apply digitRun_append fun _ => List.mem_takeWhile_imp
        rintro _ ⟨⟩
        exact stop
      have none : exponent? (c :: (back ++ '.' :: rest)) = none := by
        apply exponent?_of_point (unsigned.subset _)
        · simp
        · rw [← split, List.append_assoc]
          exact List.subset_append_right _ _
      have noPoint : fractionRun (c :: (back ++ '.' :: rest)) =
          ([], c :: (back ++ '.' :: rest)) := by
        unfold fractionRun
        split
        · rename_i same
          cases same
          exact nomatch word
        · rfl
      simp only [literal?, signed_of_unsigned unsigned, run, noPoint, none, Option.bind_eq_bind,
        Option.bind_none]

theorem unsigned_of_isPath {path : List Char} (isPath : Path.IsPath path) : Unsigned path := by
  have words : ∀ {name : List Char}, (∀ c ∈ name, Text.isWord c = true) → Unsigned name := by
    intro name word c member
    constructor
    · rintro rfl
      exact nomatch word '-' member
    · rintro rfl
      exact nomatch word '+' member
  induction isPath with
  | name isName => exact words isName.word
  | dotted isName _ ih =>
      intro c member
      rcases List.mem_append.1 member with front | back
      · exact words isName.word c front
      · rcases List.mem_cons.1 back with rfl | back
        · decide
        · exact ih c back

/-- A path reads as a number only if its first name does. -/
theorem literal?_of_isPath {path : List Char} (isPath : Path.IsPath path)
    (first : literal? (path.takeWhile (· != '.')) = none) : literal? path = none := by
  have unsigned := unsigned_of_isPath isPath
  have noPoint : ∀ {name : List Char}, Path.IsName name → ∀ c ∈ name, (c != '.') = true := by
    intro name isName c member
    apply bne_iff_ne.2
    rintro rfl
    exact nomatch isName.word '.' member
  cases isPath with
  | name isName => rwa [List.takeWhile_eq_self_iff.2 (noPoint isName)] at first
  | @dotted name further isName _ =>
      rw [List.takeWhile_append_of_pos (noPoint isName)] at first
      simp only [List.takeWhile_cons, bne_self_eq_false, Bool.false_eq_true, if_false,
        List.append_nil] at first
      by_cases digits : ∀ c ∈ name, c.isDigit = true
      · cases read : literal? (name ++ '.' :: further) with
        | none => rfl
        | some x =>
            have alone := isSome_literal?_of_point isName.some digits unsigned read
            rw [first] at alone
            exact nomatch alone
      · exact literal?_of_point isName digits unsigned

end Decimal

namespace Loop

/-! ### What is written of an index -/

/-- The name of the index as it is written, with what stands on either side of the comma. -/
structure IndexWriting where
  before : List Char
  after : List Char
  name : List Char

/-- The characters from the item to the end of the index. -/
def IndexWriting.chars (index : IndexWriting) : List Char :=
  index.before ++ ',' :: (index.after ++ index.name)

/-- Only blanks stand beside the comma. -/
structure IndexWriting.Proper (index : IndexWriting) : Prop where
  before : Text.Blanks index.before
  after : Text.Blanks index.after
  isName : Path.IsName index.name

/-- Given its name, what is written of an index can be told from its characters. -/
theorem IndexWriting.Proper.unique {index other : IndexWriting} (proper : index.Proper)
    (proper' : other.Proper) (name : index.name = other.name) (same : index.chars = other.chars) :
    index = other := by
  obtain ⟨before, behind⟩ := Text.blanks_append_inj proper.before proper'.before
    (by rintro _ ⟨⟩; rfl) (by rintro _ ⟨⟩; rfl) same
  rw [name] at behind
  have after := List.append_cancel_right (List.cons.inj behind).2
  obtain ⟨_, _, _⟩ := index
  obtain ⟨_, _, _⟩ := other
  simp_all

/-- Blanks end a name in front of them. -/
theorem startsWithWord_of_blanks {pad rest : List Char} (blanks : Text.Blanks pad)
    (other : pad = [] → Path.startsWithWord rest = false) :
    Path.startsWithWord (pad ++ rest) = false := by
  cases pad with
  | nil => exact other rfl
  | cons c pad =>
      have blank := blanks c List.mem_cons_self
      by_contra word
      rw [Text.isBlank_of_isWord (by simpa using word)] at blank
      exact nomatch blank

/-! ### Loops as they are written -/

/-- A loop as it is written: its item, the index if there is one, what stands around the word `in`,
the path, and what stands around all of them. -/
structure Writing where
  before : List Char
  item : List Char
  index : Option IndexWriting
  ahead : List Char
  behind : List Char
  path : List Char
  after : List Char

namespace Writing

/-- The characters from the gap in front of the word `in` to the end of the path. -/
def source (writing : Writing) : List Char :=
  writing.ahead ++ ['i', 'n'] ++ writing.behind ++ writing.path

/-- The characters behind the item. -/
def sequel (writing : Writing) : List Char :=
  writing.index.elim [] IndexWriting.chars ++ writing.source

/-- The characters from the item to the path. -/
def inner (writing : Writing) : List Char :=
  writing.item ++ writing.sequel

/-- The characters of a loop. -/
def chars (writing : Writing) : List Char :=
  writing.before ++ writing.inner ++ writing.after

/-- The names and the path have their forms, there are blanks on both sides of the word `in`, and
nothing but blanks in any of the other gaps. -/
structure Proper (writing : Writing) : Prop where
  before : Text.Blanks writing.before
  item : Path.IsName writing.item
  index : ∀ index ∈ writing.index, index.Proper
  ahead : writing.ahead ≠ [] ∧ Text.Blanks writing.ahead
  behind : writing.behind ≠ [] ∧ Text.Blanks writing.behind
  path : Path.IsPath writing.path
  after : Text.Blanks writing.after

/-- The loop that is written. -/
def loop (writing : Writing) : Loop :=
  ⟨String.ofList writing.item, writing.index.map fun index => String.ofList index.name,
    String.ofList writing.path⟩

/-- The names that must not read as numbers: those the loop gives, and the first one of its path. -/
def names (writing : Writing) : List (List Char) :=
  writing.item :: (writing.index.map IndexWriting.name).toList ++
    [writing.path.takeWhile (· != '.')]

/-- One of these names reads as a finite number. -/
def Reserved (writing : Writing) : Prop :=
  ∃ name ∈ writing.names, ∃ x : Binary64, Decimal.literal? name = some x ∧ x.isFinite = true

variable {writing other : Writing}

/-! ### Reading a loop -/

theorem startsWithWord_source (proper : writing.Proper) :
    Path.startsWithWord writing.source = false := by
  rw [source, List.append_assoc, List.append_assoc]
  exact startsWithWord_of_blanks proper.ahead.2 (absurd · proper.ahead.1)

/-- Behind an item comes a blank or a comma. -/
theorem startsWithWord_sequel (proper : writing.Proper) :
    Path.startsWithWord writing.sequel = false := by
  have single := startsWithWord_source proper
  cases further : writing.index with
  | none =>
      rw [sequel, further, Option.elim_none, List.nil_append]
      exact single
  | some index =>
      rw [sequel, further, Option.elim_some, IndexWriting.chars, List.append_assoc]
      exact startsWithWord_of_blanks (proper.index index further).before fun _ => rfl

/-- The index is found in front of the word `in`, whether there is one or not. -/
theorem index?_sequel (proper : writing.Proper) :
    index? writing.sequel = some (writing.index.map IndexWriting.name, writing.source) := by
  cases further : writing.index with
  | none =>
      have first : Text.trimStart writing.source =
          'i' :: 'n' :: (writing.behind ++ writing.path) := by
        rw [source, List.append_assoc, List.append_assoc, Text.trimStart_append proper.ahead.2]
        rfl
      simp only [sequel, further, index?, Option.elim_none, List.nil_append, first]
      rfl
  | some index =>
      have known := proper.index index further
      have comma : Text.trimStart (index.chars ++ writing.source) =
          ',' :: (index.after ++ (index.name ++ writing.source)) := by
        rw [IndexWriting.chars, List.append_assoc, Text.trimStart_append known.before,
          List.cons_append, List.append_assoc]
        rfl
      have flush : Text.FlushLeft (index.name ++ writing.source) :=
        (Path.IsPath.name known.isName).flushLeft.append known.isName.some _
      have taken : Path.nameRun? (index.name ++ writing.source) =
          some (index.name, writing.source) :=
        Path.nameRun?_eq_some_iff.2 ⟨known.isName, startsWithWord_source proper, rfl⟩
      simp only [sequel, further, index?, Option.elim_some, comma, Option.map_some,
        Text.trimStart_append known.after, Text.trimStart_of_flushLeft flush, taken]

theorem afterIn?_source (proper : writing.Proper) :
    Path.afterIn? writing.source = some writing.path :=
  Path.afterIn?_eq_some_iff.2
    ⟨writing.ahead, writing.behind, proper.ahead, proper.behind, proper.path.flushLeft, rfl⟩

/-- The names and the path are found in a loop. -/
theorem Proper.shape?_inner (proper : writing.Proper) : shape? writing.inner =
    some (writing.item, writing.index.map IndexWriting.name, writing.path) := by
  have item : Path.nameRun? writing.inner = some (writing.item, writing.sequel) :=
    Path.nameRun?_eq_some_iff.2 ⟨proper.item, startsWithWord_sequel proper, rfl⟩
  have path : Path.whole? writing.path = some writing.path :=
    Path.whole?_eq_some_iff.2 ⟨proper.path, rfl⟩
  simp [shape?, item, index?_sequel proper, afterIn?_source proper, path]

end Writing

/-- What comes before the rest of a loop is nothing, or a comma and an index. -/
theorem exists_of_index? {cs rest : List Char} {name : Option (List Char)}
    (found : index? cs = some (name, rest)) :
    ∃ index : Option IndexWriting, (∀ written ∈ index, written.Proper) ∧
      index.map IndexWriting.name = name ∧ cs = index.elim [] IndexWriting.chars ++ rest := by
  simp only [index?] at found
  split at found
  · rename_i tail comma
    obtain ⟨⟨word, left⟩, taken, same⟩ := Option.map_eq_some_iff.1 found
    cases same
    obtain ⟨before, leading, front⟩ := Text.exists_pad_trimStart cs
    obtain ⟨after, trailing, back⟩ := Text.exists_pad_trimStart tail
    obtain ⟨isName, _, behind⟩ := Path.nameRun?_eq_some_iff.1 taken
    refine ⟨some ⟨before, after, word⟩, ?_, rfl, ?_⟩
    · rintro _ ⟨⟩
      exact ⟨leading, trailing, isName⟩
    · rw [front, comma, back, behind]
      simp [IndexWriting.chars]
  · cases found
    exact ⟨none, nofun, rfl, rfl⟩

namespace Writing

variable {writing other : Writing}

/-- Where names and a path are found, a loop is written. -/
theorem exists_of_shape? {cs item path : List Char} {index : Option (List Char)}
    (shaped : shape? cs = some (item, index, path)) {before after : List Char}
    (leading : Text.Blanks before) (trailing : Text.Blanks after) :
    ∃ writing : Writing, writing.Proper ∧ writing.chars = before ++ cs ++ after := by
  simp only [shape?, Option.bind_eq_bind, Option.bind_eq_some_iff, Prod.exists] at shaped
  obtain ⟨_, afterItem, first, name, afterIndex, second, afterIn, third, _, last, done⟩ := shaped
  cases done
  obtain ⟨isName, _, rfl⟩ := Path.nameRun?_eq_some_iff.1 first
  obtain ⟨written, proper, _, rfl⟩ := exists_of_index? second
  obtain ⟨ahead, behind, gap, gap', _, rfl⟩ := Path.afterIn?_eq_some_iff.1 third
  obtain ⟨isPath, rfl⟩ := Path.whole?_eq_some_iff.1 last
  exact ⟨⟨before, item, written, ahead, behind, path, after⟩,
    ⟨leading, isName, proper, gap, gap', isPath, trailing⟩, rfl⟩

theorem Proper.inner_ne_nil (proper : writing.Proper) : writing.inner ≠ [] := by
  simp [inner, proper.item.some]

theorem Proper.flushLeft (proper : writing.Proper) : Text.FlushLeft writing.inner :=
  (Path.IsPath.name proper.item).flushLeft.append proper.item.some _

theorem Proper.flushRight (proper : writing.Proper) : Text.FlushRight writing.inner := by
  have last := proper.path.flushRight.prepend proper.path.ne_nil
    (writing.item ++ (writing.index.elim [] IndexWriting.chars ++
      (writing.ahead ++ ['i', 'n'] ++ writing.behind)))
  simpa only [inner, sequel, source, List.append_assoc] using last

theorem Proper.trim_chars (proper : writing.Proper) : Text.trim writing.chars = writing.inner :=
  Text.trim_padded proper.before proper.after proper.flushLeft proper.flushRight

/-- The parts of a loop can be told from its characters. -/
theorem Proper.unique (proper : writing.Proper) (proper' : other.Proper)
    (same : writing.chars = other.chars) : writing = other := by
  obtain ⟨before, inner, after⟩ := Text.padded_inj proper.inner_ne_nil proper.before proper.after
    proper.flushLeft proper.flushRight proper'.before proper'.after proper'.flushLeft
    proper'.flushRight same
  have shaped := proper.shape?_inner
  rw [inner, proper'.shape?_inner, Option.some.injEq, Prod.mk.injEq, Prod.mk.injEq] at shaped
  obtain ⟨item, name, path⟩ := shaped
  have sequel : writing.sequel = other.sequel := by
    rw [Writing.inner, Writing.inner, item] at inner
    exact List.append_cancel_left inner
  have found := index?_sequel proper
  rw [sequel, index?_sequel proper', Option.some.injEq, Prod.mk.injEq] at found
  have source : other.source = writing.source := found.2
  have front : writing.index.elim [] IndexWriting.chars =
      other.index.elim [] IndexWriting.chars := by
    rw [Writing.sequel, Writing.sequel, source] at sequel
    exact List.append_cancel_right sequel
  have index : writing.index = other.index := by
    cases here : writing.index with
    | none =>
        cases there : other.index with
        | none => rfl
        | some index' =>
            rw [here, there] at name
            exact nomatch name
    | some index =>
        cases there : other.index with
        | none =>
            rw [here, there] at name
            exact nomatch name
        | some index' =>
            rw [here, there] at name front
            rw [(proper.index index here).unique (proper'.index index' there)
              (Option.some.inj name).symm front]
  have gaps : writing.ahead = other.ahead ∧ writing.behind = other.behind := by
    simp only [Writing.source, List.append_assoc, path] at source
    obtain ⟨ahead, rest⟩ := Text.blanks_append_inj proper'.ahead.2 proper.ahead.2
      (by rintro _ ⟨⟩; rfl) (by rintro _ ⟨⟩; rfl) source
    exact ⟨ahead.symm, (List.append_cancel_right (List.append_cancel_left rest)).symm⟩
  obtain ⟨_, _, _, _, _, _, _⟩ := writing
  obtain ⟨_, _, _, _, _, _, _⟩ := other
  simp_all

/-! ### Reserved names -/

theorem isReserved_iff {name : List Char} : isReserved name = true ↔
    ∃ x : Binary64, Decimal.literal? name = some x ∧ x.isFinite = true := by
  rw [isReserved, Option.isSome_iff_exists]
  constructor
  · rintro ⟨x, read⟩
    exact ⟨x, read, Decimal.isFinite_of_literal? read⟩
  · rintro ⟨x, read, _⟩
    exact ⟨x, read⟩

theorem reserved_iff (writing : Writing) : writing.Reserved ↔
    (isReserved writing.item || (writing.index.map IndexWriting.name).any isReserved ||
      isReserved (writing.path.takeWhile (· != '.'))) = true := by
  simp only [Reserved, ← isReserved_iff, names]
  cases writing.index with
  | none => simp
  | some index => simp [or_assoc]

/-- What is written properly is read as it is meant, unless one of its names is reserved. -/
theorem Proper.parse_eq (proper : writing.Proper) {params : String}
    (written : writing.chars = params.toList) :
    (writing.Reserved → parse params = .error (.reservedName params)) ∧
      (¬ writing.Reserved → parse params = .ok writing.loop) := by
  have shaped : shape? (Text.trim params.toList) =
      some (writing.item, writing.index.map IndexWriting.name, writing.path) := by
    rw [← written, proper.trim_chars, proper.shape?_inner]
  simp only [parse, shaped]
  constructor
  · intro reserved
    rw [if_pos ((reserved_iff writing).1 reserved)]
  · intro free
    rw [if_neg (mt (reserved_iff writing).2 free), Option.map_map]
    rfl

/-- What is not written properly has no form that could be read. -/
theorem parse_of_not_exists {params : String}
    (improper : ¬ ∃ writing : Writing, writing.Proper ∧ writing.chars = params.toList) :
    parse params = .error (.invalidParams "for" params) := by
  simp only [parse]
  split
  · rfl
  · rename_i shaped
    obtain ⟨before, after, leading, trailing, split⟩ := Text.exists_padded params.toList
    rw [split] at improper
    exact absurd (exists_of_shape? shaped leading trailing) improper

/-- Parameters are written properly without a name that is reserved, or with one, or not at all. -/
theorem parse_cases (params : String) :
    (∃ writing : Writing, writing.Proper ∧ writing.chars = params.toList ∧ ¬ writing.Reserved ∧
      parse params = .ok writing.loop) ∨
    (∃ writing : Writing, writing.Proper ∧ writing.chars = params.toList ∧ writing.Reserved ∧
      parse params = .error (.reservedName params)) ∨
    (¬ ∃ writing : Writing, writing.Proper ∧ writing.chars = params.toList) ∧
      parse params = .error (.invalidParams "for" params) := by
  by_cases written : ∃ writing : Writing, writing.Proper ∧ writing.chars = params.toList
  · obtain ⟨writing, proper, written⟩ := written
    obtain ⟨bad, good⟩ := proper.parse_eq written
    by_cases reserved : writing.Reserved
    · exact .inr (.inl ⟨writing, proper, written, reserved, bad reserved⟩)
    · exact .inl ⟨writing, proper, written, reserved, good reserved⟩
  · exact .inr (.inr ⟨written, parse_of_not_exists written⟩)

theorem parse_eq_ok_iff {params : String} {spec : Loop} : parse params = .ok spec ↔
    ∃ writing : Writing, writing.Proper ∧ writing.chars = params.toList ∧ ¬ writing.Reserved ∧
      writing.loop = spec := by
  constructor
  · intro parsed
    rcases parse_cases params with
      ⟨writing, proper, written, free, result⟩ | ⟨_, _, _, _, result⟩ | ⟨_, result⟩
    · rw [result] at parsed
      cases parsed
      exact ⟨writing, proper, written, free, rfl⟩
    all_goals
      rw [result] at parsed
      cases parsed
  · rintro ⟨writing, proper, written, free, rfl⟩
    exact (proper.parse_eq written).2 free

theorem parse_eq_reservedName_iff {params : String} :
    parse params = .error (.reservedName params) ↔
      ∃ writing : Writing, writing.Proper ∧ writing.chars = params.toList ∧ writing.Reserved := by
  constructor
  · intro parsed
    rcases parse_cases params with
      ⟨_, _, _, _, result⟩ | ⟨writing, proper, written, reserved, _⟩ | ⟨_, result⟩
    · rw [result] at parsed
      cases parsed
    · exact ⟨writing, proper, written, reserved⟩
    · rw [result] at parsed
      cases parsed
  · rintro ⟨writing, proper, written, reserved⟩
    exact (proper.parse_eq written).1 reserved

theorem parse_eq_invalidParams_iff {params : String} :
    parse params = .error (.invalidParams "for" params) ↔
      ¬ ∃ writing : Writing, writing.Proper ∧ writing.chars = params.toList := by
  constructor
  · intro parsed
    rcases parse_cases params with
      ⟨_, _, _, _, result⟩ | ⟨_, _, _, _, result⟩ | ⟨improper, _⟩
    · rw [result] at parsed
      cases parsed
    · rw [result] at parsed
      cases parsed
    · exact improper
  · exact parse_of_not_exists

/-! ### The names of a loop as operands -/

/-- The item, the index if there is one, and the path, as they are written. -/
def texts (writing : Writing) : List (List Char) :=
  writing.item :: (writing.index.map IndexWriting.name).toList ++ [writing.path]

theorem loop_texts (writing : Writing) :
    writing.loop.item :: writing.loop.index.toList ++ [writing.loop.path] =
      writing.texts.map String.ofList := by
  cases further : writing.index <;> simp [loop, texts, further]

/-- The names of a loop that is read, and its path, do not read as numbers. -/
theorem Proper.literal?_eq_none (proper : writing.Proper) (free : ¬ writing.Reserved) :
    ∀ text ∈ writing.texts, Path.IsPath text ∧ Decimal.literal? text = none := by
  have unread : ∀ name ∈ writing.names, Decimal.literal? name = none := by
    intro name member
    cases read : Decimal.literal? name with
    | none => rfl
    | some x => exact absurd ⟨name, member, x, read, Decimal.isFinite_of_literal? read⟩ free
  intro text member
  rcases List.mem_append.1 member with front | back
  · constructor
    · rcases List.mem_cons.1 front with rfl | index
      · exact .name proper.item
      · obtain ⟨written, known, rfl⟩ := Option.map_eq_some_iff.1 (Option.mem_toList.1 index)
        exact .name (proper.index written known).isName
    · exact unread text (List.mem_append_left _ front)
  · cases List.mem_singleton.1 back
    exact ⟨proper.path,
      Decimal.literal?_of_isPath proper.path (unread _ (List.mem_append_right _ (by simp)))⟩

end Writing

end Loop

/-- A path that does not read as a number is a condition of its own, and is a path in it. -/
theorem Condition.parse?_of_isPath {text : List Char} (isPath : Path.IsPath text)
    (unread : Decimal.literal? text = none) :
    parse? (String.ofList text) = some ⟨.path (String.ofList text), none⟩ := by
  let writing : Writing := ⟨[], text, none, []⟩
  have proper : writing.Proper := ⟨Text.blanks_nil, isPath, nofun, Text.blanks_nil⟩
  have operand : Operand.ofText text = .path (String.ofList text) :=
    (Operand.denotes_iff.1 (.path unread)).symm
  have chars : writing.chars = text := by simp [writing, Writing.chars, Writing.inner]
  have read := proper.parse?_chars
  rw [chars, Writing.condition, operand] at read
  exact read

/-- The item, the index and the path of a loop are paths wherever a condition uses them. -/
theorem Loop.operand_of_parse {params : String} {spec : Loop} (parsed : parse params = .ok spec) :
    ∀ name ∈ spec.item :: spec.index.toList ++ [spec.path],
      Operand.ofText name.toList = .path name ∧
        Condition.parse? name = some ⟨.path name, none⟩ := by
  obtain ⟨writing, proper, _, free, rfl⟩ := Writing.parse_eq_ok_iff.1 parsed
  intro name member
  rw [writing.loop_texts] at member
  obtain ⟨text, known, rfl⟩ := List.mem_map.1 member
  obtain ⟨isPath, unread⟩ := proper.literal?_eq_none free text known
  rw [String.toList_ofList]
  exact ⟨(Operand.denotes_iff.1 (.path unread)).symm, Condition.parse?_of_isPath isPath unread⟩

/-- Parameters state a loop exactly if they are written properly and none of the names that count is
a number, and they state the loop that is written. If one is a number, that is what is found fault
with, and otherwise that they do not state a loop at all. No parameters have been written in two
ways. Whatever a condition uses of a loop, its item, its index or its path, is a path there. -/
theorem loop_grammar (params : String) :
    (∀ spec, Loop.parse params = .ok spec ↔
      ∃ writing : Loop.Writing, writing.Proper ∧ writing.chars = params.toList ∧
        ¬ writing.Reserved ∧ writing.loop = spec) ∧
    (Loop.parse params = .error (.reservedName params) ↔
      ∃ writing : Loop.Writing, writing.Proper ∧ writing.chars = params.toList ∧
        writing.Reserved) ∧
    (Loop.parse params = .error (.invalidParams "for" params) ↔
      ¬ ∃ writing : Loop.Writing, writing.Proper ∧ writing.chars = params.toList) ∧
    (∀ writing other : Loop.Writing, writing.Proper → other.Proper →
      writing.chars = params.toList → other.chars = params.toList → writing = other) ∧
    ∀ spec, Loop.parse params = .ok spec →
      ∀ name ∈ spec.item :: spec.index.toList ++ [spec.path],
        Operand.ofText name.toList = .path name ∧
          Condition.parse? name = some ⟨.path name, none⟩ := by
  refine ⟨?_, ?_, ?_, ?_, ?_⟩
  · exact fun spec => Loop.Writing.parse_eq_ok_iff
  · exact Loop.Writing.parse_eq_reservedName_iff
  · exact Loop.Writing.parse_eq_invalidParams_iff
  · intro writing other proper proper' written written'
    exact proper.unique proper' (written.trans written'.symm)
  · exact fun spec => Loop.operand_of_parse

example : Loop.parse "in , in\t in in.in" = .ok ⟨"in", some "in", "in.in"⟩ := by decide +kernel
example : Loop.parse "x in 1e3.y" = .error (.reservedName "x in 1e3.y") := by decide +kernel

end Quire
