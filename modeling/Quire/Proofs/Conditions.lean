/-
Module: Quire.Proofs.Conditions
Purpose: Which texts state a condition, and that none of them can be read in two ways.
Main exports: Operand.Denotes, Condition.Sequel, Condition.Writing, Condition.Writing.Proper,
  Condition.parse?_of_proper, Condition.exists_writing, Condition.Writing.unique,
  condition_grammar
-/
import Quire.Condition
import Quire.Proofs.Paths

/-!
A condition is written as an operand, or as two operands with an operator between them, with blanks
in any of the gaps. The grammar is told by the parts of such a text, and not by how they are found.
Every part can be recovered from the whole: what comes before the left operand and after the last
one are the blanks at the two ends, a path ends where no path can go on, and no operator is in front
of another one with an operand directly behind it.
-/

namespace Quire

/-! ### Operands -/

/-- What an operand as it is written stands for: the finite number that it reads as, and the path it
spells if it reads as none. -/
inductive Operand.Denotes (text : List Char) : Operand → Prop where
  | number {x : Binary64} (reads : Decimal.literal? text = some x) (finite : x.isFinite = true) :
      Denotes text (.number x)
  | path (unread : Decimal.literal? text = none) : Denotes text (.path (String.ofList text))

theorem Decimal.isFinite_of_literal? {text : List Char} {x : Binary64}
    (reads : literal? text = some x) : x.isFinite = true := by
  simp only [literal?, Option.bind_eq_bind, Option.bind_eq_some_iff] at reads
  obtain ⟨_, _, reads⟩ := reads
  split at reads
  · exact nomatch reads
  · split at reads
    · rename_i finite
      cases reads
      exact finite
    · exact nomatch reads

theorem Operand.denotes_iff {text : List Char} {operand : Operand} :
    Denotes text operand ↔ operand = .ofText text := by
  constructor
  · rintro (⟨reads, _⟩ | unread)
    · simp only [ofText, reads]
    · simp only [ofText, unread]
  · rintro rfl
    cases reads : Decimal.literal? text with
    | none => simpa only [ofText, reads] using Denotes.path reads
    | some x =>
        have finite := Decimal.isFinite_of_literal? reads
        simpa only [ofText, reads] using Denotes.number reads finite

/-! ### Operators -/

namespace Operator

/-- An operator of punctuation is in front exactly if its symbol is, and no longer symbol. -/
theorem scanSymbol?_eq_some_iff {cs rest : List Char} {operator : Operator} :
    scanSymbol? cs = some (operator, rest) ↔ operator ≠ .within ∧
      cs = operator.symbol.toList ++ rest ∧
        (operator = .less ∨ operator = .greater → rest.head? ≠ some '=') := by
  constructor
  · intro scanned
    simp only [scanSymbol?] at scanned
    split at scanned <;> cases scanned
    -- the shorter symbols are tried when the longer ones have not matched
    case h_5 unlike | h_6 unlike =>
      refine ⟨nofun, rfl, fun _ => ?_⟩
      cases rest <;> simp_all
    all_goals exact ⟨nofun, rfl, by simp⟩
  · rintro ⟨other, rfl, shorter⟩
    cases operator with
    | within => exact absurd rfl other
    | equal | unequal | atMost | atLeast => rfl
    | less | greater =>
        have alone := shorter (by simp)
        simp only [symbol, scanSymbol?]
        split <;> simp_all

theorem symbol_ne_nil (operator : Operator) : operator.symbol.toList ≠ [] := by
  cases operator <;> exact List.cons_ne_nil _ _

theorem flushLeft_symbol (operator : Operator) : Text.FlushLeft operator.symbol.toList := by
  cases operator <;> rintro _ ⟨⟩ <;> rfl

/-- Punctuation ends a path in front of it. -/
theorem stops_symbol {operator : Operator} (other : operator ≠ .within) (rest : List Char) :
    Path.Stops (operator.symbol.toList ++ rest) := by
  cases operator with
  | within => exact absurd rfl other
  | equal | unequal | less | greater | atMost | atLeast =>
      apply Path.stops_cons
      · rfl
      · decide

end Operator

namespace Condition

/-! ### What is written behind the left operand -/

/-- An operator and the right operand as they are written, with what stands on either side of the
operator. -/
structure Sequel where
  before : List Char
  operator : Operator
  after : List Char
  right : List Char

namespace Sequel

/-- The characters of a sequel. -/
def chars (sequel : Sequel) : List Char :=
  sequel.before ++ (sequel.operator.symbol.toList ++ (sequel.after ++ sequel.right))

/-- Only blanks stand beside the operator, and beside the word `in` there must be some. The operand
has the form of a path, which numbers have as well. -/
structure Proper (sequel : Sequel) : Prop where
  before : Text.Blanks sequel.before
  after : Text.Blanks sequel.after
  apart : sequel.operator = .within → sequel.before ≠ [] ∧ sequel.after ≠ []
  right : Path.IsPath sequel.right

variable {sequel other : Sequel}

theorem flushLeft_symbol (sequel : Sequel) :
    Text.FlushLeft (sequel.operator.symbol.toList ++ (sequel.after ++ sequel.right)) :=
  sequel.operator.flushLeft_symbol.append sequel.operator.symbol_ne_nil _

theorem Proper.ne_nil (proper : sequel.Proper) : sequel.chars ≠ [] := by
  simp [chars, proper.right.ne_nil]

theorem Proper.flushRight (proper : sequel.Proper) : Text.FlushRight sequel.chars := by
  have last := proper.right.flushRight.prepend proper.right.ne_nil
    (sequel.before ++ sequel.operator.symbol.toList ++ sequel.after)
  simpa only [chars, List.append_assoc] using last

/-- No path in front of a sequel goes on into it. -/
theorem Proper.stops (proper : sequel.Proper) : Path.Stops sequel.chars := by
  obtain ⟨before, operator, after, right⟩ := sequel
  cases before with
  | nil => exact Operator.stops_symbol (fun within => (proper.apart within).1 rfl) _
  | cons c before =>
      have blank : Text.isBlank c = true := proper.before c List.mem_cons_self
      apply Path.stops_cons
      · by_contra word
        rw [Text.isBlank_of_isWord (by simpa using word)] at blank
        exact nomatch blank
      · rintro rfl
        exact nomatch blank

/-- What comes behind an operator does not make its symbol a longer one. -/
theorem Proper.head?_ne (proper : sequel.Proper) :
    (sequel.after ++ sequel.right).head? ≠ some '=' := by
  intro first
  cases filled : sequel.after with
  | nil =>
      have word := proper.right.startsWithWord
      cases spelled : sequel.right with
      | nil => simp [filled, spelled] at first
      | cons c right =>
          rw [filled, spelled] at first
          cases first
          rw [spelled] at word
          exact nomatch word
  | cons c after =>
      rw [filled] at first
      cases first
      have blank := proper.after '=' (by rw [filled]; exact List.mem_cons_self)
      exact nomatch blank

/-- The operator and the right operand are found in a sequel. -/
theorem Proper.scan?_chars (proper : sequel.Proper) :
    Operator.scan? sequel.chars = some (sequel.operator, sequel.right) := by
  have flush := proper.right.flushLeft
  have trimmed : Text.trimStart sequel.chars =
      sequel.operator.symbol.toList ++ (sequel.after ++ sequel.right) := by
    rw [chars, Text.trimStart_append proper.before,
      Text.trimStart_of_flushLeft sequel.flushLeft_symbol]
  by_cases word : sequel.operator = .within
  · obtain ⟨before, after⟩ := proper.apart word
    have noSymbol : Operator.scanSymbol? (Text.trimStart sequel.chars) = none := by
      rw [trimmed, word]
      rfl
    have found : Path.afterIn? sequel.chars = some sequel.right :=
      Path.afterIn?_eq_some_iff.2 ⟨sequel.before, sequel.after, ⟨before, proper.before⟩,
        ⟨after, proper.after⟩, flush, by rw [chars, word]; simp [Operator.symbol]⟩
    simp only [Operator.scan?, noSymbol, found, Option.map_some, word]
  · have symbol : Operator.scanSymbol? (Text.trimStart sequel.chars) =
        some (sequel.operator, sequel.after ++ sequel.right) :=
      Operator.scanSymbol?_eq_some_iff.2 ⟨word, trimmed, fun _ => proper.head?_ne⟩
    simp only [Operator.scan?, symbol, Text.trimStart_append proper.after,
      Text.trimStart_of_flushLeft flush]

/-- Where an operator is found in front of a path, they are a sequel. -/
theorem exists_of_scan? {cs right : List Char} {operator : Operator}
    (scanned : Operator.scan? cs = some (operator, right)) (isPath : Path.IsPath right) :
    ∃ sequel : Sequel, sequel.Proper ∧ sequel.chars = cs ∧ sequel.operator = operator ∧
      sequel.right = right := by
  simp only [Operator.scan?] at scanned
  split at scanned
  · rename_i _ rest symbol
    cases scanned
    obtain ⟨other, front, _⟩ := Operator.scanSymbol?_eq_some_iff.1 symbol
    obtain ⟨before, leading, split⟩ := Text.exists_pad_trimStart cs
    obtain ⟨after, trailing, back⟩ := Text.exists_pad_trimStart rest
    refine ⟨⟨before, operator, after, Text.trimStart rest⟩,
      ⟨leading, trailing, (absurd · other), isPath⟩, ?_, rfl, rfl⟩
    rw [chars, ← back, ← front, ← split]
  · obtain ⟨rest, found, same⟩ := Option.map_eq_some_iff.1 scanned
    cases same
    obtain ⟨before, after, ⟨some, leading⟩, ⟨some', trailing⟩, _, rfl⟩ :=
      Path.afterIn?_eq_some_iff.1 found
    refine ⟨⟨before, .within, after, right⟩,
      ⟨leading, trailing, fun _ => ⟨some, some'⟩, isPath⟩, ?_, rfl, rfl⟩
    simp [chars, Operator.symbol]

/-- The parts of a sequel can be told from its characters. -/
theorem Proper.unique (proper : sequel.Proper) (proper' : other.Proper)
    (same : sequel.chars = other.chars) : sequel = other := by
  have scanned := proper.scan?_chars
  rw [same, proper'.scan?_chars, Option.some.injEq, Prod.mk.injEq] at scanned
  obtain ⟨operator, right⟩ := scanned
  obtain ⟨before, behind⟩ := Text.blanks_append_inj proper.before proper'.before
    sequel.flushLeft_symbol other.flushLeft_symbol same
  rw [operator, right] at behind
  have after := List.append_cancel_right (List.append_cancel_left behind)
  obtain ⟨_, _, _, _⟩ := sequel
  obtain ⟨_, _, _, _⟩ := other
  simp_all

end Sequel

/-! ### Conditions as they are written -/

/-- A condition as it is written: its left operand, what stands before it, the sequel if there is
one, and what stands after all. -/
structure Writing where
  before : List Char
  left : List Char
  sequel : Option Sequel
  after : List Char

namespace Writing

/-- The characters from the left operand to the last one. -/
def inner (writing : Writing) : List Char :=
  writing.left ++ writing.sequel.elim [] Sequel.chars

/-- The characters of a condition. -/
def chars (writing : Writing) : List Char :=
  writing.before ++ writing.inner ++ writing.after

/-- There is nothing but blanks around the condition, and its parts have their forms. -/
structure Proper (writing : Writing) : Prop where
  before : Text.Blanks writing.before
  left : Path.IsPath writing.left
  sequel : ∀ sequel ∈ writing.sequel, sequel.Proper
  after : Text.Blanks writing.after

/-- The condition that is written has the same operator, and its operands are those that the written
ones stand for. -/
structure States (writing : Writing) (condition : Condition) : Prop where
  left : Operand.Denotes writing.left condition.left
  comparison : Option.Rel (fun sequel comparison =>
    comparison.1 = sequel.operator ∧ Operand.Denotes sequel.right comparison.2)
    writing.sequel condition.comparison

/-- The condition that is written. -/
def condition (writing : Writing) : Condition :=
  ⟨.ofText writing.left,
    writing.sequel.map fun sequel => (sequel.operator, .ofText sequel.right)⟩

theorem states_condition (writing : Writing) : writing.States writing.condition := by
  obtain ⟨before, left, sequel, after⟩ := writing
  refine ⟨Operand.denotes_iff.2 rfl, ?_⟩
  cases sequel with
  | none => exact .none
  | some sequel => exact .some ⟨rfl, Operand.denotes_iff.2 rfl⟩

variable {writing other : Writing}

theorem Proper.inner_ne_nil (proper : writing.Proper) : writing.inner ≠ [] := by
  simp [inner, proper.left.ne_nil]

theorem Proper.flushLeft (proper : writing.Proper) : Text.FlushLeft writing.inner :=
  proper.left.flushLeft.append proper.left.ne_nil _

theorem Proper.flushRight (proper : writing.Proper) : Text.FlushRight writing.inner := by
  obtain ⟨before, left, sequel, after⟩ := writing
  cases sequel with
  | none => simpa [inner] using proper.left.flushRight
  | some sequel =>
      have further := proper.sequel sequel rfl
      exact further.flushRight.prepend further.ne_nil left

theorem Proper.trim_chars (proper : writing.Proper) : Text.trim writing.chars = writing.inner :=
  Text.trim_padded proper.before proper.after proper.flushLeft proper.flushRight

/-- The left operand is found in a condition, and what is left is the sequel. -/
theorem Proper.scan?_inner (proper : writing.Proper) :
    Path.scan? writing.inner = some (writing.left, writing.sequel.elim [] Sequel.chars) := by
  refine Path.scan?_eq_some_iff.2 ⟨proper.left, ?_, rfl⟩
  cases further : writing.sequel with
  | none => exact Path.stops_nil
  | some sequel => exact (proper.sequel sequel further).stops

/-- What is written properly is read as it is meant. -/
theorem Proper.parse?_chars (proper : writing.Proper) :
    parse? (String.ofList writing.chars) = some writing.condition := by
  have scanned := proper.scan?_inner
  simp only [parse?, String.toList_ofList, proper.trim_chars, scanned, Option.bind_eq_bind,
    Option.bind_some]
  cases further : writing.sequel with
  | none => simp [condition, further]
  | some sequel =>
      have proper := proper.sequel sequel further
      have taken : Path.whole? sequel.right = some sequel.right :=
        Path.whole?_eq_some_iff.2 ⟨proper.right, rfl⟩
      simp [condition, further, proper.ne_nil, proper.scan?_chars, taken]

/-- Whatever is read has been written properly. -/
theorem exists_of_parse? {text : String} {stated : Condition} (parsed : parse? text = some stated) :
    ∃ writing : Writing, writing.Proper ∧ writing.chars = text.toList ∧
      writing.condition = stated := by
  obtain ⟨before, after, leading, trailing, split⟩ := Text.exists_padded text.toList
  simp only [parse?, Option.bind_eq_bind, Option.bind_eq_some_iff, Prod.exists] at parsed
  obtain ⟨left, rest, scanned, parsed⟩ := parsed
  obtain ⟨isPath, _, inner⟩ := Path.scan?_eq_some_iff.1 scanned
  by_cases single : rest = []
  · rw [if_pos single] at parsed
    cases parsed
    refine ⟨⟨before, left, none, after⟩, ⟨leading, isPath, nofun, trailing⟩, ?_, rfl⟩
    rw [split, inner, single]
    rfl
  · rw [if_neg single] at parsed
    obtain ⟨operator, behind, found, right, taken, done⟩ := by
      simpa only [Option.bind_eq_bind, Option.bind_eq_some_iff, Prod.exists] using parsed
    cases done
    obtain ⟨isPath', rfl⟩ := Path.whole?_eq_some_iff.1 taken
    obtain ⟨sequel, proper, rfl, rfl, rfl⟩ := Sequel.exists_of_scan? found isPath'
    refine ⟨⟨before, left, some sequel, after⟩, ⟨leading, isPath, ?_, trailing⟩, ?_, rfl⟩
    · rintro _ ⟨⟩
      exact proper
    · rw [split, inner]
      rfl

/-- The parts of a condition can be told from its characters. -/
theorem Proper.unique (proper : writing.Proper) (proper' : other.Proper)
    (same : writing.chars = other.chars) : writing = other := by
  obtain ⟨before, inner, after⟩ := Text.padded_inj proper.inner_ne_nil proper.before proper.after
    proper.flushLeft proper.flushRight proper'.before proper'.after proper'.flushLeft
    proper'.flushRight same
  have scanned := proper.scan?_inner
  rw [inner, proper'.scan?_inner, Option.some.injEq, Prod.mk.injEq] at scanned
  obtain ⟨left, rest⟩ := scanned
  have sequel : writing.sequel = other.sequel := by
    cases here : writing.sequel with
    | none =>
        cases there : other.sequel with
        | none => rfl
        | some sequel =>
            rw [here, there] at rest
            exact absurd rest (proper'.sequel sequel there).ne_nil
    | some sequel =>
        have proper := proper.sequel sequel here
        cases there : other.sequel with
        | none =>
            rw [here, there] at rest
            exact absurd rest.symm proper.ne_nil
        | some sequel' =>
            rw [here, there] at rest
            rw [proper.unique (proper'.sequel sequel' there) rest.symm]
  obtain ⟨_, _, _, _⟩ := writing
  obtain ⟨_, _, _, _⟩ := other
  simp_all

end Writing

/-- The conditions are exactly the texts that are written properly. Each way of writing one is read
with its own operator and with the operands that it names, whatever blanks there are; a text that is
read has been written so; and no text has been written in two ways. -/
theorem condition_grammar :
    (∀ writing : Writing, writing.Proper →
      ∃ condition, parse? (String.ofList writing.chars) = some condition ∧
        writing.States condition) ∧
    (∀ text condition, parse? text = some condition →
      ∃ writing : Writing, writing.Proper ∧ writing.chars = text.toList ∧
        writing.States condition) ∧
    ∀ writing other : Writing, writing.Proper → other.Proper → writing.chars = other.chars →
      writing = other := by
  refine ⟨?_, ?_, ?_⟩
  · intro writing proper
    exact ⟨writing.condition, proper.parse?_chars, writing.states_condition⟩
  · intro text condition parsed
    obtain ⟨writing, proper, chars, rfl⟩ := Writing.exists_of_parse? parsed
    exact ⟨writing, proper, chars, writing.states_condition⟩
  · intro writing other proper proper'
    exact proper.unique proper'

/-- A condition in which `in` is the name of both operands and the operator between them. -/
def nameWithinItself : Writing :=
  ⟨[], ['i', 'n'], some ⟨[' '], .within, ['\t', ' '], ['i', 'n']⟩, ['\n']⟩

theorem name_within_itself_read :
    (∃ condition, parse? "in in\t in\n" = some condition ∧
      nameWithinItself.States condition ∧
      condition = ⟨.path "in", some (.within, .path "in")⟩) ∧
    ∀ other : Writing, other.Proper → other.chars = "in in\t in\n".toList →
      other = nameWithinItself := by
  have isPath : Path.IsPath ['i', 'n'] := (Path.whole?_eq_some_iff.1 rfl).1
  have proper : nameWithinItself.Proper := by
    refine ⟨Text.blanks_nil, isPath, ?_, ?_⟩
    · rintro _ ⟨⟩
      exact ⟨by decide, by decide, fun _ => ⟨List.cons_ne_nil _ _, List.cons_ne_nil _ _⟩, isPath⟩
    · decide
  obtain ⟨read, _, unique⟩ := condition_grammar
  obtain ⟨condition, parsed, states⟩ := read nameWithinItself proper
  have known : parse? (String.ofList nameWithinItself.chars) =
      some ⟨.path "in", some (.within, .path "in")⟩ := by decide +kernel
  refine ⟨⟨condition, parsed, states, ?_⟩, fun other written same => ?_⟩
  · exact Option.some.inj (parsed.symm.trans known)
  · exact unique other nameWithinItself written proper same

end Condition

end Quire
