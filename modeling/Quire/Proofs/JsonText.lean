/-
Module: Quire.Proofs.JsonText
Purpose: A document that is written is read back as it was.
Main exports: Json.induction, Numeral.Proper, Json.Proper, Json.spell?_escape,
  Json.string?_quoted, Json.numeral?_render, Json.Proper.value?_render, Json.read?_render
-/
import Mathlib.Tactic.SplitIfs
import Quire.Json.Reader
import Quire.Proofs.Digits

/-!
Everything that is written says by itself where it ends, except a number, which goes on as long as
digits, a point or an exponent follow. In a document a comma, a bracket or the end comes after it.
The readers of values call themselves on what is left of the text and count their steps, at most two
for each character, one for the value and one for its place among others.
-/

namespace Quire

namespace Json

/-! ### Documents by their parts -/

theorem sizeOf_item_lt {items : List Json} {item : Json} (member : item ∈ items) :
    sizeOf item < sizeOf (Json.array items) := by
  have smaller := List.sizeOf_lt_of_mem member
  simp only [Json.array.sizeOf_spec]
  omega

theorem sizeOf_member_lt {members : List (JsonText × Json)} {entry : JsonText × Json}
    (member : entry ∈ members) : sizeOf entry.2 < sizeOf (Json.object members) := by
  have smaller := List.sizeOf_lt_of_mem member
  obtain ⟨name, json⟩ := entry
  simp only [Json.object.sizeOf_spec, Prod.mk.sizeOf_spec] at smaller ⊢
  omega

/-- What holds of every document that has no parts, and of arrays and objects if it holds of their
items and members, holds of every document. -/
theorem induction {motive : Json → Prop} (null : motive .null) (bool : ∀ b, motive (.bool b))
    (number : ∀ numeral, motive (.number numeral)) (string : ∀ text, motive (.string text))
    (array : ∀ items, (∀ item ∈ items, motive item) → motive (.array items))
    (object : ∀ members, (∀ entry ∈ members, motive entry.2) → motive (.object members)) :
    ∀ json, motive json
  | .null => null
  | .bool b => bool b
  | .number numeral => number numeral
  | .string text => string text
  | .array items => array items fun item _ =>
      induction null bool number string array object item
  | .object members => object members fun entry _ =>
      induction null bool number string array object entry.2
termination_by json => sizeOf json
decreasing_by
  · exact sizeOf_item_lt ‹_›
  · exact sizeOf_member_lt ‹_›

/-! ### Strings -/

theorem hexValue?_hexDigit : ∀ n < 16, hexValue? (hexDigit n) = some n := by
  decide

/-- A letter after a backslash stands for its character. -/
theorem spell?_letter {letter c : Char} (known : unescape? letter = some c) (other : letter ≠ 'u')
    (rest : List Char) : spell? ('\\' :: letter :: rest) =
      (spell? rest).map fun (others, after) => (.char c :: others, after) := by
  rw [spell?.eq_def]
  split
  · rename_i same
    cases same
  · rename_i same
    cases same
  · rename_i same
    cases same
    exact absurd rfl other
  · rename_i same
    cases same
    rw [known]
    cases spell? rest <;> rfl
  · rename_i none same
    cases same
    exact (none letter rest rfl rfl).elim

/-- An escaped character is spelled by its escape, and any other by itself. -/
theorem spell?_escape (c : Char) (rest : List Char) : spell? (escape c ++ rest) =
    (spell? rest).map fun (others, after) => (.char c :: others, after) := by
  unfold escape
  split_ifs with quote backslash backspace feed line carriage tab control
  · subst quote
    exact spell?_letter rfl (by decide) rest
  · subst backslash
    exact spell?_letter rfl (by decide) rest
  · apply spell?_letter _ (by decide) rest
    rw [← Char.ofNat_toNat c, backspace]
    rfl
  · apply spell?_letter _ (by decide) rest
    rw [← Char.ofNat_toNat c, feed]
    rfl
  · subst line
    exact spell?_letter rfl (by decide) rest
  · subst carriage
    exact spell?_letter rfl (by decide) rest
  · subst tab
    exact spell?_letter rfl (by decide) rest
  · have high := hexValue?_hexDigit (c.toNat / 16) (by omega)
    have low := hexValue?_hexDigit (c.toNat % 16) (by omega)
    have zero : hexValue? '0' = some 0 := by decide
    have code : (0 * 16 + 0) * 256 + (c.toNat / 16 * 16 + c.toNat % 16) = c.toNat := by omega
    have known : Spelled.ofCode c.toNat = .char c := by
      rw [Spelled.ofCode, if_neg (by omega), if_neg (by omega), Char.ofNat_toNat]
    simp only [List.cons_append, List.nil_append, spell?, zero, high, low, Option.bind_eq_bind,
      Option.bind_some, code, known]
    cases spell? rest <;> rfl
  · have plain : ¬ (c = '\\' ∨ c.toNat < 0x20) := not_or.2 ⟨backslash, control⟩
    rw [List.singleton_append, spell?.eq_def]
    split
    · rename_i same
      cases same
    · rename_i same
      cases same
      exact absurd rfl quote
    · rename_i same
      cases same
      exact absurd rfl backslash
    · rename_i same
      cases same
      exact absurd rfl backslash
    · rename_i same
      cases same
      rw [if_neg plain]
      cases spell? rest <;> rfl

/-- The characters of a text, up to the quote that closes it, are spelled as they are. -/
theorem spell?_escaped (cs rest : List Char) :
    spell? (cs.flatMap escape ++ '"' :: rest) = some (cs.map .char, rest) := by
  induction cs with
  | nil => rfl
  | cons c cs ih =>
      rw [List.flatMap_cons, List.append_assoc, spell?_escape, ih]
      rfl

theorem Spelled.text?_map_char (cs : List Char) : text? (cs.map .char) = some cs := by
  induction cs with
  | nil => rfl
  | cons c cs ih => simp [text?, ih]

/-- The text of a string, behind the quote that opens it, is read back. -/
theorem string?_escaped (text : String) (rest : List Char) :
    string? (text.toList.flatMap escape ++ '"' :: rest) = some (some text, rest) := by
  simp [string?, spell?_escaped, Spelled.text?_map_char]

/-- The characters of a text between quotes. -/
theorem toList_quoted (text : String) (rest : List Char) :
    (quoted text).toList ++ rest = '"' :: (text.toList.flatMap escape ++ '"' :: rest) := by
  simp [quoted]

/-! ### Numbers -/

/-- At least one digit, and nothing else. -/
structure Digits (cs : List Char) : Prop where
  some : cs ≠ []
  digit : ∀ c ∈ cs, c.isDigit = true

/-- The characters do not go on with a number in front of them. -/
def Ends (rest : List Char) : Prop :=
  ∀ c ∈ rest.head?, c.isDigit = false ∧ c ≠ '.' ∧ c ≠ 'e' ∧ c ≠ 'E'

theorem digits?_append {cs rest : List Char} (digits : Digits cs)
    (stop : ∀ c ∈ rest.head?, c.isDigit = false) : digits? (cs ++ rest) = some (cs, rest) := by
  have run := Decimal.digitRun_append digits.digit stop
  rw [Decimal.digitRun, Prod.mk.injEq] at run
  simp only [digits?, run, if_neg digits.some]

end Json

/-- The digits of a number before its point are more than one only if they do not begin with a zero,
and there is at least one digit wherever there may be digits. -/
structure Numeral.Proper (numeral : Numeral) : Prop where
  whole : Json.Digits numeral.whole
  first : numeral.whole.head? = some '0' → numeral.whole.length ≤ 1
  fraction : ∀ digits ∈ numeral.fraction, Json.Digits digits
  exponent : ∀ stated ∈ numeral.exponent, Json.Digits stated.2

namespace Json

/-- The characters of the fraction of a number. -/
def fractionChars : Option (List Char) → List Char
  | none => []
  | some digits => '.' :: digits

/-- The characters of the exponent of a number. -/
def exponentChars : Option (Bool × List Char) → List Char
  | none => []
  | some (negative, digits) => 'e' :: ((if negative then ['-'] else []) ++ digits)

theorem toList_render (numeral : Numeral) : numeral.render.toList =
    (if numeral.negative then ['-'] else []) ++ (numeral.whole ++
      (fractionChars numeral.fraction ++ exponentChars numeral.exponent)) := by
  obtain ⟨negative, whole, fraction, exponent⟩ := numeral
  have sign : ∀ negative,
      (Numeral.renderSign negative).toList = if negative then ['-'] else [] := by
    rintro (_ | _) <;> rfl
  cases fraction <;> cases exponent <;>
    simp [Numeral.render, fractionChars, exponentChars, sign]

theorem fraction?_append {fraction : Option (List Char)} {rest : List Char}
    (digits : ∀ digits ∈ fraction, Digits digits)
    (stop : ∀ c ∈ rest.head?, c.isDigit = false ∧ c ≠ '.') :
    fraction? (fractionChars fraction ++ rest) = some (fraction, rest) := by
  cases fraction with
  | none =>
      rw [fractionChars, List.nil_append]
      unfold fraction?
      split
      · exact absurd rfl (stop '.' rfl).2
      · rfl
  | some written =>
      have taken := digits?_append (digits written rfl) fun c first => (stop c first).1
      simp [fractionChars, fraction?, taken]

theorem exponent?_append {exponent : Option (Bool × List Char)} {rest : List Char}
    (digits : ∀ stated ∈ exponent, Digits stated.2) (ends : Ends rest) :
    exponent? (exponentChars exponent ++ rest) = some (exponent, rest) := by
  cases exponent with
  | none =>
      cases rest with
      | nil => rfl
      | cons c rest =>
          have other := (ends c rfl).2.2
          simp [exponentChars, exponent?, other]
  | some stated =>
      obtain ⟨negative, written⟩ := stated
      have known : Digits written := digits _ rfl
      have taken := digits?_append known fun c first => (ends c first).1
      cases negative with
      | true => simp [exponentChars, exponent?, taken]
      | false =>
          cases written with
          | nil => exact absurd rfl known.some
          | cons c written =>
              have digit := known.digit c List.mem_cons_self
              rw [List.cons_append] at taken
              simp only [exponentChars, Bool.false_eq_true, if_false, List.nil_append,
                List.cons_append, exponent?, true_or, if_true]
              split
              · rename_i same
                cases same
                cases digit
              · rename_i same
                cases same
                cases digit
              · rw [taken]
                rfl

/-- Neither a point nor an exponent is taken for more digits. -/
theorem head?_exponentChars (exponent : Option (Bool × List Char)) {rest : List Char}
    (ends : Ends rest) :
    ∀ c ∈ (exponentChars exponent ++ rest).head?, c.isDigit = false ∧ c ≠ '.' := by
  cases exponent with
  | none => exact fun c first => ⟨(ends c first).1, (ends c first).2.1⟩
  | some stated =>
      rintro _ ⟨⟩
      decide

theorem head?_fractionChars (fraction : Option (List Char)) {rest : List Char}
    (stop : ∀ c ∈ rest.head?, c.isDigit = false ∧ c ≠ '.') :
    ∀ c ∈ (fractionChars fraction ++ rest).head?, c.isDigit = false := by
  cases fraction with
  | none => exact fun c first => (stop c first).1
  | some digits =>
      rintro _ ⟨⟩
      rfl

/-- A number is read back if nothing that follows could be part of it. -/
theorem numeral?_render {numeral : Numeral} (proper : numeral.Proper) {rest : List Char}
    (ends : Ends rest) : numeral? (numeral.render.toList ++ rest) = some (numeral, rest) := by
  have stop := head?_exponentChars numeral.exponent ends
  have whole := digits?_append proper.whole (head?_fractionChars numeral.fraction stop)
  have fraction := fraction?_append proper.fraction stop
  have exponent := exponent?_append proper.exponent ends
  have single : ¬ (numeral.whole.head? = some '0' ∧ 1 < numeral.whole.length) :=
    fun ⟨zero, more⟩ => absurd more (Nat.not_lt.2 (proper.first zero))
  have text : numeral.render.toList ++ rest = (if numeral.negative then ['-'] else []) ++
      (numeral.whole ++ (fractionChars numeral.fraction ++
        (exponentChars numeral.exponent ++ rest))) := by
    simp [toList_render]
  rw [text]
  obtain ⟨negative, digits, _, _⟩ := numeral
  cases negative with
  | true => simp [numeral?, whole, single, fraction, exponent]
  | false =>
      cases digits with
      | nil => exact absurd rfl proper.whole.some
      | cons c digits =>
          have digit := proper.whole.digit c List.mem_cons_self
          simp only [Bool.false_eq_true, if_false, List.nil_append, List.cons_append, numeral?]
          rw [List.cons_append] at whole
          split
          · rename_i same
            cases same
            cases digit
          · simp only [whole, Option.bind_eq_bind, Option.bind_some, if_neg single, fraction,
              exponent]
            rfl

/-! ### Documents -/

/-- Every string in a document has a text, and every number has the form of one. -/
inductive Proper : Json → Prop where
  | null : Proper .null
  | bool (b : Bool) : Proper (.bool b)
  | number {numeral : Numeral} (proper : numeral.Proper) : Proper (.number numeral)
  | string (text : String) : Proper (.string (some text))
  | array {items : List Json} (inner : ∀ item ∈ items, Proper item) : Proper (.array items)
  | object {members : List (JsonText × Json)} (named : ∀ entry ∈ members, entry.1.isSome = true)
      (inner : ∀ entry ∈ members, Proper entry.2) : Proper (.object members)

theorem skip_cons {c : Char} (other : isBlank c = false) (cs : List Char) :
    skip (c :: cs) = c :: cs := by
  simp [skip, other]

theorem isBlank_of_isDigit {c : Char} (digit : c.isDigit = true) : isBlank c = false := by
  cases blank : isBlank c with
  | false => rfl
  | true =>
      simp only [isBlank, Bool.or_eq_true, beq_iff_eq] at blank
      rcases blank with ((rfl | rfl) | rfl) | rfl <;> cases digit

/-- A number begins with its sign or a digit. -/
theorem Proper.begins_number {numeral : Numeral} (proper : numeral.Proper) :
    ∃ c rest, numeral.render.toList = c :: rest ∧ (c = '-' ∨ c.isDigit = true) := by
  rw [toList_render]
  obtain ⟨negative, whole, _, _⟩ := numeral
  cases negative with
  | true => exact ⟨'-', _, rfl, .inl rfl⟩
  | false =>
      cases whole with
      | nil => exact absurd rfl proper.whole.some
      | cons c whole => exact ⟨c, _, rfl, .inr (proper.whole.digit c List.mem_cons_self)⟩

/-- A document begins with a character that is neither blank nor the end of an array. -/
theorem Proper.begins {json : Json} (proper : json.Proper) :
    ∃ c rest, json.render.toList = c :: rest ∧ isBlank c = false ∧ c ≠ ']' := by
  cases proper with
  | null => exact ⟨'n', ['u', 'l', 'l'], rfl, rfl, by decide⟩
  | bool b =>
      cases b with
      | true => exact ⟨'t', ['r', 'u', 'e'], rfl, rfl, by decide⟩
      | false => exact ⟨'f', ['a', 'l', 's', 'e'], rfl, rfl, by decide⟩
  | number proper =>
      obtain ⟨c, rest, text, begins⟩ := Proper.begins_number proper
      rw [render]
      rcases begins with rfl | digit
      · exact ⟨'-', rest, text, rfl, by decide⟩
      · refine ⟨c, rest, text, isBlank_of_isDigit digit, ?_⟩
        rintro rfl
        cases digit
  | string text =>
      have opened := toList_quoted text []
      rw [List.append_nil] at opened
      exact ⟨'"', _, opened, rfl, by decide⟩
  | array => exact ⟨'[', _, by simp only [render, String.toList_append]; rfl, rfl, by decide⟩
  | object => exact ⟨'\x7b', _, by simp only [render, String.toList_append]; rfl, rfl, by decide⟩

/-- What begins as a number is read as one. -/
theorem value?_of_number {c : Char} (begins : c = '-' ∨ c.isDigit = true) (cs : List Char)
    (steps : Nat) : value? (steps + 1) (c :: cs) =
      (numeral? (c :: cs)).map fun (numeral, after) => (.number numeral, after) := by
  have other : isBlank c = false := by
    rcases begins with rfl | digit
    · rfl
    · exact isBlank_of_isDigit digit
  rw [value?, skip_cons other]
  split
  case h_7 => rfl
  all_goals
    rename_i same
    cases same
    rcases begins with same | digit
    · cases same
    · cases digit

theorem ends_cons {c : Char} (mark : c = ',' ∨ c = ']' ∨ c = '\x7d') (rest : List Char) :
    Ends (c :: rest) := by
  rintro _ ⟨⟩
  rcases mark with rfl | rfl | rfl <;> decide

/-- The characters between the brackets of an array. -/
def itemsChars (items : List Json) : List Char :=
  (",".intercalate (renderItems items)).toList

/-- The characters between the braces of an object. -/
def membersChars (members : List (JsonText × Json)) : List Char :=
  (",".intercalate (renderMembers members)).toList

theorem itemsChars_singleton (item : Json) : itemsChars [item] = item.render.toList := by
  simp [itemsChars, renderItems, String.intercalate_singleton]

theorem itemsChars_cons_cons (item next : Json) (rest : List Json) :
    itemsChars (item :: next :: rest) =
      item.render.toList ++ ',' :: itemsChars (next :: rest) := by
  simp [itemsChars, renderItems, String.intercalate_cons_cons]

theorem membersChars_singleton (name : JsonText) (json : Json) :
    membersChars [(name, json)] = (renderText name).toList ++ ':' :: json.render.toList := by
  simp [membersChars, renderMembers, String.intercalate_singleton]

theorem membersChars_cons_cons (name : JsonText) (json : Json) (next : JsonText × Json)
    (rest : List (JsonText × Json)) : membersChars ((name, json) :: next :: rest) =
      (renderText name).toList ++
        ':' :: (json.render.toList ++ ',' :: membersChars (next :: rest)) := by
  obtain ⟨name', json'⟩ := next
  simp [membersChars, renderMembers, String.intercalate_cons_cons]

theorem toList_render_array (items : List Json) (rest : List Char) :
    (render (.array items)).toList ++ rest = '[' :: (itemsChars items ++ ']' :: rest) := by
  simp [render, itemsChars]

theorem toList_render_object (members : List (JsonText × Json)) (rest : List Char) :
    (render (.object members)).toList ++ rest =
      '\x7b' :: (membersChars members ++ '\x7d' :: rest) := by
  simp [render, membersChars]

/-- A document is read back in so many steps as it has characters, and as many again. -/
def ReadsBack (json : Json) : Prop :=
  ∀ steps rest, 2 * json.render.toList.length ≤ steps → Ends rest →
    value? steps (json.render.toList ++ rest) = some (json, rest)

/-- The items of an array are read back, up to the bracket that closes it. -/
theorem items?_itemsChars {items : List Json} (some : items ≠ [])
    (each : ∀ item ∈ items, item.ReadsBack) {steps : Nat} {after : List Char}
    (enough : 2 * (itemsChars items).length + 3 ≤ steps) :
    items? steps (itemsChars items ++ ']' :: after) = .some (items, after) := by
  induction items generalizing steps with
  | nil => exact absurd rfl some
  | cons item rest ih =>
      obtain ⟨first, others⟩ := List.forall_mem_cons.1 each
      obtain ⟨steps, rfl⟩ : ∃ fewer, steps = fewer + 1 := ⟨steps - 1, by omega⟩
      cases rest with
      | nil =>
          rw [itemsChars_singleton] at enough ⊢
          have read := first steps (']' :: after) (by omega) (ends_cons (by simp) after)
          simp [items?, read, skip_cons (c := ']') rfl]
      | cons next rest =>
          rw [itemsChars_cons_cons] at enough ⊢
          rw [List.length_append, List.length_cons] at enough
          rw [List.append_assoc, List.cons_append]
          have read := first steps (',' :: (itemsChars (next :: rest) ++ ']' :: after)) (by omega)
            (ends_cons (.inl rfl) _)
          have further : items? steps (itemsChars (next :: rest) ++ ']' :: after) =
              .some (next :: rest, after) := ih (List.cons_ne_nil next rest) others (by omega)
          simp [items?, read, skip_cons (c := ',') rfl, further]

/-- The members of an object are read back, up to the brace that closes it. -/
theorem members?_membersChars {members : List (JsonText × Json)} (some : members ≠ [])
    (named : ∀ entry ∈ members, entry.1.isSome = true)
    (each : ∀ entry ∈ members, entry.2.ReadsBack) {steps : Nat} {after : List Char}
    (enough : 2 * (membersChars members).length + 3 ≤ steps) :
    members? steps (membersChars members ++ '\x7d' :: after) = .some (members, after) := by
  induction members generalizing steps with
  | nil => exact absurd rfl some
  | cons entry rest ih =>
      obtain ⟨first, others⟩ := List.forall_mem_cons.1 each
      obtain ⟨known, names⟩ := List.forall_mem_cons.1 named
      obtain ⟨steps, rfl⟩ : ∃ fewer, steps = fewer + 1 := ⟨steps - 1, by omega⟩
      obtain ⟨name, json⟩ := entry
      obtain ⟨name, rfl⟩ := Option.isSome_iff_exists.1 known
      have first : json.ReadsBack := first
      have label : ∀ more : List Char, (renderText (.some name)).toList ++ more =
          '"' :: (name.toList.flatMap escape ++ '"' :: more) := toList_quoted name
      have quote : ∀ more : List Char, skip ('"' :: more) = '"' :: more := skip_cons rfl
      have colon : ∀ more : List Char, skip (':' :: more) = ':' :: more := skip_cons rfl
      cases rest with
      | nil =>
          rw [membersChars_singleton] at enough ⊢
          rw [List.length_append, List.length_cons] at enough
          rw [List.append_assoc, label, List.cons_append]
          have read := first steps ('\x7d' :: after) (by omega) (ends_cons (by simp) after)
          simp [members?, quote, string?_escaped, colon, read, skip_cons (c := '\x7d') rfl]
      | cons next rest =>
          rw [membersChars_cons_cons] at enough ⊢
          rw [List.length_append, List.length_cons, List.length_append, List.length_cons] at enough
          rw [List.append_assoc, label, List.cons_append, List.append_assoc, List.cons_append]
          have read := first steps (',' :: (membersChars (next :: rest) ++ '\x7d' :: after))
            (by omega) (ends_cons (.inl rfl) _)
          have further : members? steps (membersChars (next :: rest) ++ '\x7d' :: after) =
              .some (next :: rest, after) := ih (List.cons_ne_nil next rest) names others (by omega)
          simp [members?, quote, string?_escaped, colon, read, skip_cons (c := ',') rfl, further]

/-- The characters between the brackets do not begin as if there were none. -/
theorem begins_itemsChars {items : List Json} (some : items ≠ [])
    (proper : ∀ item ∈ items, item.Proper) :
    ∃ c rest, itemsChars items = c :: rest ∧ isBlank c = false ∧ c ≠ ']' := by
  cases items with
  | nil => exact absurd rfl some
  | cons item items =>
      obtain ⟨c, rest, spelled, own⟩ := (proper item List.mem_cons_self).begins
      cases items with
      | nil => exact ⟨c, rest, by rw [itemsChars_singleton, spelled], own⟩
      | cons next items =>
          exact ⟨c, _, by rw [itemsChars_cons_cons, spelled, List.cons_append], own⟩

theorem begins_membersChars {members : List (JsonText × Json)} (some : members ≠ []) :
    ∃ rest, membersChars members = '"' :: rest := by
  cases members with
  | nil => exact absurd rfl some
  | cons entry members =>
      obtain ⟨name, json⟩ := entry
      have label := toList_quoted (name.getD "")
      cases members with
      | nil => exact ⟨_, by rw [membersChars_singleton, renderText, label]⟩
      | cons next members => exact ⟨_, by rw [membersChars_cons_cons, renderText, label]⟩

theorem readsBack_array {items : List Json} (proper : ∀ item ∈ items, item.Proper)
    (each : ∀ item ∈ items, item.ReadsBack) : (Json.array items).ReadsBack := by
  intro steps rest enough ends
  have length := congrArg List.length (toList_render_array items [])
  simp only [List.append_nil, List.length_cons, List.length_append, List.length_nil] at length
  obtain ⟨steps, rfl⟩ : ∃ fewer, steps = fewer + 1 := ⟨steps - 1, by omega⟩
  rw [toList_render_array, value?, skip_cons rfl]
  by_cases some : items = []
  · subst some
    rfl
  · obtain ⟨c, more, spelled, seen, other⟩ := begins_itemsChars some proper
    have read : items? steps (itemsChars items ++ ']' :: rest) = .some (items, rest) :=
      items?_itemsChars some each (by omega)
    simp only [read]
    rw [spelled, List.cons_append, skip_cons seen]
    split
    · rename_i same
      cases same
      exact absurd rfl other
    · rfl

theorem readsBack_object {members : List (JsonText × Json)}
    (named : ∀ entry ∈ members, entry.1.isSome = true)
    (each : ∀ entry ∈ members, entry.2.ReadsBack) : (Json.object members).ReadsBack := by
  intro steps rest enough ends
  have length := congrArg List.length (toList_render_object members [])
  simp only [List.append_nil, List.length_cons, List.length_append, List.length_nil] at length
  obtain ⟨steps, rfl⟩ : ∃ fewer, steps = fewer + 1 := ⟨steps - 1, by omega⟩
  rw [toList_render_object, value?, skip_cons rfl]
  by_cases some : members = []
  · subst some
    rfl
  · obtain ⟨more, spelled⟩ := begins_membersChars some
    have read : members? steps (membersChars members ++ '\x7d' :: rest) = .some (members, rest) :=
      members?_membersChars some named each (by omega)
    simp only [read]
    rw [spelled, List.cons_append, skip_cons rfl]
    rfl

/-- A document in which every string has a text is read back. -/
theorem Proper.readsBack {json : Json} (proper : json.Proper) : json.ReadsBack := by
  have step : ∀ {json : Json} {steps : Nat}, json.Proper →
      2 * json.render.toList.length ≤ steps → ∃ fewer, steps = fewer + 1 := by
    intro json steps proper enough
    obtain ⟨c, rest, spelled, _⟩ := proper.begins
    rw [spelled, List.length_cons] at enough
    exact ⟨steps - 1, by omega⟩
  induction proper with
  | null =>
      intro steps rest enough ends
      obtain ⟨steps, rfl⟩ := step .null enough
      rfl
  | bool b =>
      intro steps rest enough ends
      obtain ⟨steps, rfl⟩ := step (.bool b) enough
      cases b <;> rfl
  | number proper =>
      intro steps rest enough ends
      obtain ⟨steps, rfl⟩ := step (.number proper) enough
      obtain ⟨c, more, spelled, begins⟩ := Proper.begins_number proper
      have read := numeral?_render proper ends
      rw [spelled, List.cons_append] at read
      rw [render, spelled, List.cons_append, value?_of_number begins, read]
      rfl
  | string text =>
      intro steps rest enough ends
      obtain ⟨steps, rfl⟩ := step (.string text) enough
      rw [render, renderText, toList_quoted, value?, skip_cons rfl]
      simp only [string?_escaped]
      rfl
  | array proper ih => exact readsBack_array proper ih
  | object named _ ih => exact readsBack_object named ih

/-- The text of a document is read as that document. -/
theorem read?_render {json : Json} (proper : json.Proper) : read? json.render = some json := by
  have read := proper.readsBack (2 * json.render.toList.length + 2) [] (by omega) nofun
  rw [List.append_nil] at read
  simp only [read?, read]
  rfl

end Json

end Quire
