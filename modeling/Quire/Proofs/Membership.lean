/-
Module: Quire.Proofs.Membership
Purpose: Values that show as nothing, and what holds them: every text, and every object with a field
  of the empty name, except that nothing holds null.
Main exports: Value.ShowsNothing, Value.display_eq_empty_iff, blank_needles_held,
  empty_array_held_by_text
-/
import Quire.Condition

/-!
A text holds what its own text holds, so a value that shows as nothing is held by every text, as the
empty text is. Null alone is kept apart, by being null and not by how it shows. Which other values
show as nothing is told by their shape: in an array of two items there is a comma.
-/

namespace Quire

/-! ### What shows as nothing -/

/-- There is a digit before the point. -/
theorem Decimal.positional_fst_ne_nil (d : Decimal) : d.positional.1 ≠ [] := by
  have some : digitsOf d.digits ≠ [] := Nat.toDigits_ne_nil
  simp only [positional]
  split
  · simp [some]
  · split
    · rename_i fewer
      simp only [List.splitAt_eq, ne_eq, List.take_eq_nil_iff, some, or_false]
      omega
    · simp

namespace Value

/-- A number shows as something. -/
theorem displayNumber_ne_empty (x : Binary64) : displayNumber x ≠ "" := by
  intro blank
  simp only [displayNumber] at blank
  split at blank
  · simp at blank
  split at blank
  · simp at blank
  split at blank
  · simp at blank
  · have digits := String.ofList_eq_empty_iff.1 (String.append_eq_empty_iff.1 blank).2
    split at digits
    · exact Decimal.positional_fst_ne_nil _ digits
    · cases (List.append_eq_nil_iff.1 digits).2

/-- A value shows as nothing: it is null or empty text, or an array without items or with one item
that shows as nothing. -/
inductive ShowsNothing : Value → Prop where
  | null : ShowsNothing .null
  | text : ShowsNothing (.string "")
  | none : ShowsNothing (.array [])
  | one {item : Value} (inner : ShowsNothing item) : ShowsNothing (.array [item])

theorem display_array_singleton (item : Value) : (array [item]).display = item.display := by
  simp [display, displayAll]

/-- An array of two items or more shows a comma. -/
theorem display_array_ne_empty (first second : Value) (rest : List Value) :
    (array (first :: second :: rest)).display ≠ "" := by
  intro blank
  simp only [display, displayAll, String.intercalate_cons_cons] at blank
  have comma := (String.append_eq_empty_iff.1 (String.append_eq_empty_iff.1 blank).1).2
  exact absurd comma (by decide)

theorem showsNothing_of_display : ∀ {value : Value}, value.display = "" → value.ShowsNothing
  | .null, _ => .null
  | .bool true, blank | .bool false, blank | .object _, blank => absurd blank (by simp [display])
  | .number x, blank => absurd blank (displayNumber_ne_empty x)
  | .string text, blank => by
      cases blank
      exact .text
  | .array [], _ => .none
  | .array [item], blank => .one (showsNothing_of_display (display_array_singleton item ▸ blank))
  | .array (first :: second :: rest), blank =>
      absurd blank (display_array_ne_empty first second rest)

/-- The text of a value is empty just where its shape says so. -/
theorem display_eq_empty_iff {value : Value} : value.display = "" ↔ value.ShowsNothing := by
  constructor
  · exact showsNothing_of_display
  · intro nothing
    induction nothing with
    | null | text | none => rfl
    | one _ ih => rw [display_array_singleton, ih]

/-! ### What holds it -/

theorem occursIn_empty (text : String) : Text.occursIn "" text = true := by
  cases chars : text.toList <;> simp [Text.occursIn, Text.isInfix, chars]

/-- A text holds every value that shows as nothing, but not null. -/
theorem string_contains_blank {needle : Value} (blank : needle.display = "") (text : String) :
    (string text).contains needle = true ↔ needle ≠ .null := by
  cases needle <;> simp [contains, blank, occursIn_empty]

/-- An object holds a value that shows as nothing, but not null, if it has a field of the empty
name. -/
theorem object_contains_blank {needle : Value} (blank : needle.display = "")
    (fields : List (String × Value)) :
    (object fields).contains needle = true ↔ needle ≠ .null ∧ Fields.has fields "" = true := by
  cases needle <;> simp [contains, blank]

end Value

/-- Values that show as nothing are null, empty text, and arrays with at most one item that shows as
nothing. Every text holds all of them but null, and so does every object with a field of the empty
name, and no other object. A condition asks for this whatever its left side is. -/
theorem blank_needles_held (needle : Value) :
    (needle.display = "" ↔ needle.ShowsNothing) ∧
    (needle.display = "" →
      (∀ text, (Value.string text).contains needle = true ↔ needle ≠ .null) ∧
      (∀ fields, (Value.object fields).contains needle = true ↔
        needle ≠ .null ∧ Fields.has fields "" = true) ∧
      ∀ (context : Context) (left right : Operand), left.value context = needle →
        (∀ text, right.value context = .string text →
          (Condition.holds context ⟨left, some (.within, right)⟩ = true ↔ needle ≠ .null)) ∧
        ∀ fields, right.value context = .object fields →
          (Condition.holds context ⟨left, some (.within, right)⟩ = true ↔
            needle ≠ .null ∧ Fields.has fields "" = true)) := by
  refine ⟨Value.display_eq_empty_iff, fun blank => ⟨Value.string_contains_blank blank,
    Value.object_contains_blank blank, ?_⟩⟩
  intro context left right isLeft
  constructor
  · intro text isText
    simpa only [Condition.holds, Operator.holds, isLeft, isText] using
      Value.string_contains_blank blank text
  · intro fields isObject
    simpa only [Condition.holds, Operator.holds, isLeft, isObject] using
      Value.object_contains_blank blank fields

/-- A title, and an array of nothing but an array of null. -/
def blankContext : Context :=
  .ofPairs [("x", .array [.array [.null]]), ("title", .string "hello world")]

theorem nested_null_held :
    (Value.array [.array [.null]]).display = "" ∧
      (Value.array [.array [.null]]).ShowsNothing ∧
      Operand.value blankContext (.path "x") = .array [.array [.null]] ∧
      Operand.value blankContext (.path "title") = .string "hello world" ∧
      Condition.holds blankContext ⟨.path "x", some (.within, .path "title")⟩ = true := by
  have blank : (Value.array [.array [.null]]).display = "" := by decide
  have left : Operand.value blankContext (.path "x") = .array [.array [.null]] := rfl
  have right : Operand.value blankContext (.path "title") = .string "hello world" := rfl
  obtain ⟨shape, held⟩ := blank_needles_held (.array [.array [.null]])
  have asked := ((held blank).2.2 _ _ _ left).1 _ right
  exact ⟨blank, shape.1 blank, left, right, asked.2 (by simp)⟩

/-- An array without items is no text and shows as nothing, yet a text holds it, and so does an
object with a field of the empty name. -/
theorem empty_array_held_by_text :
    (Value.array []).kind ≠ .string ∧ (Value.array []).display = "" ∧
      (Value.string "hello world").contains (.array []) = true ∧
      (Value.object [("", .bool true)]).contains (.array []) = true := by
  decide

end Quire
