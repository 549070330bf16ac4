/-
Module: Quire.Proofs.Interchange
Purpose: Equal values are interchangeable: no look-up, comparison, test for truth or search in them
  tells them apart, and so no condition does that does not look for their text in another value.
Main exports: Value.Twins, Value.Twins.member?, Value.Twins.comparison, Value.Twins.contains,
  Value.Interchangeable, Operator.holds_congr, Condition.holds_insert, equality_respected
-/
import Quire.Proofs.Comparisons
import Quire.Proofs.Equality

/-!
Equality is finer than it may seem in one place only: the two zeros are equal and show differently.
So equal values are not interchangeable where their text matters, as the left side of `in`. All
other operations on values read kinds, places on the number line, texts and look-ups, and these
agree.
-/

namespace Quire

namespace Value

/-- Two proper values that are equal. -/
structure Twins (left right : Value) : Prop where
  proper : left.Proper
  proper' : right.Proper
  equal : left.Equal right

variable {left right : Value}

theorem Twins.symm (twins : left.Twins right) : right.Twins left :=
  ⟨twins.proper', twins.proper, twins.equal.symm twins.proper twins.proper'⟩

/-! ### What equal values have in common -/

theorem Equal.kind_eq (equal : left.Equal right) : left.kind = right.kind := by
  cases equal_iff_matches.1 equal <;> rfl

theorem Equal.place_eq (equal : left.Equal right) : left.place = right.place := by
  cases equal_iff_matches.1 equal with
  | number here there => exact here.trans there.symm
  | _ => rfl

/-- A number is truthy if it has a place on the number line and this is not zero. -/
theorem isTruthy_number (x : Binary64) : (number x).isTruthy = x.rank.any (· != 0) := by
  unfold Binary64.rank
  split
  · simp [isTruthy, *]
  · split <;> simp [isTruthy, Binary64.isZero, bne, *]

theorem Equal.isTruthy_eq (equal : left.Equal right) : left.isTruthy = right.isTruthy := by
  cases equal_iff_matches.1 equal with
  | null | bool _ | string _ => rfl
  | number here there => rw [isTruthy_number, isTruthy_number, here, there]
  | @array items others related =>
      have first := related 0
      cases items <;> cases others <;> simp [isTruthy] at first ⊢
  | @object fields others length _ =>
      cases fields <;> cases others <;> simp [isTruthy] at length ⊢

/-! ### Members -/

/-- Under one segment of a path equal values have equal members, or neither has one. -/
theorem Twins.member? (twins : left.Twins right) (segment : String) :
    Option.Rel Twins (left.member? segment) (right.member? segment) := by
  obtain ⟨proper, proper', equal⟩ := twins
  cases equal_iff_matches.1 equal with
  | array related =>
      simp only [Value.member?]
      cases Text.position? segment with
      | none => exact .none
      | some position =>
          refine rel_imp (related position) fun item other here there equal => ?_
          exact ⟨proper.item (List.mem_of_getElem? here),
            proper'.item (List.mem_of_getElem? there), equal⟩
  | object _ _ =>
      have related := (same_object_iff_find? proper.once proper'.once).1 equal
      refine rel_imp (related segment) fun value other here there equal => ?_
      exact ⟨proper.field (Fields.mem_of_find? here), proper'.field (Fields.mem_of_find? there),
        equal⟩
  | _ => exact .none

/-- At every path equal values have equal members, or neither has one. -/
theorem Twins.path (twins : left.Twins right) (segments : List String) :
    Option.Rel Twins (segments.foldlM Value.member? left)
      (segments.foldlM Value.member? right) := by
  induction segments generalizing left right with
  | nil => exact .some twins
  | cons segment rest ih =>
      simp only [List.foldlM_cons]
      exact rel_bind (twins.member? segment) fun _ _ inner => ih inner

/-! ### Comparing -/

theorem Twins.same_left (twins : left.Twins right) (other : Value) :
    left.same other = right.same other := by
  apply Bool.eq_iff_iff.2
  constructor
  · exact fun equal => twins.symm.equal.trans equal
  · exact fun equal => twins.equal.trans equal

theorem Twins.same_right (twins : left.Twins right) (other : Value) :
    other.same left = other.same right := by
  apply Bool.eq_iff_iff.2
  constructor
  · exact fun equal => Equal.trans equal twins.equal
  · exact fun equal => Equal.trans equal twins.symm.equal

theorem Equal.comparison_left (equal : left.Equal right) (other : Value) :
    left.comparison other = right.comparison other := by
  by_cases text : left.kind = .string
  · obtain ⟨first, rfl⟩ := exists_of_kind_string text
    cases equal_iff_matches.1 equal
    rfl
  · have text' : right.kind ≠ .string := fun isText => text (equal.kind_eq.trans isText)
    rw [comparison_eq_placed fun isText => absurd isText text,
      comparison_eq_placed fun isText => absurd isText text', equal.place_eq]

theorem Equal.comparison_right (equal : left.Equal right) (other : Value) :
    other.comparison left = other.comparison right := by
  rw [comparison_swap left other, comparison_swap right other, equal.comparison_left]

/-! ### Searching -/

theorem Twins.any_same {items others : List Value} (twins : (array items).Twins (array others))
    {needle : Value} (held : items.any (fun item => item.same needle) = true) :
    others.any (fun item => item.same needle) = true := by
  obtain ⟨item, member, equal⟩ := List.any_eq_true.1 held
  obtain ⟨i, here⟩ := List.mem_iff_getElem?.1 member
  have related := same_array_iff.1 twins.equal i
  cases there : others[i]? with
  | none => simp [here, there] at related
  | some other =>
      rw [here, there, Option.rel_some_some] at related
      have member' := List.mem_of_getElem? there
      have turned := related.symm (twins.proper.item member) (twins.proper'.item member')
      exact List.any_eq_true.2 ⟨other, member', turned.trans equal⟩

theorem Twins.has {fields others : List (String × Value)}
    (twins : (object fields).Twins (object others)) (name : String) :
    Fields.has fields name = Fields.has others name := by
  have related := (same_object_iff_find? twins.proper.once twins.proper'.once).1 twins.equal name
  unfold Fields.has
  cases here : Fields.find? name fields <;> cases there : Fields.find? name others <;>
    simp [here, there] at related ⊢

/-- Equal values hold the same needles. -/
theorem Twins.contains (twins : left.Twins right) (needle : Value) :
    left.contains needle = right.contains needle := by
  cases equal_iff_matches.1 twins.equal with
  | null | bool _ | string _ => rfl
  | number here there => cases needle <;> rfl
  | @array items others related =>
      have held : items.any (fun item => item.same needle) =
          others.any (fun item => item.same needle) :=
        Bool.eq_iff_iff.2 ⟨twins.any_same, twins.symm.any_same⟩
      cases needle with
      | null => rfl
      | _ => exact held
  | object _ _ =>
      cases needle with
      | null => rfl
      | _ => exact twins.has _

/-! ### Values in the places of others -/

/-- The same value, or one that is equal to it. -/
inductive Interchangeable : Value → Value → Prop where
  | refl (value : Value) : Interchangeable value value
  | twins {left right : Value} (twins : left.Twins right) : Interchangeable left right

theorem Interchangeable.isTruthy_eq (values : left.Interchangeable right) :
    left.isTruthy = right.isTruthy := by
  cases values with
  | refl => rfl
  | twins twins => exact twins.equal.isTruthy_eq

/-- At every path they have such members again, or neither has one. -/
theorem Interchangeable.path (values : left.Interchangeable right) (segments : List String) :
    Option.Rel Interchangeable (segments.foldlM Value.member? left)
      (segments.foldlM Value.member? right) := by
  cases values with
  | refl => exact rel_self .refl _
  | twins twins => exact rel_imp (twins.path segments) fun _ _ _ _ => .twins

end Value

/-- Values that are equal may take the places of each other in every comparison, except for the left
side of `in`. -/
theorem Operator.holds_congr {operator : Operator} {left left' right right' : Value}
    (lefts : left.Interchangeable left') (rights : right.Interchangeable right')
    (needle : operator = .within → left = left') :
    operator.holds left right = operator.holds left' right' := by
  have turnedLeft : operator.holds left right = operator.holds left' right := by
    cases lefts with
    | refl => rfl
    | twins twins =>
        cases operator with
        | within => rw [needle rfl]
        | equal | unequal => simp only [holds, twins.same_left]
        | less | greater | atMost | atLeast => simp only [holds, twins.equal.comparison_left]
  have turnedRight : operator.holds left' right = operator.holds left' right' := by
    cases rights with
    | refl => rfl
    | twins twins =>
        cases operator with
        | within => exact twins.contains left'
        | equal | unequal => simp only [holds, twins.same_right]
        | less | greater | atMost | atLeast => simp only [holds, twins.equal.comparison_right]
  exact turnedLeft.trans turnedRight

/-! ### Values of variables -/

namespace Context

theorem find?_insert (context : Context) (name : String) (value : Value) (other : String) :
    (context.insert name value).find? other =
      if other = name then some value else context.find? other := by
  unfold Context.find? insert scopes
  by_cases same : other = name
  · simp [same]
  · simp [same, List.findSome?_cons]

/-- In a context that gets one value or another that is equal, a path leads to the same value or to
equal ones, or nowhere. -/
theorem lookup_insert {left right : Value} (twins : left.Twins right) (context : Context)
    (name path : String) : Option.Rel Value.Interchangeable
      ((context.insert name left).lookup path) ((context.insert name right).lookup path) := by
  unfold lookup
  cases Text.pieces '.' path with
  | nil => exact .none
  | cons first segments =>
      have found : Option.Rel Value.Interchangeable
          ((context.insert name left).find? first) ((context.insert name right).find? first) := by
        rw [find?_insert, find?_insert]
        split
        · exact .some (.twins twins)
        · exact rel_self .refl _
      exact rel_bind found fun _ _ values => values.path segments

end Context

theorem Operand.value_insert {left right : Value} (twins : left.Twins right) (context : Context)
    (name : String) (operand : Operand) :
    (operand.value (context.insert name left)).Interchangeable
      (operand.value (context.insert name right)) := by
  cases operand with
  | number x => exact .refl _
  | path dotted => exact rel_getD (context.lookup_insert twins name dotted) (.refl _)

/-- A condition does not tell equal values of a variable apart, unless it looks for one of them, or
for a part of it, in something else. -/
theorem Condition.holds_insert {left right : Value} (twins : left.Twins right) (context : Context)
    (name : String) (condition : Condition)
    (needle : ∀ haystack, condition.comparison = some (.within, haystack) →
      condition.left.value (context.insert name left) =
        condition.left.value (context.insert name right)) :
    condition.holds (context.insert name left) = condition.holds (context.insert name right) := by
  obtain ⟨operand, comparison⟩ := condition
  have lefts := operand.value_insert twins context name
  cases comparison with
  | none => exact lefts.isTruthy_eq
  | some comparison =>
      obtain ⟨operator, other⟩ := comparison
      apply Operator.holds_congr lefts (other.value_insert twins context name)
      rintro rfl
      exact needle other rfl

/-- Equality of values is a partial equivalence that everything but their text respects. It is
symmetric and transitive, and reflexive on the values that hold nothing that is not a number, at
whatever depth. Equal values have the same kind and truth and, under every segment and at every
path, equal members or none. They compare alike with every value, from either side, and hold the
same needles. So they take the places of each other on both sides of every comparison but `in`, on
the right side of `in`, and in every condition on a variable that has one or the other as its
value. -/
theorem equality_respected {a b : Value} (proper : a.Proper) (proper' : b.Proper) :
    (a.same b = true → b.same a = true) ∧
    (∀ c, a.same b = true → b.same c = true → a.same c = true) ∧
    (a.same a = true ↔ ¬ a.HasNaN) ∧
    (a.same b = true →
      a.kind = b.kind ∧ a.isTruthy = b.isTruthy ∧
      (∀ segment, Option.Rel Value.Equal (a.member? segment) (b.member? segment)) ∧
      (∀ segments : List String, Option.Rel Value.Equal
        (segments.foldlM Value.member? a) (segments.foldlM Value.member? b)) ∧
      (∀ c, a.comparison c = b.comparison c ∧ c.comparison a = c.comparison b ∧
        a.contains c = b.contains c) ∧
      (∀ (operator : Operator) (c : Value), operator ≠ .within →
        operator.holds a c = operator.holds b c ∧ operator.holds c a = operator.holds c b) ∧
      (∀ c, Operator.within.holds c a = Operator.within.holds c b) ∧
      ∀ (context : Context) (name : String) (condition : Condition),
        (∀ haystack, condition.comparison = some (.within, haystack) →
          condition.left.value (context.insert name a) =
            condition.left.value (context.insert name b)) →
        condition.holds (context.insert name a) = condition.holds (context.insert name b)) := by
  refine ⟨fun equal => Value.Equal.symm proper proper' equal,
    fun _ here there => Value.Equal.trans here there, Value.equal_self_iff proper, ?_⟩
  intro same
  have equal : a.Equal b := same
  have twins : a.Twins b := ⟨proper, proper', equal⟩
  have either : a.Interchangeable b := .twins twins
  refine ⟨equal.kind_eq, either.isTruthy_eq, ?_, ?_, ?_, ?_, ?_, ?_⟩
  · exact fun segment => rel_imp (twins.member? segment) fun _ _ _ _ inner => inner.equal
  · exact fun segments => rel_imp (twins.path segments) fun _ _ _ _ inner => inner.equal
  · exact fun c => ⟨equal.comparison_left c, equal.comparison_right c, twins.contains c⟩
  · intro operator c other
    exact ⟨Operator.holds_congr either (.refl c) fun within => absurd within other,
      Operator.holds_congr (.refl c) either fun _ => rfl⟩
  · exact fun c => Operator.holds_congr (.refl c) either fun _ => rfl
  · exact fun context name condition => condition.holds_insert twins context name

/-- A name and a pair of numbers, of which one is given. -/
def pointFields (x : Binary64) : List (String × Value) :=
  [("name", .string "p"), ("at", .array [.number x, .ofNat 2])]

theorem proper_pointFields (x : Binary64) : ∀ pair ∈ pointFields x, pair.2.Proper := by
  simp only [pointFields, List.forall_mem_cons]
  refine ⟨.string _, .array ?_, nofun⟩
  simp only [List.forall_mem_cons]
  exact ⟨.number _, .number _, nofun⟩

/-- A point at zero. -/
def zeroPoint : Value :=
  .ofPairs (pointFields ⟨0⟩)

/-- The same point with the fields in the other order and with the other zero. -/
def minusZeroPoint : Value :=
  .ofPairs (pointFields ⟨0x8000000000000000⟩).reverse

/-- The condition that the first number of a point is at most one. -/
def nearCondition : Condition :=
  ⟨.path "p.at.0", some (.atMost, .number (.ofNat 1))⟩

theorem points_interchangeable :
    zeroPoint.Proper ∧ minusZeroPoint.Proper ∧ zeroPoint.same minusZeroPoint = true ∧
      minusZeroPoint.same zeroPoint = true ∧ ¬ zeroPoint.HasNaN ∧
      nearCondition.holds (Context.empty.insert "p" zeroPoint) =
        nearCondition.holds (Context.empty.insert "p" minusZeroPoint) := by
  have proper : zeroPoint.Proper := .ofPairs (proper_pointFields _)
  have proper' : minusZeroPoint.Proper := .ofPairs fun pair member =>
    proper_pointFields _ pair (List.mem_reverse.1 member)
  have equal : zeroPoint.same minusZeroPoint = true := by decide +kernel
  have itself : zeroPoint.same zeroPoint = true := by decide +kernel
  obtain ⟨symmetric, _, reflexive, alike⟩ := equality_respected proper proper'
  obtain ⟨_, _, _, _, _, _, _, conditions⟩ := alike equal
  exact ⟨proper, proper', equal, symmetric equal, reflexive.1 itself,
    conditions .empty "p" nearCondition (by simp [nearCondition])⟩

/-- The text of equal values may differ, and then they are not found in the same places. -/
example : Operator.within.holds (.number ⟨0⟩) (.string "0") = true ∧
    Operator.within.holds (.number ⟨0x8000000000000000⟩) (.string "0") = false := by
  decide +kernel

end Quire
