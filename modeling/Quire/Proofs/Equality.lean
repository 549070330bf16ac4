/-
Module: Quire.Proofs.Equality
Purpose: Equality of values is a partial equivalence: symmetric and transitive, and reflexive just
  on the values that hold nothing that is not a number. Objects are equal as maps.
Main exports: Value.induction, Value.Equal, Value.Proper, Value.HasNaN, Value.Matches,
  Value.same_object_iff_find?, Value.Equal.symm, Value.Equal.trans, Value.equal_self_iff
-/
import Mathlib.Data.List.Nodup
import Mathlib.Data.List.Perm.Subperm
import Quire.Condition

/-!
Equality compares arrays item by item and objects field by field. Both are told by their look-ups:
two arrays are equal if at every position both have equal items or none, and two objects if under
every name both have equal fields or none. For objects this needs that names are not repeated, since
equality counts the fields and looks for those of one object in the other only.
-/

namespace Quire

/-! ### What is found in two places -/

section

variable {α β : Type} {related : α → α → Prop} {related' : β → β → Prop}
  {first second third : Option α}

theorem rel_self (reflexive : ∀ value, related value value) :
    ∀ found : Option α, Option.Rel related found found
  | none => .none
  | some value => .some (reflexive value)

theorem rel_imp {other : α → α → Prop} (found : Option.Rel related first second)
    (imp : ∀ a b, first = some a → second = some b → related a b → other a b) :
    Option.Rel other first second := by
  cases found with
  | none => exact .none
  | some both => exact .some (imp _ _ rfl rfl both)

theorem rel_turn (found : Option.Rel related first second) :
    Option.Rel (fun b a => related a b) second first := by
  cases found with
  | none => exact .none
  | some both => exact .some both

theorem rel_join (here : Option.Rel related first second) (there : Option.Rel related second third)
    (join : ∀ a b c, first = some a → related a b → related b c → related a c) :
    Option.Rel related first third := by
  cases here with
  | none => exact there
  | some both =>
      cases there with
      | some further => exact .some (join _ _ _ rfl both further)

theorem rel_bind {f g : α → Option β} (found : Option.Rel related first second)
    (further : ∀ a b, related a b → Option.Rel related' (f a) (g b)) :
    Option.Rel related' (first.bind f) (second.bind g) := by
  cases found with
  | none => exact .none
  | some both => exact further _ _ both

theorem rel_getD {absent : α} (found : Option.Rel related first second)
    (reflexive : related absent absent) : related (first.getD absent) (second.getD absent) := by
  cases found with
  | none => exact reflexive
  | some both => exact both

end

/-! ### Fields by their names -/

namespace Fields

variable {α : Type}

theorem mem_names_iff {name : String} {fields : Fields α} :
    name ∈ fields.map Prod.fst ↔ ∃ value, find? name fields = some value := by
  constructor
  · intro member
    cases found : find? name fields with
    | some value => exact ⟨value, rfl⟩
    | none =>
        obtain ⟨⟨key, value⟩, entry, rfl⟩ := List.mem_map.1 member
        exact absurd entry (find?_eq_none_iff.1 found value)
  · rintro ⟨value, found⟩
    exact List.mem_map_of_mem (mem_of_find? found)

theorem names_put (name : String) (value : α) (fields : Fields α) :
    (put name value fields).map Prod.fst =
      if name ∈ fields.map Prod.fst then fields.map Prod.fst
      else fields.map Prod.fst ++ [name] := by
  induction fields with
  | nil => simp [put]
  | cons entry rest ih =>
      obtain ⟨key, old⟩ := entry
      by_cases same : key = name
      · simp [put, same]
      · simp only [put, same, if_false, List.map_cons, ih, List.mem_cons, Ne.symm same, false_or]
        split <;> rfl

theorem nodup_put {name : String} {value : α} {fields : Fields α}
    (once : (fields.map Prod.fst).Nodup) : ((put name value fields).map Prod.fst).Nodup := by
  rw [names_put]
  split
  · exact once
  · rename_i fresh
    simpa using once.concat fresh

theorem mem_put {name : String} {value : α} {fields : Fields α} {entry : String × α}
    (member : entry ∈ put name value fields) : entry = (name, value) ∨ entry ∈ fields := by
  induction fields with
  | nil => exact .inl (List.mem_singleton.1 member)
  | cons first rest ih =>
      obtain ⟨key, old⟩ := first
      by_cases same : key = name
      · simp only [put, same, if_true, List.mem_cons] at member ⊢
        rcases member with new | member
        · exact .inl new
        · exact .inr (.inr member)
      · simp only [put, same, if_false, List.mem_cons] at member ⊢
        rcases member with first | member
        · exact .inr (.inl first)
        · exact (ih member).imp_right .inr

/-- If as many fields as there are others have names that are among those of the others, then all
names of the others are among them. -/
theorem names_subset_of_length {fields others : Fields α} (once : (fields.map Prod.fst).Nodup)
    (length : fields.length = others.length)
    (among : fields.map Prod.fst ⊆ others.map Prod.fst) :
    others.map Prod.fst ⊆ fields.map Prod.fst := by
  have enough : (others.map Prod.fst).length ≤ (fields.map Prod.fst).length := by
    simp [length]
  have same := (List.subperm_of_subset once among).perm_of_length_le enough
  exact same.symm.subset

end Fields

namespace Value

/-! ### Values by their parts -/

theorem sizeOf_item_lt {items : List Value} {item : Value} (member : item ∈ items) :
    sizeOf item < sizeOf (Value.array items) := by
  have smaller := List.sizeOf_lt_of_mem member
  simp only [Value.array.sizeOf_spec]
  omega

theorem sizeOf_field_lt {fields : List (String × Value)} {entry : String × Value}
    (member : entry ∈ fields) : sizeOf entry.2 < sizeOf (Value.object fields) := by
  have smaller := List.sizeOf_lt_of_mem member
  obtain ⟨name, value⟩ := entry
  simp only [Value.object.sizeOf_spec, Prod.mk.sizeOf_spec] at smaller ⊢
  omega

/-- What holds of every value that has no parts, and of arrays and objects if it holds of their
items and fields, holds of every value. -/
theorem induction {motive : Value → Prop} (null : motive .null) (bool : ∀ b, motive (.bool b))
    (number : ∀ x, motive (.number x)) (string : ∀ text, motive (.string text))
    (array : ∀ items, (∀ item ∈ items, motive item) → motive (.array items))
    (object : ∀ fields, (∀ entry ∈ fields, motive entry.2) → motive (.object fields)) :
    ∀ value, motive value
  | .null => null
  | .bool b => bool b
  | .number x => number x
  | .string text => string text
  | .array items => array items fun item _ =>
      induction null bool number string array object item
  | .object fields => object fields fun entry _ =>
      induction null bool number string array object entry.2
termination_by value => sizeOf value
decreasing_by
  · exact sizeOf_item_lt ‹_›
  · exact sizeOf_field_lt ‹_›

/-- The fields of every object in a value have distinct names. -/
inductive Proper : Value → Prop where
  | null : Proper .null
  | bool (b : Bool) : Proper (.bool b)
  | number (x : Binary64) : Proper (.number x)
  | string (text : String) : Proper (.string text)
  | array {items : List Value} (inner : ∀ item ∈ items, Proper item) : Proper (.array items)
  | object {fields : List (String × Value)} (once : (fields.map Prod.fst).Nodup)
      (inner : ∀ entry ∈ fields, Proper entry.2) : Proper (.object fields)

theorem Proper.item {items : List Value} (proper : (Value.array items).Proper) {item : Value}
    (member : item ∈ items) : item.Proper := by
  cases proper with
  | array inner => exact inner item member

theorem Proper.field {fields : List (String × Value)} (proper : (Value.object fields).Proper)
    {entry : String × Value} (member : entry ∈ fields) : entry.2.Proper := by
  cases proper with
  | object _ inner => exact inner entry member

theorem Proper.once {fields : List (String × Value)} (proper : (Value.object fields).Proper) :
    (fields.map Prod.fst).Nodup := by
  cases proper with
  | object once _ => exact once

/-- An object that is made by putting in proper values one after another is proper. -/
theorem Proper.ofPairs {pairs : List (String × Value)} (inner : ∀ pair ∈ pairs, pair.2.Proper) :
    (Value.ofPairs pairs).Proper := by
  suffices putIn : ∀ fields : List (String × Value), (Value.object fields).Proper →
      (Value.object
        (pairs.foldl (fun fields pair => Fields.put pair.1 pair.2 fields) fields)).Proper
    from putIn [] (.object List.nodup_nil nofun)
  induction pairs with
  | nil => exact fun _ proper => proper
  | cons pair rest ih =>
      intro fields proper
      apply ih fun other member => inner other (List.mem_cons_of_mem _ member)
      refine .object (Fields.nodup_put proper.once) fun entry member => ?_
      rcases Fields.mem_put member with rfl | member
      · exact inner pair List.mem_cons_self
      · exact proper.field member

/-- Somewhere in a value, at whatever depth, stands what is not a number. -/
inductive HasNaN : Value → Prop where
  | number {x : Binary64} (nan : x.isNaN = true) : HasNaN (.number x)
  | item {items : List Value} {item : Value} (member : item ∈ items) (inside : HasNaN item) :
      HasNaN (.array items)
  | field {fields : List (String × Value)} {entry : String × Value} (member : entry ∈ fields)
      (inside : HasNaN entry.2) : HasNaN (.object fields)

/-- Two values are equal. -/
def Equal (left right : Value) : Prop :=
  left.same right = true

/-! ### Equality by look-ups -/

theorem sameItems_iff {items others : List Value} :
    sameItems items others = true ↔ ∀ i : Nat, Option.Rel Equal items[i]? others[i]? := by
  induction items generalizing others with
  | nil =>
      cases others with
      | nil => simp [sameItems, Option.rel_none_none]
      | cons other others =>
          simp only [sameItems, Bool.false_eq_true, false_iff]
          intro related
          cases related 0
  | cons item items ih =>
      cases others with
      | nil =>
          simp only [sameItems, Bool.false_eq_true, false_iff]
          intro related
          cases related 0
      | cons other others =>
          simp only [sameItems, Bool.and_eq_true, ih]
          constructor
          · rintro ⟨first, rest⟩ i
            cases i with
            | zero => exact .some first
            | succ i => simpa using rest i
          · intro related
            refine ⟨?_, fun i => by simpa using related (i + 1)⟩
            simpa [Equal] using related 0

theorem sameFields_iff {fields others : List (String × Value)} :
    sameFields fields others = true ↔ ∀ entry ∈ fields,
      ∃ other, Fields.find? entry.1 others = some other ∧ entry.2.Equal other := by
  induction fields with
  | nil => simp [sameFields]
  | cons entry rest ih =>
      simp only [sameFields, Bool.and_eq_true, ih, List.forall_mem_cons]
      apply and_congr_left'
      cases Fields.find? entry.1 others <;> simp [Equal]

/-- Arrays are equal if they have equal items at every position, or none. -/
theorem same_array_iff {items others : List Value} :
    (array items).same (array others) = true ↔
      ∀ i : Nat, Option.Rel Equal items[i]? others[i]? :=
  sameItems_iff

/-- Objects are equal if there are as many fields in both and each of the one has an equal one under
its name in the other. -/
theorem same_object_iff {fields others : List (String × Value)} :
    (object fields).same (object others) = true ↔ fields.length = others.length ∧
      ∀ entry ∈ fields,
        ∃ other, Fields.find? entry.1 others = some other ∧ entry.2.Equal other := by
  simp only [same, Bool.and_eq_true, beq_iff_eq, sameFields_iff]

/-- Objects whose fields have distinct names are equal as maps: under every name they have equal
fields, or none. -/
theorem same_object_iff_find? {fields others : List (String × Value)}
    (once : (fields.map Prod.fst).Nodup) (once' : (others.map Prod.fst).Nodup) :
    (object fields).same (object others) = true ↔
      ∀ name, Option.Rel Equal (Fields.find? name fields) (Fields.find? name others) := by
  rw [same_object_iff]
  constructor
  · rintro ⟨length, paired⟩ name
    have among : fields.map Prod.fst ⊆ others.map Prod.fst := by
      intro key member
      obtain ⟨value, found⟩ := Fields.mem_names_iff.1 member
      obtain ⟨other, there, _⟩ := paired (key, value) (Fields.mem_of_find? found)
      exact Fields.mem_names_iff.2 ⟨other, there⟩
    cases here : Fields.find? name fields with
    | some value =>
        obtain ⟨other, there, equal⟩ := paired (name, value) (Fields.mem_of_find? here)
        rw [there]
        exact .some equal
    | none =>
        cases there : Fields.find? name others with
        | none => exact .none
        | some other =>
            have member := Fields.names_subset_of_length once length among
              (Fields.mem_names_iff.2 ⟨other, there⟩)
            obtain ⟨value, found⟩ := Fields.mem_names_iff.1 member
            cases here.symm.trans found
  · intro related
    have names : ∀ name, name ∈ fields.map Prod.fst ↔ name ∈ others.map Prod.fst := by
      intro name
      have related := related name
      rw [Fields.mem_names_iff, Fields.mem_names_iff]
      cases here : Fields.find? name fields <;> cases there : Fields.find? name others <;>
        simp_all
    constructor
    · have same := ((List.perm_ext_iff_of_nodup once once').2 names).length_eq
      simpa using same
    · intro entry member
      have related := related entry.1
      rw [Fields.find?_of_mem once member] at related
      cases there : Fields.find? entry.1 others with
      | none => simp [there] at related
      | some other =>
          rw [there] at related
          exact ⟨other, rfl, Option.rel_some_some.1 related⟩

/-- Two numbers are equal if they have the same place on the number line. -/
theorem number_same_iff {x y : Binary64} :
    x.same y = true ↔ ∃ place, x.rank = some place ∧ y.rank = some place := by
  cases here : x.rank with
  | none => simp [Binary64.same, Binary64.comparison, here]
  | some place =>
      cases there : y.rank with
      | none => simp [Binary64.same, Binary64.comparison, here, there]
      | some other =>
          have order : x.comparison y = some (compare place other) := by
            simp [Binary64.comparison, here, there]
          simp only [Binary64.same, order, beq_iff_eq, Option.some.injEq,
            Std.LawfulEqOrd.compare_eq_iff_eq, exists_eq_left']
          exact eq_comm

/-- What equality of two values comes to, by their kinds. -/
inductive Matches : Value → Value → Prop where
  | null : Matches .null .null
  | bool (b : Bool) : Matches (.bool b) (.bool b)
  | number {x y : Binary64} {place : Int} (here : x.rank = some place)
      (there : y.rank = some place) : Matches (.number x) (.number y)
  | string (text : String) : Matches (.string text) (.string text)
  | array {items others : List Value}
      (related : ∀ i : Nat, Option.Rel Equal items[i]? others[i]?) :
      Matches (.array items) (.array others)
  | object {fields others : List (String × Value)} (length : fields.length = others.length)
      (paired : ∀ entry ∈ fields,
        ∃ other, Fields.find? entry.1 others = some other ∧ entry.2.Equal other) :
      Matches (.object fields) (.object others)

theorem equal_iff_matches {left right : Value} : left.Equal right ↔ left.Matches right := by
  constructor
  · intro equal
    unfold Equal at equal
    cases left <;> cases right <;> simp only [same, Bool.false_eq_true] at equal
    case null.null => exact .null
    case bool.bool b c =>
      cases eq_of_beq equal
      exact .bool b
    case number.number x y =>
      obtain ⟨place, here, there⟩ := number_same_iff.1 equal
      exact .number here there
    case string.string text other =>
      cases eq_of_beq equal
      exact .string text
    case array.array items others => exact .array (sameItems_iff.1 equal)
    case object.object fields others =>
      obtain ⟨length, paired⟩ := same_object_iff.1 equal
      exact .object length paired
  · intro alike
    cases alike with
    | null => rfl
    | bool b => exact beq_self_eq_true b
    | number here there => exact number_same_iff.2 ⟨_, here, there⟩
    | string text => exact beq_self_eq_true text
    | array related => exact same_array_iff.2 related
    | object length paired => exact same_object_iff.2 ⟨length, paired⟩

/-! ### A partial equivalence -/

/-- Equality is symmetric. -/
theorem Equal.symm {left right : Value} (proper : left.Proper) (proper' : right.Proper)
    (equal : left.Equal right) : right.Equal left := by
  induction left using Value.induction generalizing right with
  | null | bool _ | string _ =>
      cases equal_iff_matches.1 equal
      exact equal
  | number x =>
      cases equal_iff_matches.1 equal with
      | number here there => exact equal_iff_matches.2 (.number there here)
  | array items ih =>
      cases equal_iff_matches.1 equal with
      | array related =>
          refine equal_iff_matches.2 (.array fun i => rel_imp (rel_turn (related i)) ?_)
          intro other item there here
          have member := List.mem_of_getElem? here
          exact ih item member (proper.item member) (proper'.item (List.mem_of_getElem? there))
  | object fields ih =>
      cases equal_iff_matches.1 equal with
      | object _ _ =>
          have related := (same_object_iff_find? proper.once proper'.once).1 equal
          refine (same_object_iff_find? proper'.once proper.once).2 fun name =>
            rel_imp (rel_turn (related name)) ?_
          intro other value there here
          have member := Fields.mem_of_find? here
          exact ih _ member (proper.field member) (proper'.field (Fields.mem_of_find? there))

/-- Equality is transitive. -/
theorem Equal.trans {first second third : Value} (here : first.Equal second)
    (there : second.Equal third) : first.Equal third := by
  induction first using Value.induction generalizing second third with
  | null | bool _ | string _ =>
      cases equal_iff_matches.1 here
      exact there
  | number x =>
      cases equal_iff_matches.1 here with
      | number left middle =>
          cases equal_iff_matches.1 there with
          | number middle' right =>
              cases middle.symm.trans middle'
              exact equal_iff_matches.2 (.number left right)
  | array items ih =>
      cases equal_iff_matches.1 here with
      | array related =>
          cases equal_iff_matches.1 there with
          | array related' =>
              refine equal_iff_matches.2 (.array fun i => rel_join (related i) (related' i) ?_)
              intro a b c found
              exact ih a (List.mem_of_getElem? found)
  | object fields ih =>
      cases equal_iff_matches.1 here with
      | object length paired =>
          cases equal_iff_matches.1 there with
          | object length' paired' =>
              refine equal_iff_matches.2 (.object (length.trans length') fun entry member => ?_)
              obtain ⟨other, found, equal⟩ := paired entry member
              obtain ⟨last, found', equal'⟩ := paired' _ (Fields.mem_of_find? found)
              exact ⟨last, found', ih entry member equal equal'⟩

/-- A number has a place on the number line unless it is not a number. -/
theorem rank_eq_none_iff {x : Binary64} : x.rank = none ↔ x.isNaN = true := by
  unfold Binary64.rank
  split
  · simp [*]
  · split <;> simp [*]

theorem hasNaN_number_iff {x : Binary64} : (number x).HasNaN ↔ x.isNaN = true := by
  constructor
  · intro inside
    cases inside with
    | number nan => exact nan
  · exact .number

theorem hasNaN_array_iff {items : List Value} :
    (array items).HasNaN ↔ ∃ item ∈ items, item.HasNaN := by
  constructor
  · intro inside
    cases inside with
    | item member inside => exact ⟨_, member, inside⟩
  · rintro ⟨item, member, inside⟩
    exact .item member inside

theorem hasNaN_object_iff {fields : List (String × Value)} :
    (object fields).HasNaN ↔ ∃ entry ∈ fields, entry.2.HasNaN := by
  constructor
  · intro inside
    cases inside with
    | field member inside => exact ⟨_, member, inside⟩
  · rintro ⟨entry, member, inside⟩
    exact .field member inside

theorem array_equal_self_iff {items : List Value} :
    (array items).Equal (array items) ↔ ∀ item ∈ items, item.Equal item := by
  rw [Equal, same_array_iff]
  constructor
  · intro related item member
    obtain ⟨i, here⟩ := List.mem_iff_getElem?.1 member
    have equal := related i
    rw [here] at equal
    exact Option.rel_some_some.1 equal
  · intro equal i
    cases here : items[i]? with
    | none => exact .none
    | some item => exact .some (equal item (List.mem_of_getElem? here))

theorem object_equal_self_iff {fields : List (String × Value)}
    (once : (fields.map Prod.fst).Nodup) :
    (object fields).Equal (object fields) ↔ ∀ entry ∈ fields, entry.2.Equal entry.2 := by
  have found : ∀ entry ∈ fields, Fields.find? entry.1 fields = some entry.2 :=
    fun entry member => Fields.find?_of_mem once member
  rw [Equal, same_object_iff]
  constructor
  · rintro ⟨_, paired⟩ entry member
    obtain ⟨other, there, equal⟩ := paired entry member
    cases (found entry member).symm.trans there
    exact equal
  · intro equal
    exact ⟨rfl, fun entry member => ⟨entry.2, found entry member, equal entry member⟩⟩

/-- A value equals itself just where nothing in it is not a number. -/
theorem equal_self_iff {value : Value} (proper : value.Proper) :
    value.Equal value ↔ ¬ value.HasNaN := by
  induction value using Value.induction with
  | null => exact ⟨nofun, fun _ => equal_iff_matches.2 .null⟩
  | bool b => exact ⟨nofun, fun _ => equal_iff_matches.2 (.bool b)⟩
  | string text => exact ⟨nofun, fun _ => equal_iff_matches.2 (.string text)⟩
  | number x =>
      have placed : (number x).Equal (number x) ↔ x.rank ≠ none := by
        simp [Equal, same, number_same_iff, Option.ne_none_iff_exists']
      rw [placed, ne_eq, rank_eq_none_iff, hasNaN_number_iff]
  | array items ih =>
      rw [array_equal_self_iff, hasNaN_array_iff]
      have inner : ∀ item ∈ items, (item.Equal item ↔ ¬ item.HasNaN) :=
        fun item member => ih item member (proper.item member)
      rw [forall₂_congr inner]
      simp
  | object fields ih =>
      rw [object_equal_self_iff proper.once, hasNaN_object_iff]
      have inner : ∀ entry ∈ fields, (entry.2.Equal entry.2 ↔ ¬ entry.2.HasNaN) :=
        fun entry member => ih entry member (proper.field member)
      rw [forall₂_congr inner]
      simp

end Value

end Quire
