/-
Module: Quire.Proofs.ValueDocuments
Purpose: A value that is written as a document and read again is the same value, except that numbers
  which are not finite have become null.
Main exports: Value.numbers, Value.ReadBack, Value.NestedWithin, Value.stored, Json.Denotes,
  Json.valueWithin_toJson, Json.denotes_of_valueWithin, value_reload
-/
import Mathlib.Data.List.Induction
import Quire.Json.Codec
import Quire.Proofs.Equality
import Quire.Proofs.Numerals

/-!
The document of a value does not say of what kind a value is: every kind has its own form of
document, and only null has the form that other values may take. What is read from a document is in
turn determined by the document, for an object by its names in the order in which they first come
and by the last member of each name. Such a value is no longer affected by being written and read.

What number a numeral denotes is left to a reader of numerals. All that is asked of it is that it
gives no infinity and that it reads the numerals of the numbers at hand back.
-/

namespace Quire

/-! ### Fields that are put in -/

namespace Fields

variable {α : Type}

theorem put_of_notMem {name : String} {fields : Fields α} (fresh : name ∉ fields.map Prod.fst)
    (value : α) : put name value fields = fields ++ [(name, value)] := by
  induction fields with
  | nil => rfl
  | cons entry rest ih =>
      obtain ⟨key, old⟩ := entry
      obtain ⟨different, others⟩ := not_or.1 (List.mem_cons.not.1 fresh)
      simp [put, Ne.symm different, ih others]

theorem ofPairs_concat (pairs : List (String × α)) (pair : String × α) :
    ofPairs (pairs ++ [pair]) = put pair.1 pair.2 (ofPairs pairs) := by
  simp [ofPairs]

/-- Pairs of different names are the fields that they are put in as. -/
theorem ofPairs_of_nodup {pairs : List (String × α)} (once : (pairs.map Prod.fst).Nodup) :
    ofPairs pairs = pairs := by
  induction pairs using List.reverseRecOn with
  | nil => rfl
  | append_singleton pairs pair ih =>
      rw [List.map_append, List.nodup_append] at once
      have fresh : pair.1 ∉ pairs.map Prod.fst := by
        intro member
        exact once.2.2 pair.1 member pair.1 List.mem_cons_self rfl
      rw [ofPairs_concat, ih once.1, put_of_notMem fresh]

/-- The names of fields are in the order in which they were first put in. -/
theorem names_ofPairs (pairs : List (String × α)) :
    (ofPairs pairs).map Prod.fst = (pairs.map Prod.fst).eraseDups := by
  induction pairs using List.reverseRecOn with
  | nil => rfl
  | append_singleton pairs pair ih =>
      rw [ofPairs_concat, names_put, ih, List.map_append, List.eraseDups_append]
      by_cases known : pair.1 ∈ pairs.map Prod.fst
      · simp [known, List.removeAll]
      · simp [known, List.removeAll, List.eraseDups_cons]

theorem nodup_ofPairs (pairs : List (String × α)) : ((ofPairs pairs).map Prod.fst).Nodup := by
  induction pairs using List.reverseRecOn with
  | nil => exact List.nodup_nil
  | append_singleton pairs pair ih =>
      rw [ofPairs_concat]
      exact nodup_put ih

theorem mem_of_mem_ofPairs {pairs : List (String × α)} {entry : String × α}
    (member : entry ∈ ofPairs pairs) : entry ∈ pairs := by
  induction pairs using List.reverseRecOn with
  | nil => exact member
  | append_singleton pairs pair ih =>
      rw [ofPairs_concat] at member
      rcases mem_put member with rfl | member
      · exact List.mem_append_right pairs List.mem_cons_self
      · exact List.mem_append_left [pair] (ih member)

/-- What was put in last under a name is found there. -/
theorem find?_ofPairs (name : String) (pairs : List (String × α)) :
    find? name (ofPairs pairs) = find? name pairs.reverse := by
  have last := find?_ofPairs_reverse name pairs.reverse
  rwa [List.reverse_reverse] at last

end Fields

/-! ### What a document keeps of a value -/

namespace Value

mutual

/-- The numbers in a value, in their order. -/
def numbers : Value → List Binary64
  | .number x => [x]
  | .array items => itemNumbers items
  | .object fields => fieldNumbers fields
  | _ => []
termination_by structural value => value

/-- The numbers in the items of an array. -/
def itemNumbers : List Value → List Binary64
  | [] => []
  | item :: rest => numbers item ++ itemNumbers rest
termination_by structural items => items

/-- The numbers in the fields of an object. -/
def fieldNumbers : List (String × Value) → List Binary64
  | [] => []
  | (_, value) :: rest => numbers value ++ fieldNumbers rest
termination_by structural fields => fields

end

mutual

/-- A value with null in the place of each number that is not finite. -/
def stored : Value → Value
  | .number x => if x.isFinite then .number x else .null
  | .array items => .array (storedItems items)
  | .object fields => .object (storedFields fields)
  | value => value
termination_by structural value => value

/-- The items of an array with null in the place of each number that is not finite. -/
def storedItems : List Value → List Value
  | [] => []
  | item :: rest => stored item :: storedItems rest
termination_by structural items => items

/-- The fields of an object with null in the place of each number that is not finite. -/
def storedFields : List (String × Value) → List (String × Value)
  | [] => []
  | (name, value) :: rest => (name, stored value) :: storedFields rest
termination_by structural fields => fields

end

/-- Arrays and objects are nested in a value no deeper than `room`. -/
inductive NestedWithin : Nat → Value → Prop where
  | null {room : Nat} : NestedWithin room .null
  | bool {room : Nat} (b : Bool) : NestedWithin room (.bool b)
  | number {room : Nat} (x : Binary64) : NestedWithin room (.number x)
  | string {room : Nat} (text : String) : NestedWithin room (.string text)
  | array {room : Nat} {items : List Value} (inner : ∀ item ∈ items, NestedWithin room item) :
      NestedWithin (room + 1) (.array items)
  | object {room : Nat} {fields : List (String × Value)}
      (inner : ∀ entry ∈ fields, NestedWithin room entry.2) :
      NestedWithin (room + 1) (.object fields)

/-- A reader of numerals gives back the numbers of a value from the numerals they are written as. -/
def ReadBack (read : Numeral → Option Binary64) (value : Value) : Prop :=
  ∀ x ∈ value.numbers, x.isFinite = true → read (.ofBinary64 x) = some x

instance (read : Numeral → Option Binary64) (value : Value) : Decidable (value.ReadBack read) :=
  inferInstanceAs (Decidable (∀ x ∈ value.numbers, _))

theorem mem_itemNumbers {items : List Value} {x : Binary64} :
    x ∈ itemNumbers items ↔ ∃ item ∈ items, x ∈ item.numbers := by
  induction items with
  | nil => simp [itemNumbers]
  | cons item rest ih => simp [itemNumbers, ih]

theorem mem_fieldNumbers {fields : List (String × Value)} {x : Binary64} :
    x ∈ fieldNumbers fields ↔ ∃ entry ∈ fields, x ∈ entry.2.numbers := by
  induction fields with
  | nil => simp [fieldNumbers]
  | cons entry rest ih => simp [fieldNumbers, ih]

theorem storedItems_eq_map (items : List Value) : storedItems items = items.map stored := by
  induction items with
  | nil => rfl
  | cons item rest ih => simp [storedItems, ih]

theorem storedFields_eq_map (fields : List (String × Value)) :
    storedFields fields = fields.map fun entry => (entry.1, entry.2.stored) := by
  induction fields with
  | nil => rfl
  | cons entry rest ih => simp [storedFields, ih]

/-- A value in which all numbers are finite is kept as it is. -/
theorem stored_eq_self {value : Value} (finite : ∀ x ∈ value.numbers, x.isFinite = true) :
    value.stored = value := by
  induction value using Value.induction with
  | null => rfl
  | bool b => rfl
  | number x => rw [stored, if_pos (finite x List.mem_cons_self)]
  | string text => rfl
  | array items ih =>
      have each : items.map stored = items.map id := by
        apply List.map_congr_left
        intro item member
        exact ih item member fun x inside => finite x (mem_itemNumbers.2 ⟨item, member, inside⟩)
      rw [stored, storedItems_eq_map, each, List.map_id]
  | object fields ih =>
      have each : (fields.map fun entry => (entry.1, entry.2.stored)) = fields.map id := by
        apply List.map_congr_left
        intro entry member
        have same := ih entry member fun x inside =>
          finite x (mem_fieldNumbers.2 ⟨entry, member, inside⟩)
        rw [same]
        rfl
      rw [stored, storedFields_eq_map, each, List.map_id]

/-! ### Documents of values -/

theorem itemsToJson_eq_map (items : List Value) : itemsToJson items = items.map toJson := by
  induction items with
  | nil => rfl
  | cons item rest ih => simp [itemsToJson, ih]

theorem fieldsToJson_eq_map (fields : List (String × Value)) :
    fieldsToJson fields = fields.map fun entry => (some entry.1, entry.2.toJson) := by
  induction fields with
  | nil => rfl
  | cons entry rest ih => simp [fieldsToJson, ih]

/-- The document of a value can be read from its text. -/
theorem proper_toJson (value : Value) : value.toJson.Proper := by
  induction value using Value.induction with
  | null => exact .null
  | bool b => exact .bool b
  | number x =>
      rw [toJson]
      split
      · rename_i finite
        exact .number (Numeral.proper_ofBinary64 finite)
      · exact .null
  | string text => exact .string text
  | array items ih =>
      rw [toJson, itemsToJson_eq_map]
      apply Json.Proper.array
      exact List.forall_mem_map.2 ih
  | object fields ih =>
      rw [toJson, fieldsToJson_eq_map]
      apply Json.Proper.object
      · exact List.forall_mem_map.2 fun _ _ => rfl
      · exact List.forall_mem_map.2 ih

end Value

namespace Json

open Value

variable {read : Numeral → Option Binary64}

/-- The items of an array are read one by one. -/
theorem itemsWithin_eq_some_iff {room : Nat} {items : List Json} {values : List Value} :
    itemsWithin read room items = some values ↔ items.length = values.length ∧
      ∀ pair ∈ items.zip values, valueWithin read room pair.1 = some pair.2 := by
  induction items generalizing values with
  | nil => cases values <;> simp [itemsWithin]
  | cons item rest ih =>
      cases values with
      | nil => simp [itemsWithin, Option.bind_eq_some_iff]
      | cons value others =>
          simp only [itemsWithin, Option.bind_eq_bind, Option.bind_eq_some_iff, ih,
            List.length_cons, List.zip_cons_cons, List.forall_mem_cons]
          constructor
          · rintro ⟨_, first, _, ⟨length, each⟩, ⟨⟩⟩
            exact ⟨congrArg Nat.succ length, first, each⟩
          · rintro ⟨length, first, each⟩
            exact ⟨value, first, others, ⟨Nat.succ.inj length, each⟩, rfl⟩

/-- The members of an object are read one by one. -/
theorem fieldsWithin_eq_some_iff {room : Nat} {members : List (JsonText × Json)}
    {pairs : List (String × Value)} :
    fieldsWithin read room members = some pairs ↔
      members.map Prod.fst = pairs.map (fun pair => some pair.1) ∧
      ∀ pair ∈ members.zip pairs, valueWithin read room pair.1.2 = some pair.2.2 := by
  induction members generalizing pairs with
  | nil => cases pairs <;> simp [fieldsWithin]
  | cons entry rest ih =>
      obtain ⟨name, json⟩ := entry
      cases pairs with
      | nil => simp [fieldsWithin, Option.bind_eq_some_iff]
      | cons pair others =>
          obtain ⟨text, value⟩ := pair
          simp only [fieldsWithin, Option.bind_eq_bind, Option.bind_eq_some_iff, ih,
            List.map_cons, List.cons.injEq, List.zip_cons_cons, List.forall_mem_cons]
          constructor
          · rintro ⟨_, known, _, first, _, ⟨names, each⟩, ⟨⟩⟩
            exact ⟨⟨known, names⟩, first, each⟩
          · rintro ⟨⟨known, names⟩, first, each⟩
            exact ⟨text, known, value, first, others, ⟨names, each⟩, rfl⟩

/-- An array is read if there is room for one and its items are read with the room that is left. -/
theorem valueWithin_array_iff {room : Nat} {items : List Json} {value : Value} :
    valueWithin read room (.array items) = some value ↔
      ∃ fewer values, room = fewer + 1 ∧ value = .array values ∧ items.length = values.length ∧
        ∀ pair ∈ items.zip values, valueWithin read fewer pair.1 = some pair.2 := by
  cases room with
  | zero =>
      constructor
      · exact nofun
      · rintro ⟨_, _, ⟨⟩, _⟩
  | succ room =>
      rw [valueWithin, if_neg (Nat.succ_ne_zero room), Nat.add_sub_cancel, Option.map_eq_some_iff]
      simp only [itemsWithin_eq_some_iff]
      constructor
      · rintro ⟨values, known, rfl⟩
        exact ⟨room, values, rfl, rfl, known⟩
      · rintro ⟨_, values, ⟨⟩, rfl, known⟩
        exact ⟨values, known, rfl⟩

/-- An object is read if there is room for one and its members are read with the room that is
left. -/
theorem valueWithin_object_iff {room : Nat} {members : List (JsonText × Json)} {value : Value} :
    valueWithin read room (.object members) = some value ↔
      ∃ fewer pairs, room = fewer + 1 ∧ value = .ofPairs pairs ∧
        members.map Prod.fst = pairs.map (fun pair => some pair.1) ∧
        ∀ pair ∈ members.zip pairs, valueWithin read fewer pair.1.2 = some pair.2.2 := by
  cases room with
  | zero =>
      constructor
      · exact nofun
      · rintro ⟨_, _, ⟨⟩, _⟩
  | succ room =>
      rw [valueWithin, if_neg (Nat.succ_ne_zero room), Nat.add_sub_cancel, Option.map_eq_some_iff]
      simp only [fieldsWithin_eq_some_iff]
      constructor
      · rintro ⟨pairs, known, rfl⟩
        exact ⟨room, pairs, rfl, rfl, known⟩
      · rintro ⟨_, pairs, ⟨⟩, rfl, known⟩
        exact ⟨pairs, known, rfl⟩

/-- What is read from the document of a value is what the document keeps of it. -/
theorem valueWithin_toJson {value : Value} {room : Nat} (proper : value.Proper)
    (nested : value.NestedWithin room) (back : value.ReadBack read) :
    valueWithin read room value.toJson = some value.stored := by
  induction value using Value.induction generalizing room with
  | null => rfl
  | bool b => rfl
  | number x =>
      rw [toJson, stored]
      split
      · rename_i finite
        rw [valueWithin, back x List.mem_cons_self finite]
        rfl
      · rfl
  | string text => rfl
  | array items ih =>
      cases nested with
      | @array room _ inner =>
          rw [toJson, itemsToJson_eq_map, stored, storedItems_eq_map, valueWithin_array_iff]
          refine ⟨room, _, rfl, rfl, by simp, ?_⟩
          rw [List.zip_map', List.forall_mem_map]
          intro item member
          apply ih item member (proper.item member) (inner item member)
          exact fun x inside => back x (mem_itemNumbers.2 ⟨item, member, inside⟩)
  | object fields ih =>
      cases nested with
      | @object room _ inner =>
          have once : ((fields.map fun entry => (entry.1, entry.2.stored)).map Prod.fst).Nodup := by
            rw [List.map_map]
            exact proper.once
          rw [toJson, fieldsToJson_eq_map, stored, storedFields_eq_map, valueWithin_object_iff]
          refine ⟨room, _, rfl, by rw [ofPairs, Fields.ofPairs_of_nodup once], by simp, ?_⟩
          rw [List.zip_map', List.forall_mem_map]
          intro entry member
          apply ih entry member (proper.field member) (inner entry member)
          exact fun x inside => back x (mem_fieldNumbers.2 ⟨entry, member, inside⟩)

/-! ### Values of documents -/

/-- What holds of the second of any two that stand side by side holds of all in the second place. -/
theorem forall_mem_of_zip {α β : Type} {p : β → Prop} {first : List α} {second : List β}
    (length : first.length = second.length) (each : ∀ pair ∈ first.zip second, p pair.2) :
    ∀ item ∈ second, p item := by
  intro item among
  rw [← List.map_snd_zip (Nat.le_of_eq length.symm)] at among
  obtain ⟨pair, member, rfl⟩ := List.mem_map.1 among
  exact each pair member

/-- What holds of every value that is read without parts, and of arrays and objects if it holds of
the values that are read for their parts, holds of every value that is read. -/
theorem of_valueWithin {motive : Nat → Value → Prop} (null : ∀ room, motive room .null)
    (bool : ∀ room b, motive room (.bool b))
    (number : ∀ room numeral x, read numeral = some x → motive room (.number x))
    (string : ∀ room text, motive room (.string text))
    (array : ∀ room items, (∀ item ∈ items, motive room item) → motive (room + 1) (.array items))
    (object : ∀ room pairs,
      (∀ pair ∈ pairs, motive room pair.2) → motive (room + 1) (.ofPairs pairs))
    {json : Json} {room : Nat} {value : Value} (known : valueWithin read room json = some value) :
    motive room value := by
  induction json using Json.induction generalizing room value with
  | null =>
      cases known
      exact null room
  | bool b =>
      cases known
      exact bool room b
  | number numeral =>
      obtain ⟨x, reads, rfl⟩ := Option.map_eq_some_iff.1 known
      exact number room numeral x reads
  | string text =>
      obtain ⟨text, rfl, rfl⟩ := Option.map_eq_some_iff.1 known
      exact string room text
  | array items ih =>
      obtain ⟨fewer, values, rfl, rfl, length, each⟩ := valueWithin_array_iff.1 known
      apply array
      apply forall_mem_of_zip (p := motive fewer) length
      exact fun pair member => ih pair.1 (List.of_mem_zip member).1 (each pair member)
  | object members ih =>
      obtain ⟨fewer, pairs, rfl, rfl, names, each⟩ := valueWithin_object_iff.1 known
      have length : members.length = pairs.length := by simpa using congrArg List.length names
      apply object
      apply forall_mem_of_zip (p := fun pair => motive fewer pair.2) length
      exact fun pair member => ih pair.1 (List.of_mem_zip member).1 (each pair member)

section

variable {json : Json} {room : Nat} {value : Value}
  (known : valueWithin read room json = some value)

include known

theorem proper_of_valueWithin : value.Proper := by
  apply of_valueWithin (motive := fun _ value => value.Proper) _ _ _ _ _ _ known
  · exact fun _ => .null
  · exact fun _ b => .bool b
  · exact fun _ _ x _ => .number x
  · exact fun _ text => .string text
  · exact fun _ _ inner => .array inner
  · exact fun _ _ inner => .ofPairs inner

theorem nestedWithin_of_valueWithin : value.NestedWithin room := by
  apply of_valueWithin _ _ _ _ _ _ known
  · exact fun _ => .null
  · exact fun _ b => .bool b
  · exact fun _ _ x _ => .number x
  · exact fun _ text => .string text
  · exact fun _ _ inner => .array inner
  · intro room pairs inner
    exact .object fun entry member => inner entry (Fields.mem_of_mem_ofPairs member)

/-- If the reader of numerals gives finite numbers only, there are no others in what is read. -/
theorem finite_of_valueWithin
    (finite : ∀ numeral x, read numeral = some x → x.isFinite = true) :
    ∀ x ∈ value.numbers, x.isFinite = true := by
  apply of_valueWithin (motive := fun _ value => ∀ x ∈ value.numbers, x.isFinite = true)
    _ _ _ _ _ _ known
  · exact fun _ => nofun
  · exact fun _ _ => nofun
  · intro room numeral x reads
    simpa [numbers] using finite numeral x reads
  · exact fun _ _ => nofun
  · intro room items inner x member
    obtain ⟨item, among, inside⟩ := mem_itemNumbers.1 member
    exact inner item among x inside
  · intro room pairs inner x member
    obtain ⟨entry, among, inside⟩ := mem_fieldNumbers.1 member
    exact inner entry (Fields.mem_of_mem_ofPairs among) x inside

end

/-- What a document says, where a reader tells the numbers that numerals denote. Of members of one
name the first has the place in the object and the last the value. -/
inductive Denotes (read : Numeral → Option Binary64) : Json → Value → Prop where
  | null : Denotes read .null .null
  | bool (b : Bool) : Denotes read (.bool b) (.bool b)
  | number {numeral : Numeral} {x : Binary64} (reads : read numeral = some x) :
      Denotes read (.number numeral) (.number x)
  | string (text : String) : Denotes read (.string (some text)) (.string text)
  | array {items : List Json} {values : List Value} (length : items.length = values.length)
      (each : ∀ pair ∈ items.zip values, Denotes read pair.1 pair.2) :
      Denotes read (.array items) (.array values)
  | object {members : List (JsonText × Json)} {pairs fields : List (String × Value)}
      (names : members.map Prod.fst = pairs.map fun pair => some pair.1)
      (each : ∀ pair ∈ members.zip pairs, Denotes read pair.1.2 pair.2.2)
      (first : fields.map Prod.fst = (pairs.map Prod.fst).eraseDups)
      (last : ∀ name, Fields.find? name fields = Fields.find? name pairs.reverse) :
      Denotes read (.object members) (.object fields)

/-- The value that is read from a document is what the document says. -/
theorem denotes_of_valueWithin {json : Json} {room : Nat} {value : Value}
    (known : valueWithin read room json = some value) : json.Denotes read value := by
  induction json using Json.induction generalizing room value with
  | null =>
      cases known
      exact .null
  | bool b =>
      cases known
      exact .bool b
  | number numeral =>
      obtain ⟨x, reads, rfl⟩ := Option.map_eq_some_iff.1 known
      exact .number reads
  | string text =>
      obtain ⟨text, rfl, rfl⟩ := Option.map_eq_some_iff.1 known
      exact .string text
  | array items ih =>
      obtain ⟨_, values, _, rfl, length, each⟩ := valueWithin_array_iff.1 known
      apply Denotes.array length
      exact fun pair member => ih pair.1 (List.of_mem_zip member).1 (each pair member)
  | object members ih =>
      obtain ⟨_, pairs, _, rfl, names, each⟩ := valueWithin_object_iff.1 known
      apply Denotes.object names _ (Fields.names_ofPairs pairs) fun name =>
        Fields.find?_ofPairs name pairs
      exact fun pair member => ih pair.1 (List.of_mem_zip member).1 (each pair member)

end Json

/-! ### Writing and reading -/

namespace Value

/-- The text that a value is stored as. -/
def toText (value : Value) : String :=
  value.toJson.render

/-- The value that a text is read as. -/
def ofText? (read : Numeral → Option Binary64) (text : String) : Option Value :=
  (Json.read? text).bind (Json.valueWithin read Json.maxNesting)

/-- What is read from the text of a value is what its document keeps of it. -/
theorem ofText?_toText {read : Numeral → Option Binary64} {value : Value} (proper : value.Proper)
    (nested : value.NestedWithin Json.maxNesting) (back : value.ReadBack read) :
    ofText? read value.toText = some value.stored := by
  rw [ofText?, toText, Json.read?_render value.proper_toJson, Option.bind_some]
  exact Json.valueWithin_toJson proper nested back

/-- With numerals rounded once, every value is kept but for numbers that are not finite. -/
theorem ofText?_toText_nearest {value : Value} (proper : value.Proper)
    (nested : value.NestedWithin Json.maxNesting) :
    ofText? Numeral.nearest? value.toText = some value.stored :=
  ofText?_toText proper nested fun _ _ => Numeral.nearest?_ofBinary64

end Value

/-- A value that is read from a text is what the text says, and if it is written and read again it
is the same. Of any value whose objects do not repeat names and which is not nested too deeply, all
is kept but the numbers that are not finite, which become null. The reader of numerals must give
finite numbers only and read the numbers of the value back. -/
theorem value_reload (read : Numeral → Option Binary64)
    (finite : ∀ numeral x, read numeral = some x → x.isFinite = true) :
    (∀ text value, Value.ofText? read text = some value → value.ReadBack read →
      (∃ json, Json.read? text = some json ∧ json.Denotes read value) ∧
        Value.ofText? read value.toText = some value) ∧
    ∀ value : Value, value.Proper → value.NestedWithin Json.maxNesting → value.ReadBack read →
      Value.ofText? read value.toText = some value.stored := by
  refine ⟨fun text value known back => ?_, fun value => Value.ofText?_toText⟩
  obtain ⟨json, written, known⟩ := Option.bind_eq_some_iff.1 known
  refine ⟨⟨json, written, Json.denotes_of_valueWithin known⟩, ?_⟩
  rw [Value.ofText?_toText (Json.proper_of_valueWithin known)
    (Json.nestedWithin_of_valueWithin known) back,
    Value.stored_eq_self (Json.finite_of_valueWithin known finite)]

/-- An object that repeats a name, with escapes, an empty name, and numbers in several forms. -/
def repeatedName : String :=
  "\x7b \"b\": [1.5, \"\\u0000\\\"\", null], \"a\": -1e2, \"b\": \x7b\"\": [0.1, \"\\t\"]\x7d\x7d"

/-- An array with a number, a number that is infinite and one that is none. -/
def withoutNumber : Value :=
  .array [.number (.ofNat 3), .number ⟨0x7FF0000000000000⟩, .number ⟨0x7FF8000000000000⟩]

theorem repeated_name_reload :
    (∀ numeral x, Numeral.toBinary64? numeral = some x → x.isFinite = true) ∧
    (∃ value, Value.ofText? Numeral.toBinary64? repeatedName = some value ∧
      value.toText = "\x7b\"b\":\x7b\"\":[0.1,\"\\t\"]\x7d,\"a\":-100.0\x7d" ∧
      (∃ json, Json.read? repeatedName = some json ∧ json.Denotes Numeral.toBinary64? value) ∧
      Value.ofText? Numeral.toBinary64? value.toText = some value) ∧
    Value.ofText? Numeral.toBinary64? withoutNumber.toText =
      some (.array [.number (.ofNat 3), .null, .null]) := by
  have finite : ∀ numeral x, Numeral.toBinary64? numeral = some x → x.isFinite = true :=
    fun _ _ => Numeral.isFinite_of_toBinary64?
  obtain ⟨reloaded, kept⟩ := value_reload Numeral.toBinary64? finite
  have read : (Value.ofText? Numeral.toBinary64? repeatedName).any (fun value =>
      decide (value.ReadBack Numeral.toBinary64?) &&
        value.toText == "\x7b\"b\":\x7b\"\":[0.1,\"\\t\"]\x7d,\"a\":-100.0\x7d") = true := by
    decide +kernel
  refine ⟨finite, ?_, ?_⟩
  · obtain ⟨value, known, checked⟩ := (Option.any_eq_true ..).1 read
    obtain ⟨back, text⟩ := Bool.and_eq_true_iff.1 checked
    exact ⟨value, known, beq_iff_eq.1 text,
      reloaded repeatedName value known (of_decide_eq_true back)⟩
  · have proper : withoutNumber.Proper := by
      apply Value.Proper.array
      simp only [List.forall_mem_cons]
      exact ⟨.number _, .number _, .number _, nofun⟩
    have nested : withoutNumber.NestedWithin Json.maxNesting := by
      apply Value.NestedWithin.array
      simp only [List.forall_mem_cons]
      exact ⟨.number _, .number _, .number _, nofun⟩
    exact kept withoutNumber proper nested (by decide +kernel)

end Quire
