/-
Module: Quire.Proofs.Storage
Purpose: Sources, settings and shelves that are written as documents and read again are what they
  were, and engines over the same shelf do the same.
Main exports: Json.toSource?_toJson, Json.toConfig?_toJson, Json.toShelf?_toJson, Shelf.Same,
  storage_reload
-/
import Quire.Proofs.ValueDocuments
import Quire.Stage

/-!
Documents of sources and settings are objects with fixed names. The readers take more than is
written: members of other names, parts that are missing, parts without names in an array. What they
make of it is a source, a shelf or settings all the same, so that only what is written needs to be
read back. A shelf has no order of its own, and its templates may be written in any.
-/

namespace Quire

namespace Json

/-! ### Objects with fixed names -/

/-- Items that are each read back are read back together. -/
theorem mapM_map_eq_some {α β : Type} {f : β → Option α} {g : α → β} {items : List α}
    (reads : ∀ item ∈ items, f (g item) = some item) : (items.map g).mapM f = some items := by
  induction items with
  | nil => rfl
  | cons item rest ih =>
      obtain ⟨first, others⟩ := List.forall_mem_cons.1 reads
      simp [List.mapM_cons, first, ih others]

theorem named?_ofMembers (members : List (String × Json)) :
    named? (members.map fun member => (some member.1, member.2)) = some members :=
  mapM_map_eq_some fun _ _ => rfl

/-- An object has a document that can be read if the values of its members do. -/
theorem proper_ofMembers {members : List (String × Json)}
    (inner : ∀ member ∈ members, member.2.Proper) : (ofMembers members).Proper := by
  apply Proper.object
  · exact List.forall_mem_map.2 fun _ _ => rfl
  · exact List.forall_mem_map.2 inner

theorem parts?_single (name : String) (json : Json) :
    parts? [name] (ofMembers [(name, json)]) = some [some json] := by
  have known := named?_ofMembers [(name, json)]
  simp only [List.map_cons, List.map_nil] at known
  simp [parts?, ofMembers, known]

theorem parts?_pair {first second : String} (different : first ≠ second) (json other : Json) :
    parts? [first, second] (ofMembers [(first, json), (second, other)]) =
      some [some json, some other] := by
  have known := named?_ofMembers [(first, json), (second, other)]
  simp only [List.map_cons, List.map_nil] at known
  simp [parts?, ofMembers, known, different, Ne.symm different]

end Json

/-! ### Sources -/

theorem Lexeme.proper_toJson (lexeme : Lexeme) : lexeme.toJson.Proper := by
  cases lexeme with
  | text content => exact Json.proper_ofMembers (by simpa using .string content)
  | value path => exact Json.proper_ofMembers (by simpa using .string path)
  | opening name params =>
      have parts :
          (Json.ofMembers [("name", .ofText name), ("params", .ofText params)]).Proper := by
        apply Json.proper_ofMembers
        simp only [List.forall_mem_cons]
        exact ⟨.string name, .string params, nofun⟩
      exact Json.proper_ofMembers (by simpa using parts)
  | closing name =>
      have parts : (Json.ofMembers [("name", .ofText name)]).Proper :=
        Json.proper_ofMembers (by simpa using .string name)
      exact Json.proper_ofMembers (by simpa using parts)

theorem Source.proper_toJson (source : Source) : source.toJson.Proper :=
  .array (List.forall_mem_map.2 fun lexeme _ => lexeme.proper_toJson)

namespace Json

/-- A lexeme is read back from its document. -/
theorem toLexeme?_toJson (lexeme : Lexeme) : toLexeme? lexeme.toJson = some lexeme := by
  cases lexeme with
  | text content => rfl
  | value path => rfl
  | opening name params =>
      have parts := parts?_pair (by decide : "name" ≠ "params") (.ofText name) (.ofText params)
      simp only [Lexeme.toJson, toLexeme?, ofMembers, List.map_cons, List.map_nil] at parts ⊢
      rw [parts]
      rfl
  | closing name =>
      have parts := parts?_single "name" (.ofText name)
      simp only [Lexeme.toJson, toLexeme?, ofMembers, List.map_cons, List.map_nil] at parts ⊢
      rw [parts]
      rfl

/-- A source is read back from its document. -/
theorem toSource?_toJson (source : Source) : toSource? source.toJson = some source := by
  have each := mapM_map_eq_some fun lexeme (_ : lexeme ∈ source.lexemes) => toLexeme?_toJson lexeme
  rw [Source.toJson, toSource?, each]
  rfl

end Json

/-! ### Settings -/

theorem Config.proper_toJson (config : Config) : config.toJson.Proper := by
  apply Json.proper_ofMembers
  simp only [List.forall_mem_cons]
  exact ⟨.number (Numeral.proper_ofNat _), .string _, nofun⟩

namespace Json

theorem toMissingInclude?_name (policy : MissingInclude) :
    toMissingInclude? (.ofText policy.name) = some policy := by
  cases policy <;> rfl

/-- Settings are read back from their document, if their depth is a word. -/
theorem toConfig?_toJson {config : Config} (word : config.maxDepth < twoTo 64) :
    toConfig? config.toJson = some config := by
  have parts := parts?_pair (by decide : "max_depth" ≠ "missing_include")
    (.number (.ofNat config.maxDepth)) (.ofText config.missingInclude.name)
  rw [Config.toJson, toConfig?, parts]
  simp [toWord?, Numeral.toWord?_ofNat word, toMissingInclude?_name]

theorem lt_of_toWord? {json : Json} {n : Nat} (read : json.toWord? = some n) : n < twoTo 64 := by
  cases json with
  | number numeral =>
      simp only [toWord?, Numeral.toWord?] at read
      split at read
      · split at read
        · rename_i word
          cases read
          exact word
        · cases read
      · cases read
  | null | bool | string | array | object => cases read

/-- The depth in settings that are read is a word. -/
theorem maxDepth_of_toConfig? {json : Json} {config : Config}
    (known : toConfig? json = some config) : config.maxDepth < twoTo 64 := by
  simp only [toConfig?, Option.bind_eq_bind, Option.bind_eq_some_iff] at known
  obtain ⟨parts, _, known⟩ := known
  split at known
  · rename_i depth policy _
    cases depth with
    | none =>
        obtain ⟨maxDepth, read, known⟩ := Option.bind_eq_some_iff.1 known
        have word : 32 < twoTo 64 := by decide
        cases read
        cases policy with
        | none =>
            cases known
            exact word
        | some policy =>
            obtain ⟨_, _, done⟩ := Option.bind_eq_some_iff.1 known
            cases done
            exact word
    | some depth =>
        obtain ⟨maxDepth, read, known⟩ := Option.bind_eq_some_iff.1 known
        have word := lt_of_toWord? read
        cases policy with
        | none =>
            cases known
            exact word
        | some policy =>
            obtain ⟨_, _, done⟩ := Option.bind_eq_some_iff.1 known
            cases done
            exact word
  · cases known

end Json

/-! ### Shelves -/

namespace Fields

variable {α : Type}

/-- In whatever order fields of different names are, the same is found under each name. -/
theorem find?_perm {fields others : Fields α} (once : (others.map Prod.fst).Nodup)
    (same : fields.Perm others) (name : String) : find? name fields = find? name others := by
  cases found : find? name others with
  | none =>
      rw [find?_eq_none_iff] at found ⊢
      exact fun value member => found value (same.mem_iff.1 member)
  | some value =>
      have once' : (fields.map Prod.fst).Nodup := (same.map Prod.fst).nodup_iff.2 once
      exact find?_of_mem once' (same.mem_iff.2 (mem_of_find? found))

end Fields

/-- The templates of a shelf have different names. -/
def Shelf.Proper (shelf : Shelf) : Prop :=
  (shelf.templates.map Prod.fst).Nodup

instance (shelf : Shelf) : Decidable shelf.Proper :=
  inferInstanceAs (Decidable (shelf.templates.map Prod.fst).Nodup)

theorem Shelf.proper_empty : Shelf.empty.Proper :=
  List.nodup_nil

theorem Shelf.Proper.add {shelf : Shelf} (proper : shelf.Proper) (name : String) (source : Source) :
    (shelf.add name source).Proper :=
  Fields.nodup_put proper

/-- However templates are put on a shelf, their names are different. -/
theorem Shelf.proper_ofPairs (templates : List (String × Source)) :
    (Shelf.ofPairs templates).Proper :=
  Fields.nodup_ofPairs templates

theorem Shelf.toJson_eq (shelf : Shelf) : shelf.toJson = .ofMembers [("templates",
    .ofMembers (shelf.templates.map fun entry => (entry.1, entry.2.toJson)))] :=
  rfl

theorem Shelf.proper_toJson (shelf : Shelf) : shelf.toJson.Proper := by
  have templates : (Json.ofMembers (shelf.templates.map fun entry =>
      (entry.1, entry.2.toJson))).Proper :=
    Json.proper_ofMembers (List.forall_mem_map.2 fun entry _ => entry.2.proper_toJson)
  rw [Shelf.toJson_eq]
  exact Json.proper_ofMembers (by simpa using templates)

namespace Json

/-- A shelf whose templates have different names is read back from its document. -/
theorem toShelf?_toJson {shelf : Shelf} (once : shelf.Proper) :
    toShelf? shelf.toJson = some shelf := by
  have named := named?_ofMembers (shelf.templates.map fun entry => (entry.1, entry.2.toJson))
  have templates : (shelf.templates.map fun entry => (entry.1, entry.2.toJson)).mapM
      (fun member : String × Json =>
        member.2.toSource?.map fun source => (member.1, source)) =
        some shelf.templates :=
    mapM_map_eq_some fun entry _ => by simp [toSource?_toJson]
  have read : ((named? ((shelf.templates.map fun entry => (entry.1, entry.2.toJson)).map
      fun member => (some member.1, member.2))).bind fun members =>
        (members.mapM fun member : String × Json =>
          member.2.toSource?.map fun source => (member.1, source)).bind
            fun templates => some (Shelf.ofPairs templates)) = some shelf := by
    rw [named, Option.bind_some, templates, Option.bind_some, Shelf.ofPairs,
      Fields.ofPairs_of_nodup once]
  rw [Shelf.toJson_eq, toShelf?, parts?_single]
  exact read

end Json

/-! ### Writing and reading -/

/-- What is read from the text that something is written as. -/
def Json.reload {α : Type} (toJson : α → Json) (ofJson? : Json → Option α) (written : α) :
    Option α :=
  (Json.read? (toJson written).render).bind ofJson?

theorem Json.reload_eq {α : Type} {toJson : α → Json} {ofJson? : Json → Option α} {written : α}
    (proper : (toJson written).Proper) :
    Json.reload toJson ofJson? written = ofJson? (toJson written) := by
  rw [Json.reload, Json.read?_render proper, Option.bind_some]

/-- An engine that finds its templates on a shelf. -/
def Engine.over (shelf : Shelf) (config : Config) (openings : Nat) : Engine :=
  ⟨shelf.find?, config, openings⟩

/-- Two shelves serve alike: both have the same templates, and engines over them load, build and
render the same. -/
structure Shelf.Alike (shelf other : Shelf) : Prop where
  find : ∀ name, shelf.find? name = other.find? name
  has : ∀ name, shelf.has name = other.has name
  load : ∀ config openings entry,
    (Engine.over shelf config openings).load entry = (Engine.over other config openings).load entry
  build : ∀ config openings entry source,
    (Engine.over shelf config openings).build entry source =
      (Engine.over other config openings).build entry source
  render : ∀ config openings entry context,
    (Engine.over shelf config openings).render entry context =
      (Engine.over other config openings).render entry context

/-- Shelves on which the same is found serve alike. -/
theorem Shelf.alike_of_find? {shelf other : Shelf}
    (same : ∀ name, shelf.find? name = other.find? name) : shelf.Alike other := by
  have engines : ∀ config openings, Engine.over shelf config openings =
      Engine.over other config openings := by
    intro config openings
    rw [Engine.over, Engine.over, funext same]
  constructor
  · exact same
  · intro name
    rw [Shelf.has, Shelf.has, same]
  · intro config openings entry
    rw [engines]
  · intro config openings entry source
    rw [engines]
  · intro config openings entry context
    rw [engines]

/-- Sources and settings that are written and read again are the same, whether they were made or had
themselves been read from a text; the depth in the settings must be a word. A shelf may be written
with its templates in any order, and what is read then serves as the shelf does. -/
theorem storage_reload :
    (∀ source, Json.reload Source.toJson Json.toSource? source = some source) ∧
    (∀ config : Config, config.maxDepth < twoTo 64 →
      Json.reload Config.toJson Json.toConfig? config = some config) ∧
    (∀ text source, (Json.read? text).bind Json.toSource? = some source →
      Json.reload Source.toJson Json.toSource? source = some source) ∧
    (∀ text config, (Json.read? text).bind Json.toConfig? = some config →
      Json.reload Config.toJson Json.toConfig? config = some config) ∧
    ∀ shelf listed : Shelf, shelf.Proper → listed.templates.Perm shelf.templates →
      ∃ reloaded, Json.reload Shelf.toJson Json.toShelf? listed = some reloaded ∧
        reloaded.Alike shelf := by
  have sources : ∀ source, Json.reload Source.toJson Json.toSource? source = some source := by
    intro source
    rw [Json.reload_eq source.proper_toJson, Json.toSource?_toJson]
  have settings : ∀ config : Config, config.maxDepth < twoTo 64 →
      Json.reload Config.toJson Json.toConfig? config = some config := by
    intro config word
    rw [Json.reload_eq config.proper_toJson, Json.toConfig?_toJson word]
  refine ⟨sources, settings, fun _ source _ => sources source, ?_, ?_⟩
  · intro text config known
    obtain ⟨json, _, known⟩ := Option.bind_eq_some_iff.1 known
    exact settings config (Json.maxDepth_of_toConfig? known)
  · intro shelf listed once same
    have once' : listed.Proper := (same.map Prod.fst).nodup_iff.2 once
    refine ⟨listed, ?_, Shelf.alike_of_find? (Fields.find?_perm once same)⟩
    rw [Json.reload_eq listed.proper_toJson, Json.toShelf?_toJson once']

/-- A page that goes through a list, and a part of it that is no more than an empty text. -/
def listedPage : Shelf :=
  .ofPairs [
    ("page", .ofList [.opening "for" "x in \u0001xs", .value "x", .closing "for"]),
    ("", .ofText "")]

theorem listed_page_reload :
    Json.reload Config.toJson Json.toConfig? ⟨7, .error⟩ = some ⟨7, .error⟩ ∧
    (Json.read? "\x7b\"missing_include\": \x7b\"Error\": null\x7d, \"depth\": [1]\x7d").bind
      Json.toConfig? = some ⟨32, .error⟩ ∧
    Json.reload Config.toJson Json.toConfig? ⟨32, .error⟩ = some ⟨32, .error⟩ ∧
    (Json.read? "[\x7b\"Open\": [\"for\", \"x in xs\"]\x7d]").bind Json.toSource? =
      some (.ofList [.opening "for" "x in xs"]) ∧
    Json.reload Source.toJson Json.toSource? (.ofList [.opening "for" "x in xs"]) =
      some (.ofList [.opening "for" "x in xs"]) ∧
    ∃ reloaded, Json.reload Shelf.toJson Json.toShelf? ⟨listedPage.templates.reverse⟩ =
      some reloaded ∧ reloaded.Alike listedPage := by
  obtain ⟨_, settings, sources, read, shelves⟩ := storage_reload
  have config : (Json.read?
      "\x7b\"missing_include\": \x7b\"Error\": null\x7d, \"depth\": [1]\x7d").bind Json.toConfig? =
        some ⟨32, .error⟩ := by decide +kernel
  have source : (Json.read? "[\x7b\"Open\": [\"for\", \"x in xs\"]\x7d]").bind Json.toSource? =
      some (.ofList [.opening "for" "x in xs"]) := by decide +kernel
  exact ⟨settings ⟨7, .error⟩ (by decide), config, read _ _ config, source, sources _ _ source,
    shelves listedPage _ (by decide +kernel) (List.reverse_perm _)⟩

end Quire
