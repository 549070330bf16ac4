/-
Module: Quire.Proofs.LoopNames
Purpose: What the names of a loop mean in its rounds, and what becomes of names that clash.
Main exports: Loop.isName_of_parse, Context.lookup_name, Loop.contexts, Loop.Visible,
  Loop.visible_iff, loop_variables_visible
-/
import Quire.Proofs.LoopRounds
import Quire.Proofs.Paths

/-!
A round puts the entry, its index and the state of the loop into one scope, each under its name. As
the parameters are read, each name is a single segment of a path, so looking it up is looking into
that scope. Nothing there keeps the names apart from one another: all three are seen if they differ,
and where two are equal only the one that is put in later is.
-/

namespace Quire

/-! ### Names as paths -/

theorem Text.runs_of_notMem {mark : Char} {cs : List Char} (absent : mark ∉ cs) :
    runs mark cs = [cs] := by
  induction cs with
  | nil => rfl
  | cons c cs ih =>
      obtain ⟨other, others⟩ := not_or.1 (List.mem_cons.not.1 absent)
      simp [runs, Ne.symm other, ih others]

/-- A name is a path of one segment. -/
theorem Text.pieces_of_isName {name : String} (isName : Path.IsName name.toList) :
    pieces '.' name = [name] := by
  have absent : '.' ∉ name.toList := by
    intro member
    exact nomatch isName.word '.' member
  simp [pieces, runs_of_notMem absent]

/-- The path of a single name leads to the variable of that name. -/
theorem Context.lookup_name {name : String} (isName : Path.IsName name.toList) (context : Context) :
    context.lookup name = context.find? name := by
  simp only [lookup, Text.pieces_of_isName isName, List.foldlM_nil]
  cases context.find? name <;> rfl

namespace Loop

/-- The names that a loop binds, in the order in which it does. -/
def names (spec : Loop) : List String :=
  spec.item :: spec.index.toList ++ ["forloop"]

theorem isName_of_index? {cs name rest : List Char} (found : index? cs = some (some name, rest)) :
    Path.IsName name := by
  simp only [index?] at found
  split at found
  · obtain ⟨⟨other, after⟩, taken, same⟩ := Option.map_eq_some_iff.1 found
    cases same
    exact (Path.nameRun?_eq_some_iff.1 taken).1
  · exact nomatch found

theorem isName_forloop : Path.IsName "forloop".toList :=
  ⟨by decide, List.all_eq_true.1 (by decide +kernel)⟩

/-- The names in the parameters of a loop are names by their form. -/
theorem isName_of_parse {params : String} {spec : Loop} (parsed : parse params = .ok spec) :
    ∀ name ∈ spec.names, Path.IsName name.toList := by
  simp only [parse] at parsed
  split at parsed
  · exact nomatch parsed
  · rename_i item index path shaped
    split at parsed
    · exact nomatch parsed
    · cases parsed
      simp only [shape?, Option.bind_eq_bind, Option.bind_eq_some_iff, Prod.exists] at shaped
      obtain ⟨item', afterItem, taken, index', afterIndex, between, _, _, _, _, done⟩ := shaped
      cases done
      intro name member
      simp only [names, List.mem_append, List.mem_cons, Option.mem_toList, Option.map_eq_some_iff,
        List.not_mem_nil, or_false] at member
      rcases member with (rfl | ⟨other, rfl, rfl⟩) | rfl
      · rw [String.toList_ofList]
        exact (Path.nameRun?_eq_some_iff.1 taken).1
      · rw [String.toList_ofList]
        exact isName_of_index? between
      · exact isName_forloop

theorem map_fst_bindings (spec : Loop) (length position : Nat) (entry : Value × Value) :
    (spec.bindings length position entry).map Prod.fst = spec.names := by
  simp [bindings, names, Function.comp_def]

/-! ### What is visible in a round -/

/-- All that a loop names is seen in a round, each under its own name: the entry, its index if that
has a name, and how far the loop has got. -/
structure Visible (spec : Loop) (length position : Nat) (entry : Value × Value) (round : Context) :
    Prop where
  item : round.lookup spec.item = some entry.1
  index : ∀ name, spec.index = some name → round.lookup name = some entry.2
  forloop : round.lookup "forloop" = some (standing length position)

/-- The names are each seen as what they are bound to. -/
theorem visible_iff_lookup {spec : Loop} {length position : Nat} {entry : Value × Value}
    {round : Context} : spec.Visible length position entry round ↔
      ∀ binding ∈ spec.bindings length position entry,
        round.lookup binding.1 = some binding.2 := by
  constructor
  · rintro ⟨item, index, forloop⟩ binding member
    simp only [bindings, List.cons_append, List.mem_cons, List.mem_append, List.mem_map,
      Option.mem_toList, List.not_mem_nil, or_false] at member
    rcases member with rfl | ⟨name, named, rfl⟩ | rfl
    · exact item
    · exact index name named
    · exact forloop
  · intro seen
    constructor
    · exact seen (spec.item, entry.1) (by simp [bindings])
    · intro name named
      exact seen (name, entry.2) (by simp [bindings, named])
    · exact seen ("forloop", progress position length) (by simp [bindings])

section

variable {params : String} {spec : Loop} (parsed : parse params = .ok spec) (outer : Context)
  (length position : Nat) (entry : Value × Value)

include parsed

/-- A name of a loop means in a round what the round has bound to it last. -/
theorem lookup_roundContext {name : String} (named : name ∈ spec.names) :
    (spec.roundContext outer length position entry).lookup name =
      if name = "forloop" then some (standing length position)
      else if spec.index = some name then some entry.2
      else some entry.1 := by
  rw [Context.lookup_name (isName_of_parse parsed name named),
    (spec.roundView_roundContext outer length position entry).find name]
  split_ifs with forloop index item
  · rfl
  · rfl
  · rfl
  · simp_all [names]

/-- A name of a loop means in a round something that the round has bound to it. -/
theorem exists_binding {name : String} (named : name ∈ spec.names) :
    ∃ binding ∈ spec.bindings length position entry, binding.1 = name ∧
      (spec.roundContext outer length position entry).lookup name = some binding.2 := by
  rw [lookup_roundContext parsed outer length position entry named]
  by_cases forloop : name = "forloop"
  · subst forloop
    exact ⟨("forloop", standing length position), by simp [bindings, progress_eq_standing], by simp⟩
  · by_cases index : spec.index = some name
    · exact ⟨(name, entry.2), by simp [bindings, index], by simp [forloop, index]⟩
    · have item : name = spec.item := by simp_all [names]
      exact ⟨(name, entry.1), by simp [bindings, item], by simp [forloop, index]⟩

/-- All is seen exactly if no name is bound to two different values. -/
theorem visible_iff :
    spec.Visible length position entry (spec.roundContext outer length position entry) ↔
      ∀ first ∈ spec.bindings length position entry,
        ∀ second ∈ spec.bindings length position entry,
          first.1 = second.1 → first.2 = second.2 := by
  rw [visible_iff_lookup]
  constructor
  · intro seen first member second member' same
    have one := seen first member
    rw [same, seen second member'] at one
    exact (Option.some.inj one).symm
  · intro agree binding member
    have named : binding.1 ∈ spec.names := by
      rw [← map_fst_bindings spec length position entry]
      exact List.mem_map_of_mem member
    obtain ⟨last, bound, same, found⟩ := exists_binding parsed outer length position entry named
    rw [found, agree last bound binding member same]

end

/-! ### Rounds one after another -/

end Loop

theorem Draft.each_map {α β : Type} (pass : β → Draft) (shape : α → β) (items : List α) :
    each pass (items.map shape) = each (pass ∘ shape) items := by
  induction items with
  | nil => rfl
  | cons item rest ih => rw [List.map_cons, each, each, ih, Function.comp_apply]

namespace Loop

/-- The contexts in which the rounds over some entries are rendered, in order. -/
def contexts (spec : Loop) (outer : Context) (entries : List (Value × Value)) : List Context :=
  entries.mapIdx (spec.roundContext outer entries.length)

/-- A loop is drafted round by round, each in its own context. -/
theorem draft_eq_each (replaced : List Node → Scene → Draft) {spec : Loop} {scene : Scene}
    (body : List Node) {entries : List (Value × Value)}
    (found : spec.entries scene.context = .ok entries) :
    (Node.loop spec body).draft replaced scene =
      .each (fun round => draftAll replaced ⟨round, scene.overrides⟩ body)
        (spec.contexts scene.context entries) := by
  have opened : spec.scopes scene.context = .ok (entries.zipIdx.map fun pair =>
      Fields.ofPairs (spec.bindings entries.length pair.2 pair.1)) := by
    simp only [scopes, found, ← scope_eq_ofPairs_bindings]
    rfl
  simp only [Node.draft, opened]
  rw [contexts, List.mapIdx_eq_zipIdx_map, Draft.each_map, Draft.each_map]
  rfl

/-- Where the names of a loop differ, no name is bound to two values. -/
theorem visible_of_nodup {params : String} {spec : Loop} (parsed : parse params = .ok spec)
    (distinct : spec.names.Nodup) (outer : Context) (length position : Nat)
    (entry : Value × Value) :
    spec.Visible length position entry (spec.roundContext outer length position entry) := by
  rw [← map_fst_bindings spec length position entry] at distinct
  refine (visible_iff parsed outer length position entry).2 ?_
  intro first member second member' same
  exact congrArg Prod.snd (List.inj_on_of_nodup_map distinct member member' same)

end Loop

/-- Of a loop whose names differ from one another everything is seen that the loop names. It is
rendered round by round, each in a context of its own, and wherever the body begins the item means
the entry of the round, the index its position or name, and the loop's own variable how far the loop
has got. Where two of the names are equal, all this is seen in a round only if their values happen
to be equal too: otherwise the name means what was bound to it last. -/
theorem loop_variables_visible {params : String} {spec : Loop}
    (parsed : Loop.parse params = .ok spec) (scene : Scene) {value : Value}
    (found : scene.context.lookup spec.path = some value)
    (collection : value.kind = .array ∨ value.kind = .object ∨ value.kind = .string)
    (filled : value.isTruthy = true) (replaced : List Node → Scene → Draft) (body : List Node) :
    ∃ entries, value.Lists entries ∧
      (Node.loop spec body).draft replaced scene =
        .each (fun round => draftAll replaced ⟨round, scene.overrides⟩ body)
          (spec.contexts scene.context entries) ∧
      ∀ position entry, entries[position]? = some entry →
        ∃ round, (spec.contexts scene.context entries)[position]? = some round ∧
          (spec.names.Nodup → spec.Visible entries.length position entry round) ∧
          (spec.Visible entries.length position entry round ↔
            ∀ first ∈ spec.bindings entries.length position entry,
              ∀ second ∈ spec.bindings entries.length position entry,
                first.1 = second.1 → first.2 = second.2) ∧
          ∀ name ∈ spec.names, round.lookup name =
            if name = "forloop" then some (Loop.standing entries.length position)
            else if spec.index = some name then some entry.2
            else some entry.1 := by
  obtain ⟨entries, known, lists⟩ := Loop.exists_lists collection
  have listed : spec.entries scene.context = .ok entries := by
    simp only [Loop.entries, found, filled, if_true, known]
  refine ⟨entries, lists, Loop.draft_eq_each replaced body listed, ?_⟩
  intro position entry here
  refine ⟨spec.roundContext scene.context entries.length position entry, ?_, ?_, ?_, ?_⟩
  · rw [Loop.contexts, List.getElem?_mapIdx, here, Option.map_some]
  · intro distinct
    exact Loop.visible_of_nodup parsed distinct scene.context entries.length position entry
  · exact Loop.visible_iff parsed scene.context entries.length position entry
  · intro name named
    exact Loop.lookup_roundContext parsed scene.context entries.length position entry named

theorem letters_loop_visible :
    Loop.parse "x, i in word" = .ok lettersLoop ∧
      lettersScene.context.lookup lettersLoop.path = some (.string "ab") ∧
      ∃ entries, (Value.string "ab").Lists entries ∧
        ∀ position entry, entries[position]? = some entry →
          ∃ round, (lettersLoop.contexts lettersScene.context entries)[position]? = some round ∧
            lettersLoop.Visible entries.length position entry round := by
  have parsed : Loop.parse "x, i in word" = .ok lettersLoop := by decide +kernel
  have word : lettersScene.context.lookup lettersLoop.path = some (.string "ab") := by rfl
  obtain ⟨entries, lists, _, rounds⟩ := loop_variables_visible parsed lettersScene word
    (.inr (.inr rfl)) (by decide) (draftBody 0) lettersBody
  refine ⟨parsed, word, entries, lists, fun position entry here => ?_⟩
  obtain ⟨round, found, visible, _⟩ := rounds position entry here
  exact ⟨round, found, visible (by decide)⟩

/-- A loop whose index has the name of its item. -/
def twinLoop : Loop := ⟨"x", some "x", "word"⟩

/-- The parameters may give the index the name of the item. Then the item is not seen. -/
theorem twin_names_hide_item :
    Loop.parse "x, x in word" = .ok twinLoop ∧
      lettersScene.context.lookup twinLoop.path = some (.string "ab") ∧
      ∃ entries, (Value.string "ab").Lists entries ∧
        ∃ entry round, entries[0]? = some entry ∧
          (twinLoop.contexts lettersScene.context entries)[0]? = some round ∧
          round.lookup "x" = some (.ofNat 0) ∧
          ¬ twinLoop.Visible entries.length 0 entry round := by
  have isText : (Value.string "ab").kind = .string := rfl
  obtain ⟨entries, known, lists⟩ := Loop.exists_lists (.inr (.inr isText))
  cases known
  have position : (twinLoop.roundContext lettersScene.context 2 0
      (.string "a", .ofNat 0)).lookup "x" = some (.ofNat 0) := by rfl
  refine ⟨by decide +kernel, by rfl, _, lists, (.string "a", .ofNat 0), _, rfl, rfl, position, ?_⟩
  intro visible
  have item := visible.item
  rw [show twinLoop.item = "x" from rfl] at item
  exact nomatch position.symm.trans item

end Quire
