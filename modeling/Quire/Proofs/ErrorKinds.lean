/-
Module: Quire.Proofs.ErrorKinds
Purpose: Errors of building and errors of rendering are kept apart, and an error of rendering names
  what is written in a tag of some source.
Main exports: Error.OfBuilding, Error.OfRendering, Lexeme.MayRaise, Engine.MayRaise,
  Tree.Spells.inside, Node.FailsOnly, Draft.FailsOnly, kept_failsOnly, Engine.failsOnly_of_load,
  Stage.FailsOnly, ErrorAccount, errors_kept_apart
-/
import Quire.Proofs.Building
import Quire.Proofs.Dependence
import Quire.Proofs.Inclusion
import Quire.Proofs.LoopRounds
import Quire.Proofs.Sharing

/-!
Whatever goes wrong while a template is built is told by an error of building. A pass builds
nothing, so it fails for its variables only: for a bare reference whose variable does not hold the
name of a template, or for a loop over a value that has no entries. The tag that fails stands in the
markup of some source, with the very path that the error names. Loads build and then render; so
working off the queue may fail for reasons of either kind.
-/

namespace Quire

/-! ### Two kinds of errors -/

/-- Why a template cannot be built. -/
inductive Error.OfBuilding : Error → Prop where
  | malformed (template : String) (fault : Fault) : OfBuilding (.malformed template fault)
  | missingTemplate (name : String) : OfBuilding (.missingTemplate name)
  | tooDeep (name : String) (limit : Nat) : OfBuilding (.tooDeep name limit)

/-- The kinds of values that are not falsy and that a loop cannot go through. -/
inductive Kind.Loopless : Kind → Prop where
  | boolean : Loopless .boolean
  | number : Loopless .number

/-- Why a template cannot be rendered in a context. -/
inductive Error.OfRendering : Error → Prop where
  | missingVariable (path : String) : OfRendering (.missingVariable path)
  | invalidFilename (path : String) : OfRendering (.invalidFilename path)
  | notLoopable (path : String) {kind : Kind} (loopless : kind.Loopless) :
      OfRendering (.notLoopable path kind.name)

theorem Error.OfRendering.not_ofBuilding {error : Error} (rendering : error.OfRendering) :
    ¬ error.OfBuilding := by
  cases rendering <;> exact nofun

/-- The errors that rendering a tag may raise: a bare reference names its path, and a loop the path
that it goes through. -/
inductive Lexeme.MayRaise : Lexeme → Error → Prop where
  | missingVariable {tag : Tag} {params path : String}
      (refers : tag = .inheritance ∨ tag = .inclusion)
      (bare : Reference.parse? (Text.trimmed params) = some (.bare path)) :
      MayRaise (.opening tag.name params) (.missingVariable path)
  | invalidFilename {tag : Tag} {params path : String}
      (refers : tag = .inheritance ∨ tag = .inclusion)
      (bare : Reference.parse? (Text.trimmed params) = some (.bare path)) :
      MayRaise (.opening tag.name params) (.invalidFilename path)
  | notLoopable {params : String} {spec : Loop} {kind : Kind} (loopless : kind.Loopless)
      (parsed : Loop.parse (Text.trimmed params) = .ok spec) :
      MayRaise (.opening Tag.loop.name params) (.notLoopable spec.path kind.name)

theorem Lexeme.MayRaise.ofRendering {lexeme : Lexeme} {error : Error}
    (raises : lexeme.MayRaise error) : error.OfRendering := by
  cases raises with
  | missingVariable => exact .missingVariable _
  | invalidFilename => exact .invalidFilename _
  | notLoopable loopless => exact .notLoopable _ loopless

/-- The errors that rendering may raise by a tag in one of the given sources or in one that the
engine knows. -/
def Engine.MayRaise (engine : Engine) (entries : List Source) (error : Error) : Prop :=
  ∃ source, (source ∈ entries ∨ ∃ name, engine.source name = some source) ∧
    ∃ lexeme ∈ source.lexemes, lexeme.MayRaise error

/-! ### Building fails with errors of building -/

/-- What cannot be assembled is malformed, or refers to what cannot be fetched. -/
theorem ofBuilding_of_assemble {fetch : String → Except Error Template}
    (fetches : ∀ name error, fetch name = .error error → error.OfBuilding) {template : String}
    {source : Source} {error : Error} (failed : assemble fetch template source = .error error) :
    error.OfBuilding := by
  rcases assemble_error failed with ⟨fault, _, rfl⟩ | ⟨target, _, missing⟩
  · exact .malformed template fault
  · exact fetches target error missing

namespace Engine

variable {engine : Engine}

theorem ofBuilding_of_loadWithin {room : Nat} {chain : List String} {name : String} {error : Error}
    (failed : engine.loadWithin room chain name = .error error) : error.OfBuilding := by
  induction room generalizing chain name error with
  | zero =>
      simp only [loadWithin] at failed
      split at failed
      · cases failed
        exact .malformed _ _
      · cases failed
        exact .tooDeep _ _
  | succ room ih =>
      simp only [loadWithin] at failed
      split at failed
      · cases failed
        exact .malformed _ _
      · split at failed
        · cases failed
          exact .missingTemplate _
        · rcases bind_error_iff.1 failed with building | ⟨_, _, done⟩
          · exact ofBuilding_of_assemble (fun _ _ missing => ih missing) building
          · cases done

theorem ofBuilding_of_build {name : String} {source : Source} {error : Error}
    (failed : engine.build name source = .error error) : error.OfBuilding := by
  rcases bind_error_iff.1 failed with building | ⟨_, _, done⟩
  · exact ofBuilding_of_assemble (fun _ _ missing => ofBuilding_of_loadWithin missing) building
  · exact nomatch done

end Engine

/-! ### What stands in a template is written in its source -/

section

variable {fetch : String → Except Error Template} {lexemes : List Lexeme}

theorem SpellsAll.of_mem {trees : List Tree} (spells : SpellsAll fetch trees lexemes) {tree : Tree}
    (member : tree ∈ trees) : ∃ own ⊆ lexemes, tree.Spells fetch own := by
  obtain ⟨early, late, rfl⟩ := List.append_of_mem member
  obtain ⟨front, back, rfl, _, spells⟩ := spells.split
  cases spells with
  | @cons _ _ own others first _ =>
      have late := List.subset_append_left own others
      exact ⟨own, List.Subset.trans late (List.subset_append_right front _), first⟩

/-- The markup of a child of a tag is within the markup of the tag. -/
theorem Tree.Spells.child {mark : Mark} {children : List Tree} {tree : Tree}
    (member : tree ∈ children) (spells : Tree.Spells fetch (.tag mark children) lexemes) :
    ∃ own ⊆ lexemes, tree.Spells fetch own := by
  obtain ⟨_, inner, _, _, within, subset⟩ := Tree.Spells.tag spells
  obtain ⟨own, among, spells⟩ := within.of_mem member
  exact ⟨own, List.Subset.trans among subset, spells⟩

theorem Node.tree_mem_treesOf {nodes : List Node} {node : Node} (member : node ∈ nodes) :
    node.tree ∈ treesOf nodes := by
  rw [treesOf_eq_map]
  exact List.mem_map_of_mem member

theorem Node.tree_mem_branchTrees {branches : List Branch} {branch : Branch}
    (among : branch ∈ branches) {node : Node} (member : node ∈ branch.body) :
    node.tree ∈ branchTrees branches := by
  induction branches with
  | nil => exact nomatch among
  | cons first rest ih =>
      obtain ⟨guard, body⟩ := first
      rcases List.mem_cons.1 among with rfl | among
      · exact List.mem_cons_of_mem _ (List.mem_append_left _ (Node.tree_mem_treesOf member))
      · exact List.mem_cons_of_mem _ (List.mem_append_right _ (ih among))

/-- A node inside another one has its markup within the markup of that one. -/
theorem Tree.Spells.inside {inner node : Node} (inside : Inside inner node)
    (spells : node.tree.Spells fetch lexemes) : ∃ own ⊆ lexemes, inner.tree.Spells fetch own := by
  induction inside generalizing lexemes with
  | here => exact ⟨lexemes, List.Subset.refl _, spells⟩
  | inBlock member _ ih =>
      obtain ⟨outer, within, spells⟩ := Tree.Spells.child (Node.tree_mem_treesOf member) spells
      obtain ⟨own, among, spells⟩ := ih spells
      exact ⟨own, List.Subset.trans among within, spells⟩
  | inLoop member _ ih =>
      obtain ⟨outer, within, spells⟩ := Tree.Spells.child (Node.tree_mem_treesOf member) spells
      obtain ⟨own, among, spells⟩ := ih spells
      exact ⟨own, List.Subset.trans among within, spells⟩
  | @inConditional _ _ branches _ member _ ih =>
      have child := List.mem_append_left (branchTrees branches) (Node.tree_mem_treesOf member)
      obtain ⟨outer, within, spells⟩ := Tree.Spells.child child spells
      obtain ⟨own, among, spells⟩ := ih spells
      exact ⟨own, List.Subset.trans among within, spells⟩
  | @inBranch _ body _ _ _ among member _ ih =>
      have child := List.mem_append_right (treesOf body) (Node.tree_mem_branchTrees among member)
      obtain ⟨outer, within, spells⟩ := Tree.Spells.child child spells
      obtain ⟨own, inOwn, spells⟩ := ih spells
      exact ⟨own, List.Subset.trans inOwn within, spells⟩

end

/-! ### Nodes that fail with given errors only -/

/-- Rendering a node fails with none but the given errors: they are those of every loop and bare
reference inside it, and the templates inside it in quotes fail with no others. -/
inductive Node.FailsOnly (allowed : Error → Prop) : Node → Prop where
  | intro {node : Node}
      (loops : ∀ spec body, Inside (.loop spec body) node →
        ∀ kind : Kind, kind.Loopless → allowed (.notLoopable spec.path kind.name))
      (bare : ∀ purpose path, Inside (Purpose.tag purpose (.bare path)) node →
        allowed (.missingVariable path) ∧ allowed (.invalidFilename path))
      (quoted : ∀ purpose template, Inside (Purpose.tag purpose (.quoted template)) node →
        ∀ inner ∈ template.nodes, Node.FailsOnly allowed inner) :
      Node.FailsOnly allowed node

variable {allowed : Error → Prop}

theorem Node.FailsOnly.inside {inner node : Node} (fails : node.FailsOnly allowed)
    (inside : Inside inner node) : inner.FailsOnly allowed := by
  obtain ⟨loops, bare, quoted⟩ := fails
  exact .intro (fun spec body within => loops spec body (within.trans inside))
    (fun purpose path within => bare purpose path (within.trans inside))
    (fun purpose template within => quoted purpose template (within.trans inside))

theorem passesDown_failsOnly : PassesDown (Node.FailsOnly allowed) :=
  .of_inside fun inside fails => fails.inside inside

theorem Inside.sizeOf_le {inner node : Node} (inside : Inside inner node) :
    sizeOf inner ≤ sizeOf node := by
  induction inside with
  | here => exact Nat.le_refl _
  | inBlock member _ ih =>
      have := List.sizeOf_lt_of_mem member
      simp only [Node.block.sizeOf_spec]
      omega
  | inLoop member _ ih =>
      have := List.sizeOf_lt_of_mem member
      simp only [Node.loop.sizeOf_spec]
      omega
  | inConditional member _ ih =>
      have := List.sizeOf_lt_of_mem member
      simp only [Node.conditional.sizeOf_spec]
      omega
  | @inBranch _ _ _ branch _ among member _ ih =>
      have := List.sizeOf_lt_of_mem among
      have := List.sizeOf_lt_of_mem member
      have : sizeOf branch.body < sizeOf branch := by
        cases branch
        simp only [Branch.mk.sizeOf_spec]
        omega
      simp only [Node.conditional.sizeOf_spec]
      omega

/-- Whatever a node is, rendering it fails with errors of rendering only. -/
theorem Node.failsOnly_ofRendering (node : Node) : node.FailsOnly Error.OfRendering :=
  .intro (fun spec _ _ _ loopless => .notLoopable spec.path loopless)
    (fun _ path _ => ⟨.missingVariable path, .invalidFilename path⟩)
    (fun purpose template _inside inner _member => inner.failsOnly_ofRendering)
termination_by sizeOf node
decreasing_by
  have tag := _inside.sizeOf_le
  have among := List.sizeOf_lt_of_mem _member
  have nodes : sizeOf template.nodes < sizeOf template := by
    cases template
    simp only [Template.mk.sizeOf_spec]
    omega
  cases purpose <;>
    simp only [Purpose.tag, Node.inheritance.sizeOf_spec, Node.inclusion.sizeOf_spec,
      Target.quoted.sizeOf_spec] at tag <;>
    omega

/-- The tag of a node that refers to a template, as it is written. -/
theorem Purpose.written {fetch : String → Except Error Template} {lexemes : List Lexeme}
    {purpose : Purpose} {target : Target}
    (spells : (Purpose.tag purpose target).tree.Spells fetch lexemes) :
    ∃ (tag : Tag) (params : String) (reference : Reference),
      (tag = .inheritance ∨ tag = .inclusion) ∧ .opening tag.name params ∈ lexemes ∧
        Reference.parse? (Text.trimmed params) = some reference ∧
          Assembly.resolve fetch reference = .ok target := by
  cases purpose with
  | inheritance =>
      obtain ⟨params, _, opened, written, _⟩ := Tree.Spells.tag spells
      cases written with
      | inheritance parsed resolved => exact ⟨_, params, _, .inl rfl, opened, parsed, resolved⟩
  | inclusion =>
      obtain ⟨params, _, opened, written, _⟩ := Tree.Spells.tag spells
      cases written with
      | inclusion parsed resolved => exact ⟨_, params, _, .inr rfl, opened, parsed, resolved⟩

/-- Fetched templates fail with the given errors only. -/
def FetchesFailing (allowed : Error → Prop) (fetch : String → Except Error Template) : Prop :=
  ∀ name template, fetch name = .ok template → ∀ node ∈ template.nodes, node.FailsOnly allowed

/-- What is built from a source fails with the errors that its tags may raise, if what it refers to
in quotes does. -/
theorem failsOnly_of_assemble {fetch : String → Except Error Template}
    (fetches : FetchesFailing allowed fetch) {template : String} {source : Source}
    (raised : ∀ lexeme ∈ source.lexemes, ∀ error, lexeme.MayRaise error → allowed error)
    {nodes : List Node} (ok : assemble fetch template source = .ok nodes) :
    ∀ node ∈ nodes, node.FailsOnly allowed := by
  intro node member
  obtain ⟨own, among, spells⟩ := (spelled_of_assemble ok).2.of_mem (Node.tree_mem_treesOf member)
  refine .intro ?_ ?_ ?_
  · intro spec body inside kind loopless
    obtain ⟨inner, within, spells⟩ := spells.inside inside
    obtain ⟨params, _, opened, written, _⟩ := Tree.Spells.tag spells
    cases written with
    | loop parsed =>
        exact raised _ (among (within opened)) _ (.notLoopable loopless parsed)
  · intro purpose path inside
    obtain ⟨inner, within, spells⟩ := spells.inside inside
    obtain ⟨tag, params, reference, refers, opened, parsed, resolved⟩ := Purpose.written spells
    cases reference with
    | quoted name =>
        obtain ⟨_, _, done⟩ := bind_ok_iff.1 resolved
        exact nomatch done
    | bare dotted =>
        cases resolved
        have raised := raised _ (among (within opened))
        exact ⟨raised _ (.missingVariable refers parsed), raised _ (.invalidFilename refers parsed)⟩
  · intro purpose inner inside
    obtain ⟨_, _, spells⟩ := spells.inside inside
    obtain ⟨_, _, reference, _, _, _, resolved⟩ := Purpose.written spells
    cases reference with
    | bare path => exact nomatch resolved
    | quoted name =>
        obtain ⟨_, fetched, done⟩ := bind_ok_iff.1 resolved
        cases done
        exact fetches name _ fetched

namespace Engine

variable {engine : Engine} {entries : List Source}

/-- What an engine loads fails with errors that the tags of its sources may raise. -/
theorem fetchesFailing_loadWithin (engine : Engine) (entries : List Source) (room : Nat)
    (chain : List String) :
    FetchesFailing (engine.MayRaise entries) (engine.loadWithin room chain) := by
  induction room generalizing chain with
  | zero =>
      intro name template ok
      obtain ⟨_, _, _, _, none, _⟩ := loadWithin_ok_iff.1 ok
      omega
  | succ room ih =>
      intro name template ok
      obtain ⟨_, _, source, nodes, same, known, assembled, rfl⟩ := loadWithin_ok_iff.1 ok
      cases same
      refine failsOnly_of_assemble (ih _) (fun lexeme member error raises => ?_) assembled
      exact ⟨source, .inr ⟨name, known⟩, lexeme, member, raises⟩

theorem BuiltFrom.failsOnly {entry : Source} {template : Template}
    (built : engine.BuiltFrom entry template) (among : entry ∈ entries) :
    ∀ node ∈ template.nodes, node.FailsOnly (engine.MayRaise entries) := by
  rcases built with ⟨name, _, loaded⟩ | ⟨name, built⟩
  · exact engine.fetchesFailing_loadWithin entries _ _ name template loaded
  · obtain ⟨nodes, assembled, done⟩ := bind_ok_iff.1 built
    cases done
    refine failsOnly_of_assemble (engine.fetchesFailing_loadWithin entries _ _) ?_ assembled
    exact fun lexeme member error raises => ⟨entry, .inl among, lexeme, member, raises⟩

end Engine

/-! ### Drafts that fail with given errors only -/

/-- A draft that stops with an error stops with one of the given ones, and the bodies that its
requests carry fail with no others. -/
structure Draft.FailsOnly (allowed : Error → Prop) (draft : Draft) : Prop where
  stop : ∀ error, draft.stop = some (.error error) → allowed error
  bodies : ∀ request ∈ draft.requests, EveryBody (Node.FailsOnly allowed) request.overrides

namespace Draft.FailsOnly

theorem empty : Draft.empty.FailsOnly allowed := ⟨nofun, nofun⟩

theorem text (text : String) : (Draft.text text).FailsOnly allowed := ⟨nofun, nofun⟩

theorem endless : (Draft.halt .endless).FailsOnly allowed := ⟨nofun, nofun⟩

theorem fail {error : Error} (raised : allowed error) : (Draft.fail error).FailsOnly allowed := by
  refine ⟨?_, nofun⟩
  rintro _ ⟨⟩
  exact raised

theorem request {request : Request}
    (every : EveryBody (Node.FailsOnly allowed) request.overrides) :
    (Draft.request request).FailsOnly allowed := by
  refine ⟨nofun, ?_⟩
  rintro _ (_ | ⟨_, ⟨⟩⟩)
  exact every

theorem andThen {first : Draft} {second : Unit → Draft} (here : first.FailsOnly allowed)
    (there : (second ()).FailsOnly allowed) : (first.andThen second).FailsOnly allowed := by
  cases stopped : first.stop with
  | some stop => simpa only [Draft.andThen, stopped] using here
  | none =>
      simp only [Draft.andThen, stopped]
      refine ⟨there.stop, fun request member => ?_⟩
      simp only [Draft.requests, List.filterMap_append, List.mem_append] at member
      cases member with
      | inl early => exact here.bodies request early
      | inr late => exact there.bodies request late

end Draft.FailsOnly

/-- A loop that cannot be gone through is over a value that is a number or true. -/
theorem Loop.notLoopable_of_scopes {spec : Loop} {context : Context} {error : Error}
    (failed : spec.scopes context = .error error) :
    ∃ kind : Kind, kind.Loopless ∧ error = .notLoopable spec.path kind.name := by
  rcases bind_error_iff.1 failed with failed | ⟨_, _, done⟩
  · simp only [entries] at failed
    split at failed
    · cases failed
    · rename_i value _
      split at failed
      · rename_i truthy
        cases value with
        | null => cases truthy
        | bool b =>
            cases failed
            exact ⟨.boolean, .boolean, rfl⟩
        | number x =>
            cases failed
            exact ⟨.number, .number, rfl⟩
        | string text => cases failed
        | array items => cases failed
        | object fields => cases failed
      · cases failed
  · cases done

/-- A bare reference that leads to no name fails for its own path. -/
theorem Context.templateName_error {context : Context} {path : String} {error : Error}
    (failed : context.templateName path = .error error) :
    error = .missingVariable path ∨ error = .invalidFilename path := by
  simp only [templateName] at failed
  split at failed
  · cases failed
    exact .inl rfl
  · split at failed
    · cases failed
      exact .inr rfl
    · cases failed
  · cases failed
    exact .inr rfl

section

variable {replaced : List Node → Scene → Draft}

/-- Bodies that replace blocks are rendered to drafts that fail with the given errors only, if the
bodies do. -/
def BodiesFailing (allowed : Error → Prop) (replaced : List Node → Scene → Draft) : Prop :=
  ∀ body scene, (∀ node ∈ body, node.FailsOnly allowed) →
    EveryBody (Node.FailsOnly allowed) scene.overrides → (replaced body scene).FailsOnly allowed

/-- Nodes, and the bodies that replace blocks, are those that fail with the given errors only. -/
theorem kept_failsOnly (bodies : BodiesFailing allowed replaced) :
    Kept (fun _ : Unit => replaced) (Node.FailsOnly allowed)
      (fun scene => EveryBody (Node.FailsOnly allowed) scene.overrides)
      fun _ pass => (pass ()).FailsOnly allowed where
  down := passesDown_failsOnly
  inside _ every := every
  empty _ := .empty
  text _ text := .text text
  andThen first second := first.andThen second
  replaces _ every found := bodies _ _ (every _ (Fields.mem_of_find? found)) every
  unlooped fails failed := by
    obtain ⟨kind, loopless, rfl⟩ := Loop.notLoopable_of_scopes failed
    obtain ⟨loops, _, _⟩ := fails
    exact .fail (loops _ _ .here kind loopless)
  round _ _ fails := fails
  unnamed fails failed := by
    obtain ⟨_, bare, _⟩ := fails
    obtain ⟨missing, invalid⟩ := bare _ _ .here
    rcases Context.templateName_error failed with rfl | rfl
    · exact .fail missing
    · exact .fail invalid
  request {purpose _ _ _} every _ := .request (every.scene purpose)
  quoted {purpose path nodes _} fails every inner := by
    obtain ⟨_, _, quoted⟩ := fails
    exact inner (quoted purpose ⟨path, nodes⟩ .here) (every.scene purpose)
  derived _ rest every inner := inner (every.under passesDown_failsOnly rest)

theorem draftBody_failsOnly : ∀ openings, BodiesFailing allowed (draftBody openings)
  | 0, _, _, _, _ => .endless
  | openings + 1, body, _, fails, every =>
      kept_draftAll (kept_failsOnly (draftBody_failsOnly openings)) body fails every

end

theorem Template.draft_failsOnly {template : Template} {overrides : Overrides}
    (fails : ∀ node ∈ template.nodes, node.FailsOnly allowed)
    (every : EveryBody (Node.FailsOnly allowed) overrides) (openings : Nat) (context : Context) :
    (template.draft openings context overrides).FailsOnly allowed :=
  kept_draftTemplate (kept_failsOnly (draftBody_failsOnly openings)) template.nodes fails every

/-! ### Queues that fail with given errors only -/

/-- The bodies that waiting loads carry fail with the given errors only. -/
def TasksFailing (allowed : Error → Prop) (tasks : List Task) : Prop :=
  ∀ load, .load load ∈ tasks → EveryBody (Node.FailsOnly allowed) load.request.overrides

theorem TasksFailing.append {tasks others : List Task} (here : TasksFailing allowed tasks)
    (there : TasksFailing allowed others) : TasksFailing allowed (tasks ++ others) := by
  intro load member
  rcases List.mem_append.1 member with early | late
  · exact here load early
  · exact there load late

/-- Loads carry what the requests of their draft carry. -/
theorem Draft.FailsOnly.loads {draft : Draft} (fails : draft.FailsOnly allowed) (depth : Nat)
    (policy : MissingInclude) (next : Nat) :
    TasksFailing allowed ((draft.rendered depth policy next).loads.map .load) := by
  intro load member
  obtain ⟨_, among, ⟨⟩⟩ := List.mem_map.1 member
  have request := List.mem_map_of_mem (f := Load.request) among
  rw [Draft.requests_rendered] at request
  exact fails.bodies load.request request

namespace Engine

variable {engine : Engine}

/-- A pass over a template that fails with the given errors only does so itself, and so does what it
puts off. -/
theorem pass_failsOnly (engine : Engine) {template : Template}
    (fails : ∀ node ∈ template.nodes, node.FailsOnly allowed) (context : Context)
    (stage : Stage) :
    (∀ error, (engine.pass template context stage).1 = .error (.error error) → allowed error) ∧
      (TasksFailing allowed stage.queue →
        TasksFailing allowed (engine.pass template context stage).2.queue) := by
  have none : EveryBody (Node.FailsOnly allowed) [] := by simp [EveryBody]
  have drafts := Template.draft_failsOnly fails none engine.openings context
  rw [pass_eq_rendered]
  constructor
  · intro error failed
    apply drafts.stop
    cases stopped : (template.draft engine.openings context []).stop with
    | none => simp [Draft.rendered, stopped] at failed
    | some stop => simpa [Draft.rendered, stopped] using failed
  · exact fun before => before.append (drafts.loads _ _ _)

/-- A load fails with an error of building its template, or with one of the given errors. What it
puts off fails with no others. -/
theorem performLoad_failsOnly (fetches : FetchesFailing allowed engine.load) {load : Load}
    (every : EveryBody (Node.FailsOnly allowed) load.request.overrides) (cells : Cells) :
    (∀ error, (engine.performLoad load cells).failure = some (.error error) →
      error.OfBuilding ∨ allowed error) ∧
      TasksFailing allowed ((engine.performLoad load cells).deferred.map .load) := by
  obtain ⟨_, _, outcome⟩ | ⟨_, _, error, loaded, outcome⟩ |
    ⟨_, template, draft, placed, loaded, rfl, rfl, _, outcome⟩ :=
      engine.performLoad_cases load cells
  · rw [outcome]
    refine ⟨?_, nofun⟩
    rintro _ ⟨⟩
    exact .inl (.tooDeep _ _)
  · rw [outcome]
    refine ⟨?_, nofun⟩
    intro other failed
    split at failed
    · exact nomatch failed
    · cases failed
      exact .inl (ofBuilding_of_loadWithin loaded)
  · have drafts := Template.draft_failsOnly (fetches _ template loaded) every engine.openings
      load.request.context
    rw [outcome]
    exact ⟨fun error failed => .inr (drafts.stop error failed), drafts.loads _ _ _⟩

theorem Runs.tasksFailing (fetches : FetchesFailing allowed engine.load) {stage last : Stage}
    {ran : List Task} (runs : engine.Runs stage ran last)
    (before : TasksFailing allowed stage.queue) : TasksFailing allowed last.queue := by
  have every : ∀ task ∈ ran ++ last.queue, ∀ load, task = .load load →
      EveryBody (Node.FailsOnly allowed) load.request.overrides := by
    refine runs.forall_mem ?_ fun task waits load same => before load (same ▸ waits)
    intro task cells carried later member load same
    subst same
    cases task with
    | load outer => exact (performLoad_failsOnly fetches (carried outer rfl) cells).2 load member
    | job job =>
        obtain ⟨_, _, same⟩ := List.mem_map.1 member
        cases same
  exact fun load waits => every (.load load) (List.mem_append_right _ waits) load rfl

/-- Working off the queue fails with an error of building or with one of the given errors, or else
because a job of a client has failed. -/
theorem runUntilIdle_failsOnly (fetches : FetchesFailing allowed engine.load) {stage : Stage}
    (before : TasksFailing allowed stage.queue) {error : Error}
    (failed : (engine.runUntilIdle stage).failure = some (.error error)) :
    (∃ early job, (engine.runUntilIdle stage).ran = early ++ [.job job]) ∨
      error.OfBuilding ∨ allowed error := by
  obtain ⟨early, task, rest, mid, ran, runs, first, reason⟩ := failure_of_last failed
  cases task with
  | job job => exact .inl ⟨early, job, ran⟩
  | load load =>
      have waits : .load load ∈ mid.queue := by simp [first]
      have every := Runs.tasksFailing fetches runs before load waits
      exact .inr ((performLoad_failsOnly fetches every mid.cells).1 error reason)

end Engine

/-! ### Sessions with templates that are built -/

/-- Whether an action makes no pass but over a template that is built from one of the given
sources. -/
def Action.PassesFrom (engine : Engine) (entries : List Source) : Action → Prop
  | .pass template _ => ∃ entry ∈ entries, engine.BuiltFrom entry template
  | .defer _ | .work => True

namespace Engine

theorem tasksFailing_session (engine : Engine) (entries : List Source) (actions : List Action)
    (passes : ∀ action ∈ actions, action.PassesFrom engine entries) :
    TasksFailing (engine.MayRaise entries) (engine.session actions).stage.queue := by
  have fetches : FetchesFailing (engine.MayRaise entries) engine.load :=
    engine.fetchesFailing_loadWithin entries _ _
  induction actions using List.reverseRecOn with
  | nil => exact nofun
  | append_singleton actions action ih =>
      have before := ih fun action member => passes action (List.mem_append_left _ member)
      have last := passes action (by simp)
      rw [session_append, List.foldl_cons, List.foldl_nil]
      cases action with
      | pass template context =>
          obtain ⟨entry, among, built⟩ := last
          have after := (engine.pass_failsOnly (built.failsOnly among) context
            (engine.session actions).stage).2 before
          simp only [act]
          split <;> (rename_i passed; rw [passed] at after; exact after)
      | defer job =>
          refine before.append fun load member => ?_
          cases List.mem_singleton.1 member
      | work =>
          exact Runs.tasksFailing fetches (engine.runUntilIdle_runs _) before

end Engine

/-- Which errors come of what. -/
structure ErrorAccount (engine : Engine) : Prop where
  /-- No error is of both kinds. -/
  apart : ∀ error : Error, error.OfBuilding → ¬ error.OfRendering
  building : ∀ name source error, engine.build name source = .error error → error.OfBuilding
  loading : ∀ name error, engine.load name = .error error → error.OfBuilding
  passing : ∀ entry template, engine.BuiltFrom entry template → ∀ context stage error,
    (engine.pass template context stage).1 = .error (.error error) →
      error.OfRendering ∧ engine.MayRaise [entry] error
  /-- In a session of passes over templates that are built from the entries, working off the queue
  fails with an error of building or one that names what is written in some tag, jobs of clients
  apart. -/
  working : ∀ entries actions, (∀ action ∈ actions, Action.PassesFrom engine entries action) →
    let drained := engine.runUntilIdle (engine.session actions).stage
    ∀ error, drained.failure = some (.error error) →
      (∃ early job, drained.ran = early ++ [.job job]) ∨
        error.OfBuilding ∨ error.OfRendering ∧ engine.MayRaise entries error
  /-- An include that a variable names does not fail for its template, if it was put off under the
  silent policy. -/
  silence : ∀ load cells error, load.missingInclude = .silent → load.request.purpose = .inclusion →
    (engine.performLoad load cells).failure = some (.error error) →
      error.OfRendering ∨ error = .tooDeep load.request.name engine.config.maxDepth
  /-- All that waits in a session, at any moment of the work, was put off under the policy of the
  engine. -/
  policy : ∀ actions ran mid, engine.Runs (engine.session actions).stage ran mid →
    ∀ load, .load load ∈ mid.queue → load.missingInclude = engine.config.missingInclude

theorem Engine.MayRaise.ofRendering {engine : Engine} {entries : List Source} {error : Error}
    (raises : engine.MayRaise entries error) : error.OfRendering := by
  obtain ⟨_, _, _, _, raises⟩ := raises
  exact raises.ofRendering

/-- Errors of building and errors of rendering do not mix, and those of rendering tell where they
come from. Building and loading fail with errors of building, a pass with errors of rendering, each
of which names the path of a tag in the source of its template or in one that the engine knows; and
so does working off the queue, unless it fails with an error of building. -/
theorem errors_kept_apart (engine : Engine) : ErrorAccount engine where
  apart _ building rendering := rendering.not_ofBuilding building
  building _ _ _ failed := Engine.ofBuilding_of_build failed
  loading _ _ failed := Engine.ofBuilding_of_loadWithin failed
  passing entry template built context stage error failed := by
    have fails := built.failsOnly (List.mem_singleton_self entry)
    have raises := (engine.pass_failsOnly fails context stage).1 error failed
    exact ⟨raises.ofRendering, raises⟩
  working entries actions passes error failed := by
    have fetches := engine.fetchesFailing_loadWithin entries engine.config.maxDepth []
    have waiting := engine.tasksFailing_session entries actions passes
    rcases Engine.runUntilIdle_failsOnly fetches waiting failed with job | building | raises
    · exact .inl job
    · exact .inr (.inl building)
    · exact .inr (.inr ⟨raises.ofRendering, raises⟩)
  silence load cells error silent inclusion failed := by
    obtain ⟨_, _, outcome⟩ | ⟨_, _, _, _, outcome⟩ |
      ⟨_, template, draft, _, _, rfl, _, _, outcome⟩ := engine.performLoad_cases load cells
    · rw [outcome] at failed
      cases failed
      exact .inr rfl
    · rw [outcome, if_pos ⟨inclusion, silent⟩] at failed
      exact nomatch failed
    · rw [outcome] at failed
      have fails : ∀ node ∈ template.nodes, node.FailsOnly Error.OfRendering :=
        fun node _ => node.failsOnly_ofRendering
      have every : EveryBody (Node.FailsOnly Error.OfRendering) load.request.overrides :=
        fun _ _ node _ => node.failsOnly_ofRendering
      have drafts := Template.draft_failsOnly fails every engine.openings load.request.context
      exact .inl (drafts.stop error failed)
  policy actions ran mid runs load waits := by
    have sound := (engine.session_course actions).1
    exact (Engine.Course.soundFor runs.course sound).policy (.load load) waits load rfl

/-- An engine that knows one template, `leaf`, which refers to a variable in its turn. -/
def lostEngine : Engine :=
  { leafEngine with source := fun name =>
      if name = "leaf" then some ⟨[.opening "include" " lost "]⟩ else none }

theorem lost_leaf_fails :
    (∀ action ∈ [Action.pass leafPage leafContext], action.PassesFrom lostEngine [leafSource]) ∧
      (lostEngine.session [.pass leafPage leafContext]).stage = leafStage .silent ∧
      (lostEngine.runUntilIdle (leafStage .silent)).failure =
        some (.error (.missingVariable "lost")) ∧
      lostEngine.MayRaise [leafSource] (.missingVariable "lost") := by
  have built : lostEngine.BuiltFrom leafSource leafPage := .inr ⟨"page", rfl⟩
  have passes : ∀ action ∈ [Action.pass leafPage leafContext],
      action.PassesFrom lostEngine [leafSource] := by
    intro action member
    cases List.mem_singleton.1 member
    exact ⟨leafSource, by simp, built⟩
  have stage : (lostEngine.session [.pass leafPage leafContext]).stage = leafStage .silent := rfl
  have drained : lostEngine.runUntilIdle (leafStage .silent) =
      ⟨(leafStage .silent).queue, [], (leafStage .silent).cells,
        some (.error (.missingVariable "lost"))⟩ := Worker.drain_of_failure rfl
  have account := (errors_kept_apart lostEngine).working [leafSource]
    [.pass leafPage leafContext] passes
  dsimp only at account
  rw [stage, drained] at account
  refine ⟨passes, stage, by rw [drained], ?_⟩
  rcases account _ rfl with ⟨early, job, ran⟩ | building | ⟨_, raises⟩
  · cases early <;> simp [leafStage] at ran
  · exact nomatch building
  · exact raises

end Quire
