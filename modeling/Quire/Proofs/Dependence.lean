/-
Module: Quire.Proofs.Dependence
Purpose: Rendering depends on its context only through the variables that the markup of templates
  names.
Main exports: AgreeOn, Context.flatten, Scene.Alike, Draft.Alike, Node.draft_alike,
  Worker.drain_alike, render_depends_on_named
-/
import Mathlib.Data.List.Forall2
import Quire.Proofs.FillOnce
import Quire.Proofs.Variables

/-!
Two contexts that agree on the variables that templates name are taken through rendering side by
side. Loops put the same scopes in front of both, so they go on agreeing. Both passes take the same
way and leave the same text, and requests for the same templates, in contexts that agree again. So
the two queues are alike, task by task, and stay so while they are worked off.
-/

namespace Quire

/-! ### Contexts that agree -/

/-- Two contexts have the same values for the given variables, or both none. -/
def AgreeOn (allowed : String → Prop) (left right : Context) : Prop :=
  ∀ name, allowed name → left.find? name = right.find? name

namespace Fields

variable {α : Type}

theorem find?_flatten (name : String) (scopes : List (Fields α)) :
    find? name scopes.flatten = scopes.findSome? (find? name) := by
  induction scopes with
  | nil => rfl
  | cons scope rest ih =>
      rw [List.flatten_cons, find?_append, ih, List.findSome?_cons]
      cases find? name scope <;> rfl

end Fields

namespace Context

theorem find?_push (context : Context) (scope : Scope) (name : String) :
    (context.push scope).find? name = (Fields.find? name scope).or (context.find? name) := by
  simp only [find?, push, scopes, List.findSome?_cons]
  cases Fields.find? name scope <;> rfl

theorem find?_singleton (scope : Scope) (name : String) :
    (Context.mk scope []).find? name = Fields.find? name scope := by
  simp only [find?, scopes, List.findSome?_cons, List.findSome?_nil]
  cases Fields.find? name scope <;> rfl

/-- All scopes of a context as one, in which inner variables count before outer ones. -/
def flatten (context : Context) : Context :=
  .ofPairs context.scopes.flatten.reverse

/-- A variable of the one scope is the variable of the same name in the many. -/
theorem find?_flatten (context : Context) (name : String) :
    context.flatten.find? name = context.find? name := by
  rw [flatten, ofPairs, find?_singleton, Fields.find?_ofPairs_reverse, Fields.find?_flatten]
  rfl

end Context

variable {allowed : String → Prop}

namespace AgreeOn

variable {left right : Context}

theorem push (agree : AgreeOn allowed left right) (scope : Scope) :
    AgreeOn allowed (left.push scope) (right.push scope) := by
  intro name named
  rw [Context.find?_push, Context.find?_push, agree name named]

theorem lookup (agree : AgreeOn allowed left right) {path : String}
    (named : allowed (Path.first path)) : left.lookup path = right.lookup path := by
  simp only [Context.lookup]
  cases pieces : Text.pieces '.' path with
  | nil => rfl
  | cons first segments =>
      have named : allowed first := by simpa [Path.first, pieces] using named
      simp only [agree first named]

theorem templateName (agree : AgreeOn allowed left right) {path : String}
    (named : allowed (Path.first path)) : left.templateName path = right.templateName path := by
  simp only [Context.templateName, agree.lookup named]

theorem scopes (agree : AgreeOn allowed left right) {spec : Loop}
    (named : allowed (Path.first spec.path)) : spec.scopes left = spec.scopes right := by
  simp only [Loop.scopes, Loop.entries, agree.lookup named]

theorem operand (agree : AgreeOn allowed left right) {operand : Operand}
    (named : ∀ name ∈ operand.reads, allowed name) : operand.value left = operand.value right := by
  cases operand with
  | number x => rfl
  | path dotted => simp only [Operand.value, agree.lookup (named _ List.mem_cons_self)]

theorem condition (agree : AgreeOn allowed left right) {condition : Condition}
    (named : ∀ name ∈ condition.reads, allowed name) :
    condition.holds left = condition.holds right := by
  obtain ⟨operand, comparison⟩ := condition
  have first := agree.operand fun name reads => named name (List.mem_append_left _ reads)
  cases comparison with
  | none => simp only [Condition.holds, first]
  | some comparison =>
      have second := agree.operand fun name reads => named name (List.mem_append_right _ reads)
      simp only [Condition.holds, first, second]

end AgreeOn

/-! ### Passes that are alike -/

/-- Two scenes replace the same blocks, by bodies that read no variables but the given ones, and
their contexts agree on these. -/
structure Scene.Alike (allowed : String → Prop) (left right : Scene) : Prop where
  agree : AgreeOn allowed left.context right.context
  overrides : left.overrides = right.overrides
  reads : ∀ entry ∈ left.overrides, ∀ node ∈ entry.2, node.ReadsOnly allowed

namespace Scene.Alike

variable {left right : Scene}

theorem inside (alike : left.Alike allowed right) (scope : Scope) :
    (left.inside scope).Alike allowed (right.inside scope) :=
  ⟨alike.agree.push scope, alike.overrides, alike.reads⟩

theorem bare (alike : left.Alike allowed right) : left.bare.Alike allowed right.bare :=
  ⟨alike.agree, rfl, nofun⟩

theorem under (alike : left.Alike allowed right) {blocks : Overrides}
    (reads : ∀ entry ∈ blocks, ∀ node ∈ entry.2, node.ReadsOnly allowed) :
    (left.under blocks).Alike allowed (right.under blocks) := by
  refine ⟨alike.agree, by simp only [Scene.under, alike.overrides], fun entry member => ?_⟩
  rcases List.mem_append.1 member with member | member
  · exact alike.reads entry member
  · exact reads entry member

end Scene.Alike

/-- The scene in which a requested template is rendered. -/
def Request.scene (request : Request) : Scene :=
  ⟨request.context, request.overrides⟩

/-- Two requests are for the same template and the same purpose, in scenes that are alike. -/
structure Request.Alike (allowed : String → Prop) (left right : Request) : Prop where
  purpose : left.purpose = right.purpose
  name : left.name = right.name
  scene : left.scene.Alike allowed right.scene

/-- Two pieces are the same text or requests that are alike. -/
inductive Piece.Alike (allowed : String → Prop) : Piece → Piece → Prop where
  | text (text : String) : Alike allowed (.text text) (.text text)
  | request {left right : Request} (alike : left.Alike allowed right) :
      Alike allowed (.request left) (.request right)

/-- Two drafts have pieces that are alike, one by one, and stop for the same reason if at all. -/
structure Draft.Alike (allowed : String → Prop) (left right : Draft) : Prop where
  pieces : List.Forall₂ (Piece.Alike allowed) left.pieces right.pieces
  stop : left.stop = right.stop

namespace Draft.Alike

theorem empty : Draft.empty.Alike allowed .empty :=
  ⟨.nil, rfl⟩

theorem text (text : String) : (Draft.text text).Alike allowed (.text text) :=
  ⟨.cons (.text text) .nil, rfl⟩

theorem halt (stop : Stop) : (Draft.halt stop).Alike allowed (.halt stop) :=
  ⟨.nil, rfl⟩

theorem andThen {left right : Draft} {leftLater rightLater : Unit → Draft}
    (first : left.Alike allowed right) (later : (leftLater ()).Alike allowed (rightLater ())) :
    (left.andThen leftLater).Alike allowed (right.andThen rightLater) := by
  have stop := first.stop
  cases stopped : left.stop with
  | some reason =>
      rw [stopped] at stop
      simpa only [Draft.andThen, stopped, ← stop] using first
  | none =>
      rw [stopped] at stop
      simp only [Draft.andThen, stopped, ← stop]
      exact ⟨List.rel_append first.pieces later.pieces, later.stop⟩

theorem each {α : Type} {left right : α → Draft} (items : List α)
    (alike : ∀ item, (left item).Alike allowed (right item)) :
    (Draft.each left items).Alike allowed (Draft.each right items) := by
  induction items with
  | nil => exact empty
  | cons item rest ih => exact (alike item).andThen ih

end Draft.Alike

section

variable {replaced : List Node → Scene → Draft}

/-- Replacing bodies that read no variables but the given ones are rendered alike in scenes that are
alike. -/
def BodiesAlike (allowed : String → Prop) (replaced : List Node → Scene → Draft) : Prop :=
  ∀ body left right, (∀ node ∈ body, node.ReadsOnly allowed) → Scene.Alike allowed left right →
    (replaced body left).Alike allowed (replaced body right)

mutual

theorem Node.draft_alike (bodies : BodiesAlike allowed replaced) :
    ∀ (node : Node) {left right : Scene}, node.ReadsOnly allowed → left.Alike allowed right →
      (node.draft replaced left).Alike allowed (node.draft replaced right)
  | .text text, _, _, _, _ => .text text
  | .value path, left, right, .value named, alike => by
      simp only [Node.draft, alike.agree.lookup named]
      split
      · exact .text _
      · exact .empty
  | .block name body, left, right, .block _ inner, alike => by
      simp only [Node.draft, ← alike.overrides]
      split
      · rename_i other found
        exact bodies other left right (alike.reads _ (Fields.mem_of_find? found)) alike
      · exact draftAll_alike bodies body inner alike
  | .inheritance target, _, _, .inheritance refers, alike =>
      target.draft_alike bodies .inheritance refers alike
  | .inclusion target, _, _, .inclusion refers, alike =>
      target.draft_alike bodies .inclusion refers alike.bare
  | .loop spec body, left, right, .loop named inner, alike => by
      simp only [Node.draft, alike.agree.scopes named]
      split
      · exact .halt _
      · exact .each _ fun scope => draftAll_alike bodies body inner (alike.inside scope)
  | .conditional condition body branches, left, right, .conditional named inner guards others,
      alike => by
      simp only [Node.draft, alike.agree.condition named]
      split
      · exact draftAll_alike bodies body inner alike
      · exact draftBranches_alike bodies branches guards others alike
termination_by structural node => node

theorem Target.draft_alike (bodies : BodiesAlike allowed replaced) :
    ∀ (target : Target) (purpose : Purpose) {left right : Scene}, target.ReadsOnly allowed →
      left.Alike allowed right →
        (target.draft replaced purpose left).Alike allowed (target.draft replaced purpose right)
  | .quoted ⟨_, nodes⟩, _, _, _, .quoted inner, alike =>
      draftTemplate_alike bodies nodes inner alike
  | .bare path, purpose, left, right, .bare named, alike => by
      simp only [Target.draft, alike.agree.templateName named]
      split
      · exact .halt _
      · exact ⟨.cons (.request ⟨rfl, rfl, alike⟩) .nil, rfl⟩
termination_by structural target => target

theorem draftBranches_alike (bodies : BodiesAlike allowed replaced) :
    ∀ (branches : List Branch) {left right : Scene},
      (∀ branch ∈ branches, ∀ guard ∈ branch.guard, ∀ name ∈ guard.reads, allowed name) →
      (∀ branch ∈ branches, ∀ node ∈ branch.body, node.ReadsOnly allowed) →
        left.Alike allowed right →
          (draftBranches replaced left branches).Alike allowed
            (draftBranches replaced right branches)
  | [], _, _, _, _, _ => .empty
  | ⟨guard, body⟩ :: rest, left, right, guards, others, alike => by
      obtain ⟨here, guards⟩ := List.forall_mem_cons.1 guards
      obtain ⟨inner, others⟩ := List.forall_mem_cons.1 others
      have same : guard.all (·.holds left.context) = guard.all (·.holds right.context) := by
        cases guard with
        | none => rfl
        | some condition => exact alike.agree.condition (here condition rfl)
      simp only [draftBranches, same]
      split
      · exact draftAll_alike bodies body inner alike
      · exact draftBranches_alike bodies rest guards others alike
termination_by structural branches => branches

theorem draftAll_alike (bodies : BodiesAlike allowed replaced) :
    ∀ (nodes : List Node) {left right : Scene}, (∀ node ∈ nodes, node.ReadsOnly allowed) →
      left.Alike allowed right →
        (draftAll replaced left nodes).Alike allowed (draftAll replaced right nodes)
  | [], _, _, _, _ => .empty
  | node :: rest, _, _, reads, alike => by
      obtain ⟨here, there⟩ := List.forall_mem_cons.1 reads
      exact (node.draft_alike bodies here alike).andThen (draftAll_alike bodies rest there alike)
termination_by structural nodes => nodes

theorem draftTemplate_alike (bodies : BodiesAlike allowed replaced) :
    ∀ (nodes : List Node) {left right : Scene}, (∀ node ∈ nodes, node.ReadsOnly allowed) →
      left.Alike allowed right →
        (draftTemplate replaced left nodes).Alike allowed (draftTemplate replaced right nodes)
  | [], _, _, _, _ => .empty
  | node :: rest, left, right, reads, alike => by
      obtain ⟨here, there⟩ := List.forall_mem_cons.1 reads
      have first : ∀ {left right : Scene}, left.Alike allowed right →
          (node.draft replaced left).Alike allowed (node.draft replaced right) :=
        node.draft_alike bodies here
      have all : (draftAll replaced left (node :: rest)).Alike allowed
          (draftAll replaced right (node :: rest)) :=
        (first alike).andThen (draftAll_alike bodies rest there alike)
      cases node with
      | inheritance target =>
          exact first (alike.under fun _ => every_of_mem_blocksOf passesDown_readsOnly there)
      | _ => exact all
termination_by structural nodes => nodes

end

theorem draftBody_alike : ∀ openings, BodiesAlike allowed (draftBody openings)
  | 0, _, _, _, _, _ => .halt .endless
  | openings + 1, body, _, _, reads, alike =>
      draftAll_alike (draftBody_alike openings) body reads alike

end

/-! ### Queues that are alike -/

/-- Two loads fill the same cell, equally deep and under the same policy, with requests that are
alike. -/
structure Load.Alike (allowed : String → Prop) (left right : Load) : Prop where
  request : left.request.Alike allowed right.request
  cell : left.cell = right.cell
  depth : left.depth = right.depth
  policy : left.missingInclude = right.missingInclude

/-- Two tasks are loads that are alike, or the same job. -/
inductive Task.Alike (allowed : String → Prop) : Task → Task → Prop where
  | load {left right : Load} (alike : left.Alike allowed right) :
      Alike allowed (.load left) (.load right)
  | job (job : Job) : Alike allowed (.job job) (.job job)

theorem alike_map_load {left right : List Load}
    (alike : List.Forall₂ (Load.Alike allowed) left right) :
    List.Forall₂ (Task.Alike allowed) (left.map .load) (right.map .load) := by
  rw [List.forall₂_map_left_iff, List.forall₂_map_right_iff]
  exact alike.imp fun _ _ => .load

/-- The same fragments, and loads that are alike. -/
structure Placed.Alike (allowed : String → Prop) (left right : Placed) : Prop where
  fragments : left.fragments = right.fragments
  loads : List.Forall₂ (Load.Alike allowed) left.loads right.loads

namespace Placed

theorem ofPieces_alike {left right : List Piece}
    (alike : List.Forall₂ (Piece.Alike allowed) left right) (depth : Nat)
    (policy : MissingInclude) (next : Nat) :
    (ofPieces depth policy next left).Alike allowed (ofPieces depth policy next right) := by
  induction alike generalizing next with
  | nil => exact ⟨rfl, .nil⟩
  | cons first _ ih =>
      cases first with
      | text text =>
          obtain ⟨fragments, loads⟩ := ih next
          exact ⟨congrArg (Output.join (Output.ofText text).fragments) fragments, loads⟩
      | request alike =>
          obtain ⟨fragments, loads⟩ := ih (next + 1)
          refine ⟨congrArg (Fragment.cell ⟨next⟩ :: ·) fragments, ?_⟩
          exact .cons ⟨alike, rfl, rfl, rfl⟩ loads

variable {left right : Placed}

theorem Alike.output (alike : left.Alike allowed right) : left.output = right.output :=
  congrArg Output.mk alike.fragments

theorem Alike.among (alike : left.Alike allowed right) (cells : Cells) :
    left.among cells = right.among cells := by
  rw [Placed.among, Placed.among, alike.loads.length_eq]

end Placed

/-- What comes of two tasks is the same state and the same failure, and tasks that are related. -/
structure Outcome.Alike {Task State Failure : Type} (related : Task → Task → Prop)
    (left right : Outcome Task State Failure) : Prop where
  state : left.state = right.state
  deferred : List.Forall₂ related left.deferred right.deferred
  failure : left.failure = right.failure

/-- Workers that work off queues of related tasks come to the same, if they do so carrying out
related tasks. -/
theorem Worker.drain_alike {Task State Failure : Type} {worker other : Worker Task State Failure}
    {related : Task → Task → Prop}
    (performs : ∀ left right, related left right → ∀ state,
      (worker.perform left state).Alike related (other.perform right state))
    (left : List Task) (state : State) :
    ∀ right, List.Forall₂ related left right →
      (worker.drain left state).state = (other.drain right state).state ∧
        (worker.drain left state).failure = (other.drain right state).failure := by
  -- related queues are equally long, so the second one is taken apart as the first one is
  fun_induction worker.drain left state with
  | case1 state =>
      intro right queues
      cases queues
      rw [drain.eq_def]
      exact ⟨rfl, rfl⟩
  | case2 state task rest outcome stop failed =>
      intro right queues
      cases queues with
      | @cons _ task' _ others first queues =>
          have outcomes := performs task task' first state
          have failed : (other.perform task' state).failure = some stop :=
            outcomes.failure ▸ failed
          rw [drain.eq_def]
          simp only [failed]
          exact ⟨outcomes.state, trivial⟩
  | case3 state task rest outcome well later ih =>
      intro right queues
      cases queues with
      | @cons _ task' _ others first queues =>
          have outcomes := performs task task' first state
          have well : (other.perform task' state).failure = none := outcomes.failure ▸ well
          have same := ih _ (List.rel_append queues outcomes.deferred)
          rw [drain.eq_def other (task' :: others)]
          simp only [well, ← outcomes.state]
          exact same

/-- Templates read no variables but those on which the contexts agree, so scenes that are alike give
drafts that are alike. -/
theorem Template.draft_alike {template : Template}
    (reads : ∀ node ∈ template.nodes, node.ReadsOnly allowed) (openings : Nat) {left right : Scene}
    (alike : left.Alike allowed right) :
    (template.draft openings left.context left.overrides).Alike allowed
      (template.draft openings right.context right.overrides) :=
  draftTemplate_alike (draftBody_alike openings) template.nodes reads alike

namespace Engine

variable {engine : Engine}

/-- Loads that are alike come to the same, if all templates that can be loaded read no variables but
those on which the contexts agree. -/
theorem performLoad_alike (fetches : FetchesOnly allowed engine.load) {left right : Load}
    (alike : left.Alike allowed right) (cells : Cells) :
    (engine.performLoad left cells).Alike (Load.Alike allowed)
      (engine.performLoad right cells) := by
  obtain ⟨⟨purpose, name, scene⟩, cell, depth, policy⟩ := alike
  simp only [performLoad, purpose, name, cell, depth, policy]
  split
  · exact ⟨rfl, .nil, rfl⟩
  · split
    · split <;> exact ⟨rfl, .nil, rfl⟩
    · rename_i template loaded
      have drafts := Template.draft_alike (fetches _ template loaded) engine.openings scene
      have placed := Placed.ofPieces_alike drafts.pieces (right.depth + 1)
        engine.config.missingInclude cells.size
      have stop := drafts.stop
      simp only [Request.scene] at drafts placed stop
      simp only [Placed.ofDraft, stop]
      split
      · exact ⟨placed.among cells, placed.loads, rfl⟩
      · exact ⟨by rw [placed.among cells, placed.output], placed.loads, rfl⟩

theorem perform_alike (fetches : FetchesOnly allowed engine.load) {left right : Task}
    (alike : left.Alike allowed right) (cells : Cells) :
    (engine.perform left cells).Alike (Task.Alike allowed) (engine.perform right cells) := by
  cases alike with
  | job job =>
      refine ⟨rfl, List.forall₂_same.2 fun task member => ?_, rfl⟩
      obtain ⟨followUp, _, rfl⟩ := List.mem_map.1 member
      exact .job followUp
  | load alike =>
      obtain ⟨state, deferred, failure⟩ := performLoad_alike fetches alike cells
      exact ⟨state, alike_map_load deferred, failure⟩

/-! ### Renders that are alike -/

section

variable {template : Template} {left right : Context}

/-- Passes over a template come to the same on any stage, in contexts that agree on the variables it
reads. -/
theorem pass_alike (reads : ∀ node ∈ template.nodes, node.ReadsOnly allowed)
    (agree : AgreeOn allowed left right) (stage : Stage) :
    (engine.pass template left stage).1 = (engine.pass template right stage).1 ∧
      (engine.pass template left stage).2.cells = (engine.pass template right stage).2.cells ∧
        ∃ later others, List.Forall₂ (Task.Alike allowed) later others ∧
          (engine.pass template left stage).2.queue = stage.queue ++ later ∧
            (engine.pass template right stage).2.queue = stage.queue ++ others := by
  have scenes : (Scene.mk left []).Alike allowed ⟨right, []⟩ := ⟨agree, rfl, nofun⟩
  have drafts := Template.draft_alike reads engine.openings scenes
  have placed := Placed.ofPieces_alike drafts.pieces 1 engine.config.missingInclude
    stage.cells.size
  simp only [pass, Placed.ofDraft, drafts.stop, placed.output, placed.among stage.cells]
  split <;> exact ⟨rfl, rfl, _, _, alike_map_load placed.loads, rfl, rfl⟩

/-- Rendering a template with all that it puts off comes to the same. -/
theorem renderTemplate_alike (fetches : FetchesOnly allowed engine.load)
    (reads : ∀ node ∈ template.nodes, node.ReadsOnly allowed)
    (agree : AgreeOn allowed left right) :
    engine.renderTemplate template left = engine.renderTemplate template right := by
  obtain ⟨result, cells, later, others, alike, leftQueue, rightQueue⟩ :=
    engine.pass_alike reads agree .empty
  have performs : ∀ task other, Task.Alike allowed task other → ∀ cells,
      (engine.worker.perform task cells).Alike (Task.Alike allowed)
        (engine.worker.perform other cells) := fun _ _ => engine.perform_alike fetches
  have drained := Worker.drain_alike performs later
    (engine.pass template right .empty).2.cells others alike
  rcases leftPass : engine.pass template left .empty with ⟨first, leftStage⟩
  rcases rightPass : engine.pass template right .empty with ⟨second, rightStage⟩
  simp only [leftPass, rightPass] at result cells leftQueue rightQueue drained
  subst result
  cases first with
  | error stop => simp only [renderTemplate, leftPass, rightPass]
  | ok output =>
      have leftQueue : leftStage.queue = later := leftQueue
      have rightQueue : rightStage.queue = others := rightQueue
      simp only [renderTemplate, leftPass, rightPass, runUntilIdle, leftQueue, rightQueue, cells,
        drained]

end

theorem fetchesOnly_names (engine : Engine) (entry : Source) (room : Nat) (chain : List String) :
    FetchesOnly (engine.Names entry) (engine.loadWithin room chain) :=
  readsOnly_of_loadWithin
    (fun other source known _ named => .inr ⟨other, source, known, named⟩) room chain

/-- A template is what an engine builds from a source, one of its own or of somebody else's. -/
def BuiltFrom (engine : Engine) (entry : Source) (template : Template) : Prop :=
  (∃ name, engine.source name = some entry ∧ engine.load name = .ok template) ∨
    ∃ name, engine.build name entry = .ok template

/-- A template reads what its source and those known to the engine name. -/
theorem BuiltFrom.readsOnly {entry : Source} {template : Template}
    (built : engine.BuiltFrom entry template) :
    ∀ node ∈ template.nodes, node.ReadsOnly (engine.Names entry) := by
  rcases built with ⟨name, _, loaded⟩ | ⟨name, built⟩
  · exact engine.fetchesOnly_names entry _ _ name template loaded
  · obtain ⟨nodes, assembled, done⟩ := bind_ok_iff.1 built
    cases done
    exact readsOnly_of_assemble (engine.fetchesOnly_names entry _ _) (fun _ named => .inl named)
      assembled

end Engine

/-- Rendering depends only on the variables that are named by the source of a template and by all
sources that the engine knows. In two contexts that agree on these, whatever their scopes and other
variables, a pass on any stage leaves the same output or fails for the same reason, and rendering
with all that is put off gives the same output and cells or fails for the same reason. So one scope
with the innermost variables does as well as many. -/
theorem render_depends_on_named (engine : Engine) {entry : Source} {template : Template}
    (built : engine.BuiltFrom entry template) :
    (∀ left right, AgreeOn (engine.Names entry) left right →
      (∀ stage, (engine.pass template left stage).1 = (engine.pass template right stage).1) ∧
        engine.renderTemplate template left = engine.renderTemplate template right) ∧
    (∀ context,
      (∀ stage, (engine.pass template context.flatten stage).1 =
        (engine.pass template context stage).1) ∧
        engine.renderTemplate template context.flatten =
          engine.renderTemplate template context) := by
  have same : ∀ left right, AgreeOn (engine.Names entry) left right →
      (∀ stage, (engine.pass template left stage).1 = (engine.pass template right stage).1) ∧
        engine.renderTemplate template left = engine.renderTemplate template right := by
    intro left right agree
    exact ⟨fun stage => (Engine.pass_alike built.readsOnly agree stage).1,
      Engine.renderTemplate_alike (engine.fetchesOnly_names entry _ _) built.readsOnly agree⟩
  exact ⟨same, fun context => same _ _ fun name _ => context.find?_flatten name⟩

/-- A context of two scopes, in which `part` is set twice and something else is set as well. -/
def crowdedContext : Context :=
  (Context.ofPairs [("part", .string "gone"), ("secret", .string "s")]).push
    [("part", .string "leaf")]

/-- The page and the templates that its engine knows name one variable. -/
theorem eq_part_of_names {name : String} (named : leafEngine.Names leafSource name) :
    name = "part" := by
  rcases named with ⟨lexeme, member, reads⟩ | ⟨other, source, known, lexeme, member, reads⟩
  · have named : leafSource.lexemes.flatMap Lexeme.reads = ["part"] := rfl
    exact List.mem_singleton.1 (named ▸ List.mem_flatMap_of_mem member reads)
  · simp only [leafEngine, Option.ite_none_right_eq_some, Option.some.injEq] at known
    obtain ⟨_, rfl⟩ := known
    cases List.mem_singleton.1 member
    exact nomatch reads

theorem leaf_page_depends_on_part :
    leafEngine.BuiltFrom leafSource leafPage ∧
      AgreeOn (leafEngine.Names leafSource) leafContext crowdedContext ∧
      leafEngine.renderTemplate leafPage leafContext =
        leafEngine.renderTemplate leafPage crowdedContext := by
  have built : leafEngine.BuiltFrom leafSource leafPage := .inr ⟨"page", rfl⟩
  have agree : AgreeOn (leafEngine.Names leafSource) leafContext crowdedContext := by
    intro name named
    cases eq_part_of_names named
    rfl
  exact ⟨built, agree, ((render_depends_on_named leafEngine built).1 _ _ agree).2⟩

end Quire
