/-
Module: Quire.Proofs.Renderer
Purpose: A renderer whose scopes and replaced blocks are changed and put back on the way leaves
  what a draft says, and is left as it was found; so nodes do not affect their siblings.
Main exports: Renderer, Rendering, Node.render, renderAll, renderTemplate, Rendering.Follows,
  renderAll_follows, pass_eq_renderTemplate, LeftAsFound, SiblingAccount,
  siblings_render_apart
-/
import Quire.Proofs.LoopRounds

/-!
Drafts are made in scenes, which nobody changes. Here rendering works on one renderer that all nodes
share. A round of a loop opens a scope in it and takes it off again, a template puts its own blocks
in place of those it finds and puts these back, and a tag that puts its template off allots a cell
and queues a load at once. All this is undone also where the body in between stops. Such a rendering
follows a draft: it gives the output of the draft and queues its loads, and changes nothing else.
-/

namespace Quire

/-- What rendering works on: the scopes and replaced blocks of the place it has come to, the loads
that place is nested in, what its engine does about missing includes, and the stage. -/
structure Renderer where
  context : Context
  overrides : Overrides
  depth : Nat
  missingInclude : MissingInclude
  stage : Stage

/-- What rendering something does to a renderer: it gives output or stops, and leaves the renderer
in some state. -/
abbrev Rendering := Renderer → Except Stop Output × Renderer

namespace Rendering

/-- Gives output at once. -/
def say (output : Output) : Rendering := fun renderer => (.ok output, renderer)

/-- Stops at once. -/
def halt (stop : Stop) : Rendering := fun renderer => (.error stop, renderer)

/-- One rendering and then another, which is begun only if the first comes to its end. -/
def andThen (first second : Rendering) : Rendering := fun renderer =>
  match first renderer with
  | (.error stop, left) => (.error stop, left)
  | (.ok output, left) =>
      let (answer, last) := second left
      (answer.map output.append, last)

/-- A rendering for each item in turn, up to the first that stops. -/
def each {α : Type} (render : α → Rendering) : List α → Rendering
  | [] => say .empty
  | item :: rest => (render item).andThen (each render rest)

/-- Opens a scope for a body. Whatever comes of the body, the innermost scope is taken off. -/
def inScope (scope : Scope) (body : Rendering) : Rendering := fun renderer =>
  let (answer, left) := body { renderer with context := renderer.context.push scope }
  match left.context.pop? with
  | none => (answer, left)
  | some (_, context) => (answer, { left with context })

/-- Replaces blocks for a body. Whatever comes of the body, the blocks from before are put back. -/
def withOverrides (overrides : Overrides) (body : Rendering) : Rendering := fun renderer =>
  let (answer, left) := body { renderer with overrides }
  (answer, { left with overrides := renderer.overrides })

/-- Puts a template off: gives a fresh cell, and queues a load that is to fill it, with the context
as it is now. -/
def putOff (purpose : Purpose) (name : String) (overrides : Overrides) : Rendering :=
  fun renderer =>
    let (cell, cells) := renderer.stage.cells.fresh .empty
    let request := ⟨purpose, name, renderer.context, overrides⟩
    let load := ⟨request, cell, renderer.depth + 1, renderer.missingInclude⟩
    let stage := { renderer.stage with cells }.defer (.load load)
    (.ok (.ofCell cell), { renderer with stage })

end Rendering

/-! ### Rendering nodes -/

section

open Rendering

variable (replaced : List Node → Rendering)

mutual

/-- Renders a node. The body of a replaced block is rendered by `replaced`. -/
def Node.render : Node → Rendering
  | .text text => say (.ofText text)
  | .value path => fun renderer =>
      match renderer.context.lookup path with
      | some value => say (.ofText value.display) renderer
      | none => say .empty renderer
  | .block name body => fun renderer =>
      match Fields.find? name renderer.overrides with
      | some other => replaced other renderer
      | none => renderAll body renderer
  | .inheritance target => fun renderer => target.render .inheritance renderer.overrides renderer
  | .inclusion target => target.render .inclusion []
  | .loop loop body => fun renderer =>
      match loop.scopes renderer.context with
      | .error error => halt (.error error) renderer
      | .ok scopes => each (fun scope => inScope scope (renderAll body)) scopes renderer
  | .conditional condition body branches => fun renderer =>
      if condition.holds renderer.context then renderAll body renderer
      else renderBranches branches renderer
termination_by structural node => node

/-- Renders the template a tag refers to, with the given blocks replaced, or puts it off. -/
def Target.render (purpose : Purpose) (overrides : Overrides) : Target → Rendering
  | .quoted ⟨_, nodes⟩ => renderTemplate overrides nodes
  | .bare path => fun renderer =>
      match renderer.context.templateName path with
      | .error error => halt (.error error) renderer
      | .ok name => putOff purpose name overrides renderer
termination_by structural target => target

/-- Renders the first branch whose condition holds or that has none. -/
def renderBranches : List Branch → Rendering
  | [] => say .empty
  | ⟨guard, body⟩ :: rest => fun renderer =>
      if guard.all (·.holds renderer.context) then renderAll body renderer
      else renderBranches rest renderer
termination_by structural branches => branches

/-- Renders nodes one after another. -/
def renderAll : List Node → Rendering
  | [] => say .empty
  | node :: rest => node.render.andThen (renderAll rest)
termination_by structural nodes => nodes

/-- Renders the nodes of a template. One headed by an inheritance tag hands its blocks on, after
those that are replaced already. Any other is rendered with the given blocks replaced. -/
def renderTemplate (overrides : Overrides) : List Node → Rendering
  | [] => withOverrides overrides (say .empty)
  | .inheritance target :: rest => target.render .inheritance (overrides ++ blocksOf rest)
  | node :: rest => withOverrides overrides (node.render.andThen (renderAll rest))
termination_by structural nodes => nodes

end

end

/-- Renders the body of a replaced block, inside which no more than `openings` others may be
open. -/
def renderBody : Nat → List Node → Rendering
  | 0 => fun _ => .halt .endless
  | openings + 1 => fun body => renderAll (renderBody openings) body

/-! ### Renderings and drafts -/

namespace Renderer

/-- The scene that a renderer has come to. -/
def scene (renderer : Renderer) : Scene := ⟨renderer.context, renderer.overrides⟩

/-- A renderer after a draft: the loads of the draft are queued, each with a cell of its own, and
all else is as it was. -/
def after (renderer : Renderer) (draft : Draft) : Except Stop Output × Renderer :=
  let cells := renderer.stage.cells
  let rendered := draft.rendered (renderer.depth + 1) renderer.missingInclude cells.size
  let cells := cells.allot rendered.loads.length
  let queue := renderer.stage.queue ++ rendered.loads.map .load
  (rendered.answer, { renderer with stage := ⟨cells, queue⟩ })

/-- A renderer that has put a template off has one more cell and one more task. -/
theorem after_request (renderer : Renderer) (purpose : Purpose) (name : String)
    (overrides : Overrides) :
    Rendering.putOff purpose name overrides renderer =
      renderer.after (.request ⟨purpose, name, renderer.context, overrides⟩) := by
  simp [Rendering.putOff, after, Draft.request, Draft.rendered, Placed.ofPieces, Placed.output,
    Output.ofCell, Cells.fresh, Cells.allot, Cells.size, Stage.defer]

end Renderer

/-- A rendering follows drafts if from any renderer it leaves what the draft of the renderer's scene
says. -/
def Rendering.Follows (rendering : Rendering) (draft : Scene → Draft) : Prop :=
  ∀ renderer, rendering renderer = renderer.after (draft renderer.scene)

namespace Rendering.Follows

variable {first second body : Rendering} {draft rest : Scene → Draft}

theorem empty : (say .empty).Follows fun _ => .empty := by
  intro renderer
  simp [say, Renderer.after, Draft.empty, Draft.rendered, Placed.ofPieces, Placed.output,
    Output.empty]

theorem text (text : String) : (say (.ofText text)).Follows fun _ => .text text := by
  intro renderer
  simp [say, Renderer.after, Draft.text, Draft.rendered, Placed.ofPieces, Placed.output]

theorem halt (stop : Stop) : (Rendering.halt stop).Follows fun _ => .halt stop := by
  intro renderer
  simp [Rendering.halt, Renderer.after, Draft.halt, Draft.rendered, Placed.ofPieces]

/-- The second rendering finds the scene that the first has found, with fewer cells left to
allot. -/
theorem andThen (here : first.Follows draft) (there : second.Follows rest) :
    (first.andThen second).Follows fun scene => (draft scene).andThen fun _ => rest scene := by
  intro renderer
  rw [Rendering.andThen, here renderer]
  simp only [Renderer.after, Draft.rendered_andThen]
  generalize (draft renderer.scene).rendered _ _ _ = rendered
  obtain ⟨answer, loads⟩ := rendered
  cases answer with
  | error stop => rfl
  | ok output =>
      simp only [Rendered.goOn, there _, Renderer.after, Renderer.scene, Cells.size_allot,
        Cells.allot_allot, List.length_append, List.map_append, List.append_assoc]

theorem each {α : Type} {render : α → Rendering} {drafts : α → Scene → Draft}
    (one : ∀ item, (render item).Follows (drafts item)) (items : List α) :
    (Rendering.each render items).Follows fun scene => .each (drafts · scene) items := by
  induction items with
  | nil => exact empty
  | cons item rest ih => exact (one item).andThen ih

/-- The scope that is taken off after a body is the one that was opened for it. -/
theorem inScope (scope : Scope) (here : body.Follows draft) :
    (Rendering.inScope scope body).Follows fun scene => draft (scene.inside scope) := by
  intro renderer
  simp only [Rendering.inScope, here _, Renderer.after, Context.pop?, Context.push]
  rfl

theorem withOverrides (overrides : Overrides) (here : body.Follows draft) :
    (Rendering.withOverrides overrides body).Follows fun scene =>
      draft { scene with overrides } := by
  intro renderer
  simp only [Rendering.withOverrides, here _]
  rfl

end Rendering.Follows

section

variable {replaced : List Node → Rendering} {drafts : List Node → Scene → Draft}

mutual

/-- Where the bodies of replaced blocks are rendered as they are drafted, so are nodes. -/
theorem Node.render_follows (bodies : ∀ body, (replaced body).Follows (drafts body)) :
    ∀ node : Node, (node.render replaced).Follows fun scene => node.draft drafts scene
  | .text content => .text content
  | .value path => by
      intro renderer
      simp only [Node.render, Node.draft, Renderer.scene]
      cases renderer.context.lookup path with
      | none => exact Rendering.Follows.empty renderer
      | some value => exact Rendering.Follows.text value.display renderer
  | .block name body => by
      intro renderer
      simp only [Node.render, Node.draft, Renderer.scene]
      cases Fields.find? name renderer.overrides with
      | none => exact renderAll_follows bodies body renderer
      | some other => exact bodies other renderer
  | .inheritance target => fun renderer =>
      target.render_follows bodies .inheritance renderer.overrides renderer
  | .inclusion target => target.render_follows bodies .inclusion []
  | .loop loop body => by
      intro renderer
      simp only [Node.render, Node.draft, Renderer.scene]
      cases loop.scopes renderer.context with
      | error error => exact Rendering.Follows.halt (.error error) renderer
      | ok scopes =>
          have rounds := Rendering.Follows.each
            (fun scope => (renderAll_follows bodies body).inScope scope) scopes
          exact rounds renderer
  | .conditional condition body branches => by
      intro renderer
      simp only [Node.render, Node.draft]
      by_cases holds : condition.holds renderer.scene.context
      · rw [if_pos holds, if_pos (show condition.holds renderer.context from holds)]
        exact renderAll_follows bodies body renderer
      · rw [if_neg holds, if_neg (show ¬ condition.holds renderer.context from holds)]
        exact renderBranches_follows bodies branches renderer

/-- The template of a tag is rendered as it is drafted in the scene with the blocks that are given
for it. -/
theorem Target.render_follows (bodies : ∀ body, (replaced body).Follows (drafts body))
    (purpose : Purpose) (overrides : Overrides) :
    ∀ target : Target, (target.render replaced purpose overrides).Follows fun scene =>
      target.draft drafts purpose { scene with overrides }
  | .quoted ⟨_, nodes⟩ => renderTemplate_follows bodies overrides nodes
  | .bare path => by
      intro renderer
      simp only [Target.render, Target.draft, Renderer.scene]
      cases renderer.context.templateName path with
      | error error => exact Rendering.Follows.halt (.error error) renderer
      | ok name => exact renderer.after_request purpose name overrides

theorem renderBranches_follows (bodies : ∀ body, (replaced body).Follows (drafts body)) :
    ∀ branches : List Branch, (renderBranches replaced branches).Follows fun scene =>
      draftBranches drafts scene branches
  | [] => .empty
  | ⟨guard, body⟩ :: rest => by
      intro renderer
      simp only [renderBranches, draftBranches]
      by_cases taken : guard.all (·.holds renderer.scene.context)
      · rw [if_pos taken, if_pos (show guard.all (·.holds renderer.context) from taken)]
        exact renderAll_follows bodies body renderer
      · rw [if_neg taken, if_neg (show ¬ guard.all (·.holds renderer.context) from taken)]
        exact renderBranches_follows bodies rest renderer

theorem renderAll_follows (bodies : ∀ body, (replaced body).Follows (drafts body)) :
    ∀ nodes : List Node, (renderAll replaced nodes).Follows fun scene =>
      draftAll drafts scene nodes
  | [] => .empty
  | node :: rest => (node.render_follows bodies).andThen (renderAll_follows bodies rest)

/-- A template that does not hand its blocks on puts back the blocks it has found. -/
theorem renderTemplate_follows (bodies : ∀ body, (replaced body).Follows (drafts body))
    (overrides : Overrides) :
    ∀ nodes : List Node, (renderTemplate replaced overrides nodes).Follows fun scene =>
      draftTemplate drafts { scene with overrides } nodes
  | [] => .withOverrides overrides .empty
  | node :: rest => by
      have all := (node.render_follows bodies).andThen (renderAll_follows bodies rest)
      cases node with
      | inheritance target =>
          exact target.render_follows bodies .inheritance (overrides ++ blocksOf rest)
      | _ => exact all.withOverrides overrides

end

end

/-- Bodies of replaced blocks are rendered as they are drafted. -/
theorem renderBody_follows : ∀ (openings : Nat) (body : List Node),
    (renderBody openings body).Follows (draftBody openings body)
  | 0, _ => .halt .endless
  | openings + 1, body => renderAll_follows (renderBody_follows openings) body

/-- A pass is what a renderer without replaced blocks makes of a template. -/
theorem pass_eq_renderTemplate (engine : Engine) (template : Template) (context : Context)
    (stage : Stage) :
    let begun : Renderer := ⟨context, [], 0, engine.config.missingInclude, stage⟩
    let rendered := renderTemplate (renderBody engine.openings) [] template.nodes begun
    engine.pass template context stage = (rendered.1, rendered.2.stage) := by
  dsimp only
  rw [renderTemplate_follows (renderBody_follows engine.openings) [] template.nodes,
    Engine.pass_eq_rendered]
  rfl

/-! ### Cells that are numbered otherwise -/

/-- The cell that comes as far behind `new` as a cell comes behind `old`. -/
def CellId.moved (old new : Nat) (id : CellId) : CellId := ⟨id.index - old + new⟩

def Fragment.moved (old new : Nat) : Fragment → Fragment
  | .text content => .text content
  | .cell id => .cell (id.moved old new)

/-- An output with other cells in place of its own. -/
def Output.moved (old new : Nat) (output : Output) : Output :=
  ⟨output.fragments.map (Fragment.moved old new)⟩

/-- A load that is to fill another cell. -/
def Load.moved (old new : Nat) (load : Load) : Load :=
  { load with cell := load.cell.moved old new }

/-- Which texts meet does not depend on the cells between them. -/
theorem Output.map_moved_join (old new : Nat) (fragments others : List Fragment) :
    (join fragments others).map (Fragment.moved old new) =
      join (fragments.map (Fragment.moved old new)) (others.map (Fragment.moved old new)) := by
  fun_induction join fragments others with
  | case1 others => rfl
  | case2 first second others => rfl
  | case3 fragment rest others separate ih =>
      cases fragment with
      | cell id => simp [ih, join, Fragment.moved]
      | text content =>
          cases rest with
          | cons next more => simp [ih, join, Fragment.moved]
          | nil =>
              cases others with
              | nil => simp [join, Fragment.moved]
              | cons next later =>
                  cases next with
                  | cell id => simp [join, Fragment.moved]
                  | text more => exact absurd rfl (separate content more later rfl rfl)

/-- Pieces become the same whichever cells come next, but for the cells. -/
theorem Placed.ofPieces_moved (depth : Nat) (policy : MissingInclude) (old new : Nat)
    (pieces : List Piece) (ahead : Nat) :
    let placed := ofPieces depth policy (old + ahead) pieces
    ofPieces depth policy (new + ahead) pieces =
      ⟨placed.fragments.map (Fragment.moved old new), placed.loads.map (Load.moved old new)⟩ := by
  induction pieces generalizing ahead with
  | nil => rfl
  | cons piece rest ih =>
      cases piece with
      | text text =>
          have same : (Output.ofText text).fragments.map (Fragment.moved old new) =
              (Output.ofText text).fragments := by
            unfold Output.ofText
            split <;> rfl
          dsimp only at ih ⊢
          simp only [ofPieces, ih, Output.map_moved_join, same]
      | request request =>
          have here : CellId.moved old new ⟨old + ahead⟩ = ⟨new + ahead⟩ := by
            simp only [CellId.moved, CellId.mk.injEq]
            omega
          dsimp only at ih ⊢
          simp only [ofPieces, Nat.add_assoc, ih, List.map_cons, Fragment.moved, Load.moved, here]

theorem Draft.rendered_moved (depth : Nat) (policy : MissingInclude) (old new : Nat)
    (draft : Draft) :
    let rendered := draft.rendered depth policy old
    draft.rendered depth policy new =
      ⟨rendered.answer.map (Output.moved old new), rendered.loads.map (Load.moved old new)⟩ := by
  have placed := Placed.ofPieces_moved depth policy old new draft.pieces 0
  dsimp only at placed ⊢
  simp only [Nat.add_zero] at placed
  cases stopped : draft.stop <;> simp [rendered, stopped, placed, Except.map, Placed.output,
    Output.moved]

/-! ### What rendering leaves -/

/-- Rendering leaves a renderer as it found it, but for loads at the end of the queue, each with a
further cell. -/
structure LeftAsFound (found left : Renderer) : Prop where
  context : left.context = found.context
  overrides : left.overrides = found.overrides
  depth : left.depth = found.depth
  missingInclude : left.missingInclude = found.missingInclude
  queued : ∃ loads : List Load,
    left.stage = ⟨found.stage.cells.allot loads.length, found.stage.queue ++ loads.map .load⟩ ∧
      loads.map Load.cell = found.stage.cells.next loads.length ∧
        ∀ load ∈ loads,
          load.depth = found.depth + 1 ∧ load.missingInclude = found.missingInclude

theorem Renderer.leftAsFound_after (renderer : Renderer) (draft : Draft) :
    LeftAsFound renderer (renderer.after draft).2 where
  context := rfl
  overrides := rfl
  depth := rfl
  missingInclude := rfl
  queued := ⟨_, rfl, Placed.cells_loads _ _ _ _, fun _ member => Placed.of_mem_loads member⟩

theorem draftAll_append (replaced : List Node → Scene → Draft) (scene : Scene)
    (nodes others : List Node) :
    draftAll replaced scene (nodes ++ others) =
      (draftAll replaced scene nodes).andThen fun _ => draftAll replaced scene others := by
  induction nodes with
  | nil => rw [List.nil_append, draftAll, Draft.empty_andThen]
  | cons node rest ih => rw [List.cons_append, draftAll, draftAll, ih, Draft.andThen_assoc]

/-- What comes of two lists of nodes in one go, by what comes of the first and of the second alone.
The second alone is rendered on a stage of its own, whose next cells are not those that it gets
behind the first. -/
structure SiblingAccount (stage : Stage) (first second both : Except Stop Output × Renderer) :
    Prop where
  succeeds_iff : (∃ output, both.1 = .ok output) ↔
    (∃ output, first.1 = .ok output) ∧ ∃ output, second.1 = .ok output
  output : ∀ output more, first.1 = .ok output → second.1 = .ok more →
    both.1 = .ok (output.append (more.moved stage.cells.size first.2.stage.cells.size))
  loads : ∀ output, first.1 = .ok output → ∃ loads : List Load,
    second.2.stage.queue = stage.queue ++ loads.map .load ∧
      both.2.stage.queue = first.2.stage.queue ++
        (loads.map (Load.moved stage.cells.size first.2.stage.cells.size)).map .load
  first_stops : ∀ stop, first.1 = .error stop → both = first
  second_stops : ∀ output stop, first.1 = .ok output → second.1 = .error stop →
    both.1 = .error stop

/-- A draft after another, by what each leaves alone. -/
theorem Renderer.siblings_after (renderer : Renderer) (stage : Stage) (draft other : Draft) :
    SiblingAccount stage (renderer.after draft) ({ renderer with stage }.after other)
      (renderer.after (draft.andThen fun _ => other)) := by
  have moved := other.rendered_moved (renderer.depth + 1) renderer.missingInclude stage.cells.size
    (renderer.after draft).2.stage.cells.size
  simp only [after, Draft.rendered_andThen, Cells.size_allot] at moved ⊢
  generalize draft.rendered _ _ _ = first at moved ⊢
  generalize other.rendered (renderer.depth + 1) _ stage.cells.size = second at moved ⊢
  obtain ⟨answer, loads⟩ := first
  cases answer with
  | error stop =>
      exact {
        succeeds_iff := by simp [Rendered.goOn]
        output := by rintro _ _ ⟨⟩
        loads := by rintro _ ⟨⟩
        first_stops := fun _ _ => rfl
        second_stops := by rintro _ _ ⟨⟩ }
  | ok output =>
      simp only [Rendered.goOn, moved]
      cases second.answer with
      | error stop =>
          exact {
            succeeds_iff := by simp [Except.map]
            output := by rintro _ _ _ ⟨⟩
            loads := fun _ _ => ⟨second.loads, rfl, by simp⟩
            first_stops := by rintro _ ⟨⟩
            second_stops := by rintro _ _ _ ⟨⟩; rfl }
      | ok more =>
          exact {
            succeeds_iff := ⟨fun _ => ⟨⟨output, rfl⟩, more, rfl⟩, fun _ => ⟨_, rfl⟩⟩
            output := by rintro _ _ ⟨⟩ ⟨⟩; simp [Except.map]
            loads := fun _ _ => ⟨second.loads, rfl, by simp⟩
            first_stops := by rintro _ ⟨⟩
            second_stops := by rintro _ _ _ ⟨⟩ }

/-- Rendering leaves the renderer as it found it, whether it comes to its end or stops anywhere; so
nodes do not affect one another. What comes of two lists of nodes in one go is what comes of the
first, followed by what comes of the second alone in the context and with the replaced blocks that
the first was begun with. -/
theorem siblings_render_apart (openings : Nat) (renderer : Renderer) (stage : Stage)
    (nodes others : List Node) :
    let render := renderAll (renderBody openings)
    render nodes renderer = renderer.after (draftAll (draftBody openings) renderer.scene nodes) ∧
      LeftAsFound renderer (render nodes renderer).2 ∧
      SiblingAccount stage (render nodes renderer) (render others { renderer with stage })
        (render (nodes ++ others) renderer) := by
  have follows := renderAll_follows (renderBody_follows openings)
  dsimp only
  rw [follows, follows, follows]
  refine ⟨rfl, renderer.leftAsFound_after _, ?_⟩
  simp only [draftAll_append]
  exact renderer.siblings_after stage _ _

end Quire
