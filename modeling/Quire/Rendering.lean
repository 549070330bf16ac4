/-
Module: Quire.Rendering
Purpose: Rendering a template in one pass.
Main exports: Scene, Node.draft, Template.draft
-/
import Quire.Draft
import Quire.Reference

/-!
A pass goes down the tree of a template. It leaves the tree only at a block whose body is replaced:
the replacing body comes from a template further down the chain of inheritance. How often that may
happen within itself is bounded by a measure that counts down with each such body, so that rendering
always ends; where the measure does not suffice the pass stops as endless.
-/

namespace Quire

/-- What nodes are rendered in. -/
structure Scene where
  context : Context
  overrides : Overrides

namespace Scene

/-- The scene inside one more scope. -/
def inside (scene : Scene) (scope : Scope) : Scene :=
  { scene with context := scene.context.push scope }

/-- The scene without replaced blocks. -/
def bare (scene : Scene) : Scene :=
  { scene with overrides := [] }

/-- The scene with further blocks, which give way to those that are replaced already. -/
def under (scene : Scene) (blocks : Overrides) : Scene :=
  { scene with overrides := scene.overrides ++ blocks }

end Scene

section

variable (replaced : List Node → Scene → Draft)

mutual

/-- A node in a scene. The body of a replaced block is rendered by `replaced`. -/
def Node.draft (scene : Scene) : Node → Draft
  | .text text => .text text
  | .value path =>
      match scene.context.lookup path with
      | some value => .text value.display
      | none => .empty
  | .block name body =>
      match Fields.find? name scene.overrides with
      | some other => replaced other scene
      | none => draftAll scene body
  | .inheritance target => target.draft .inheritance scene
  | .inclusion target => target.draft .inclusion scene.bare
  | .loop loop body =>
      match loop.scopes scene.context with
      | .error error => .fail error
      | .ok scopes => .each (fun scope => draftAll (scene.inside scope) body) scopes
  | .conditional condition body branches =>
      if condition.holds scene.context then draftAll scene body
      else draftBranches scene branches
termination_by structural node => node

/-- The template a tag refers to: one in quotes at once, one in a variable put off. -/
def Target.draft (purpose : Purpose) (scene : Scene) : Target → Draft
  | .quoted ⟨_, nodes⟩ => draftTemplate scene nodes
  | .bare path =>
      match scene.context.templateName path with
      | .error error => .fail error
      | .ok name => .request ⟨purpose, name, scene.context, scene.overrides⟩
termination_by structural target => target

/-- The first branch whose condition holds or that has none. -/
def draftBranches (scene : Scene) : List Branch → Draft
  | [] => .empty
  | ⟨guard, body⟩ :: rest =>
      if guard.all (·.holds scene.context) then draftAll scene body
      else draftBranches scene rest
termination_by structural branches => branches

/-- Nodes one after another. -/
def draftAll (scene : Scene) : List Node → Draft
  | [] => .empty
  | node :: rest => (node.draft scene).andThen fun _ => draftAll scene rest
termination_by structural nodes => nodes

/-- The nodes of a template. One headed by an inheritance tag leaves nothing of its own: its blocks
replace those of the template it is derived from, unless they are replaced themselves. -/
def draftTemplate (scene : Scene) : List Node → Draft
  | [] => .empty
  | .inheritance target :: rest => target.draft .inheritance (scene.under (blocksOf rest))
  | node :: rest => (node.draft scene).andThen fun _ => draftAll scene rest
termination_by structural nodes => nodes

end

end

/-- The body of a replaced block, inside which no more than `openings` others may be open. -/
def draftBody : Nat → List Node → Scene → Draft
  | 0 => fun _ _ => .halt .endless
  | openings + 1 => fun body scene => draftAll (draftBody openings) scene body

/-- A template in a context, its blocks replaced by the given ones. -/
def Template.draft (template : Template) (openings : Nat) (context : Context)
    (overrides : Overrides) : Draft :=
  draftTemplate (draftBody openings) ⟨context, overrides⟩ template.nodes

end Quire
