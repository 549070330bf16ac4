/-
Module: Quire.Template
Purpose: Built templates as trees of nodes.
Main exports: Template, Node, Target, Branch, Template.parent?, Template.blocks
-/
import Quire.Condition
import Quire.Loop

/-!
A template that refers to another one in quotes holds the other one, so a built template is a
finite tree however its references run. What a variable names is not part of the tree.
-/

namespace Quire

mutual

/-- The template that a tag refers to. -/
inductive Target where
  /-- One that is built together with the tag. -/
  | quoted (template : Template)
  /-- One whose name a variable holds. -/
  | bare (path : String)

/-- A built template: the name it was built under and its nodes. -/
structure Template where
  path : String
  nodes : List Node

/-- A part of a template. -/
inductive Node where
  /-- Literal text. -/
  | text (text : String)
  /-- The text of the value at a path, or nothing where there is none. -/
  | value (path : String)
  /-- A named region that a derived template may replace. -/
  | block (name : String) (body : List Node)
  /-- The template that this one is derived from. -/
  | inheritance (target : Target)
  /-- Another template in this place. -/
  | inclusion (target : Target)
  /-- A body for every entry of a collection. -/
  | loop (spec : Loop) (body : List Node)
  /-- A body under a condition, and the branches to try when it does not hold. -/
  | conditional (condition : Condition) (body : List Node) (branches : List Branch)

/-- A further branch of a conditional. Without a condition it is always taken. -/
structure Branch where
  guard : Option Condition
  body : List Node

end

mutual

/-- The blocks defined in a node, at any depth, with their bodies. -/
def Node.blocks : Node → Fields (List Node)
  | .block name body => (name, body) :: blocksOf body
  | .loop _ body => blocksOf body
  | .conditional _ body branches => blocksOf body ++ branchBlocks branches
  | .text _ | .value _ | .inheritance _ | .inclusion _ => []
termination_by structural node => node

/-- The blocks defined in any of the nodes. -/
def blocksOf : List Node → Fields (List Node)
  | [] => []
  | node :: rest => node.blocks ++ blocksOf rest
termination_by structural nodes => nodes

/-- The blocks defined in any of the branches. -/
def branchBlocks : List Branch → Fields (List Node)
  | [] => []
  | ⟨_, body⟩ :: rest => blocksOf body ++ branchBlocks rest
termination_by structural branches => branches

end

namespace Template

/-- The template that a template is derived from, if it is headed by an inheritance tag. -/
def parent? (template : Template) : Option Target :=
  match template.nodes with
  | .inheritance target :: _ => some target
  | _ => none

/-- Every block of a template with its body, blocks inside blocks included. -/
def blocks (template : Template) : Fields (List Node) :=
  blocksOf template.nodes

end Template

end Quire
