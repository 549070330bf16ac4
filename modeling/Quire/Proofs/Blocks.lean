/-
Module: Quire.Proofs.Blocks
Purpose: The blocks of a template are the blocks that stand in it at any depth.
Main exports: Defines, Template.Defines, Template.mem_blocks_iff, Inside, PassesDown,
  every_of_mem_blocksOf
-/
import Quire.Template

/-!
Collecting the blocks of a template goes into the bodies of blocks, loops and conditionals, whether
or not they are ever rendered, and not into the templates that it refers to.
-/

namespace Quire

/-- A block with a name and a body stands in a node, at any depth. -/
inductive Defines (name : String) (body : List Node) : Node → Prop where
  | here : Defines name body (.block name body)
  | inBlock {other : String} {nodes : List Node} {node : Node} (member : node ∈ nodes)
      (defines : Defines name body node) : Defines name body (.block other nodes)
  | inLoop {spec : Loop} {nodes : List Node} {node : Node} (member : node ∈ nodes)
      (defines : Defines name body node) : Defines name body (.loop spec nodes)
  | inConditional {condition : Condition} {nodes : List Node} {branches : List Branch} {node : Node}
      (member : node ∈ nodes) (defines : Defines name body node) :
      Defines name body (.conditional condition nodes branches)
  | inBranch {condition : Condition} {nodes : List Node} {branches : List Branch} {branch : Branch}
      {node : Node} (among : branch ∈ branches) (member : node ∈ branch.body)
      (defines : Defines name body node) : Defines name body (.conditional condition nodes branches)

/-- A template defines a block of a name with a body, at any depth. -/
def Template.Defines (template : Template) (name : String) (body : List Node) : Prop :=
  ∃ node ∈ template.nodes, Quire.Defines name body node

mutual

theorem Node.defines_of_mem_blocks {name : String} {body : List Node} :
    ∀ (node : Node), (name, body) ∈ node.blocks → Defines name body node
  | .block _ nodes, member => by
      rcases List.mem_cons.1 member with same | member
      · cases same
        exact .here
      · obtain ⟨node, inside, defines⟩ := exists_defines_of_mem_blocksOf nodes member
        exact .inBlock inside defines
  | .loop _ nodes, member => by
      obtain ⟨node, inside, defines⟩ := exists_defines_of_mem_blocksOf nodes member
      exact .inLoop inside defines
  | .conditional _ nodes branches, member => by
      rcases List.mem_append.1 member with member | member
      · obtain ⟨node, inside, defines⟩ := exists_defines_of_mem_blocksOf nodes member
        exact .inConditional inside defines
      · obtain ⟨branch, among, node, inside, defines⟩ :=
          exists_defines_of_mem_branchBlocks branches member
        exact .inBranch among inside defines
  | .text _, member => nomatch member
  | .value _, member => nomatch member
  | .inheritance _, member => nomatch member
  | .inclusion _, member => nomatch member
termination_by structural node => node

theorem exists_defines_of_mem_blocksOf {name : String} {body : List Node} :
    ∀ (nodes : List Node), (name, body) ∈ blocksOf nodes → ∃ node ∈ nodes, Defines name body node
  | [], member => nomatch member
  | node :: rest, member => by
      rcases List.mem_append.1 member with member | member
      · exact ⟨node, List.mem_cons_self, node.defines_of_mem_blocks member⟩
      · obtain ⟨other, inside, defines⟩ := exists_defines_of_mem_blocksOf rest member
        exact ⟨other, List.mem_cons_of_mem _ inside, defines⟩
termination_by structural nodes => nodes

theorem exists_defines_of_mem_branchBlocks {name : String} {body : List Node} :
    ∀ (branches : List Branch), (name, body) ∈ branchBlocks branches →
      ∃ branch ∈ branches, ∃ node ∈ branch.body, Defines name body node
  | [], member => nomatch member
  | ⟨guard, nodes⟩ :: rest, member => by
      rcases List.mem_append.1 member with member | member
      · exact ⟨_, List.mem_cons_self, exists_defines_of_mem_blocksOf nodes member⟩
      · obtain ⟨branch, among, inside⟩ := exists_defines_of_mem_branchBlocks rest member
        exact ⟨branch, List.mem_cons_of_mem _ among, inside⟩
termination_by structural branches => branches

end

theorem mem_blocksOf_of_mem {nodes : List Node} {node : Node} (member : node ∈ nodes)
    {entry : String × List Node} (among : entry ∈ node.blocks) : entry ∈ blocksOf nodes := by
  induction nodes with
  | nil => exact nomatch member
  | cons first rest ih =>
      rcases List.mem_cons.1 member with rfl | member
      · exact List.mem_append_left _ among
      · exact List.mem_append_right _ (ih member)

theorem mem_branchBlocks_of_mem {branches : List Branch} {branch : Branch}
    (member : branch ∈ branches) {entry : String × List Node}
    (among : entry ∈ blocksOf branch.body) : entry ∈ branchBlocks branches := by
  induction branches with
  | nil => exact nomatch member
  | cons first rest ih =>
      obtain ⟨guard, nodes⟩ := first
      rcases List.mem_cons.1 member with rfl | member
      · exact List.mem_append_left _ among
      · exact List.mem_append_right _ (ih member)

/-! ### What stands inside a node -/

/-- A node stands in another one, at any depth, or is it. -/
inductive Inside (inner : Node) : Node → Prop where
  | here : Inside inner inner
  | inBlock {name : String} {body : List Node} {node : Node} (member : node ∈ body)
      (inside : Inside inner node) : Inside inner (.block name body)
  | inLoop {spec : Loop} {body : List Node} {node : Node} (member : node ∈ body)
      (inside : Inside inner node) : Inside inner (.loop spec body)
  | inConditional {condition : Condition} {body : List Node} {branches : List Branch} {node : Node}
      (member : node ∈ body) (inside : Inside inner node) :
      Inside inner (.conditional condition body branches)
  | inBranch {condition : Condition} {body : List Node} {branches : List Branch} {branch : Branch}
      {node : Node} (among : branch ∈ branches) (member : node ∈ branch.body)
      (inside : Inside inner node) : Inside inner (.conditional condition body branches)

theorem Inside.trans {inner node outer : Node} (inside : Inside inner node)
    (within : Inside node outer) : Inside inner outer := by
  induction within with
  | here => exact inside
  | inBlock member _ ih => exact .inBlock member ih
  | inLoop member _ ih => exact .inLoop member ih
  | inConditional member _ ih => exact .inConditional member ih
  | inBranch among member _ ih => exact .inBranch among member ih

/-- The blocks inside a node are blocks of the node. -/
theorem Inside.blocks_subset {inner node : Node} (inside : Inside inner node) :
    inner.blocks ⊆ node.blocks := by
  intro entry stands
  induction inside with
  | here => exact stands
  | inBlock member _ ih => exact List.mem_cons_of_mem _ (mem_blocksOf_of_mem member ih)
  | inLoop member _ ih => exact mem_blocksOf_of_mem member ih
  | inConditional member _ ih => exact List.mem_append_left _ (mem_blocksOf_of_mem member ih)
  | inBranch among member _ ih =>
      exact List.mem_append_right _ (mem_branchBlocks_of_mem among (mem_blocksOf_of_mem member ih))

theorem Defines.inside {name : String} {body : List Node} {node : Node}
    (defines : Defines name body node) : Inside (.block name body) node := by
  induction defines with
  | here => exact .here
  | inBlock member _ ih => exact .inBlock member ih
  | inLoop member _ ih => exact .inLoop member ih
  | inConditional member _ ih => exact .inConditional member ih
  | inBranch among member _ ih => exact .inBranch among member ih

theorem Defines.mem_blocks {name : String} {body : List Node} {node : Node}
    (defines : Defines name body node) : (name, body) ∈ node.blocks :=
  defines.inside.blocks_subset List.mem_cons_self

/-- The blocks of a template are those that it defines at any depth. -/
theorem Template.mem_blocks_iff {template : Template} {name : String} {body : List Node} :
    (name, body) ∈ template.blocks ↔ template.Defines name body :=
  ⟨exists_defines_of_mem_blocksOf template.nodes,
    fun ⟨_, member, defines⟩ => mem_blocksOf_of_mem member defines.mem_blocks⟩

/-! ### What passes from a template to the bodies of its blocks -/

/-- A property of a node that the nodes inside it have as well. -/
structure PassesDown (holds : Node → Prop) : Prop where
  block : ∀ {name body}, holds (.block name body) → ∀ node ∈ body, holds node
  loop : ∀ {spec body}, holds (.loop spec body) → ∀ node ∈ body, holds node
  conditional : ∀ {condition body branches}, holds (.conditional condition body branches) →
    ∀ node ∈ body, holds node
  branch : ∀ {condition body branches}, holds (.conditional condition body branches) →
    ∀ branch ∈ branches, ∀ node ∈ branch.body, holds node

theorem PassesDown.inside {holds : Node → Prop} (down : PassesDown holds) {inner node : Node}
    (inside : Inside inner node) (here : holds node) : holds inner := by
  induction inside with
  | here => exact here
  | inBlock member _ ih => exact ih (down.block here _ member)
  | inLoop member _ ih => exact ih (down.loop here _ member)
  | inConditional member _ ih => exact ih (down.conditional here _ member)
  | inBranch among member _ ih => exact ih (down.branch here _ among _ member)

theorem Defines.every {holds : Node → Prop} (down : PassesDown holds) {name : String}
    {body : List Node} {node : Node} (defines : Defines name body node) (here : holds node) :
    ∀ inner ∈ body, holds inner :=
  down.block (down.inside defines.inside here)

theorem PassesDown.of_inside {holds : Node → Prop}
    (inward : ∀ {inner node}, Inside inner node → holds node → holds inner) : PassesDown holds where
  block here _ member := inward (.inBlock member .here) here
  loop here _ member := inward (.inLoop member .here) here
  conditional here _ member := inward (.inConditional member .here) here
  branch here _ among _ member := inward (.inBranch among member .here) here

/-- What holds of all nodes of a template and passes down holds of the bodies of its blocks. -/
theorem every_of_mem_blocksOf {holds : Node → Prop} (down : PassesDown holds) {nodes : List Node}
    (every : ∀ node ∈ nodes, holds node) {entry : String × List Node}
    (member : entry ∈ blocksOf nodes) : ∀ inner ∈ entry.2, holds inner := by
  obtain ⟨node, among, defines⟩ := exists_defines_of_mem_blocksOf nodes member
  exact defines.every down (every node among)

end Quire
