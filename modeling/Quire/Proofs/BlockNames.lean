/-
Module: Quire.Proofs.BlockNames
Purpose: In a template that has been built no two blocks have the same name, at whatever depths they
  stand.
Main exports: namesOf, Assembly.Distinct, nodup_namesOf_of_assemble, Engine.Built.nodup_namesOf
-/
import Mathlib.Data.List.Perm.Basic
import Quire.Proofs.StaticLoading

/-!
The builder notes the name of every block at its opening, and refuses a name that it has noted. So
the names that it has noted are at any time those of the blocks it has put together, finished or
still open, and each of them is there once.
-/

namespace Quire

theorem blocksOf_append (nodes others : List Node) :
    blocksOf (nodes ++ others) = blocksOf nodes ++ blocksOf others := by
  induction nodes with
  | nil => rfl
  | cons node rest ih => simp [blocksOf, ih]

/-! ### Names of blocks -/

/-- The names of the blocks in a node, at any depth. -/
def Node.names (node : Node) : List String :=
  node.blocks.map Prod.fst

/-- The names of the blocks in any of the nodes. -/
def namesOf (nodes : List Node) : List String :=
  (blocksOf nodes).map Prod.fst

/-- The names of the blocks directly inside a conditional. -/
def Child.names : Child → List String
  | .node direct => direct.names
  | .divider _ => []

/-- The names of the blocks in an open tag, its own included. -/
def Frame.names : Frame → List String
  | .block name body => name :: namesOf body
  | .loop _ body => namesOf body
  | .conditional _ children => children.flatMap Child.names

/-- The names of all blocks that have been put together, or opened, so far. -/
def Assembly.taken (assembly : Assembly) : List String :=
  assembly.frames.flatMap Frame.names ++ namesOf assembly.roots

@[simp] theorem namesOf_append_singleton (nodes : List Node) (node : Node) :
    namesOf (nodes ++ [node]) = namesOf nodes ++ node.names := by
  simp [namesOf, Node.names, blocksOf_append, blocksOf]

theorem Child.names_branches (children : List Child) :
    (blocksOf (branches children).1 ++ branchBlocks (branches children).2).map Prod.fst =
      children.flatMap names := by
  induction children with
  | nil => rfl
  | cons child rest ih =>
      cases child with
      | node direct =>
          simp only [Child.branches, blocksOf, List.append_assoc, List.map_append,
            List.flatMap_cons, Child.names, Node.names] at ih ⊢
          rw [ih]
      | divider guard =>
          simp only [Child.branches, blocksOf, branchBlocks, List.nil_append, List.flatMap_cons,
            Child.names]
          exact ih

theorem Frame.names_add (frame : Frame) (node : Node) :
    (frame.add node).names = frame.names ++ node.names := by
  cases frame with
  | block name body => simp [Frame.add, Frame.names]
  | loop spec body => simp [Frame.add, Frame.names]
  | conditional condition children => simp [Frame.add, Frame.names, Child.names]

/-- Closing a tag keeps the names of the blocks in it. -/
theorem Frame.names_close {frame : Frame} {node : Node} (closed : frame.close = .ok node) :
    node.names = frame.names := by
  cases frame with
  | block name body =>
      cases closed
      rfl
  | loop spec body =>
      cases closed
      rfl
  | conditional condition children =>
      simp only [Frame.close] at closed
      split at closed
      · cases closed
        exact Child.names_branches children
      · simp at closed

/-! ### Every name is noted once -/

namespace Assembly

@[simp] theorem names_add (assembly : Assembly) (node : Node) :
    (assembly.add node).names = assembly.names := by
  cases frames : assembly.frames <;> simp [Assembly.add, frames]

theorem taken_add (assembly : Assembly) (node : Node) :
    (assembly.add node).taken.Perm (node.names ++ assembly.taken) := by
  obtain ⟨frames, roots, names⟩ := assembly
  cases frames with
  | nil =>
      simp only [Assembly.add, taken, List.flatMap_nil, List.nil_append, namesOf_append_singleton]
      exact List.perm_append_comm
  | cons frame outer =>
      simp only [Assembly.add, taken, List.flatMap_cons, Frame.names_add, List.append_assoc]
      exact List.perm_append_comm_assoc frame.names node.names _

theorem taken_enter (assembly : Assembly) (frame : Frame) :
    (assembly.enter frame).taken = frame.names ++ assembly.taken := by
  simp [Assembly.enter, taken]

/-- The names that have been noted are those of the blocks so far, and each is there once. -/
structure Distinct (assembly : Assembly) : Prop where
  noted : assembly.taken.Perm assembly.names
  once : assembly.names.Nodup

theorem Distinct.add {assembly : Assembly} (distinct : assembly.Distinct) {node : Node}
    (unnamed : node.names = []) : (assembly.add node).Distinct := by
  have noted := assembly.taken_add node
  rw [unnamed, List.nil_append] at noted
  exact ⟨by simpa using noted.trans distinct.noted, by simpa using distinct.once⟩

theorem Distinct.enter {assembly : Assembly} (distinct : assembly.Distinct) {frame : Frame}
    (unnamed : frame.names = []) : (assembly.enter frame).Distinct := by
  have noted := assembly.taken_enter frame
  rw [unnamed, List.nil_append] at noted
  exact ⟨noted ▸ distinct.noted, distinct.once⟩

theorem Distinct.advance {fetch : String → Except Error Template} {assembly next : Assembly}
    (distinct : assembly.Distinct) (advance : Advance fetch assembly next) : next.Distinct := by
  cases advance with
  | text text => exact distinct.add rfl
  | value path => exact distinct.add rfl
  | inheritance _ _ => exact distinct.add rfl
  | inclusion _ => exact distinct.add rfl
  | @block name fresh =>
      refine ⟨?_, List.nodup_cons.2 ⟨fresh, distinct.once⟩⟩
      exact distinct.noted.cons name
  | loop spec => exact distinct.enter rfl
  | conditional condition => exact distinct.enter rfl
  | @divider condition children guard outer inside =>
      obtain ⟨frames, roots, names⟩ := assembly
      cases inside
      refine ⟨?_, distinct.once⟩
      simpa [taken, Frame.names, Child.names] using distinct.noted
  | @closing frame outer node inside closed =>
      obtain ⟨frames, roots, names⟩ := assembly
      cases inside
      have noted := taken_add ⟨outer, roots, names⟩ node
      rw [Frame.names_close closed] at noted
      refine ⟨noted.trans ?_, by simpa using distinct.once⟩
      simpa [taken] using distinct.noted

theorem Distinct.foldlM {fetch : String → Except Error Template} {template : String}
    {lexemes : List Lexeme} {assembly last : Assembly} (distinct : assembly.Distinct)
    (ok : lexemes.foldlM (step fetch template) assembly = .ok last) : last.Distinct := by
  induction lexemes generalizing assembly with
  | nil =>
      cases ok
      exact distinct
  | cons lexeme rest ih =>
      obtain ⟨next, first, others⟩ := bind_ok_iff.1 ok
      exact ih (distinct.advance (advance_of_step first)) others

end Assembly

/-- In the nodes that are built from a source no two blocks have the same name. -/
theorem nodup_namesOf_of_assemble {fetch : String → Except Error Template} {template : String}
    {source : Source} {nodes : List Node} (ok : assemble fetch template source = .ok nodes) :
    (namesOf nodes).Nodup := by
  obtain ⟨assembly, folded, finished⟩ := bind_ok_iff.1 ok
  have start : Assembly.empty.Distinct := ⟨.refl _, List.nodup_nil⟩
  have distinct := start.foldlM folded
  have names := distinct.noted.nodup_iff.2 distinct.once
  rw [Assembly.blame_ok_iff, Assembly.finish] at finished
  split at finished
  · rename_i closed
    cases finished
    simpa [Assembly.taken, closed] using names
  · simp at finished

namespace Engine

variable {engine : Engine}

theorem Built.nodup_namesOf {template : Template} (built : engine.Built template) :
    (namesOf template.nodes).Nodup := by
  rcases built with ⟨name, loaded⟩ | ⟨name, source, built⟩
  · obtain ⟨_, _, _, nodes, _, _, assembled, rfl⟩ := loadWithin_ok_iff.1 loaded
    exact nodup_namesOf_of_assemble assembled
  · obtain ⟨nodes, assembled, done⟩ := bind_ok_iff.1 built
    cases done
    exact nodup_namesOf_of_assemble assembled

end Engine

end Quire
