/-
Module: Quire.Proofs.Markup
Purpose: What it is for lexemes to be the markup of a tree, and where the tags of a tree may stand.
Main exports: Mark, Mark.Written, Tree, Tree.Spells, SpellsAll, Arranged, WellPlaced, treesOf,
  treesOf_injective, blockTags_treesOf
-/
import Quire.Template.Assembly

/-!
A template as it is written is a tree of tags: a divider is one more child of its conditional, and
a tag has its parameters in a form that has been understood. Nothing here says how the tree is
found. The built nodes, where the dividers have become branches, are such a tree in another form,
and from that tree they can be read back.
-/

namespace Quire

/-! ### Trees of tags -/

/-- A tag with what its parameters state. -/
inductive Mark where
  | block (name : String)
  | inheritance (target : Target)
  | inclusion (target : Target)
  | loop (spec : Loop)
  | conditional (condition : Condition)
  | otherwise (guard : Option Condition)

/-- The tag, whatever its parameters state. -/
def Mark.tag : Mark → Tag
  | .block _ => .block
  | .inheritance _ => .inheritance
  | .inclusion _ => .inclusion
  | .loop _ => .loop
  | .conditional _ => .conditional
  | .otherwise _ => .otherwise

/-- Parameters state what a mark says. The template that a quoted name refers to is the fetched
one. -/
inductive Mark.Written (fetch : String → Except Error Template) (params : String) :
    Mark → Prop where
  | block {name : String} (named : blockName? params = some name) :
      Written fetch params (.block name)
  | inheritance {reference : Reference} {target : Target}
      (parsed : Reference.parse? params = some reference)
      (resolved : Assembly.resolve fetch reference = .ok target) :
      Written fetch params (.inheritance target)
  | inclusion {reference : Reference} {target : Target}
      (parsed : Reference.parse? params = some reference)
      (resolved : Assembly.resolve fetch reference = .ok target) :
      Written fetch params (.inclusion target)
  | loop {spec : Loop} (parsed : Loop.parse params = .ok spec) : Written fetch params (.loop spec)
  | conditional {condition : Condition} (parsed : Condition.parse? params = some condition) :
      Written fetch params (.conditional condition)
  | otherwise {guard : Option Condition} (parsed : parseGuard params = .ok guard) :
      Written fetch params (.otherwise guard)

/-- A template as it is written. -/
inductive Tree where
  | text (text : String)
  | value (path : String)
  | tag (mark : Mark) (children : List Tree)

/-- The tag at the top of a tree. -/
def Tree.tag? : Tree → Option Tag
  | .tag mark _ => some mark.tag
  | .text _ | .value _ => none

mutual

/-- The trees within a tree, from the top in the order in which they are written. -/
def Tree.subtrees : Tree → List Tree
  | .text text => [.text text]
  | .value path => [.value path]
  | .tag mark children => .tag mark children :: subtreesOf children
termination_by structural tree => tree

/-- The trees within any of the trees. -/
def subtreesOf : List Tree → List Tree
  | [] => []
  | tree :: rest => tree.subtrees ++ subtreesOf rest
termination_by structural trees => trees

end

@[simp] theorem subtreesOf_append (trees others : List Tree) :
    subtreesOf (trees ++ others) = subtreesOf trees ++ subtreesOf others := by
  induction trees with
  | nil => rfl
  | cons tree rest ih => simp [subtreesOf, ih]

/-! ### The markup of a tree -/

mutual

/-- Lexemes that spell a tree. A tag is an opening, and one that encloses others is followed by
their lexemes and by a closing marker of its own name. -/
inductive Tree.Spells (fetch : String → Except Error Template) :
    Tree → List Lexeme → Prop where
  | text (text : String) : Tree.Spells fetch (.text text) [.text text]
  | value (written : String) : Tree.Spells fetch (.value (Text.trimmed written)) [.value written]
  | leaf {mark : Mark} {params : String} (bare : mark.tag.encloses = false)
      (written : mark.Written fetch (Text.trimmed params)) :
      Tree.Spells fetch (.tag mark []) [.opening mark.tag.name params]
  | enclosing {mark : Mark} {params : String} {children : List Tree} {inner : List Lexeme}
      (encloses : mark.tag.encloses = true) (written : mark.Written fetch (Text.trimmed params))
      (spells : SpellsAll fetch children inner) :
      Tree.Spells fetch (.tag mark children)
        (.opening mark.tag.name params :: (inner ++ [.closing mark.tag.name]))

/-- Lexemes that spell trees one after another. -/
inductive SpellsAll (fetch : String → Except Error Template) :
    List Tree → List Lexeme → Prop where
  | nil : SpellsAll fetch [] []
  | cons {tree : Tree} {rest : List Tree} {lexemes others : List Lexeme}
      (first : Tree.Spells fetch tree lexemes) (spells : SpellsAll fetch rest others) :
      SpellsAll fetch (tree :: rest) (lexemes ++ others)

end

section

variable {fetch : String → Except Error Template}

theorem SpellsAll.append {trees others : List Tree} {lexemes more : List Lexeme}
    (spells : SpellsAll fetch trees lexemes) (further : SpellsAll fetch others more) :
    SpellsAll fetch (trees ++ others) (lexemes ++ more) := by
  induction trees generalizing lexemes with
  | nil =>
      cases spells
      exact further
  | cons tree rest ih =>
      cases spells with
      | cons first spells =>
          rw [List.cons_append, List.append_assoc]
          exact .cons first (ih spells)

theorem SpellsAll.split {trees others : List Tree} {lexemes : List Lexeme}
    (spells : SpellsAll fetch (trees ++ others) lexemes) :
    ∃ front back, lexemes = front ++ back ∧ SpellsAll fetch trees front ∧
      SpellsAll fetch others back := by
  induction trees generalizing lexemes with
  | nil => exact ⟨[], lexemes, rfl, .nil, spells⟩
  | cons tree rest ih =>
      cases spells with
      | cons first spells =>
          obtain ⟨front, back, rfl, inFront, inBack⟩ := ih spells
          exact ⟨_, back, (List.append_assoc ..).symm, .cons first inFront, inBack⟩

/-- In the markup of a tag there are parameters that state it and the markup of its children. -/
theorem Tree.Spells.tag {mark : Mark} {children : List Tree} {lexemes : List Lexeme}
    (spells : Tree.Spells fetch (.tag mark children) lexemes) :
    ∃ params inner, .opening mark.tag.name params ∈ lexemes ∧
      mark.Written fetch (Text.trimmed params) ∧ SpellsAll fetch children inner ∧
        inner ⊆ lexemes := by
  cases spells with
  | leaf bare written => exact ⟨_, [], List.mem_cons_self, written, .nil, List.nil_subset _⟩
  | enclosing encloses written inner =>
      refine ⟨_, _, List.mem_cons_self, written, inner, fun lexeme member => ?_⟩
      exact List.mem_cons_of_mem _ (List.mem_append_left _ member)

theorem Tree.Spells.single {tree : Tree} {lexemes : List Lexeme}
    (spells : Tree.Spells fetch tree lexemes) : SpellsAll fetch [tree] lexemes := by
  simpa using SpellsAll.cons spells .nil

end

/-! ### Where tags may stand -/

/-- The children of a tag, or the trees at the root, begin and divide as they may. -/
structure Seated (parent : Option Tag) (children : List Tree) : Prop where
  /-- Nothing stands before an inheritance tag. -/
  first : ∀ tree ∈ children.tail, tree.tag? ≠ some .inheritance
  /-- A divider stands directly inside a conditional. -/
  dividers : ∀ tree ∈ children, tree.tag? = some .otherwise → parent = some .conditional

/-- No divider follows one without a condition. -/
def InOrder (children : List Tree) : Prop :=
  ∀ before below after, children = before ++ .tag (.otherwise none) below :: after →
    ∀ tree ∈ after, tree.tag? ≠ some .otherwise

/-- The children of a tag, or the trees at the root, stand where they may. -/
structure Arranged (parent : Option Tag) (children : List Tree) : Prop
    extends Seated parent children where
  order : InOrder children

/-- The children of every tag in the trees stand where they may. -/
def InnerArranged (trees : List Tree) : Prop :=
  ∀ mark children, .tag mark children ∈ subtreesOf trees → Arranged (some mark.tag) children

/-- The name and the children of a block tag. -/
def Tree.block? : Tree → Option (String × List Tree)
  | .tag (.block name) children => some (name, children)
  | _ => none

/-- The block tags of trees, at any depth, each with its name and its children. -/
def blockTags (trees : List Tree) : List (String × List Tree) :=
  (subtreesOf trees).filterMap Tree.block?

/-- The names of the block tags of trees. -/
def blockNames (trees : List Tree) : List String :=
  (blockTags trees).map Prod.fst

/-- Every tag of a template stands where it may, and no two blocks have the same name. -/
structure WellPlaced (trees : List Tree) : Prop where
  root : Arranged none trees
  inner : InnerArranged trees
  distinct : (blockNames trees).Nodup

@[simp] theorem blockTags_append (trees others : List Tree) :
    blockTags (trees ++ others) = blockTags trees ++ blockTags others := by
  simp [blockTags]

@[simp] theorem blockTags_tag (mark : Mark) (children : List Tree) :
    blockTags [.tag mark children] =
      ((Tree.tag mark children).block?).toList ++ blockTags children := by
  cases mark <;> simp [blockTags, subtreesOf, Tree.subtrees, Tree.block?, List.filterMap_cons]

/-- The name that a mark gives to a block. -/
def Mark.names : Mark → List String
  | .block name => [name]
  | _ => []

theorem Mark.reverse_names (mark : Mark) : mark.names.reverse = mark.names := by
  cases mark <;> rfl

theorem Mark.names_of_not_encloses {mark : Mark} (bare : mark.tag.encloses = false) :
    mark.names = [] := by
  cases mark <;> simp_all [names, tag, Tag.encloses]

@[simp] theorem blockNames_append (trees others : List Tree) :
    blockNames (trees ++ others) = blockNames trees ++ blockNames others := by
  simp [blockNames]

@[simp] theorem blockNames_nil : blockNames [] = [] := rfl

@[simp] theorem blockNames_text (text : String) : blockNames [.text text] = [] := rfl

@[simp] theorem blockNames_value (path : String) : blockNames [.value path] = [] := rfl

@[simp] theorem blockNames_tag (mark : Mark) (children : List Tree) :
    blockNames [.tag mark children] = mark.names ++ blockNames children := by
  cases mark <;> simp [blockNames, Tree.block?, Mark.names]

theorem inOrder_nil : InOrder [] := by
  simp [InOrder]

/-- The order of dividers, child by child. -/
theorem inOrder_cons {tree : Tree} {rest : List Tree} :
    InOrder (tree :: rest) ↔
      ((∃ below, tree = .tag (.otherwise none) below) →
        ∀ other ∈ rest, other.tag? ≠ some .otherwise) ∧ InOrder rest := by
  constructor
  · intro order
    refine ⟨fun ⟨below, same⟩ => order [] below rest (by rw [same]; rfl), ?_⟩
    rintro before below after rfl
    exact order (tree :: before) below after rfl
  · rintro ⟨here, order⟩ before below after split
    cases before with
    | nil =>
        obtain ⟨rfl, rfl⟩ := List.cons.inj split
        exact here ⟨below, rfl⟩
    | cons head before =>
        obtain ⟨_, rfl⟩ := List.cons.inj split
        exact order before below after rfl

theorem Seated.append_singleton {parent : Option Tag} {trees : List Tree} {tree : Tree}
    (seated : Seated parent trees) (first : tree.tag? = some .inheritance → trees = [])
    (divider : tree.tag? = some .otherwise → parent = some .conditional) :
    Seated parent (trees ++ [tree]) := by
  constructor
  · intro other member
    cases trees with
    | nil => exact nomatch member
    | cons head rest =>
        rcases List.mem_append.1 member with member | member
        · exact seated.first other member
        · intro heads
          cases List.mem_singleton.1 member
          exact nomatch first heads
  · intro other member heads
    rcases List.mem_append.1 member with member | member
    · exact seated.dividers other member heads
    · cases List.mem_singleton.1 member
      exact divider heads

theorem Seated.of_append {parent : Option Tag} {trees more : List Tree}
    (seated : Seated parent (trees ++ more)) : Seated parent trees := by
  constructor
  · intro tree member
    refine seated.first tree ?_
    cases trees with
    | nil => exact nomatch member
    | cons head rest => exact List.mem_append_left _ member
  · intro tree member
    exact seated.dividers tree (List.mem_append_left _ member)

/-- An inheritance tag has nothing before it. -/
theorem Seated.first_of_append_cons {parent : Option Tag} {before after : List Tree} {tree : Tree}
    (seated : Seated parent (before ++ tree :: after)) (heads : tree.tag? = some .inheritance) :
    before = [] := by
  cases before with
  | nil => rfl
  | cons head rest => exact absurd heads (seated.first tree (by simp))

theorem Seated.divider_of_append_cons {parent : Option Tag} {before after : List Tree} {tree : Tree}
    (seated : Seated parent (before ++ tree :: after)) (heads : tree.tag? = some .otherwise) :
    parent = some .conditional :=
  seated.dividers tree (by simp) heads

/-- Outside conditionals there are no dividers to be out of order. -/
theorem Seated.arranged {parent : Option Tag} {trees : List Tree} (seated : Seated parent trees)
    (other : parent ≠ some .conditional) : Arranged parent trees := by
  refine ⟨seated, fun before below after split tree member heads => other ?_⟩
  exact seated.dividers tree (by simp [split, member]) heads

@[simp] theorem innerArranged_text (text : String) : InnerArranged [.text text] := by
  simp [InnerArranged, subtreesOf, Tree.subtrees]

@[simp] theorem innerArranged_value (path : String) : InnerArranged [.value path] := by
  simp [InnerArranged, subtreesOf, Tree.subtrees]

theorem innerArranged_append {trees others : List Tree} :
    InnerArranged (trees ++ others) ↔ InnerArranged trees ∧ InnerArranged others := by
  simp only [InnerArranged, subtreesOf_append, List.mem_append, or_imp, forall_and]

theorem innerArranged_tag {mark : Mark} {children : List Tree} :
    InnerArranged [.tag mark children] ↔
      Arranged (some mark.tag) children ∧ InnerArranged children := by
  simp only [InnerArranged, subtreesOf, Tree.subtrees, List.append_nil, List.mem_cons, or_imp,
    forall_and, Tree.tag.injEq]
  constructor
  · rintro ⟨here, inner⟩
    exact ⟨here mark children ⟨rfl, rfl⟩, inner⟩
  · rintro ⟨here, inner⟩
    refine ⟨?_, inner⟩
    rintro _ _ ⟨rfl, rfl⟩
    exact here

/-! ### Nodes as trees -/

mutual

/-- A node as the tree that it was written as. -/
def Node.tree : Node → Tree
  | .text text => .text text
  | .value path => .value path
  | .block name body => .tag (.block name) (treesOf body)
  | .inheritance target => .tag (.inheritance target) []
  | .inclusion target => .tag (.inclusion target) []
  | .loop spec body => .tag (.loop spec) (treesOf body)
  | .conditional condition body branches =>
      .tag (.conditional condition) (treesOf body ++ branchTrees branches)
termination_by structural node => node

/-- Nodes as the trees that they were written as. -/
def treesOf : List Node → List Tree
  | [] => []
  | node :: rest => node.tree :: treesOf rest
termination_by structural nodes => nodes

/-- Branches as their dividers, each followed by the body it starts. -/
def branchTrees : List Branch → List Tree
  | [] => []
  | ⟨guard, body⟩ :: rest => .tag (.otherwise guard) [] :: (treesOf body ++ branchTrees rest)
termination_by structural branches => branches

end

theorem treesOf_eq_map (nodes : List Node) : treesOf nodes = nodes.map Node.tree := by
  induction nodes with
  | nil => rfl
  | cons node rest ih => simp [treesOf, ih]

@[simp] theorem treesOf_append_singleton (nodes : List Node) (node : Node) :
    treesOf (nodes ++ [node]) = treesOf nodes ++ [node.tree] := by
  simp [treesOf_eq_map]

/-! ### Reading nodes back from trees -/

mutual

/-- What a tree makes directly inside a conditional: a node, or the start of a branch. -/
def Tree.child : Tree → Child
  | .text text => .node (.text text)
  | .value path => .node (.value path)
  | .tag (.block name) children => .node (.block name (Child.branches (childrenOf children)).1)
  | .tag (.inheritance target) _ => .node (.inheritance target)
  | .tag (.inclusion target) _ => .node (.inclusion target)
  | .tag (.loop spec) children => .node (.loop spec (Child.branches (childrenOf children)).1)
  | .tag (.conditional condition) children =>
      .node (.conditional condition (Child.branches (childrenOf children)).1
        (Child.branches (childrenOf children)).2)
  | .tag (.otherwise guard) _ => .divider guard
termination_by structural tree => tree

/-- What trees make directly inside a conditional. -/
def childrenOf : List Tree → List Child
  | [] => []
  | tree :: rest => tree.child :: childrenOf rest
termination_by structural trees => trees

end

@[simp] theorem childrenOf_append (trees others : List Tree) :
    childrenOf (trees ++ others) = childrenOf trees ++ childrenOf others := by
  induction trees with
  | nil => rfl
  | cons tree rest ih => simp [childrenOf, ih]

/-- Nodes in front of other children belong to the first body. -/
@[simp] theorem Child.branches_append (nodes : List Node) (children : List Child) :
    branches (nodes.map .node ++ children) =
      (nodes ++ (branches children).1, (branches children).2) := by
  induction nodes with
  | nil => rfl
  | cons node rest ih => simp [branches, ih]

@[simp] theorem Child.branches_map_node (nodes : List Node) :
    branches (nodes.map .node) = (nodes, []) := by
  simpa [branches] using branches_append nodes []

mutual

theorem Node.child_tree : ∀ node : Node, node.tree.child = .node node
  | .text _ | .value _ | .inheritance _ | .inclusion _ => rfl
  | .block name body => by simp [Node.tree, Tree.child, childrenOf_treesOf body]
  | .loop spec body => by simp [Node.tree, Tree.child, childrenOf_treesOf body]
  | .conditional condition body branches => by
      simp [Node.tree, Tree.child, childrenOf_treesOf body, branches_childrenOf branches]
termination_by structural node => node

theorem childrenOf_treesOf : ∀ nodes : List Node, childrenOf (treesOf nodes) = nodes.map .node
  | [] => rfl
  | node :: rest => by
      simp [treesOf, childrenOf, node.child_tree, childrenOf_treesOf rest]
termination_by structural nodes => nodes

theorem branches_childrenOf : ∀ branches : List Branch,
    Child.branches (childrenOf (branchTrees branches)) = ([], branches)
  | [] => rfl
  | ⟨guard, body⟩ :: rest => by
      simp [branchTrees, childrenOf, Tree.child, Child.branches, childrenOf_treesOf body,
        branches_childrenOf rest]
termination_by structural branches => branches

end

/-- Nodes with the same trees are the same. -/
theorem treesOf_injective : Function.Injective treesOf := by
  intro nodes others same
  have read : nodes.map Child.node = others.map Child.node := by
    rw [← childrenOf_treesOf nodes, same, childrenOf_treesOf others]
  exact List.map_inj_right (fun _ _ => Child.node.inj) |>.1 read

/-! ### Tags that enclose nothing -/

section

variable {mark : Mark} {children : List Tree}

/-- A tag within one that encloses others is not that one, if it encloses nothing itself. -/
theorem bare_of_mem_enclosing (leaf : mark.tag.encloses = false) {outer : Mark}
    {inner : List Tree} (encloses : outer.tag.encloses = true)
    (below : .tag mark children ∈ subtreesOf inner → children = [])
    (member : .tag mark children ∈ (Tree.tag outer inner).subtrees) : children = [] := by
  rcases List.mem_cons.1 member with same | member
  · cases same
    simp [leaf] at encloses
  · exact below member

mutual

theorem Node.bare_of_mem (leaf : mark.tag.encloses = false) :
    ∀ node : Node, .tag mark children ∈ node.tree.subtrees → children = []
  | .text _, member | .value _, member => by simp [Node.tree, Tree.subtrees] at member
  | .inheritance _, member | .inclusion _, member => by
      simp only [Node.tree, Tree.subtrees, subtreesOf, List.mem_singleton] at member
      cases member
      rfl
  | .block _ body, member =>
      bare_of_mem_enclosing leaf rfl (bare_of_mem_treesOf leaf body) member
  | .loop _ body, member =>
      bare_of_mem_enclosing leaf rfl (bare_of_mem_treesOf leaf body) member
  | .conditional _ body branches, member => by
      refine bare_of_mem_enclosing leaf rfl (fun member => ?_) member
      rw [subtreesOf_append] at member
      rcases List.mem_append.1 member with member | member
      · exact bare_of_mem_treesOf leaf body member
      · exact bare_of_mem_branchTrees leaf branches member
termination_by structural node => node

/-- In the trees of nodes a tag that encloses nothing has no children. -/
theorem bare_of_mem_treesOf (leaf : mark.tag.encloses = false) :
    ∀ nodes : List Node, .tag mark children ∈ subtreesOf (treesOf nodes) → children = []
  | [], member => nomatch member
  | node :: rest, member => by
      rcases List.mem_append.1 member with member | member
      · exact node.bare_of_mem leaf member
      · exact bare_of_mem_treesOf leaf rest member
termination_by structural nodes => nodes

theorem bare_of_mem_branchTrees (leaf : mark.tag.encloses = false) :
    ∀ branches : List Branch,
      .tag mark children ∈ subtreesOf (branchTrees branches) → children = []
  | [], member => nomatch member
  | ⟨guard, body⟩ :: rest, member => by
      simp only [branchTrees, subtreesOf, Tree.subtrees, List.cons_append, List.nil_append,
        subtreesOf_append, List.mem_cons, List.mem_append] at member
      rcases member with same | member | member
      · cases same
        rfl
      · exact bare_of_mem_treesOf leaf body member
      · exact bare_of_mem_branchTrees leaf rest member
termination_by structural branches => branches

end

end

/-! ### Blocks of nodes as block tags of trees -/

/-- A block with its body as it was written. -/
def blockEntry (entry : String × List Node) : String × List Tree :=
  (entry.1, treesOf entry.2)

mutual

theorem Node.blockTags_tree : ∀ node : Node, blockTags [node.tree] = node.blocks.map blockEntry
  | .text _ | .value _ | .inheritance _ | .inclusion _ => rfl
  | .block name body => by
      simp [Node.tree, Node.blocks, Tree.block?, blockEntry, blockTags_treesOf body]
  | .loop spec body => by
      simp [Node.tree, Node.blocks, Tree.block?, blockTags_treesOf body]
  | .conditional condition body branches => by
      simp [Node.tree, Node.blocks, Tree.block?, blockTags_treesOf body,
        blockTags_branchTrees branches]
termination_by structural node => node

/-- The blocks of nodes are the block tags of their trees, with the same children. -/
theorem blockTags_treesOf : ∀ nodes : List Node,
    blockTags (treesOf nodes) = (blocksOf nodes).map blockEntry
  | [] => rfl
  | node :: rest => by
      rw [treesOf, ← List.singleton_append, blockTags_append, node.blockTags_tree,
        blockTags_treesOf rest, blocksOf, List.map_append]
termination_by structural nodes => nodes

theorem blockTags_branchTrees : ∀ branches : List Branch,
    blockTags (branchTrees branches) = (branchBlocks branches).map blockEntry
  | [] => rfl
  | ⟨guard, body⟩ :: rest => by
      rw [branchTrees, ← List.singleton_append, blockTags_append, blockTags_append,
        blockTags_treesOf body, blockTags_branchTrees rest, branchBlocks, List.map_append]
      rfl
termination_by structural branches => branches

end

end Quire
