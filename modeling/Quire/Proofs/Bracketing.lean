/-
Module: Quire.Proofs.Bracketing
Purpose: A source can be built exactly if it is the markup of a tree whose tags stand where they
  may, and the nodes that are built are that tree.
Main exports: Sketch, Sketch.Takes, Sketch.Reads, Assembly.sketch, Assembly.LexemeFits.takes,
  Assembly.fits_of_takes, spelled_of_assemble, assemble_of_spelled, assemble_iff_markup
-/
import Quire.Proofs.BlockNames
import Quire.Proofs.Markup

/-!
What has been put together when some lexemes have been taken is a sketch of a tree: the children so
far of every tag that is open. On sketches a lexeme does one of five things, and the assembly does
them too. From there on the argument is about sketches alone. Whatever sketch is reached, the
lexemes before it are the markup of what it holds; and the markup of a tree that may stand at the
end of a sketch leads to the sketch with that tree.
-/

namespace Quire

/-! ### Trees that are being written -/

/-- A template of which a part has been written: the trees outside every open tag, or inside the
innermost open tag its children so far. -/
inductive Sketch where
  | root (trees : List Tree)
  | inside (outer : Sketch) (mark : Mark) (trees : List Tree)

namespace Sketch

/-- The innermost open tag. -/
def parent? : Sketch → Option Tag
  | .root _ => none
  | .inside _ mark _ => some mark.tag

/-- The trees beside which the next one comes. -/
def trees : Sketch → List Tree
  | .root trees => trees
  | .inside _ _ trees => trees

/-- The sketch with further trees written. -/
def grow (more : List Tree) : Sketch → Sketch
  | .root trees => .root (trees ++ more)
  | .inside outer mark trees => .inside outer mark (trees ++ more)

/-- The names of blocks, finished or open, in the order in which they are written. -/
def names : Sketch → List String
  | .root trees => blockNames trees
  | .inside outer mark trees => outer.names ++ mark.names ++ blockNames trees

@[simp] theorem parent?_grow (sketch : Sketch) (more : List Tree) :
    (sketch.grow more).parent? = sketch.parent? := by
  cases sketch <;> rfl

@[simp] theorem trees_grow (sketch : Sketch) (more : List Tree) :
    (sketch.grow more).trees = sketch.trees ++ more := by
  cases sketch <;> rfl

@[simp] theorem names_grow (sketch : Sketch) (more : List Tree) :
    (sketch.grow more).names = sketch.names ++ blockNames more := by
  cases sketch <;> simp [grow, names]

@[simp] theorem grow_nil (sketch : Sketch) : sketch.grow [] = sketch := by
  cases sketch <;> simp [grow]

@[simp] theorem grow_grow (sketch : Sketch) (first more : List Tree) :
    (sketch.grow first).grow more = sketch.grow (first ++ more) := by
  cases sketch <;> simp [grow]

/-- What becomes of a sketch by a lexeme that fits. -/
inductive Takes (fetch : String → Except Error Template) : Sketch → Lexeme → Sketch → Prop where
  | text {sketch : Sketch} (text : String) :
      Takes fetch sketch (.text text) (sketch.grow [.text text])
  | value {sketch : Sketch} (written : String) :
      Takes fetch sketch (.value written) (sketch.grow [.value (Text.trimmed written)])
  | leaf {sketch : Sketch} {mark : Mark} {params : String} (bare : mark.tag.encloses = false)
      (written : mark.Written fetch (Text.trimmed params))
      (first : mark.tag = .inheritance → sketch.trees = [])
      (divider : mark.tag = .otherwise → sketch.parent? = some .conditional) :
      Takes fetch sketch (.opening mark.tag.name params) (sketch.grow [.tag mark []])
  | opens {sketch : Sketch} {mark : Mark} {params : String} (encloses : mark.tag.encloses = true)
      (written : mark.Written fetch (Text.trimmed params))
      (fresh : ∀ name ∈ mark.names, name ∉ sketch.names) :
      Takes fetch sketch (.opening mark.tag.name params) (.inside sketch mark [])
  | closes {outer : Sketch} {mark : Mark} {trees : List Tree}
      (order : mark.tag = .conditional → InOrder trees) :
      Takes fetch (.inside outer mark trees) (.closing mark.tag.name)
        (outer.grow [.tag mark trees])

/-- What becomes of a sketch by lexemes that fit, one after another. -/
inductive Run (fetch : String → Except Error Template) : Sketch → List Lexeme → Sketch → Prop where
  | nil {sketch : Sketch} : Run fetch sketch [] sketch
  | cons {sketch next last : Sketch} {lexeme : Lexeme} {rest : List Lexeme}
      (takes : sketch.Takes fetch lexeme next) (run : Run fetch next rest last) :
      Run fetch sketch (lexeme :: rest) last

variable {fetch : String → Except Error Template}

theorem Run.append {sketch next last : Sketch} {lexemes more : List Lexeme}
    (run : sketch.Run fetch lexemes next) (further : next.Run fetch more last) :
    sketch.Run fetch (lexemes ++ more) last := by
  induction run with
  | nil => exact further
  | cons takes _ ih => exact .cons takes (ih further)

theorem Takes.run {sketch next : Sketch} {lexeme : Lexeme}
    (takes : sketch.Takes fetch lexeme next) : sketch.Run fetch [lexeme] next :=
  .cons takes .nil

/-! ### Whatever is reached has been spelled -/

/-- The lexemes so far are the markup of what a sketch holds, and everything in it stands where it
may. Only the order of dividers in an open conditional is not settled before the conditional is
closed. -/
inductive Reads (fetch : String → Except Error Template) : Sketch → List Lexeme → Prop where
  | root {trees : List Tree} {lexemes : List Lexeme} (spells : SpellsAll fetch trees lexemes)
      (seated : Seated none trees) (inner : InnerArranged trees) : Reads fetch (.root trees) lexemes
  | inside {outer : Sketch} {mark : Mark} {trees : List Tree} {before lexemes : List Lexeme}
      {params : String} (reads : outer.Reads fetch before) (encloses : mark.tag.encloses = true)
      (written : mark.Written fetch (Text.trimmed params)) (spells : SpellsAll fetch trees lexemes)
      (seated : Seated (some mark.tag) trees) (inner : InnerArranged trees) :
      Reads fetch (.inside outer mark trees) (before ++ .opening mark.tag.name params :: lexemes)

theorem Reads.seated {sketch : Sketch} {lexemes : List Lexeme}
    (reads : sketch.Reads fetch lexemes) : Seated sketch.parent? sketch.trees := by
  cases reads with
  | root _ seated _ => exact seated
  | inside _ _ _ _ seated _ => exact seated

theorem Reads.grow {sketch : Sketch} {lexemes more : List Lexeme} {tree : Tree}
    (reads : sketch.Reads fetch lexemes) (spells : tree.Spells fetch more)
    (first : tree.tag? = some .inheritance → sketch.trees = [])
    (divider : tree.tag? = some .otherwise → sketch.parent? = some .conditional)
    (inner : InnerArranged [tree]) : (sketch.grow [tree]).Reads fetch (lexemes ++ more) := by
  have seated := reads.seated.append_singleton first divider
  cases reads with
  | root before _ within =>
      exact .root (before.append spells.single) seated (innerArranged_append.2 ⟨within, inner⟩)
  | inside outer encloses written before _ within =>
      rw [List.append_assoc, List.cons_append]
      exact .inside outer encloses written (before.append spells.single) seated
        (innerArranged_append.2 ⟨within, inner⟩)

/-- A tag that encloses others may stand at any place. -/
theorem tag?_of_encloses {mark : Mark} (encloses : mark.tag.encloses = true)
    (children : List Tree) : (Tree.tag mark children).tag? ≠ some .inheritance ∧
      (Tree.tag mark children).tag? ≠ some .otherwise := by
  cases mark <;> simp_all [Tree.tag?, Mark.tag, Tag.encloses]

theorem Reads.takes {sketch next : Sketch} {lexeme : Lexeme} {lexemes : List Lexeme}
    (reads : sketch.Reads fetch lexemes) (takes : sketch.Takes fetch lexeme next) :
    next.Reads fetch (lexemes ++ [lexeme]) := by
  cases takes with
  | text text => exact reads.grow (.text text) nofun nofun (innerArranged_text text)
  | value written => exact reads.grow (.value written) nofun nofun (innerArranged_value _)
  | leaf bare written first divider =>
      refine reads.grow (.leaf bare written) (fun heads => first (Option.some.inj heads))
        (fun heads => divider (Option.some.inj heads)) (innerArranged_tag.2 ⟨?_, nofun⟩)
      exact ⟨⟨nofun, nofun⟩, inOrder_nil⟩
  | opens encloses written fresh => exact .inside reads encloses written .nil ⟨nofun, nofun⟩ nofun
  | @closes outer mark trees order =>
      cases reads with
      | inside reads encloses written spells seated inner =>
          obtain ⟨notFirst, notDivider⟩ := tag?_of_encloses encloses trees
          rw [List.append_assoc, List.cons_append]
          refine reads.grow (.enclosing encloses written spells) (absurd · notFirst)
            (absurd · notDivider) (innerArranged_tag.2 ⟨?_, inner⟩)
          -- only inside a conditional can there be dividers that are out of order
          by_cases conditional : mark.tag = .conditional
          · exact ⟨seated, order conditional⟩
          · exact seated.arranged fun same => conditional (Option.some.inj same)

theorem Reads.run {sketch last : Sketch} {lexemes more : List Lexeme}
    (reads : sketch.Reads fetch lexemes) (run : sketch.Run fetch more last) :
    last.Reads fetch (lexemes ++ more) := by
  induction run generalizing lexemes with
  | nil => rwa [List.append_nil]
  | cons takes _ ih =>
      rw [List.append_cons]
      exact ih (reads.takes takes)

/-- When no tag is open, the lexemes so far are the markup of the trees that have been written. -/
theorem spelled_of_run {lexemes : List Lexeme} {trees : List Tree}
    (run : (root []).Run fetch lexemes (.root trees)) :
    Arranged none trees ∧ InnerArranged trees ∧ SpellsAll fetch trees lexemes := by
  have start : (root []).Reads fetch [] := .root .nil ⟨nofun, nofun⟩ nofun
  cases start.run run with
  | root spells seated inner => exact ⟨seated.arranged nofun, inner, spells⟩

/-! ### Whatever is spelled is reached -/

mutual

theorem run_of_spells : ∀ (tree : Tree) {sketch : Sketch} {lexemes : List Lexeme},
    tree.Spells fetch lexemes → Seated sketch.parent? (sketch.trees ++ [tree]) →
      InnerArranged [tree] → (sketch.names ++ blockNames [tree]).Nodup →
        sketch.Run fetch lexemes (sketch.grow [tree])
  | .text _, _, _, spells, _, _, _ => by
      cases spells
      exact (Takes.text _).run
  | .value _, _, _, spells, _, _, _ => by
      cases spells
      exact (Takes.value _).run
  | .tag mark children, sketch, _, spells, seated, inner, once => by
      cases spells with
      | leaf bare written =>
          exact (Takes.leaf bare written
            (fun same => seated.first_of_append_cons (congrArg some same))
            (fun same => seated.divider_of_append_cons (congrArg some same))).run
      | @enclosing _ params _ within encloses written spells =>
          obtain ⟨arranged, inner⟩ := innerArranged_tag.1 inner
          rw [blockNames_tag, ← List.append_assoc] at once
          have fresh : ∀ name ∈ mark.names, name ∉ sketch.names := by
            intro name new old
            have apart := (List.nodup_append.1 (List.nodup_append.1 once).1).2.2
            exact apart name old name new rfl
          -- the children are written on a level of their own, which their closing marker ends
          have opened : sketch.Takes fetch (.opening mark.tag.name params)
              (.inside sketch mark []) := .opens encloses written fresh
          have filled : (inside sketch mark []).Run fetch within
              (.inside sketch mark children) := by
            have grown := @run_of_spellsAll children (.inside sketch mark []) within spells
              arranged.toSeated inner (by simpa [names] using once)
            simpa [grow] using grown
          have closed : (inside sketch mark children).Takes fetch (.closing mark.tag.name)
              (sketch.grow [.tag mark children]) := .closes fun _ => arranged.order
          exact .cons opened (filled.append closed.run)
termination_by structural tree => tree

/-- The markup of trees that may stand at the end of a sketch leads to the sketch with them. -/
theorem run_of_spellsAll : ∀ (trees : List Tree) {sketch : Sketch} {lexemes : List Lexeme},
    SpellsAll fetch trees lexemes → Seated sketch.parent? (sketch.trees ++ trees) →
      InnerArranged trees → (sketch.names ++ blockNames trees).Nodup →
        sketch.Run fetch lexemes (sketch.grow trees)
  | [], sketch, _, spells, _, _, _ => by
      cases spells
      rw [grow_nil]
      exact .nil
  | tree :: rest, sketch, _, spells, seated, inner, once => by
      cases spells with
      | @cons _ _ lexemes others first spells =>
          have split : tree :: rest = [tree] ++ rest := rfl
          rw [split, ← List.append_assoc] at seated
          rw [split, innerArranged_append] at inner
          rw [split, blockNames_append, ← List.append_assoc] at once
          have here := run_of_spells tree first seated.of_append inner.1
            (List.nodup_append.1 once).1
          have there := @run_of_spellsAll rest (sketch.grow [tree]) others spells
            (by simpa using seated) inner.2 (by simpa using once)
          rw [grow_grow] at there
          exact here.append there
termination_by structural trees => trees

end

/-- The markup of well placed trees leads from nothing to them. -/
theorem run_of_wellPlaced {trees : List Tree} {lexemes : List Lexeme} (well : WellPlaced trees)
    (spells : SpellsAll fetch trees lexemes) :
    (root []).Run fetch lexemes (.root trees) :=
  run_of_spellsAll trees spells well.root.toSeated well.inner (by simpa [names] using well.distinct)

end Sketch

/-! ### The assembly as a sketch -/

/-- A child of an open tag as the tree that it was written as. -/
def Child.tree : Child → Tree
  | .node direct => direct.tree
  | .divider guard => .tag (.otherwise guard) []

namespace Frame

/-- An open tag with what its parameters state. -/
def mark : Frame → Mark
  | .block name _ => .block name
  | .loop spec _ => .loop spec
  | .conditional condition _ => .conditional condition

/-- The children of an open tag as trees. -/
def trees : Frame → List Tree
  | .block _ body => treesOf body
  | .loop _ body => treesOf body
  | .conditional _ children => children.map Child.tree

@[simp] theorem tag_mark (frame : Frame) : frame.mark.tag = frame.tag := by
  cases frame <;> rfl

@[simp] theorem mark_add (frame : Frame) (node : Node) : (frame.add node).mark = frame.mark := by
  cases frame <;> rfl

@[simp] theorem trees_add (frame : Frame) (node : Node) :
    (frame.add node).trees = frame.trees ++ [node.tree] := by
  cases frame <;> simp [add, trees, Child.tree]

theorem length_trees (frame : Frame) : frame.trees.length = frame.size := by
  cases frame <;> simp [trees, size, treesOf_eq_map]

end Frame

/-- The branches of a conditional have the same trees as its children. -/
theorem Child.trees_branches (children : List Child) :
    treesOf (branches children).1 ++ branchTrees (branches children).2 =
      children.map Child.tree := by
  induction children with
  | nil => rfl
  | cons child rest ih => cases child <;> simp [branches, treesOf, branchTrees, Child.tree, ih]

theorem Frame.tree_close {frame : Frame} {node : Node} (closed : frame.close = .ok node) :
    node.tree = .tag frame.mark frame.trees := by
  cases frame with
  | block name body =>
      cases closed
      rfl
  | loop spec body =>
      cases closed
      rfl
  | conditional condition children =>
      simp only [Frame.close] at closed
      split at closed
      · cases closed
        simp [Node.tree, Frame.mark, Frame.trees, Child.trees_branches]
      · simp at closed

theorem Node.tag?_tree (node : Node) : node.tree.tag? ≠ some .otherwise := by
  cases node <;> simp [Node.tree, Tree.tag?, Mark.tag]

/-- There are branches exactly where there are dividers. -/
theorem Child.branches_eq_nil_iff (children : List Child) :
    (branches children).2 = [] ↔
      ∀ tree ∈ children.map Child.tree, tree.tag? ≠ some .otherwise := by
  induction children with
  | nil => simp [branches]
  | cons child rest ih =>
      cases child with
      | node direct => simpa [branches, Child.tree, direct.tag?_tree] using ih
      | divider guard => simp [branches, Child.tree, Tree.tag?, Mark.tag]

theorem Child.inOrder_branches (children : List Child) :
    inOrder (branches children).2 = true ↔ InOrder (children.map Child.tree) := by
  induction children with
  | nil => simp [branches, inOrder, inOrder_nil]
  | cons child rest ih =>
      rw [List.map_cons, inOrder_cons, ← ih]
      cases child with
      | node direct =>
          have other : ¬ ∃ below, direct.tree = .tag (.otherwise none) below := by
            rintro ⟨below, same⟩
            exact direct.tag?_tree (by rw [same]; rfl)
          simp [branches, Child.tree, other]
      | divider guard =>
          rw [← branches_eq_nil_iff rest]
          cases others : (branches rest).2 with
          | nil => simp [branches, others, inOrder]
          | cons branch more => cases guard <;> simp [branches, others, inOrder, Child.tree]

/-- An open tag can be closed exactly if its dividers are in order. -/
theorem Frame.close_isOk_iff (frame : Frame) :
    (∃ node, frame.close = .ok node) ↔ (frame.tag = .conditional → InOrder frame.trees) := by
  cases frame with
  | block name body => simp [close, Frame.tag]
  | loop spec body => simp [close, Frame.tag]
  | conditional condition children =>
      simp only [close, Frame.tag, Frame.trees, forall_const, ← Child.inOrder_branches]
      split <;> simp_all

/-- The sketch of open tags, innermost first, and of the finished nodes outside them. -/
def sketchOf (roots : List Node) : List Frame → Sketch
  | [] => .root (treesOf roots)
  | frame :: outer => .inside (sketchOf roots outer) frame.mark frame.trees

namespace Assembly

/-- An assembly as a sketch of what has been written. -/
def sketch (assembly : Assembly) : Sketch :=
  sketchOf assembly.roots assembly.frames

/-- The names that have been taken are those of the blocks so far, the last one in front. -/
def Noted (assembly : Assembly) : Prop :=
  assembly.names = assembly.sketch.names.reverse

@[simp] theorem sketch_add (assembly : Assembly) (node : Node) :
    (assembly.add node).sketch = assembly.sketch.grow [node.tree] := by
  obtain ⟨frames, roots, names⟩ := assembly
  cases frames <;> simp [add, sketch, sketchOf, Sketch.grow]

theorem length_trees_sketch (assembly : Assembly) :
    assembly.sketch.trees.length = assembly.siblings := by
  obtain ⟨frames, roots, names⟩ := assembly
  cases frames with
  | nil => simp [sketch, sketchOf, Sketch.trees, siblings, treesOf_eq_map]
  | cons frame outer => exact frame.length_trees

theorem siblings_eq_zero_iff (assembly : Assembly) :
    assembly.siblings = 0 ↔ assembly.sketch.trees = [] := by
  rw [← length_trees_sketch, List.length_eq_zero_iff]

/-- The innermost open tag of the sketch is that of the assembly. -/
theorem parent?_sketch_eq_conditional_iff (assembly : Assembly) :
    assembly.sketch.parent? = some .conditional ↔
      ∃ condition children outer, assembly.frames = .conditional condition children :: outer := by
  obtain ⟨frames, roots, names⟩ := assembly
  cases frames with
  | nil => simp [sketch, sketchOf, Sketch.parent?]
  | cons frame outer => cases frame <;> simp [sketch, sketchOf, Sketch.parent?, Frame.tag]

theorem Noted.mem_iff {assembly : Assembly} (noted : assembly.Noted) {name : String} :
    name ∈ assembly.names ↔ name ∈ assembly.sketch.names := by
  rw [noted, List.mem_reverse]

theorem Noted.add {assembly : Assembly} (noted : assembly.Noted) {node : Node}
    (unnamed : blockNames [node.tree] = []) : (assembly.add node).Noted := by
  simpa [Noted, unnamed] using noted

/-! ### A mark that is accepted -/

theorem Accepts.sketch_eq {assembly next : Assembly} {mark : Mark}
    (accepts : assembly.Accepts mark next) :
    next.sketch = if mark.tag.encloses then .inside assembly.sketch mark []
      else assembly.sketch.grow [.tag mark []] := by
  cases accepts with
  | block fresh => rfl
  | loop spec => rfl
  | conditional condition => rfl
  | inheritance first => simp [Node.tree, Mark.tag, Tag.encloses]
  | inclusion target => simp [Node.tree, Mark.tag, Tag.encloses]
  | divider guard inside =>
      simp [sketch, inside, sketchOf, Frame.mark, Frame.trees, Sketch.grow, Child.tree, Mark.tag,
        Tag.encloses]

theorem Accepts.names_eq {assembly next : Assembly} {mark : Mark}
    (accepts : assembly.Accepts mark next) : next.names = mark.names ++ assembly.names := by
  cases accepts <;> simp [Mark.names, enter]

theorem Accepts.noted {assembly next : Assembly} {mark : Mark}
    (accepts : assembly.Accepts mark next) (noted : assembly.Noted) : next.Noted := by
  have names : next.sketch.names = assembly.sketch.names ++ mark.names := by
    rw [accepts.sketch_eq]
    split <;> simp [Sketch.names]
  rw [Noted, accepts.names_eq, names, List.reverse_append, mark.reverse_names, ← noted]

/-- What an assembly accepts can be told from its sketch. -/
theorem accepts_iff {assembly : Assembly} (noted : assembly.Noted) {mark : Mark} :
    (∃ next, assembly.Accepts mark next) ↔
      (∀ name ∈ mark.names, name ∉ assembly.sketch.names) ∧
        (mark.tag = .inheritance → assembly.sketch.trees = []) ∧
        (mark.tag = .otherwise → assembly.sketch.parent? = some .conditional) := by
  constructor
  · rintro ⟨next, accepts⟩
    cases accepts with
    | block fresh =>
        refine ⟨fun name named => ?_, nofun, nofun⟩
        cases List.mem_singleton.1 named
        exact mt noted.mem_iff.2 fresh
    | inheritance first => exact ⟨nofun, fun _ => (siblings_eq_zero_iff assembly).1 first, nofun⟩
    | inclusion target => exact ⟨nofun, nofun, nofun⟩
    | loop spec => exact ⟨nofun, nofun, nofun⟩
    | conditional condition => exact ⟨nofun, nofun, nofun⟩
    | divider guard inside =>
        refine ⟨nofun, nofun, fun _ => (parent?_sketch_eq_conditional_iff assembly).2 ?_⟩
        exact ⟨_, _, _, inside⟩
  · rintro ⟨fresh, first, divider⟩
    cases mark with
    | block name =>
        have free : name ∉ assembly.names := mt noted.mem_iff.1 (fresh name List.mem_cons_self)
        exact ⟨_, .block free⟩
    | inheritance target => exact ⟨_, .inheritance ((siblings_eq_zero_iff assembly).2 (first rfl))⟩
    | inclusion target => exact ⟨_, .inclusion target⟩
    | loop spec => exact ⟨_, .loop spec⟩
    | conditional condition => exact ⟨_, .conditional condition⟩
    | otherwise guard =>
        obtain ⟨condition, children, outer, inside⟩ :=
          (parent?_sketch_eq_conditional_iff assembly).1 (divider rfl)
        exact ⟨_, .divider guard inside⟩

/-! ### Lexemes do the same to an assembly and to its sketch -/

variable {fetch : String → Except Error Template}

theorem LexemeFits.noted {assembly next : Assembly} {lexeme : Lexeme} (noted : assembly.Noted)
    (fits : assembly.LexemeFits fetch lexeme next) : next.Noted := by
  cases fits with
  | text text => exact noted.add rfl
  | value written => exact noted.add rfl
  | opening written accepts => exact accepts.noted noted
  | @closing frame outer node inside closed =>
      obtain ⟨frames, roots, names⟩ := assembly
      cases inside
      rw [Noted, names_add, sketch_add, Frame.tree_close closed, Sketch.names_grow, blockNames_tag,
        ← List.append_assoc]
      exact noted

theorem LexemeFits.takes {assembly next : Assembly} {lexeme : Lexeme} (noted : assembly.Noted)
    (fits : assembly.LexemeFits fetch lexeme next) :
    assembly.sketch.Takes fetch lexeme next.sketch := by
  cases fits with
  | text text =>
      rw [sketch_add]
      exact .text text
  | value written =>
      rw [sketch_add]
      exact .value written
  | @opening mark params next written accepts =>
      obtain ⟨fresh, first, divider⟩ := (accepts_iff noted).1 ⟨next, accepts⟩
      rw [accepts.sketch_eq]
      split
      · exact .opens ‹_› written fresh
      · exact .leaf (Bool.not_eq_true _ ▸ ‹_›) written first divider
  | @closing frame outer node inside closed =>
      obtain ⟨frames, roots, names⟩ := assembly
      cases inside
      rw [sketch_add, Frame.tree_close closed, ← frame.tag_mark]
      exact .closes fun same => frame.close_isOk_iff.1 ⟨node, closed⟩ (frame.tag_mark ▸ same)

theorem fits_of_takes {assembly : Assembly} {next : Sketch} {lexeme : Lexeme}
    (noted : assembly.Noted) (takes : assembly.sketch.Takes fetch lexeme next) :
    ∃ result, assembly.LexemeFits fetch lexeme result ∧ result.sketch = next := by
  generalize sketched : assembly.sketch = given at takes
  cases takes with
  | text text => exact ⟨_, .text text, by rw [sketch_add, sketched]; rfl⟩
  | value written => exact ⟨_, .value written, by rw [sketch_add, sketched]; rfl⟩
  | @leaf _ mark params bare written first divider =>
      subst sketched
      have fresh : ∀ name ∈ mark.names, name ∉ assembly.sketch.names := by
        simp [Mark.names_of_not_encloses bare]
      obtain ⟨result, accepts⟩ := (accepts_iff noted).2 ⟨fresh, first, divider⟩
      exact ⟨result, .opening written accepts, by simp [accepts.sketch_eq, bare]⟩
  | @opens _ mark params encloses written fresh =>
      subst sketched
      have anywhere := Sketch.tag?_of_encloses encloses []
      obtain ⟨result, accepts⟩ := (accepts_iff noted).2
        ⟨fresh, fun same => absurd (congrArg some same) anywhere.1,
          fun same => absurd (congrArg some same) anywhere.2⟩
      exact ⟨result, .opening written accepts, by simp [accepts.sketch_eq, encloses]⟩
  | @closes outer mark trees order =>
      obtain ⟨frames, roots, names⟩ := assembly
      cases frames with
      | nil => simp [sketch, sketchOf] at sketched
      | cons frame rest =>
          cases sketched
          rw [frame.tag_mark] at order
          obtain ⟨node, closed⟩ := frame.close_isOk_iff.2 order
          rw [frame.tag_mark]
          refine ⟨_, .closing rfl closed, ?_⟩
          rw [sketch_add, Frame.tree_close closed]
          rfl

theorem run_of_foldlM {template : String} {lexemes : List Lexeme} {assembly last : Assembly}
    (noted : assembly.Noted) (ok : lexemes.foldlM (step fetch template) assembly = .ok last) :
    assembly.sketch.Run fetch lexemes last.sketch := by
  induction lexemes generalizing assembly with
  | nil =>
      cases ok
      exact .nil
  | cons lexeme rest ih =>
      obtain ⟨next, first, others⟩ := bind_ok_iff.1 ok
      have fits := fits_of_step first
      exact .cons (fits.takes noted) (ih (fits.noted noted) others)

theorem foldlM_of_run {template : String} {lexemes : List Lexeme} {assembly : Assembly}
    {last : Sketch} (noted : assembly.Noted) (run : assembly.sketch.Run fetch lexemes last) :
    ∃ result, lexemes.foldlM (step fetch template) assembly = .ok result ∧
      result.sketch = last := by
  induction lexemes generalizing assembly with
  | nil =>
      cases run
      exact ⟨assembly, rfl, rfl⟩
  | cons lexeme rest ih =>
      cases run with
      | cons takes run =>
          obtain ⟨next, fits, rfl⟩ := fits_of_takes noted takes
          obtain ⟨result, folded, same⟩ := ih (fits.noted noted) run
          exact ⟨result, bind_ok_iff.2 ⟨next, step_of_fits fits, folded⟩, same⟩

theorem noted_empty : empty.Noted := rfl

/-- The assembly is finished when its sketch has no open tag. -/
theorem finish_ok_iff {assembly : Assembly} {nodes : List Node} :
    assembly.finish = .ok nodes ↔ assembly.sketch = .root (treesOf nodes) := by
  obtain ⟨frames, roots, names⟩ := assembly
  cases frames with
  | nil => simp [finish, sketch, sketchOf, treesOf_injective.eq_iff]
  | cons frame outer => simp [finish, sketch, sketchOf]

end Assembly

/-! ### Sources that can be built -/

section

variable {fetch : String → Except Error Template} {template : String} {source : Source}

/-- The source of built nodes is their markup, and their tags stand where they may. -/
theorem spelled_of_assemble {nodes : List Node} (ok : assemble fetch template source = .ok nodes) :
    WellPlaced (treesOf nodes) ∧ SpellsAll fetch (treesOf nodes) source.lexemes := by
  obtain ⟨last, folded, finished⟩ := bind_ok_iff.1 ok
  have run := Assembly.run_of_foldlM Assembly.noted_empty folded
  rw [Assembly.finish_ok_iff.1 (Assembly.blame_ok_iff.1 finished)] at run
  obtain ⟨arranged, inner, spells⟩ := Sketch.spelled_of_run run
  have distinct : (blockNames (treesOf nodes)).Nodup := by
    rw [blockNames, blockTags_treesOf, List.map_map]
    exact nodup_namesOf_of_assemble ok
  exact ⟨⟨arranged, inner, distinct⟩, spells⟩

/-- The markup of trees whose tags stand where they may can be built, and gives those trees. -/
theorem assemble_of_spelled {trees : List Tree} (well : WellPlaced trees)
    (spells : SpellsAll fetch trees source.lexemes) :
    ∃ nodes, assemble fetch template source = .ok nodes ∧ treesOf nodes = trees := by
  obtain ⟨last, folded, sketched⟩ :=
    Assembly.foldlM_of_run Assembly.noted_empty (Sketch.run_of_wellPlaced well spells)
  obtain ⟨frames, roots, names⟩ := last
  cases frames with
  | cons frame outer => exact nomatch sketched
  | nil =>
      refine ⟨roots, bind_ok_iff.2 ⟨_, folded, rfl⟩, ?_⟩
      simpa [Assembly.sketch, sketchOf] using sketched

end

/-- A source can be built, on behalf of whatever templates, exactly if it is the markup of some
trees whose tags stand where they may. There are then no other such trees, and they are those of the
built nodes. In them a tag that encloses nothing has no children, and the blocks of the template are
its block tags, each with its own children under a name that no other block has. Different nodes
have different trees. -/
theorem assemble_iff_markup (engine : Engine) (room : Nat) (chain : List String) (template : String)
    (source : Source) :
    ((∃ nodes, assemble (engine.loadWithin room chain) template source = .ok nodes) ↔
      ∃ trees, WellPlaced trees ∧
        SpellsAll (engine.loadWithin room chain) trees source.lexemes) ∧
    (∀ nodes, assemble (engine.loadWithin room chain) template source = .ok nodes →
      (∀ trees, WellPlaced trees ∧
        SpellsAll (engine.loadWithin room chain) trees source.lexemes ↔ trees = treesOf nodes) ∧
      (∀ mark children, .tag mark children ∈ subtreesOf (treesOf nodes) →
        mark.tag.encloses = false → children = []) ∧
      (Template.mk template nodes).blocks.map blockEntry = blockTags (treesOf nodes) ∧
      ((Template.mk template nodes).blocks.map Prod.fst).Nodup) ∧
    Function.Injective treesOf := by
  refine ⟨⟨?_, ?_⟩, ?_, treesOf_injective⟩
  · rintro ⟨nodes, ok⟩
    exact ⟨treesOf nodes, spelled_of_assemble ok⟩
  · rintro ⟨trees, well, spells⟩
    obtain ⟨nodes, ok, _⟩ := assemble_of_spelled well spells
    exact ⟨nodes, ok⟩
  · intro nodes ok
    refine ⟨fun trees => ⟨?_, ?_⟩, ?_, (blockTags_treesOf nodes).symm, nodup_namesOf_of_assemble ok⟩
    · rintro ⟨well, spells⟩
      obtain ⟨others, again, same⟩ := assemble_of_spelled well spells
      rw [ok] at again
      cases again
      exact same.symm
    · rintro rfl
      exact spelled_of_assemble ok
    · intro mark children member leaf
      exact bare_of_mem_treesOf leaf nodes member

/-! ### A page with a branch -/

/-- A page derived from another, with a block around two branches. -/
def branchedPage : Source :=
  .ofList [.opening "extends" "'base'", .opening "block" " body ", .opening "if" "a", .text "yes",
    .opening "else" "", .value " x ", .closing "if", .closing "block"]

/-- An engine that knows the page from which the branched one is derived. -/
def branchedEngine : Engine :=
  ⟨fun name => if name = "base" then some (.ofText "x") else none, ⟨2, .silent⟩, 65536⟩

/-- The nodes of the branched page. -/
def branchedNodes : List Node :=
  [.inheritance (.quoted ⟨"base", [.text "x"]⟩),
    .block "body" [.conditional ⟨.path "a", none⟩ [.text "yes"] [⟨none, [.value "x"]⟩]]]

theorem branchedPage_assembled :
    assemble (branchedEngine.loadWithin 1 ["page"]) "page" branchedPage = .ok branchedNodes := rfl

theorem branched_page_markup :
    assemble (branchedEngine.loadWithin 1 ["page"]) "page" branchedPage = .ok branchedNodes ∧
      ∀ trees, WellPlaced trees ∧
        SpellsAll (branchedEngine.loadWithin 1 ["page"]) trees branchedPage.lexemes ↔
          trees = treesOf branchedNodes :=
  ⟨branchedPage_assembled,
    ((assemble_iff_markup branchedEngine 1 ["page"] "page" branchedPage).2.1 branchedNodes
      branchedPage_assembled).1⟩

end Quire
