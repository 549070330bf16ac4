/-
Module: Quire.Proofs.Termination
Purpose: One pass over a template comes to its end, although rendering a block may jump to a body
  outside of it that contains further blocks which are replaced in turn.
Main exports: Settles, Node.weight, weightOf, Orderly, Node.Roomy, kept_settles, Orderly.ends,
  rendering_terminates
-/
import Mathlib.Algebra.Ring.Nat
import Quire.Proofs.BlockNames
import Quire.Proofs.Inheritance
import Quire.Proofs.Kept

/-!
Rendering counts how many replaced bodies are open inside one another, and stops as endless where a
measure for this is used up. Here it is shown that a measure which is known beforehand is never used
up, so that rendering comes to the same end with every larger one.

A block is replaced by the body that the most derived template defines for its name. If this is not
the template that the block stands in, then it is a more derived one, and rendering does not come
back from there: the blocks in its bodies are replaced by its own bodies or by more derived ones. If
it is the same template, then the body is the one of the block itself, because no template defines
two blocks of one name. So bodies open inside one another belong to ever more derived templates, or
lie inside one another.
-/

namespace Quire

/-! ### Measures that suffice -/

/-- From `need` on the measure of open bodies has no part in a pass any more: the pass leaves one
draft, which does not stop as endless. -/
def Settles (need : Nat) (pass : Nat → Draft) : Prop :=
  ∃ draft, draft.stop ≠ some .endless ∧ ∀ openings, need ≤ openings → pass openings = draft

namespace Settles

variable {need more : Nat} {pass later : Nat → Draft}

theorem mono (settles : Settles need pass) (le : need ≤ more) : Settles more pass := by
  obtain ⟨draft, ends, same⟩ := settles
  exact ⟨draft, ends, fun openings enough => same openings (Nat.le_trans le enough)⟩

theorem const {draft : Draft} (ends : draft.stop ≠ some .endless) : Settles need fun _ => draft :=
  ⟨draft, ends, fun _ _ => rfl⟩

theorem andThen (first : Settles need pass) (second : Settles need later) :
    Settles need fun openings => (pass openings).andThen fun _ => later openings := by
  obtain ⟨draft, ends, same⟩ := first
  obtain ⟨other, otherEnds, otherSame⟩ := second
  refine ⟨draft.andThen fun _ => other, ?_, fun openings enough => ?_⟩
  · unfold Draft.andThen
    split
    · exact ends
    · exact otherEnds
  · simp only [same openings enough, otherSame openings enough]

/-- Opening a body takes one more than rendering its nodes. -/
theorem body {nodes : List Node} {scene : Scene}
    (settles : Settles need fun openings => draftAll (draftBody openings) scene nodes) :
    Settles (need + 1) fun openings => draftBody openings nodes scene := by
  obtain ⟨draft, ends, same⟩ := settles
  refine ⟨draft, ends, fun openings enough => ?_⟩
  obtain ⟨fewer, rfl⟩ : ∃ fewer, openings = fewer + 1 := ⟨openings - 1, by omega⟩
  exact same fewer (by omega)

end Settles

/-! ### How many blocks there are -/

mutual

/-- How many blocks stand in a node, at any depth, and in the templates in quotes inside it. -/
def Node.weight : Node → Nat
  | .text _ | .value _ => 0
  | .block _ body => weightOf body + 1
  | .loop _ body => weightOf body
  | .inheritance target | .inclusion target => target.weight
  | .conditional _ body branches => weightOf body + branchWeight branches
termination_by structural node => node

def Target.weight : Target → Nat
  | .quoted ⟨_, nodes⟩ => weightOf nodes
  | .bare _ => 0
termination_by structural target => target

def weightOf : List Node → Nat
  | [] => 0
  | node :: rest => node.weight + weightOf rest
termination_by structural nodes => nodes

def branchWeight : List Branch → Nat
  | [] => 0
  | ⟨_, body⟩ :: rest => weightOf body + branchWeight rest
termination_by structural branches => branches

end

theorem weight_le_weightOf {nodes : List Node} {node : Node} (member : node ∈ nodes) :
    node.weight ≤ weightOf nodes := by
  induction nodes with
  | nil => exact nomatch member
  | cons first rest ih =>
      simp only [weightOf]
      rcases List.mem_cons.1 member with rfl | member
      · omega
      · have := ih member
        omega

theorem weightOf_le_branchWeight {branches : List Branch} {branch : Branch}
    (member : branch ∈ branches) : weightOf branch.body ≤ branchWeight branches := by
  induction branches with
  | nil => exact nomatch member
  | cons first rest ih =>
      obtain ⟨guard, body⟩ := first
      simp only [branchWeight]
      rcases List.mem_cons.1 member with rfl | member
      · exact Nat.le_add_right _ _
      · have := ih member
        omega

theorem Inside.weight_le {inner node : Node} (inside : Inside inner node) :
    inner.weight ≤ node.weight := by
  induction inside with
  | here => exact Nat.le_refl _
  | inBlock member _ ih =>
      have := weight_le_weightOf member
      simp only [Node.weight]
      omega
  | inLoop member _ ih =>
      have := weight_le_weightOf member
      simp only [Node.weight]
      omega
  | inConditional member _ ih =>
      have := weight_le_weightOf member
      simp only [Node.weight]
      omega
  | inBranch among member _ ih =>
      have := weight_le_weightOf member
      have := weightOf_le_branchWeight among
      simp only [Node.weight]
      omega

/-- The body of a block has fewer blocks than the nodes that the block stands in. -/
theorem weightOf_lt_of_mem_blocksOf {nodes : List Node} {entry : String × List Node}
    (member : entry ∈ blocksOf nodes) : weightOf entry.2 < weightOf nodes := by
  obtain ⟨node, among, defines⟩ := exists_defines_of_mem_blocksOf nodes member
  exact Nat.lt_of_lt_of_le defines.inside.weight_le (weight_le_weightOf among)

/-- The blocks in the body of a block stand where the block stands. -/
theorem blocksOf_subset_of_mem_blocksOf {nodes : List Node} {entry : String × List Node}
    (member : entry ∈ blocksOf nodes) : ∀ inner ∈ blocksOf entry.2, inner ∈ blocksOf nodes := by
  have down : PassesDown fun node => node.blocks ⊆ blocksOf nodes :=
    .of_inside fun inside => List.Subset.trans inside.blocks_subset
  have here : ∀ node ∈ nodes, node.blocks ⊆ blocksOf nodes :=
    fun node among inner => mem_blocksOf_of_mem among
  have every := every_of_mem_blocksOf down here member
  intro inner stands
  obtain ⟨node, among, defines⟩ := exists_defines_of_mem_blocksOf entry.2 stands
  exact every node among defines.mem_blocks

/-! ### Where quoted inheritance stands -/

/-- Inheritance tags that name their template in quotes stand at the head of a template only, in the
nodes of a template and of all templates that it refers to in quotes. Where those that name it by a
variable stand does not matter. -/
inductive Orderly : List Node → Prop where
  | root {nodes : List Node}
      (free : ∀ node ∈ nodes, ∀ parent, ¬ Inside (.inheritance (.quoted parent)) node)
      (included : ∀ node ∈ nodes, ∀ template, Inside (.inclusion (.quoted template)) node →
        Orderly template.nodes) : Orderly nodes
  | derived {parent : Template} {rest : List Node} (base : Orderly parent.nodes)
      (free : ∀ node ∈ rest, ∀ parent, ¬ Inside (.inheritance (.quoted parent)) node)
      (included : ∀ node ∈ rest, ∀ template, Inside (.inclusion (.quoted template)) node →
        Orderly template.nodes) : Orderly (.inheritance (.quoted parent) :: rest)

/-! ### Bodies that settle -/

/-- A measure of `need` suffices for the bodies that a map holds, rendered under the map, over
whatever further blocks it is put. -/
def SettlesAll (need : Nat) (blocks : Overrides) : Prop :=
  ∀ more name body, Fields.find? name blocks = some body → ∀ context,
    Settles need fun openings => draftBody openings body ⟨context, blocks ++ more⟩

/-- What a map holds for a block is the body of the block itself, or a body for which a measure of
`need` suffices. -/
def Answered (need : Nat) (blocks : Overrides) (entry : String × List Node) : Prop :=
  ∀ other, Fields.find? entry.1 blocks = some other → other = entry.2 ∨ ∀ context,
    Settles need fun openings => draftBody openings other ⟨context, blocks⟩

/-- For rendering nodes as those of a template, under any map, as many openings suffice beyond those
for the bodies in the map as there are blocks. -/
def TemplateSettles (nodes : List Node) : Prop :=
  ∀ need blocks, SettlesAll need blocks → ∀ context, Settles (need + weightOf nodes)
    fun openings => draftTemplate (draftBody openings) ⟨context, blocks⟩ nodes

/-- No inheritance tag in quotes stands in a node, and the templates included in quotes settle. -/
structure Node.Tame (node : Node) : Prop where
  free : ∀ parent, ¬ Inside (.inheritance (.quoted parent)) node
  included : ∀ template, Inside (.inclusion (.quoted template)) node →
    TemplateSettles template.nodes

theorem passesDown_tame : PassesDown Node.Tame :=
  .of_inside fun inside tame => ⟨fun parent within => tame.free parent (within.trans inside),
    fun template within => tame.included template (within.trans inside)⟩

theorem SettlesAll.nil : SettlesAll 0 [] := by
  intro more name body found
  exact nomatch found

theorem SettlesAll.answered {need : Nat} {blocks : Overrides} (all : SettlesAll need blocks)
    (entry : String × List Node) : Answered need blocks entry := by
  intro other found
  have settles := all [] entry.1 other found
  rw [List.append_nil] at settles
  exact .inr settles

/-- A template that a variable names leaves a request or an error. -/
theorem Target.settles_bare {need : Nat} {purpose : Purpose} {scene : Scene} {path : String} :
    Settles need fun openings =>
      (Target.bare path).draft (draftBody openings) purpose scene := by
  simp only [Target.draft]
  cases scene.context.templateName path with
  | error error => exact .const (by simp [Draft.fail, Draft.halt])
  | ok name => exact .const (by simp [Draft.request])

/-- A node that settles under a map within a measure: it is tame, its blocks are answered, and the
measure has room for as many openings as there are blocks, beyond those for the bodies in the
map. -/
structure Node.Roomy (need bound : Nat) (blocks : Overrides) (node : Node) : Prop where
  tame : node.Tame
  answered : ∀ entry ∈ node.blocks, Answered need blocks entry
  room : need + node.weight ≤ bound

section

variable {need bound : Nat} {blocks : Overrides}

theorem passesDown_roomy : PassesDown (Node.Roomy need bound blocks) :=
  .of_inside fun inside roomy => {
    tame := passesDown_tame.inside inside roomy.tame
    answered := fun entry member => roomy.answered entry (inside.blocks_subset member)
    room := by
      have := inside.weight_le
      have := roomy.room
      omega }

/-- The nodes in a block have room within less than the block itself. -/
theorem Node.Roomy.body {name : String} {body : List Node} {fewer : Nat}
    (roomy : (Node.block name body).Roomy need (fewer + 1) blocks) :
    ∀ node ∈ body, node.Roomy need fewer blocks := by
  intro node member
  have inner := passesDown_roomy.block roomy node member
  refine ⟨inner.tame, inner.answered, ?_⟩
  have := weight_le_weightOf member
  have := roomy.room
  simp only [Node.weight] at this
  omega

/-- To settle is kept where drafts are put together, if nodes that have less room settle within
that: one opening goes to a block that is answered by its own body. -/
theorem kept_settles (smaller : ∀ fewer < bound, ∀ nodes : List Node,
      (∀ node ∈ nodes, node.Roomy need fewer blocks) → ∀ context,
        Settles fewer fun openings => draftAll (draftBody openings) ⟨context, blocks⟩ nodes) :
    Kept draftBody (Node.Roomy need bound blocks) (·.overrides = blocks)
      fun _ pass => Settles bound pass where
  down := passesDown_roomy
  inside _ same := same
  empty _ := .const nofun
  text _ _ := .const nofun
  andThen first second := first.andThen second
  replaces {_ body other scene} roomy same found := by
    subst same
    have room := roomy.room
    simp only [Node.weight] at room
    rcases roomy.answered _ List.mem_cons_self other found with own | settled
    · cases own
      obtain ⟨fewer, rfl⟩ : ∃ fewer, bound = fewer + 1 := ⟨bound - 1, by omega⟩
      exact (smaller fewer (by omega) body roomy.body scene.context).body
    · exact (settled scene.context).mono (by omega)
  unlooped _ _ := .const nofun
  round _ _ settles := settles
  unnamed _ _ := .const nofun
  request _ _ := .const nofun
  quoted {purpose path nodes scene} roomy _ _ := by
    have room := roomy.room
    cases purpose with
    | inheritance => exact absurd .here (roomy.tame.free _)
    | inclusion =>
        have inner := roomy.tame.included ⟨path, nodes⟩ .here 0 [] SettlesAll.nil scene.context
        simp only [Purpose.tag, Node.weight, Target.weight] at room
        exact inner.mono (by simp only; omega)
  derived {target _ _} roomy _ _ _ := by
    cases target with
    | quoted parent => exact absurd .here (roomy.tame.free parent)
    | bare path => exact Target.settles_bare

/-- Nodes that have room within a measure settle within it. -/
theorem settles_of_roomy {nodes : List Node} (roomy : ∀ node ∈ nodes, node.Roomy need bound blocks)
    (context : Context) :
    Settles bound fun openings => draftAll (draftBody openings) ⟨context, blocks⟩ nodes := by
  induction bound using Nat.strongRecOn generalizing nodes context with
  | ind bound ih =>
      have kept := kept_settles fun fewer lt nodes roomy context => ih fewer lt roomy context
      exact kept_draftAll kept nodes roomy rfl

/-- Nodes without inheritance in quotes settle, where their blocks are answered. -/
theorem settles_draftAll (nodes : List Node) (tame : ∀ node ∈ nodes, node.Tame)
    (answered : ∀ entry ∈ blocksOf nodes, Answered need blocks entry) (context : Context) :
    Settles (need + weightOf nodes) fun openings =>
      draftAll (draftBody openings) ⟨context, blocks⟩ nodes := by
  have roomy : ∀ node ∈ nodes, node.Roomy need (need + weightOf nodes) blocks := by
    intro node member
    have := weight_le_weightOf member
    exact ⟨tame node member, fun entry among => answered entry (mem_blocksOf_of_mem member among),
      by omega⟩
  exact settles_of_roomy roomy context

end

/-- A map put over the blocks of nodes that have one block of each name, and whose bodies are tame,
still settles. What it held is rendered as before; a body of the nodes has only blocks that the map
held before or that are answered by their own bodies. -/
theorem SettlesAll.append {need : Nat} {blocks : Overrides} (all : SettlesAll need blocks)
    {nodes : List Node} (once : (namesOf nodes).Nodup)
    (tame : ∀ entry ∈ blocksOf nodes, ∀ inner ∈ entry.2, inner.Tame) :
    SettlesAll (need + weightOf nodes) (blocks ++ blocksOf nodes) := by
  intro more name body found context
  rw [Fields.find?_append] at found
  cases earlier : Fields.find? name blocks with
  | some other =>
      rw [earlier, Option.some_or] at found
      cases found
      have before := all (blocksOf nodes ++ more) name body earlier context
      rw [← List.append_assoc] at before
      exact before.mono (by omega)
  | none =>
      rw [earlier, Option.none_or] at found
      have member := Fields.mem_of_find? found
      have answered : ∀ entry ∈ blocksOf body,
          Answered need (blocks ++ blocksOf nodes ++ more) entry := by
        intro entry stands other found
        rw [List.append_assoc, Fields.find?_append] at found
        cases held : Fields.find? entry.1 blocks with
        | some replacing =>
            rw [held, Option.some_or] at found
            cases found
            have before := all (blocksOf nodes ++ more) entry.1 other held
            rw [← List.append_assoc] at before
            exact .inr before
        | none =>
            have own := blocksOf_subset_of_mem_blocksOf member entry stands
            rw [held, Option.none_or, Fields.find?_append, Fields.find?_of_mem once own] at found
            exact .inl (Option.some.inj found).symm
      have smaller := weightOf_lt_of_mem_blocksOf member
      exact (settles_draftAll body (tame _ member) answered context).body.mono (by
        simp only at smaller
        omega)

/-! ### Orderly templates settle -/

/-- Nodes settle, rendered one after another or, if they have one block of each name, as those of a
template; and the bodies of their blocks are tame. -/
structure Ends (nodes : List Node) : Prop where
  template : (namesOf nodes).Nodup → TemplateSettles nodes
  all : ∀ need blocks, SettlesAll need blocks → ∀ context, Settles (need + weightOf nodes)
    fun openings => draftAll (draftBody openings) ⟨context, blocks⟩ nodes
  bodies : ∀ entry ∈ blocksOf nodes, ∀ inner ∈ entry.2, inner.Tame

/-- Nodes not headed by an inheritance tag are rendered one after another. -/
theorem draftTemplate_cons {replaced : List Node → Scene → Draft} {scene : Scene} {node : Node}
    {rest : List Node} (plain : ∀ target, node ≠ .inheritance target) :
    draftTemplate replaced scene (node :: rest) = draftAll replaced scene (node :: rest) := by
  cases node with
  | inheritance target => exact absurd rfl (plain target)
  | _ => rfl

/-- Tame nodes settle. -/
theorem ends_of_tame {nodes : List Node} (tame : ∀ node ∈ nodes, node.Tame) : Ends nodes := by
  have all : ∀ need blocks, SettlesAll need blocks → ∀ context, Settles (need + weightOf nodes)
      fun openings => draftAll (draftBody openings) ⟨context, blocks⟩ nodes :=
    fun need blocks settled => settles_draftAll nodes tame fun entry _ => settled.answered entry
  refine ⟨?_, all, fun entry member => every_of_mem_blocksOf passesDown_tame tame member⟩
  intro _ need blocks settled context
  cases nodes with
  | nil => exact .const nofun
  | cons node rest =>
      by_cases heads : ∃ target, node = .inheritance target
      · obtain ⟨target, rfl⟩ := heads
        cases target with
        | quoted parent => exact absurd .here ((tame _ List.mem_cons_self).free parent)
        | bare path => exact Target.settles_bare
      · have plain : ∀ target, node ≠ .inheritance target := fun target same => heads ⟨target, same⟩
        simp only [draftTemplate_cons plain]
        exact all need blocks settled context

/-- A derived template settles if the one that it is derived from does and its own nodes are tame:
its blocks come under the map before its base is rendered. -/
theorem ends_of_derived {path : String} {nodes rest : List Node} (base : TemplateSettles nodes)
    (tame : ∀ node ∈ rest, node.Tame) : Ends (.inheritance (.quoted ⟨path, nodes⟩) :: rest) := by
  have own := ends_of_tame tame
  refine ⟨?_, ?_, own.bodies⟩
  · intro once need blocks settled context
    have once : (namesOf rest).Nodup := once
    have inner := base _ _ (settled.append once own.bodies) context
    exact inner.mono (by simp only [weightOf, Node.weight, Target.weight]; omega)
  · intro need blocks settled context
    have first := base need blocks settled context
    have others := own.all need blocks settled context
    simp only [weightOf, Node.weight, Target.weight]
    exact (first.mono (by omega)).andThen (others.mono (by omega))

theorem Engine.built_of_quoted {engine : Engine} {template : Template}
    (genuine : (Target.quoted template).Genuine engine) : engine.Built template := by
  obtain ⟨path, nodes⟩ := template
  exact .inl ⟨path, genuine.1⟩

/-- Where an engine has built the templates in quotes, orderly nodes settle. -/
theorem Orderly.ends {engine : Engine} {nodes : List Node} (orderly : Orderly nodes)
    (genuine : AllGenuine engine nodes) : Ends nodes := by
  have quoted : ∀ {template : Template}, (Target.quoted template).Genuine engine →
      (AllGenuine engine template.nodes → Ends template.nodes) →
        TemplateSettles template.nodes := by
    intro template genuine ends
    have built := Engine.built_of_quoted genuine
    exact (ends built.genuine).template built.nodup_namesOf
  have tame : ∀ {nodes : List Node}, AllGenuine engine nodes →
      (∀ node ∈ nodes, ∀ parent, ¬ Inside (.inheritance (.quoted parent)) node) →
      (∀ node ∈ nodes, ∀ template, Inside (.inclusion (.quoted template)) node →
        AllGenuine engine template.nodes → Ends template.nodes) → ∀ node ∈ nodes, node.Tame := by
    intro nodes genuine free ends node member
    have here := allGenuine_iff.1 genuine node member
    exact ⟨free node member, fun template inside =>
      quoted ((passesDown_genuine engine).inside inside here) (ends node member template inside)⟩
  induction orderly with
  | root free _ ih => exact ends_of_tame (tame genuine free ih)
  | @derived parent rest _ free _ base ih =>
      obtain ⟨path, nodes⟩ := parent
      have above : (Target.quoted ⟨path, nodes⟩).Genuine engine := genuine.1
      exact ends_of_derived (quoted above base) (tame genuine.2 free ih)

/-! ### Maps that arise from inheritance -/

/-- The measure that suffices for the bodies of a chain of inheritance. -/
def chainWeight (derived : List Template) : Nat :=
  (derived.map fun template => weightOf template.nodes).sum

/-- The map that arises from a chain of orderly templates settles. -/
theorem settlesAll_mostDerived {engine : Engine} {derived : List Template}
    (orderly : ∀ template ∈ derived, engine.Built template ∧ Orderly template.nodes) :
    SettlesAll (chainWeight derived) (mostDerived derived) := by
  suffices further : ∀ need blocks, SettlesAll need blocks →
      SettlesAll (need + chainWeight derived) (blocks ++ mostDerived derived) by
    simpa using further 0 [] SettlesAll.nil
  induction derived with
  | nil =>
      intro need blocks settled
      simpa [mostDerived, chainWeight] using settled
  | cons template rest ih =>
      intro need blocks settled
      obtain ⟨built, first⟩ := orderly template List.mem_cons_self
      have ends := first.ends built.genuine
      have settled := ih (fun other member => orderly other (List.mem_cons_of_mem _ member)) _ _
        (settled.append built.nodup_namesOf ends.bodies)
      have same : blocks ++ mostDerived (template :: rest) =
          blocks ++ blocksOf template.nodes ++ mostDerived rest := by
        simp [mostDerived, Template.blocks]
      have sum : need + chainWeight (template :: rest) =
          need + weightOf template.nodes + chainWeight rest := by
        simp [chainWeight, Nat.add_assoc]
      rw [same, sum]
      exact settled

/-- Rendering terminates. Let a template and those that it serves as a base for, the most derived
first, be built and orderly. Then a measure that depends on these templates alone, and not on the
context, suffices for rendering the template under the map that arises from the others, and for
rendering any nodes under that map whose templates in quotes the engine has built: the pass leaves
one draft, which is not stopped as endless, however much larger the measure is. -/
theorem rendering_terminates (engine : Engine) {template : Template} {derived : List Template}
    (built : engine.Built template) (orderly : Orderly template.nodes)
    (others : ∀ other ∈ derived, engine.Built other ∧ Orderly other.nodes) (context : Context) :
    (Settles (chainWeight derived + weightOf template.nodes) fun openings =>
      template.draft openings context (mostDerived derived)) ∧
    ∀ nodes, Orderly nodes → AllGenuine engine nodes →
      Settles (chainWeight derived + weightOf nodes) fun openings =>
        draftAll (draftBody openings) ⟨context, mostDerived derived⟩ nodes := by
  have settled := settlesAll_mostDerived others
  constructor
  · have ends := orderly.ends built.genuine
    exact ends.template built.nodup_namesOf _ _ settled context
  · intro nodes orderly genuine
    exact (orderly.ends genuine).all _ _ settled context

/-- Two blocks, one inside the other. -/
def nestedBlocks (outer inner text : String) : Node :=
  .block outer [.block inner [.text text]]

/-- An engine that knows two templates, one derived from the other, which nest their blocks in
opposite orders. -/
def crossedEngine : Engine :=
  ⟨fun name =>
    if name = "base" then some ⟨[.opening "block" "b", .opening "block" "a", .text "base",
      .closing "block", .closing "block"]⟩
    else if name = "child" then some ⟨[.opening "extends" "'base'", .opening "block" "a",
      .opening "block" "b", .text "child", .closing "block", .closing "block"]⟩
    else none, {}, 65536⟩

/-- The first of these templates. -/
def crossedBase : Template := ⟨"base", [nestedBlocks "b" "a" "base"]⟩

/-- The second of these templates. -/
def crossedChild : Template :=
  ⟨"child", [.inheritance (.quoted crossedBase), nestedBlocks "a" "b" "child"]⟩

theorem inside_nestedBlocks {outer inner text : String} {node : Node}
    (inside : Inside node (nestedBlocks outer inner text)) :
    node = nestedBlocks outer inner text ∨ node = .block inner [.text text] ∨
      node = .text text := by
  cases inside with
  | here => exact .inl rfl
  | inBlock member inside =>
      cases List.mem_singleton.1 member
      cases inside with
      | here => exact .inr (.inl rfl)
      | inBlock member inside =>
          cases List.mem_singleton.1 member
          cases inside with
          | here => exact .inr (.inr rfl)

theorem free_nestedBlocks {outer inner text : String} :
    ∀ node ∈ [nestedBlocks outer inner text], ∀ parent,
      ¬ Inside (.inheritance (.quoted parent)) node := by
  intro node member parent inside
  cases List.mem_singleton.1 member
  rcases inside_nestedBlocks inside with same | same | same <;> exact nomatch same

theorem included_nestedBlocks {outer inner text : String} :
    ∀ node ∈ [nestedBlocks outer inner text], ∀ template,
      Inside (.inclusion (.quoted template)) node → Orderly template.nodes := by
  intro node member template inside
  cases List.mem_singleton.1 member
  rcases inside_nestedBlocks inside with same | same | same <;> exact nomatch same

theorem crossed_blocks_terminate :
    crossedEngine.Built crossedBase ∧ Orderly crossedBase.nodes ∧
      crossedEngine.Built crossedChild ∧ Orderly crossedChild.nodes ∧
      Settles 6 fun openings => crossedBase.draft openings .empty (mostDerived [crossedChild]) := by
  have base : crossedEngine.Built crossedBase := .inl ⟨"base", rfl⟩
  have child : crossedEngine.Built crossedChild := .inl ⟨"child", rfl⟩
  have baseOrderly : Orderly crossedBase.nodes := .root free_nestedBlocks included_nestedBlocks
  have childOrderly : Orderly crossedChild.nodes :=
    .derived baseOrderly free_nestedBlocks included_nestedBlocks
  have others : ∀ other ∈ [crossedChild], crossedEngine.Built other ∧ Orderly other.nodes := by
    intro other member
    cases List.mem_singleton.1 member
    exact ⟨child, childOrderly⟩
  exact ⟨base, baseOrderly, child, childOrderly,
    (rendering_terminates crossedEngine base baseOrderly others .empty).1⟩

end Quire
