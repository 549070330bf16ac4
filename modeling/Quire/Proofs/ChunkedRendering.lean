/-
Module: Quire.Proofs.ChunkedRendering
Purpose: How text is cut cannot be told from what is rendered: templates of one merged form leave
  the same output and the same work, whichever way their texts are cut.
Main exports: Draft.LeavesAs, draftAll_prepend, Node.draft_merged, Template.draft_congr_merged,
  Stage.merged, Engine.pass_congr_merged, Engine.runUntilIdle_congr_merged, Engine.SameRendering,
  chunks_invisible
-/
import Quire.Proofs.Chunks
import Quire.Proofs.LoopRounds

/-!
Output merges the texts that meet in it, and so it makes no difference whether two texts become one
before a pass or in it. What a pass puts off does make one: its requests carry the block bodies that
replace others, as they were cut. So the work that two passes leave is compared by its merged form
as well. Work of one merged form is carried out to the same end, and leaves further such work, until
no work is left and the outputs are complete.
-/

namespace Quire

/-! ### Merged bodies, and what carries them -/

/-- Replacing bodies with adjacent texts made one. -/
def mergedBodies (blocks : Overrides) : Overrides :=
  blocks.map fun (name, body) => (name, mergedAll body)

theorem find?_mergedBodies (name : String) (blocks : Overrides) :
    Fields.find? name (mergedBodies blocks) = (Fields.find? name blocks).map mergedAll := by
  induction blocks with
  | nil => rfl
  | cons entry rest ih =>
      obtain ⟨key, body⟩ := entry
      by_cases same : key = name
      · simp [mergedBodies, Fields.find?, same]
      · simpa [mergedBodies, Fields.find?, same] using ih

theorem mergedBodies_append (blocks others : Overrides) :
    mergedBodies (blocks ++ others) = mergedBodies blocks ++ mergedBodies others :=
  List.map_append

theorem mergedBodies_mergedBodies (blocks : Overrides) :
    mergedBodies (mergedBodies blocks) = mergedBodies blocks := by
  simp [mergedBodies, mergedAll_mergedAll]

def Scene.merged (scene : Scene) : Scene :=
  ⟨scene.context, mergedBodies scene.overrides⟩

def Request.merged (request : Request) : Request :=
  { request with overrides := mergedBodies request.overrides }

def Load.merged (load : Load) : Load :=
  { load with request := load.request.merged }

def Task.merged : Task → Task
  | .load waiting => .load waiting.merged
  | .job work => .job work

def Rendered.merged (rendered : Rendered) : Rendered :=
  ⟨rendered.answer, rendered.loads.map Load.merged⟩

/-- A stage with adjacent texts made one in all bodies that its tasks carry. -/
def Stage.merged (stage : Stage) : Stage :=
  ⟨stage.cells, stage.queue.map Task.merged⟩

/-- A text that joins others brings no blocks with it. -/
theorem blocksOf_prepend (node : Node) (nodes : List Node) :
    blocksOf (Chunk.prepend node nodes) = node.blocks ++ blocksOf nodes := by
  cases nodes with
  | nil => rfl
  | cons next rest => cases node <;> cases next <;> rfl

mutual

/-- The blocks of merged nodes are those of the nodes, with merged bodies. -/
theorem Node.blocks_merged : ∀ node : Node, node.merged.blocks = mergedBodies node.blocks
  | .text _ | .value _ | .inheritance _ | .inclusion _ => rfl
  | .block name body => by
      rw [Node.merged, Node.blocks, Node.blocks, blocksOf_mergedAll]
      rfl
  | .loop spec body => blocksOf_mergedAll body
  | .conditional condition body branches => by
      rw [Node.merged, Node.blocks, Node.blocks, blocksOf_mergedAll, branchBlocks_merged,
        mergedBodies_append]
termination_by structural node => node

theorem blocksOf_mergedAll : ∀ nodes : List Node,
    blocksOf (mergedAll nodes) = mergedBodies (blocksOf nodes)
  | [] => rfl
  | node :: rest => by
      rw [mergedAll, blocksOf_prepend, node.blocks_merged, blocksOf_mergedAll, blocksOf,
        mergedBodies_append]
termination_by structural nodes => nodes

theorem branchBlocks_merged : ∀ branches : List Branch,
    branchBlocks (mergedBranches branches) = mergedBodies (branchBlocks branches)
  | [] => rfl
  | ⟨guard, body⟩ :: rest => by
      rw [mergedBranches, branchBlocks, branchBlocks, blocksOf_mergedAll, branchBlocks_merged,
        mergedBodies_append]
termination_by structural branches => branches

end

theorem Scene.under_merged (scene : Scene) (nodes : List Node) :
    (scene.under (blocksOf nodes)).merged = scene.merged.under (blocksOf (mergedAll nodes)) := by
  simp only [under, merged, mergedBodies_append, blocksOf_mergedAll]

/-! ### Drafts that leave the same -/

/-- Two drafts leave the same output or stop for the same reason, and leave loads of one merged form
for the same cells, wherever their cells are numbered from, however deep their loads are and under
whichever policy. -/
def Draft.LeavesAs (draft other : Draft) : Prop :=
  ∀ depth policy next,
    (draft.rendered depth policy next).merged = (other.rendered depth policy next).merged

namespace Rendered

variable {left right : Rendered}

/-- One merged form means one answer, and as many loads, of one merged form. -/
theorem of_merged (same : left.merged = right.merged) :
    left.answer = right.answer ∧ left.loads.map Load.merged = right.loads.map Load.merged ∧
      left.loads.length = right.loads.length := by
  simp only [merged, Rendered.mk.injEq] at same
  exact ⟨same.1, same.2, by simpa using congrArg List.length same.2⟩

theorem goOn_congr_merged (depth : Nat) (policy : MissingInclude) (next : Nat)
    (same : left.merged = right.merged) {draft other : Draft} (rest : draft.LeavesAs other) :
    (left.goOn depth policy next draft).merged = (right.goOn depth policy next other).merged := by
  obtain ⟨answer, loads, number⟩ := of_merged same
  simp only [goOn, answer, number]
  cases right.answer with
  | error stop => exact same
  | ok output =>
      obtain ⟨answer, later, _⟩ := of_merged (rest depth policy (next + right.loads.length))
      simp only [merged, answer, List.map_append, loads, later]

end Rendered

namespace Draft.LeavesAs

variable {draft other third : Draft}

theorem refl (draft : Draft) : draft.LeavesAs draft := fun _ _ _ => rfl

theorem symm (same : draft.LeavesAs other) : other.LeavesAs draft :=
  fun depth policy next => (same depth policy next).symm

theorem trans (same : draft.LeavesAs other) (same' : other.LeavesAs third) :
    draft.LeavesAs third :=
  fun depth policy next => (same depth policy next).trans (same' depth policy next)

theorem andThen {later later' : Unit → Draft} (first : draft.LeavesAs other)
    (second : (later ()).LeavesAs (later' ())) :
    (draft.andThen later).LeavesAs (other.andThen later') := by
  intro depth policy next
  rw [Draft.rendered_andThen, Draft.rendered_andThen]
  exact Rendered.goOn_congr_merged depth policy next (first depth policy next) second

theorem each {α : Type} {pass pass' : α → Draft} (items : List α)
    (same : ∀ item, (pass item).LeavesAs (pass' item)) :
    (Draft.each pass items).LeavesAs (Draft.each pass' items) := by
  induction items with
  | nil => exact refl _
  | cons item rest ih => exact (same item).andThen ih

/-- Two texts leave what they leave as one. -/
theorem texts (content more : String) :
    ((Draft.text content).andThen fun _ => .text more).LeavesAs (.text (content ++ more)) := by
  intro depth policy next
  have joined := congrArg Output.fragments (Output.ofText_append content more)
  simp only [Output.append] at joined
  simp only [Draft.rendered, Draft.andThen, Draft.text, List.singleton_append, Placed.ofPieces,
    Placed.output, Output.join_nil, joined]

end Draft.LeavesAs

/-! ### Nodes and their merged form -/

section

variable {replaced : List Node → Scene → Draft}

/-- A text that joins others leaves what it leaves in front of them. -/
theorem draftAll_prepend (scene : Scene) (node : Node) (nodes : List Node) :
    (draftAll replaced scene (Chunk.prepend node nodes)).LeavesAs
      (draftAll replaced scene (node :: nodes)) := by
  cases nodes with
  | nil => exact .refl _
  | cons next rest =>
      cases node with
      | text content =>
          cases next with
          | text more =>
              have apart : draftAll replaced scene (.text content :: .text more :: rest) =
                  ((Draft.text content).andThen fun _ => .text more).andThen fun _ =>
                    draftAll replaced scene rest :=
                (Draft.andThen_assoc (.text content) (fun _ => .text more) fun _ =>
                  draftAll replaced scene rest).symm
              rw [apart]
              exact (Draft.LeavesAs.texts content more).symm.andThen (.refl _)
          | _ => exact .refl _
      | _ => exact .refl _

theorem draftTemplate_prepend (scene : Scene) (node : Node) (nodes : List Node) :
    (draftTemplate replaced scene (Chunk.prepend node nodes)).LeavesAs
      (draftTemplate replaced scene (node :: nodes)) := by
  cases node with
  | text content =>
      have all : ∀ nodes, draftTemplate replaced scene (Chunk.prepend (.text content) nodes) =
          draftAll replaced scene (Chunk.prepend (.text content) nodes) := by
        rintro (_ | ⟨next, rest⟩)
        · rfl
        · cases next <;> rfl
      rw [all]
      exact draftAll_prepend scene (.text content) nodes
  | _ =>
      rw [Chunk.prepend_of_none rfl]
      exact .refl _

/-- Merged bodies that replace others leave what the bodies do. -/
def BodiesLeaveAs (replaced : List Node → Scene → Draft) : Prop :=
  ∀ body scene, (replaced (mergedAll body) scene.merged).LeavesAs (replaced body scene)

mutual

/-- Merged nodes leave what the nodes do, where the bodies that replace their blocks are merged as
well. -/
theorem Node.draft_merged (bodies : BodiesLeaveAs replaced) : ∀ (node : Node) (scene : Scene),
    (node.merged.draft replaced scene.merged).LeavesAs (node.draft replaced scene)
  | .text _, _ => .refl _
  | .value _, _ => .refl _
  | .block name body, scene => by
      simp only [Node.merged, Node.draft, Scene.merged, find?_mergedBodies]
      cases Fields.find? name scene.overrides with
      | some other => exact bodies other scene
      | none => exact draftAll_merged bodies body scene
  | .inheritance target, scene => target.draft_merged bodies .inheritance scene
  | .inclusion target, scene => target.draft_merged bodies .inclusion scene.bare
  | .loop spec body, scene => by
      have context : scene.merged.context = scene.context := rfl
      simp only [Node.merged, Node.draft, context]
      split
      · exact .refl _
      · exact .each _ fun scope => draftAll_merged bodies body (scene.inside scope)
  | .conditional condition body branches, scene => by
      have context : scene.merged.context = scene.context := rfl
      simp only [Node.merged, Node.draft, context]
      split
      · exact draftAll_merged bodies body scene
      · exact draftBranches_merged bodies branches scene
termination_by structural node => node

theorem Target.draft_merged (bodies : BodiesLeaveAs replaced) :
    ∀ (target : Target) (purpose : Purpose) (scene : Scene),
      (target.merged.draft replaced purpose scene.merged).LeavesAs
        (target.draft replaced purpose scene)
  | .quoted ⟨_, nodes⟩, _, scene => draftTemplate_merged bodies nodes scene
  | .bare path, purpose, scene => by
      have context : scene.merged.context = scene.context := rfl
      simp only [Target.merged, Target.draft, context]
      split
      · exact .refl _
      · intro depth policy next
        simp only [Draft.rendered, Draft.request, Placed.ofPieces, Placed.output, Rendered.merged,
          Load.merged, Request.merged, Scene.merged, List.map_cons, mergedBodies_mergedBodies]
termination_by structural target => target

theorem draftBranches_merged (bodies : BodiesLeaveAs replaced) :
    ∀ (branches : List Branch) (scene : Scene),
      (draftBranches replaced scene.merged (mergedBranches branches)).LeavesAs
        (draftBranches replaced scene branches)
  | [], _ => .refl _
  | ⟨guard, body⟩ :: rest, scene => by
      have context : scene.merged.context = scene.context := rfl
      simp only [mergedBranches, draftBranches, context]
      split
      · exact draftAll_merged bodies body scene
      · exact draftBranches_merged bodies rest scene
termination_by structural branches => branches

theorem draftAll_merged (bodies : BodiesLeaveAs replaced) :
    ∀ (nodes : List Node) (scene : Scene),
      (draftAll replaced scene.merged (mergedAll nodes)).LeavesAs (draftAll replaced scene nodes)
  | [], _ => .refl _
  | node :: rest, scene =>
      (draftAll_prepend scene.merged node.merged (mergedAll rest)).trans
        ((node.draft_merged bodies scene).andThen (draftAll_merged bodies rest scene))
termination_by structural nodes => nodes

theorem draftTemplate_merged (bodies : BodiesLeaveAs replaced) :
    ∀ (nodes : List Node) (scene : Scene),
      (draftTemplate replaced scene.merged (mergedAll nodes)).LeavesAs
        (draftTemplate replaced scene nodes)
  | [], _ => .refl _
  | node :: rest, scene => by
      have first : ∀ scene : Scene,
          (node.merged.draft replaced scene.merged).LeavesAs (node.draft replaced scene) :=
        node.draft_merged bodies
      have all : (draftAll replaced scene.merged (node.merged :: mergedAll rest)).LeavesAs
          (draftAll replaced scene (node :: rest)) :=
        (first scene).andThen (draftAll_merged bodies rest scene)
      refine (draftTemplate_prepend scene.merged node.merged (mergedAll rest)).trans ?_
      cases node with
      | inheritance target =>
          have under := first (scene.under (blocksOf rest))
          rw [Scene.under_merged] at under
          exact under
      | _ => exact all
termination_by structural nodes => nodes

end

theorem draftBody_leavesAs : ∀ openings, BodiesLeaveAs (draftBody openings)
  | 0, _, _ => .refl _
  | openings + 1, body, scene => draftAll_merged (draftBody_leavesAs openings) body scene

/-- Templates of one merged form leave the same, under replacing bodies of one merged form. -/
theorem Template.draft_congr_merged {template other : Template} {overrides overrides' : Overrides}
    (same : template.merged = other.merged)
    (bodies : mergedBodies overrides = mergedBodies overrides') (openings : Nat)
    (context : Context) :
    (template.draft openings context overrides).LeavesAs
      (other.draft openings context overrides') := by
  have nodes : mergedAll template.nodes = mergedAll other.nodes := congrArg Template.nodes same
  have here := draftTemplate_merged (draftBody_leavesAs openings) template.nodes
    ⟨context, overrides⟩
  have there := draftTemplate_merged (draftBody_leavesAs openings) other.nodes
    ⟨context, overrides'⟩
  simp only [Scene.merged, nodes, bodies] at here there
  exact here.symm.trans there

end

/-! ### Work of one merged form -/

theorem forall₂_of_map_eq {α β : Type} {f : α → β} {items others : List α}
    (same : items.map f = others.map f) :
    List.Forall₂ (fun item other => f item = f other) items others := by
  rwa [← List.forall₂_eq_eq_eq, List.forall₂_map_left_iff, List.forall₂_map_right_iff] at same

namespace Engine

variable {engine other : Engine}

/-- Passes over templates of one merged form, on stages of one merged form, leave the same output or
stop for the same reason, and leave stages of one merged form. -/
theorem pass_congr_merged (chunks : engine.Rechunked other) {template template' : Template}
    (same : template.merged = template'.merged) {stage stage' : Stage}
    (stages : stage.merged = stage'.merged) (context : Context) :
    (engine.pass template context stage).1 = (other.pass template' context stage').1 ∧
      (engine.pass template context stage).2.merged =
        (other.pass template' context stage').2.merged := by
  obtain ⟨cells, queue⟩ := stage
  obtain ⟨cells', queue'⟩ := stage'
  simp only [Stage.merged, Stage.mk.injEq] at stages
  obtain ⟨rfl, queues⟩ := stages
  have leaves := Template.draft_congr_merged same (rfl : mergedBodies [] = mergedBodies [])
    engine.openings context 1 engine.config.missingInclude cells.size
  obtain ⟨answer, loads, number⟩ := Rendered.of_merged leaves
  have tasks := congrArg (List.map Task.load) loads
  simp only [List.map_map] at tasks
  rw [pass_eq_rendered, pass_eq_rendered, ← chunks.openings, ← chunks.config]
  simp only [answer, number, Stage.merged, List.map_append, queues, List.map_map, true_and]
  exact congrArg _ (congrArg _ tasks)

/-- Loads of one merged form come to the same, and put off loads of one merged form. -/
theorem performLoad_congr_merged (chunks : engine.Rechunked other) {load load' : Load}
    (same : load.merged = load'.merged) (cells : Cells) :
    (engine.performLoad load cells).Alike (fun later later' => later.merged = later'.merged)
      (other.performLoad load' cells) := by
  obtain ⟨⟨purpose, name, context, overrides⟩, cell, depth, policy⟩ := load
  obtain ⟨⟨purpose', name', context', overrides'⟩, cell', depth', policy'⟩ := load'
  simp only [Load.merged, Request.merged, Load.mk.injEq, Request.mk.injEq] at same
  obtain ⟨⟨rfl, rfl, rfl, bodies⟩, rfl, rfl, rfl⟩ := same
  by_cases beyond : engine.config.maxDepth < depth
  · simp only [performLoad, ← chunks.config, beyond, if_true]
    exact ⟨rfl, .nil, rfl⟩
  have loads := load_rechunked chunks name
  generalize here : engine.load name = loaded at loads
  generalize there : other.load name = loaded' at loads
  rcases loads with error | @⟨template, template', same⟩
  · simp only [performLoad, ← chunks.config, beyond, if_false, here, there]
    split <;> exact ⟨rfl, .nil, rfl⟩
  · let load : Load := ⟨⟨purpose, name, context, overrides⟩, cell, depth, policy⟩
    let load' : Load := ⟨⟨purpose, name, context, overrides'⟩, cell, depth, policy⟩
    have leaves := Template.draft_congr_merged same bodies engine.openings context (depth + 1)
      engine.config.missingInclude cells.size
    obtain ⟨answer, loads, number⟩ := Rendered.of_merged leaves
    obtain ⟨done, stopped⟩ :=
      @performLoad_eq_rendered engine load template (Nat.not_lt.1 beyond) here cells
    obtain ⟨done', stopped'⟩ :=
      @performLoad_eq_rendered other load' template' (chunks.config ▸ Nat.not_lt.1 beyond) there
        cells
    simp only [load', ← chunks.openings, ← chunks.config, ← number, ← answer] at done' stopped'
    cases answered : ((template.draft engine.openings context overrides).rendered (depth + 1)
        engine.config.missingInclude cells.size).answer with
    | ok output =>
        rw [done output answered, done' output answered]
        exact ⟨rfl, forall₂_of_map_eq loads, rfl⟩
    | error stop =>
        rw [stopped stop answered, stopped' stop answered]
        exact ⟨rfl, forall₂_of_map_eq loads, rfl⟩

theorem perform_congr_merged (chunks : engine.Rechunked other) {task task' : Task}
    (same : task.merged = task'.merged) (cells : Cells) :
    (engine.perform task cells).Alike (fun later later' => later.merged = later'.merged)
      (other.perform task' cells) := by
  cases task <;> cases task' <;> simp only [Task.merged, Task.load.injEq, Task.job.injEq,
    reduceCtorEq] at same
  case load.load load load' =>
    obtain ⟨state, deferred, failure⟩ := performLoad_congr_merged chunks same cells
    refine ⟨state, ?_, failure⟩
    simp only [perform, List.forall₂_map_left_iff, List.forall₂_map_right_iff]
    exact deferred.imp fun _ _ same => congrArg Task.load same
  case job.job job job' =>
    subst same
    exact ⟨rfl, List.forall₂_same.2 fun _ _ => rfl, rfl⟩

/-- Stages of one merged form are worked off to the same contents of cells, or fail for the same
reason. -/
theorem runUntilIdle_congr_merged (chunks : engine.Rechunked other) {stage stage' : Stage}
    (same : stage.merged = stage'.merged) :
    (engine.runUntilIdle stage).state = (other.runUntilIdle stage').state ∧
      (engine.runUntilIdle stage).failure = (other.runUntilIdle stage').failure := by
  obtain ⟨cells, queue⟩ := stage
  obtain ⟨cells', queue'⟩ := stage'
  simp only [Stage.merged, Stage.mk.injEq] at same
  obtain ⟨rfl, queues⟩ := same
  have performs : ∀ task task' : Task, task.merged = task'.merged → ∀ cells,
      (engine.worker.perform task cells).Alike (fun later later' => later.merged = later'.merged)
        (other.worker.perform task' cells) := fun _ _ => perform_congr_merged chunks
  exact Worker.drain_alike performs queue cells queue' (forall₂_of_map_eq queues)

theorem renderTemplate_congr_merged (chunks : engine.Rechunked other)
    {template template' : Template} (same : template.merged = template'.merged)
    (context : Context) :
    engine.renderTemplate template context = other.renderTemplate template' context := by
  obtain ⟨answer, stages⟩ := pass_congr_merged chunks same (rfl : Stage.empty.merged = _) context
  obtain ⟨state, failure⟩ := runUntilIdle_congr_merged chunks stages
  rcases here : engine.pass template context .empty with ⟨result, stage⟩
  rcases there : other.pass template' context .empty with ⟨result', stage'⟩
  simp only [here, there] at answer state failure
  subst answer
  cases result with
  | error stop => simp only [renderTemplate, here, there]
  | ok output => simp only [renderTemplate, here, there, state, failure]

/-! ### Templates that cannot be told apart -/

/-- Nobody can tell two templates apart by rendering each with its own engine. In every context and
on every stage, a pass leaves the same output, the same texts with the same cells at the same
places, or stops for the same reason; it leaves the same cells and as many tasks; working these off
ends with the same contents of all cells, or with the same failure; and so rendering with all that
is put off comes to the same. -/
structure SameRendering (engine other : Engine) (template template' : Template) : Prop where
  answer : ∀ context stage,
    (engine.pass template context stage).1 = (other.pass template' context stage).1
  cells : ∀ context stage,
    (engine.pass template context stage).2.cells = (other.pass template' context stage).2.cells
  pending : ∀ context stage,
    (engine.pass template context stage).2.pending = (other.pass template' context stage).2.pending
  drained : ∀ context stage,
    let left := engine.runUntilIdle (engine.pass template context stage).2
    let right := other.runUntilIdle (other.pass template' context stage).2
    left.state = right.state ∧ left.failure = right.failure
  complete : ∀ context,
    engine.renderTemplate template context = other.renderTemplate template' context

theorem sameRendering_of_merged (chunks : engine.Rechunked other) {template template' : Template}
    (same : template.merged = template'.merged) :
    engine.SameRendering other template template' := by
  have passes := fun context stage =>
    pass_congr_merged chunks same (rfl : Stage.merged stage = stage.merged) context
  refine ⟨fun context stage => (passes context stage).1, fun context stage => ?_,
    fun context stage => ?_, fun context stage => runUntilIdle_congr_merged chunks
      (passes context stage).2, renderTemplate_congr_merged chunks same⟩
  · have cells : (engine.pass template context stage).2.merged.cells =
        (other.pass template' context stage).2.merged.cells :=
      congrArg Stage.cells (passes context stage).2
    exact cells
  · have number := congrArg (fun stage => stage.queue.length) (passes context stage).2
    simpa [Stage.merged, Stage.pending] using number

/-- Two builds fail with the same error, or both succeed with templates that cannot be told apart.
-/
inductive SameBuild (engine other : Engine) :
    Except Error Template → Except Error Template → Prop where
  | failed (error : Error) : SameBuild engine other (.error error) (.error error)
  | built {template template' : Template} (same : engine.SameRendering other template template') :
      SameBuild engine other (.ok template) (.ok template')

theorem sameBuild_of_merged (chunks : engine.Rechunked other)
    {built built' : Except Error Template}
    (same : Matches (fun template other => template.merged = other.merged) built built') :
    engine.SameBuild other built built' := by
  cases same with
  | error error => exact .failed error
  | ok forms => exact .built (sameRendering_of_merged chunks forms)

end Engine

/-- How text is cut is invisible. In two engines of the same settings, let the sources differ in
nothing but how their texts are cut, a run of texts standing in the place of one that says the same.
Building a source, or one that differs from it in its texts alone, fails with the same error or
succeeds in both engines, with templates that cannot be told apart. The same is true of the
templates that the engines load by name, and these are rendered to the same text, or fail for the
same reason. -/
theorem chunks_invisible {engine other : Engine} (chunks : engine.Rechunked other) :
    (∀ name source source', Source.Rechunked source source' →
      engine.SameBuild other (engine.build name source) (other.build name source')) ∧
    ∀ name, engine.SameBuild other (engine.load name) (other.load name) ∧
      ∀ context, engine.render name context = other.render name context := by
  refine ⟨fun name source source' same => ?_, fun name => ?_⟩
  · exact Engine.sameBuild_of_merged chunks (Engine.build_rechunked chunks name same)
  · have loads := Engine.sameBuild_of_merged chunks (Engine.load_rechunked chunks name)
    refine ⟨loads, fun context => ?_⟩
    simp only [Engine.render, Engine.renderOutput]
    generalize engine.load name = loaded at loads ⊢
    generalize other.load name = loaded' at loads ⊢
    cases loads with
    | failed error => rfl
    | built same => simp only [same.complete context]

/-- The leaf, cut into three texts, two of which are empty. -/
def cutLeafEngine : Engine :=
  ⟨fun name => if name = "leaf" then some ⟨[.text "", .text "x", .text ""]⟩ else none, {}, 65536⟩

/-- The page, with its texts cut. -/
def cutLeafSource : Source :=
  ⟨[.text "", .text "<", .opening "include" " part ", .text ">", .text ""]⟩

/-- The page as it is built from this. -/
def cutLeafPage : Template :=
  ⟨"page", [.text "", .text "<", .inclusion (.bare "part"), .text ">", .text ""]⟩

theorem cut_leaf_page_same :
    leafEngine.Rechunked cutLeafEngine ∧ Source.Rechunked leafSource cutLeafSource ∧
      leafEngine.build "page" leafSource = .ok leafPage ∧
      cutLeafEngine.build "page" cutLeafSource = .ok cutLeafPage ∧
      leafEngine.SameRendering cutLeafEngine leafPage cutLeafPage ∧
      (cutLeafEngine.pass cutLeafPage leafContext .empty).1 = .ok leafOutput := by
  have page : Source.Rechunked leafSource cutLeafSource :=
    Rechunked.cut (List.cons_ne_nil "<" []) (List.cons_ne_nil "" ["<"]) (by decide) <|
      .keep (.opening "include" " part ") <|
        Rechunked.cut (List.cons_ne_nil ">" []) (List.cons_ne_nil ">" [""]) (by decide) .nil
  have leaf : Source.Rechunked (.ofText "x") ⟨[.text "", .text "x", .text ""]⟩ :=
    Rechunked.cut (List.cons_ne_nil "x" []) (List.cons_ne_nil "" ["x", ""]) (by decide) .nil
  have chunks : leafEngine.Rechunked cutLeafEngine := by
    refine ⟨rfl, rfl, fun name => ?_⟩
    simp only [leafEngine, cutLeafEngine]
    split
    · exact .some leaf
    · exact .none
  have builds : leafEngine.SameBuild cutLeafEngine (.ok leafPage) (.ok cutLeafPage) :=
    (chunks_invisible chunks).1 "page" leafSource cutLeafSource page
  cases builds with
  | built same => exact ⟨chunks, page, rfl, rfl, same, (same.answer leafContext .empty).symm⟩

end Quire
