/-
Module: Quire.Proofs.Kept
Purpose: A property that is kept where drafts are put together holds of all passes over a template.
Main exports: Purpose.tag, Purpose.scene, Kept, Node.kept_draft, Target.kept_draft, kept_draftAll,
  kept_draftTemplate
-/
import Quire.Rendering
import Quire.Proofs.Blocks

/-!
A pass goes down the nodes of a template and of the templates in quotes inside it, and jumps to the
bodies that replace blocks. What is to be shown of its draft is shown by the same induction every
time, so this is made once. The property may speak of several passes over the same nodes in the same
scene, one for each index: they choose the same branches and go round the same loops, and differ in
nothing but the bodies that replace blocks.
-/

namespace Quire

/-- A tag that refers to a template for a purpose. -/
def Purpose.tag : Purpose → Target → Node
  | .inclusion => .inclusion
  | .inheritance => .inheritance

/-- The scene for the template that a tag refers to: an include has no replaced blocks. -/
def Purpose.scene : Purpose → Scene → Scene
  | .inclusion, scene => scene.bare
  | .inheritance, scene => scene

@[simp] theorem Purpose.context_scene (purpose : Purpose) (scene : Scene) :
    (purpose.scene scene).context = scene.context := by
  cases purpose <;> rfl

/-- A property of passes in a scene that is kept by every way in which drafts are put together. It
may depend on what the nodes are, if this passes down to the nodes inside them, and on what the
scene is, if this does not change within loops. Where a pass goes on in another scene, in a template
in quotes or under further blocks, what it comes to there is known for all scenes that suit. -/
structure Kept {ι : Type} (replaced : ι → List Node → Scene → Draft) (fit : Node → Prop)
    (suits : Scene → Prop) (holds : Scene → (ι → Draft) → Prop) : Prop where
  down : PassesDown fit
  inside : ∀ {scene} scope, suits scene → suits (scene.inside scope)
  empty : ∀ scene, holds scene fun _ => .empty
  text : ∀ scene text, holds scene fun _ => .text text
  andThen : ∀ {scene} {first second : ι → Draft}, holds scene first → holds scene second →
    holds scene fun i => (first i).andThen fun _ => second i
  replaces : ∀ {name body other scene}, fit (.block name body) → suits scene →
    Fields.find? name scene.overrides = some other → holds scene fun i => replaced i other scene
  unlooped : ∀ {spec body scene error}, fit (.loop spec body) →
    spec.scopes scene.context = .error error → holds scene fun _ => .fail error
  round : ∀ {spec : Loop} {scene scopes scope} {pass : ι → Draft},
    spec.scopes scene.context = .ok scopes → scope ∈ scopes → holds (scene.inside scope) pass →
      holds scene pass
  unnamed : ∀ {purpose path scene error}, fit (Purpose.tag purpose (.bare path)) →
    scene.context.templateName path = .error error → holds scene fun _ => .fail error
  request : ∀ {purpose path scene name}, suits scene →
    scene.context.templateName path = .ok name →
      holds scene fun _ =>
        .request ⟨purpose, name, scene.context, (Purpose.scene purpose scene).overrides⟩
  quoted : ∀ {purpose path nodes scene}, fit (Purpose.tag purpose (.quoted ⟨path, nodes⟩)) →
    suits scene →
      (∀ {scene}, (∀ node ∈ nodes, fit node) → suits scene →
        holds scene fun i => draftTemplate (replaced i) scene nodes) →
      holds scene fun i => draftTemplate (replaced i) (purpose.scene scene) nodes
  derived : ∀ {target rest scene}, fit (.inheritance target) → (∀ node ∈ rest, fit node) →
    suits scene →
      (∀ {scene}, suits scene →
        holds scene fun i => target.draft (replaced i) .inheritance scene) →
      holds scene fun i => target.draft (replaced i) .inheritance (scene.under (blocksOf rest))

section

variable {ι : Type} {replaced : ι → List Node → Scene → Draft} {fit : Node → Prop}
variable {suits : Scene → Prop} {holds : Scene → (ι → Draft) → Prop}

theorem Kept.each {α : Type} (kept : Kept replaced fit suits holds) {scene : Scene}
    {pass : ι → α → Draft} {items : List α} (rounds : ∀ item ∈ items, holds scene (pass · item)) :
    holds scene fun i => .each (pass i) items := by
  induction items with
  | nil => exact kept.empty scene
  | cons item rest ih =>
      obtain ⟨here, there⟩ := List.forall_mem_cons.1 rounds
      exact kept.andThen here (ih there)

mutual

theorem Node.kept_draft (kept : Kept replaced fit suits holds) :
    ∀ (node : Node) {scene : Scene}, fit node → suits scene →
      holds scene fun i => node.draft (replaced i) scene
  | .text text, scene, _, _ => kept.text scene text
  | .value path, scene, _, _ => by
      simp only [Node.draft]
      cases scene.context.lookup path with
      | none => exact kept.empty scene
      | some value => exact kept.text scene value.display
  | .block name body, scene, here, suited => by
      simp only [Node.draft]
      cases found : Fields.find? name scene.overrides with
      | none => exact kept_draftAll kept body (kept.down.block here) suited
      | some other => exact kept.replaces here suited found
  | .inheritance target, _, here, suited => target.kept_draft kept .inheritance here suited
  | .inclusion target, _, here, suited => target.kept_draft kept .inclusion here suited
  | .loop spec body, scene, here, suited => by
      simp only [Node.draft]
      cases opened : spec.scopes scene.context with
      | error error => exact kept.unlooped here opened
      | ok scopes =>
          refine kept.each fun scope member => kept.round opened member ?_
          exact kept_draftAll kept body (kept.down.loop here) (kept.inside scope suited)
  | .conditional condition body branches, scene, here, suited => by
      simp only [Node.draft]
      by_cases taken : condition.holds scene.context
      · simp only [taken, if_true]
        exact kept_draftAll kept body (kept.down.conditional here) suited
      · simp only [taken]
        exact kept_draftBranches kept branches (kept.down.branch here) suited
termination_by structural node => node

theorem Target.kept_draft (kept : Kept replaced fit suits holds) :
    ∀ (target : Target) (purpose : Purpose) {scene : Scene}, fit (purpose.tag target) →
      suits scene → holds scene fun i => target.draft (replaced i) purpose (purpose.scene scene)
  | .quoted ⟨_, nodes⟩, _, _, here, suited =>
      kept.quoted here suited (kept_draftTemplate kept nodes)
  | .bare path, purpose, scene, here, suited => by
      simp only [Target.draft, Purpose.context_scene]
      cases named : scene.context.templateName path with
      | error error => exact kept.unnamed here named
      | ok name => exact kept.request suited named
termination_by structural target => target

theorem kept_draftBranches (kept : Kept replaced fit suits holds) :
    ∀ (branches : List Branch) {scene : Scene},
      (∀ branch ∈ branches, ∀ node ∈ branch.body, fit node) → suits scene →
        holds scene fun i => draftBranches (replaced i) scene branches
  | [], scene, _, _ => kept.empty scene
  | ⟨guard, body⟩ :: rest, scene, fits, suited => by
      obtain ⟨here, there⟩ := List.forall_mem_cons.1 fits
      simp only [draftBranches]
      by_cases taken : guard.all (·.holds scene.context)
      · simp only [taken, if_true]
        exact kept_draftAll kept body here suited
      · simp only [taken]
        exact kept_draftBranches kept rest there suited
termination_by structural branches => branches

theorem kept_draftAll (kept : Kept replaced fit suits holds) :
    ∀ (nodes : List Node) {scene : Scene}, (∀ node ∈ nodes, fit node) → suits scene →
      holds scene fun i => draftAll (replaced i) scene nodes
  | [], scene, _, _ => kept.empty scene
  | node :: rest, _, fits, suited => by
      obtain ⟨here, there⟩ := List.forall_mem_cons.1 fits
      exact kept.andThen (node.kept_draft kept here suited) (kept_draftAll kept rest there suited)
termination_by structural nodes => nodes

/-- A property that is kept where drafts are put together holds of the passes over a template. -/
theorem kept_draftTemplate (kept : Kept replaced fit suits holds) :
    ∀ (nodes : List Node) {scene : Scene}, (∀ node ∈ nodes, fit node) → suits scene →
      holds scene fun i => draftTemplate (replaced i) scene nodes
  | [], scene, _, _ => kept.empty scene
  | node :: rest, scene, fits, suited => by
      obtain ⟨here, there⟩ := List.forall_mem_cons.1 fits
      have first : ∀ {scene : Scene}, suits scene →
          holds scene fun i => node.draft (replaced i) scene := node.kept_draft kept here
      have all : holds scene fun i => draftAll (replaced i) scene (node :: rest) :=
        kept.andThen (first suited) (kept_draftAll kept rest there suited)
      cases node with
      | inheritance target => exact kept.derived here there suited first
      | _ => exact all
termination_by structural nodes => nodes

end

end

end Quire
