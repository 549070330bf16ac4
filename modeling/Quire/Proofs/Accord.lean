/-
Module: Quire.Proofs.Accord
Purpose: A pass and direct rendering go down a template side by side, so whatever relation of their
  results is kept where results are put together holds for every template.
Main exports: Accord, Node.accord_direct, accord_directTemplate, accord_directBody
-/
import Quire.Proofs.Direct

/-!
The two take the same way through a template: they look up the same paths, choose the same branches
and bodies, and go round the same loops. They differ in one place only, at a tag whose template a
variable names, where direct rendering fetches and a pass leaves a request. The induction over the
nodes is therefore made once, for any relation that suits this place and is kept everywhere else.
-/

namespace Quire

/-- A relation of the results of direct rendering to drafts that is kept by every way in which
results are put together. -/
structure Accord (fetch : Request → Direct) (related : Direct → Draft → Prop) : Prop where
  empty : related (.ok []) .empty
  text : ∀ text, related (.ok [.text text]) (.text text)
  halt : ∀ stop, related (.error stop) (.halt stop)
  andThen : ∀ {first second : Direct} {draft : Draft} {later : Unit → Draft}, related first draft →
    related second (later ()) →
      related (do let front ← first; let back ← second; return front ++ back) (draft.andThen later)
  quoted : ∀ (request : Request) {result : Direct} {draft : Draft}, related result draft →
    related (do let inner ← result; return [.visit ⟨true, request⟩ inner]) draft
  bare : ∀ request, related (do let inner ← fetch request; return [.visit ⟨false, request⟩ inner])
    (.request request)

section

variable {render : List Node → Scene → Direct} {replaced : List Node → Scene → Draft}
variable {fetch : Request → Direct} {related : Direct → Draft → Prop}

theorem Accord.each {α : Type} {render : α → Direct} {pass : α → Draft}
    (accord : Accord fetch related) (items : List α)
    (rounds : ∀ item, related (render item) (pass item)) :
    related (Direct.each render items) (Draft.each pass items) := by
  induction items with
  | nil => exact accord.empty
  | cons item rest ih => exact accord.andThen (rounds item) ih

mutual

theorem Node.accord_direct (accord : Accord fetch related)
    (bodies : ∀ body scene, related (render body scene) (replaced body scene)) :
    ∀ (node : Node) (scene : Scene),
      related (node.direct render fetch scene) (node.draft replaced scene)
  | .text text, _ => accord.text text
  | .value path, scene => by
      cases found : scene.context.lookup path with
      | some value =>
          simp only [Node.direct, Node.draft, found]
          exact accord.text value.display
      | none =>
          simp only [Node.direct, Node.draft, found]
          exact accord.empty
  | .block name body, scene => by
      cases found : Fields.find? name scene.overrides with
      | some other =>
          simp only [Node.direct, Node.draft, found]
          exact bodies other scene
      | none =>
          simp only [Node.direct, Node.draft, found]
          exact accord_directAll accord bodies body scene
  | .inheritance target, scene => target.accord_direct accord bodies .inheritance scene
  | .inclusion target, scene => target.accord_direct accord bodies .inclusion scene.bare
  | .loop loop body, scene => by
      cases entries : loop.scopes scene.context with
      | error error =>
          simp only [Node.direct, Node.draft, entries]
          exact accord.halt (.error error)
      | ok scopes =>
          simp only [Node.direct, Node.draft, entries]
          apply accord.each
          intro scope
          exact accord_directAll accord bodies body (scene.inside scope)
  | .conditional condition body branches, scene => by
      by_cases holds : condition.holds scene.context
      · simp only [Node.direct, Node.draft, holds, if_true]
        exact accord_directAll accord bodies body scene
      · simp only [Node.direct, Node.draft, holds]
        exact accord_directBranches accord bodies branches scene
termination_by structural node => node

theorem Target.accord_direct (accord : Accord fetch related)
    (bodies : ∀ body scene, related (render body scene) (replaced body scene)) :
    ∀ (target : Target) (purpose : Purpose) (scene : Scene),
      related (target.direct render fetch purpose scene) (target.draft replaced purpose scene)
  | .quoted ⟨path, nodes⟩, purpose, scene =>
      accord.quoted ⟨purpose, path, scene.context, scene.overrides⟩
        (accord_directTemplate accord bodies nodes scene)
  | .bare path, purpose, scene => by
      cases named : scene.context.templateName path with
      | error error =>
          simp only [Target.direct, Target.draft, named]
          exact accord.halt (.error error)
      | ok name =>
          simp only [Target.direct, Target.draft, named]
          exact accord.bare ⟨purpose, name, scene.context, scene.overrides⟩
termination_by structural target => target

theorem accord_directBranches (accord : Accord fetch related)
    (bodies : ∀ body scene, related (render body scene) (replaced body scene)) :
    ∀ (branches : List Branch) (scene : Scene),
      related (directBranches render fetch scene branches) (draftBranches replaced scene branches)
  | [], _ => accord.empty
  | ⟨guard, body⟩ :: rest, scene => by
      by_cases holds : guard.all (·.holds scene.context)
      · simp only [directBranches, draftBranches, holds, if_true]
        exact accord_directAll accord bodies body scene
      · simp only [directBranches, draftBranches, holds]
        exact accord_directBranches accord bodies rest scene
termination_by structural branches => branches

theorem accord_directAll (accord : Accord fetch related)
    (bodies : ∀ body scene, related (render body scene) (replaced body scene)) :
    ∀ (nodes : List Node) (scene : Scene),
      related (directAll render fetch scene nodes) (draftAll replaced scene nodes)
  | [], _ => accord.empty
  | node :: rest, scene =>
      accord.andThen (node.accord_direct accord bodies scene)
        (accord_directAll accord bodies rest scene)
termination_by structural nodes => nodes

/-- A relation that is kept where results are put together holds of the two results for a
template. -/
theorem accord_directTemplate (accord : Accord fetch related)
    (bodies : ∀ body scene, related (render body scene) (replaced body scene)) :
    ∀ (nodes : List Node) (scene : Scene),
      related (directTemplate render fetch scene nodes) (draftTemplate replaced scene nodes)
  | [], _ => accord.empty
  | node :: rest, scene => by
      have first : ∀ scene, related (node.direct render fetch scene) (node.draft replaced scene) :=
        node.accord_direct accord bodies
      have all : related (directAll render fetch scene (node :: rest))
          (draftAll replaced scene (node :: rest)) :=
        accord.andThen (first scene) (accord_directAll accord bodies rest scene)
      cases node with
      | inheritance target => exact first (scene.under (blocksOf rest))
      | _ => exact all
termination_by structural nodes => nodes

end

/-- The bodies of replaced blocks have related results, however many others may be open. -/
theorem accord_directBody (accord : Accord fetch related) :
    ∀ openings body scene,
      related (directBody fetch openings body scene) (draftBody openings body scene)
  | 0, _, _ => accord.halt .endless
  | openings + 1, body, scene =>
      accord_directAll accord (accord_directBody accord openings) body scene

end

/-- The results of the engine for a template, direct or put off, are related. -/
theorem Engine.accord_directAt (engine : Engine) {related : Direct → Draft → Prop} {depth : Nat}
    (accord : Accord (engine.fetch (depth + 1)) related) (scene : Scene) (nodes : List Node) :
    related (engine.directAt depth scene nodes)
      (draftTemplate (draftBody engine.openings) scene nodes) :=
  accord_directTemplate accord (accord_directBody accord engine.openings) nodes scene

end Quire
