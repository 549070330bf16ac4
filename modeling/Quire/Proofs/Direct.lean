/-
Module: Quire.Proofs.Direct
Purpose: Direct rendering, the reference for rendering that puts loads off: every template is loaded
  and rendered where its tag stands, without cells and without a queue.
Main exports: Visit, Part, shownAll, Node.direct, Engine.fetch, Engine.direct, Engine.renderDirect,
  Agrees, Engine.fetch_agrees, directBody_agrees
-/
import Quire.Stage

/-!
A tag whose template a variable names is carried out at once: the path is looked up in the context
of the tag, the limit is checked against the number of loads that the tag is nested in, and the
template is loaded and rendered in that context. The result keeps a mark for every tag that referred
to a template, so that it tells not only the text but also where each part of it came from.

Only successful renders are compared with those that put loads off. Where both fail they may fail
for different reasons, since the queue takes loads in another order.
-/

namespace Quire

/-! ### What direct rendering yields -/

/-- A tag that referred to a template, as it was carried out. -/
structure Visit where
  /-- Whether the name of the template stood in quotes. -/
  quoted : Bool
  request : Request

/-- A part of what direct rendering yields: a text, or what a tag that referred to a template came
to. -/
inductive Part where
  | text (text : String)
  | visit (visit : Visit) (parts : List Part)

mutual

/-- The text of a part. -/
def Part.shown : Part → String
  | .text text => text
  | .visit _ parts => shownAll parts
termination_by structural part => part

/-- The text of parts, one after another. -/
def shownAll : List Part → String
  | [] => ""
  | part :: rest => part.shown ++ shownAll rest
termination_by structural parts => parts

end

@[simp] theorem shownAll_append (parts others : List Part) :
    shownAll (parts ++ others) = shownAll parts ++ shownAll others := by
  induction parts with
  | nil => simp [shownAll]
  | cons part rest ih => simp [shownAll, ih, String.append_assoc]

/-- The result of rendering on the spot. -/
abbrev Direct := Except Stop (List Part)

namespace Direct

/-- One result for each item in turn, up to the first that fails. -/
def each {α : Type} (render : α → Direct) : List α → Direct
  | [] => .ok []
  | item :: rest => do
      let parts ← render item
      let others ← each render rest
      return parts ++ others

theorem append_ok_iff {first second : Direct} {parts : List Part} :
    (do let front ← first; let back ← second; return front ++ back : Direct) = .ok parts ↔
      ∃ front back, first = .ok front ∧ second = .ok back ∧ parts = front ++ back := by
  cases first with
  | error stop => simp [bind, Except.bind]
  | ok front =>
      cases second with
      | error stop => simp [bind, Except.bind]
      | ok back => simp [bind, Except.bind, pure, Except.pure, eq_comm]

theorem visit_ok_iff {result : Direct} {visit : Visit} {parts : List Part} :
    (do let inner ← result; return [.visit visit inner] : Direct) = .ok parts ↔
      ∃ inner, result = .ok inner ∧ parts = [.visit visit inner] := by
  cases result with
  | error stop => simp [bind, Except.bind]
  | ok inner => simp [bind, Except.bind, pure, Except.pure, eq_comm]

end Direct

/-! ### Rendering on the spot -/

section

variable (replaced : List Node → Scene → Direct) (fetch : Request → Direct)

mutual

/-- A node in a scene. The body of a replaced block is rendered by `replaced`, and what a variable
names is carried out by `fetch`. -/
def Node.direct (scene : Scene) : Node → Direct
  | .text text => .ok [.text text]
  | .value path =>
      match scene.context.lookup path with
      | some value => .ok [.text value.display]
      | none => .ok []
  | .block name body =>
      match Fields.find? name scene.overrides with
      | some other => replaced other scene
      | none => directAll scene body
  | .inheritance target => target.direct .inheritance scene
  | .inclusion target => target.direct .inclusion scene.bare
  | .loop loop body =>
      match loop.scopes scene.context with
      | .error error => .error (.error error)
      | .ok scopes => .each (fun scope => directAll (scene.inside scope) body) scopes
  | .conditional condition body branches =>
      if condition.holds scene.context then directAll scene body
      else directBranches scene branches
termination_by structural node => node

/-- The template a tag refers to, in the place of the tag. -/
def Target.direct (purpose : Purpose) (scene : Scene) : Target → Direct
  | .quoted ⟨path, nodes⟩ => do
      let parts ← directTemplate scene nodes
      return [.visit ⟨true, ⟨purpose, path, scene.context, scene.overrides⟩⟩ parts]
  | .bare path =>
      match scene.context.templateName path with
      | .error error => .error (.error error)
      | .ok name => do
          let request := ⟨purpose, name, scene.context, scene.overrides⟩
          let parts ← fetch request
          return [.visit ⟨false, request⟩ parts]
termination_by structural target => target

/-- The first branch whose condition holds or that has none. -/
def directBranches (scene : Scene) : List Branch → Direct
  | [] => .ok []
  | ⟨guard, body⟩ :: rest =>
      if guard.all (·.holds scene.context) then directAll scene body
      else directBranches scene rest
termination_by structural branches => branches

/-- Nodes one after another. -/
def directAll (scene : Scene) : List Node → Direct
  | [] => .ok []
  | node :: rest => do
      let parts ← node.direct scene
      let others ← directAll scene rest
      return parts ++ others
termination_by structural nodes => nodes

/-- The nodes of a template. One headed by an inheritance tag hands its blocks to the template it is
derived from, under those that are replaced already. -/
def directTemplate (scene : Scene) : List Node → Direct
  | [] => .ok []
  | .inheritance target :: rest => target.direct .inheritance (scene.under (blocksOf rest))
  | node :: rest => do
      let parts ← node.direct scene
      let others ← directAll scene rest
      return parts ++ others
termination_by structural nodes => nodes

end

end

/-- The body of a replaced block, inside which no more than `openings` others may be open. -/
def directBody (fetch : Request → Direct) : Nat → List Node → Scene → Direct
  | 0 => fun _ _ => .error .endless
  | openings + 1 => fun body scene => directAll (directBody fetch openings) fetch scene body

namespace Engine

/-- Carries out a request on the spot, as the load with the given number among those it is nested
in. -/
def fetch (engine : Engine) (depth : Nat) (request : Request) : Direct :=
  if engine.config.maxDepth < depth then
    .error (.error (.tooDeep request.name engine.config.maxDepth))
  else match engine.load request.name with
    | .error error =>
        if request.purpose = .inclusion ∧ engine.config.missingInclude = .silent then .ok []
        else .error (.error error)
    | .ok template =>
        let fetch := fun later => engine.fetch (depth + 1) later
        directTemplate (directBody fetch engine.openings) fetch ⟨request.context, request.overrides⟩
          template.nodes
termination_by engine.config.maxDepth + 1 - depth

/-- Nodes in a scene that is nested in the given number of loads. -/
def directAt (engine : Engine) (depth : Nat) (scene : Scene) (nodes : List Node) : Direct :=
  directTemplate (directBody (engine.fetch (depth + 1)) engine.openings) (engine.fetch (depth + 1))
    scene nodes

/-- Renders a template directly. -/
def direct (engine : Engine) (template : Template) (context : Context) : Direct :=
  engine.directAt 0 ⟨context, []⟩ template.nodes

/-- The text of the template of a name, rendered directly. -/
def renderDirect (engine : Engine) (name : String) (context : Context) : Except Stop String :=
  match engine.load name with
  | .error error => .error (.error error)
  | .ok template => (engine.direct template context).map shownAll

/-- What carrying out a request comes to. -/
theorem fetch_eq (engine : Engine) (depth : Nat) (request : Request) :
    engine.fetch depth request =
      if engine.config.maxDepth < depth then
        .error (.error (.tooDeep request.name engine.config.maxDepth))
      else match engine.load request.name with
        | .error error =>
            if request.purpose = .inclusion ∧ engine.config.missingInclude = .silent then .ok []
            else .error (.error error)
        | .ok template =>
            engine.directAt depth ⟨request.context, request.overrides⟩ template.nodes := by
  rw [fetch]
  rfl

end Engine

/-- A template that no inheritance tag heads is rendered node by node. -/
theorem directTemplate_cons {replaced : List Node → Scene → Direct} {fetch : Request → Direct}
    {scene : Scene} {node : Node} {rest : List Node}
    (plain : ∀ target, node ≠ .inheritance target) :
    directTemplate replaced fetch scene (node :: rest) =
      directAll replaced fetch scene (node :: rest) := by
  cases node with
  | inheritance target => exact absurd rfl (plain target)
  | _ => rfl

/-! ### More room changes no result

A render that succeeds gives the same result wherever more loads may be nested and more bodies may
be open. So the result of a tag may be compared with that of its template rendered alone. -/

/-- The larger of two renderers gives every result that the smaller one gives. -/
def Agrees {α : Type} (smaller larger : α → Direct) : Prop :=
  ∀ item parts, smaller item = .ok parts → larger item = .ok parts

theorem Agrees.each {α : Type} {smaller larger : α → Direct} (agrees : Agrees smaller larger) :
    Agrees (Direct.each smaller) (Direct.each larger)
  | [], _, ok => ok
  | item :: rest, parts, ok => by
      obtain ⟨front, back, first, others, rfl⟩ := Direct.append_ok_iff.1 ok
      exact Direct.append_ok_iff.2
        ⟨front, back, agrees item front first, Agrees.each agrees rest back others, rfl⟩

/-- Renderers of bodies and of requests that give every result that the smaller ones give. -/
structure Larger (replaced replaced' : List Node → Scene → Direct)
    (fetch fetch' : Request → Direct) :
    Prop where
  bodies : ∀ body, Agrees (replaced body) (replaced' body)
  requests : Agrees fetch fetch'

section

variable {replaced replaced' : List Node → Scene → Direct} {fetch fetch' : Request → Direct}

mutual

theorem Node.direct_agrees (larger : Larger replaced replaced' fetch fetch') :
    ∀ (node : Node) {scene : Scene} {parts : List Part},
      node.direct replaced fetch scene = .ok parts → node.direct replaced' fetch' scene = .ok parts
  | .text _, _, _, ok => ok
  | .value _, _, _, ok => ok
  | .block name body, scene, parts, ok => by
      simp only [Node.direct] at ok ⊢
      split at ok
      · exact larger.bodies _ scene parts ok
      · exact directAll_agrees larger body ok
  | .inheritance target, _, _, ok => Target.direct_agrees larger target ok
  | .inclusion target, _, _, ok => Target.direct_agrees larger target ok
  | .loop loop body, scene, parts, ok => by
      simp only [Node.direct] at ok ⊢
      split at ok
      · simp at ok
      · exact Agrees.each (fun _ _ ok => directAll_agrees larger body ok) _ parts ok
  | .conditional condition body branches, scene, parts, ok => by
      by_cases holds : condition.holds scene.context
      · simp only [Node.direct, holds, if_true] at ok ⊢
        exact directAll_agrees larger body ok
      · simp only [Node.direct, holds] at ok ⊢
        exact directBranches_agrees larger branches ok
termination_by structural node => node

theorem Target.direct_agrees (larger : Larger replaced replaced' fetch fetch') :
    ∀ (target : Target) {purpose : Purpose} {scene : Scene} {parts : List Part},
      target.direct replaced fetch purpose scene = .ok parts →
        target.direct replaced' fetch' purpose scene = .ok parts
  | .quoted ⟨path, nodes⟩, _, _, _, ok => by
      obtain ⟨inner, rendered, rfl⟩ := Direct.visit_ok_iff.1 ok
      exact Direct.visit_ok_iff.2 ⟨inner, directTemplate_agrees larger nodes rendered, rfl⟩
  | .bare path, purpose, scene, parts, ok => by
      simp only [Target.direct] at ok ⊢
      split at ok
      · simp at ok
      · obtain ⟨inner, rendered, rfl⟩ := Direct.visit_ok_iff.1 ok
        exact Direct.visit_ok_iff.2 ⟨inner, larger.requests _ inner rendered, rfl⟩
termination_by structural target => target

theorem directBranches_agrees (larger : Larger replaced replaced' fetch fetch') :
    ∀ (branches : List Branch) {scene : Scene} {parts : List Part},
      directBranches replaced fetch scene branches = .ok parts →
        directBranches replaced' fetch' scene branches = .ok parts
  | [], _, _, ok => ok
  | ⟨guard, body⟩ :: rest, scene, parts, ok => by
      by_cases holds : guard.all (·.holds scene.context)
      · simp only [directBranches, holds, if_true] at ok ⊢
        exact directAll_agrees larger body ok
      · simp only [directBranches, holds] at ok ⊢
        exact directBranches_agrees larger rest ok
termination_by structural branches => branches

theorem directAll_agrees (larger : Larger replaced replaced' fetch fetch') :
    ∀ (nodes : List Node) {scene : Scene} {parts : List Part},
      directAll replaced fetch scene nodes = .ok parts →
        directAll replaced' fetch' scene nodes = .ok parts
  | [], _, _, ok => ok
  | node :: rest, scene, parts, ok => by
      obtain ⟨front, back, first, others, rfl⟩ := Direct.append_ok_iff.1 ok
      exact Direct.append_ok_iff.2 ⟨front, back, Node.direct_agrees larger node first,
        directAll_agrees larger rest others, rfl⟩
termination_by structural nodes => nodes

theorem directTemplate_agrees (larger : Larger replaced replaced' fetch fetch') :
    ∀ (nodes : List Node) {scene : Scene} {parts : List Part},
      directTemplate replaced fetch scene nodes = .ok parts →
        directTemplate replaced' fetch' scene nodes = .ok parts
  | [], _, _, ok => ok
  | node :: rest, scene, parts, ok => by
      have first : ∀ {scene : Scene} {parts : List Part},
          node.direct replaced fetch scene = .ok parts →
            node.direct replaced' fetch' scene = .ok parts := Node.direct_agrees larger node
      have all : directAll replaced fetch scene (node :: rest) = .ok parts →
          directAll replaced' fetch' scene (node :: rest) = .ok parts := by
        intro ok
        obtain ⟨front, back, here, there, rfl⟩ := Direct.append_ok_iff.1 ok
        exact Direct.append_ok_iff.2
          ⟨front, back, first here, directAll_agrees larger rest there, rfl⟩
      cases node with
      | inheritance target => exact first ok
      | _ => exact all ok
termination_by structural nodes => nodes

end

/-- More bodies may be open. -/
theorem directBody_agrees (requests : Agrees fetch fetch') :
    ∀ {openings openings' : Nat}, openings ≤ openings' →
      ∀ body, Agrees (directBody fetch openings body) (directBody fetch' openings' body)
  | 0, _, _, _, _, _, ok => by simp [directBody] at ok
  | openings + 1, openings' + 1, enough, body, scene, parts, ok => by
      have inner := directBody_agrees requests (Nat.le_of_succ_le_succ enough)
      exact directAll_agrees ⟨inner, requests⟩ body ok

end

namespace Engine

/-- More loads may be nested. -/
theorem fetch_agrees (engine : Engine) {depth depth' : Nat} (lower : depth' ≤ depth) :
    Agrees (engine.fetch depth) (engine.fetch depth') := by
  intro request parts ok
  rw [fetch_eq] at ok ⊢
  by_cases deep : engine.config.maxDepth < depth
  · simp [deep] at ok
  · have deep' : ¬ engine.config.maxDepth < depth' := by omega
    simp only [deep, deep', if_false] at ok ⊢
    cases loaded : engine.load request.name with
    | error error => simpa only [loaded] using ok
    | ok template =>
        simp only [loaded] at ok ⊢
        have requests : Agrees (engine.fetch (depth + 1)) (engine.fetch (depth' + 1)) :=
          engine.fetch_agrees (Nat.succ_le_succ lower)
        exact directTemplate_agrees ⟨directBody_agrees requests (Nat.le_refl _), requests⟩ _ ok
termination_by engine.config.maxDepth + 1 - depth

/-- A render inside others, with fewer loads and bodies left to open, gives the result of rendering
at the outside. -/
theorem direct_of_nested (engine : Engine) {depth openings : Nat}
    (fewer : openings ≤ engine.openings) (template : Template) {context : Context}
    {parts : List Part} (ok : directTemplate (directBody (engine.fetch (depth + 1)) openings)
      (engine.fetch (depth + 1)) ⟨context, []⟩ template.nodes = .ok parts) :
    engine.direct template context = .ok parts := by
  have requests := engine.fetch_agrees (Nat.succ_le_succ (Nat.zero_le depth))
  exact directTemplate_agrees ⟨directBody_agrees requests fewer, requests⟩ template.nodes ok

/-- A render that is nested in fewer loads gives the same result. -/
theorem directAt_agrees (engine : Engine) {depth depth' : Nat} (lower : depth' ≤ depth)
    (scene : Scene) : Agrees (engine.directAt depth scene) (engine.directAt depth' scene) := by
  intro nodes parts ok
  have requests := engine.fetch_agrees (Nat.succ_le_succ lower)
  exact directTemplate_agrees ⟨directBody_agrees requests (Nat.le_refl _), requests⟩ nodes ok

end Engine

end Quire
