/-
Module: Quire.Proofs.Inclusion
Purpose: An include tag contributes what its template gives when it is rendered alone, wherever the
  tag stands and however its template is found.
Main exports: surfaceAll, Stands, EveryPart, Upholds, upholds_directTemplate, Vouches,
  Engine.Contributes, Engine.CarriedOut, Engine.Explains, include_contributes_render
-/
import Quire.Proofs.Deferral
import Quire.Proofs.Kept
import Quire.Proofs.StaticLoading

/-!
The record that direct rendering keeps tells which tags were carried out in a run and where in the
text each of them stands. It is a record of the run that puts loads off as well: a pass leaves the
texts of the record and the requests of the tags whose templates variables name, and the load of
such a request leaves in the same way what the record has inside the tag.
-/

namespace Quire

/-! ### What a pass leaves of a record -/

mutual

/-- What a pass leaves of a part. Inside a tag in quotes it goes on, and where a variable names the
template it leaves a request. -/
def Part.surface : Part → List Piece
  | .text text => [.text text]
  | .visit ⟨true, _⟩ parts => surfaceAll parts
  | .visit ⟨false, request⟩ _ => [.request request]
termination_by structural part => part

/-- What a pass leaves of parts, one after another. -/
def surfaceAll : List Part → List Piece
  | [] => []
  | part :: rest => part.surface ++ surfaceAll rest
termination_by structural parts => parts

end

theorem surfaceAll_append (parts others : List Part) :
    surfaceAll (parts ++ others) = surfaceAll parts ++ surfaceAll others := by
  induction parts with
  | nil => rfl
  | cons part rest ih => simp [surfaceAll, ih]

/-- A draft that came to its end and leaves the given record. -/
def Draft.Leaves (draft : Draft) (parts : List Part) : Prop :=
  draft = ⟨surfaceAll parts, none⟩

theorem Draft.Leaves.andThen {first : Draft} {second : Unit → Draft} {front back : List Part}
    (here : first.Leaves front) (there : (second ()).Leaves back) :
    (first.andThen second).Leaves (front ++ back) := by
  unfold Draft.Leaves at *
  simp [Draft.andThen, here, there, surfaceAll_append]

/-- The record that direct rendering keeps is the one that a draft leaves. -/
theorem accord_leaves (fetch : Request → Direct) :
    Accord fetch fun result draft => ∀ parts, result = .ok parts → draft.Leaves parts where
  empty parts ok := by
    cases ok
    rfl
  text text parts ok := by
    cases ok
    rfl
  halt stop parts ok := nomatch ok
  andThen first second parts ok := by
    obtain ⟨front, back, here, there, rfl⟩ := Direct.append_ok_iff.1 ok
    exact (first front here).andThen (second back there)
  quoted request result draft same parts ok := by
    obtain ⟨inner, rendered, rfl⟩ := Direct.visit_ok_iff.1 ok
    have inside := same inner rendered
    simpa [Draft.Leaves, surfaceAll, Part.surface] using inside
  bare request parts ok := by
    obtain ⟨inner, _, rfl⟩ := Direct.visit_ok_iff.1 ok
    rfl

theorem Engine.leaves_directAt (engine : Engine) {depth : Nat} {scene : Scene} {nodes : List Node}
    {parts : List Part} (ok : engine.directAt depth scene nodes = .ok parts) :
    (draftTemplate (draftBody engine.openings) scene nodes).Leaves parts :=
  engine.accord_directAt (accord_leaves (engine.fetch (depth + 1))) scene nodes parts ok

/-! ### Where tags stand -/

/-- A tag with the parts inside it stands among parts, at any depth, with the given texts before and
after it. -/
inductive Stands (visit : Visit) (inner : List Part) : String → List Part → String → Prop where
  | here (before after : List Part) :
      Stands visit inner (shownAll before) (before ++ .visit visit inner :: after) (shownAll after)
  | inside {outer : Visit} {parts : List Part} {early late : String} (before after : List Part)
      (within : Stands visit inner early parts late) :
      Stands visit inner (shownAll before ++ early) (before ++ .visit outer parts :: after)
        (late ++ shownAll after)

/-- The text of parts is the text of a tag among them with the texts before and after it. -/
theorem Stands.shownAll_eq {visit : Visit} {inner parts : List Part} {early late : String}
    (stands : Stands visit inner early parts late) :
    shownAll parts = early ++ shownAll inner ++ late := by
  induction stands with
  | here before after => simp [shownAll, Part.shown, String.append_assoc]
  | inside before after _ ih => simp [shownAll, Part.shown, ih, String.append_assoc]

mutual

/-- Every tag in a part has a property together with the parts inside it. -/
def Part.Every (holds : Visit → List Part → Prop) : Part → Prop
  | .text _ => True
  | .visit visit parts => holds visit parts ∧ EveryPart holds parts
termination_by structural part => part

/-- Every tag among parts, at any depth, has a property together with the parts inside it. -/
def EveryPart (holds : Visit → List Part → Prop) : List Part → Prop
  | [] => True
  | part :: rest => part.Every holds ∧ EveryPart holds rest
termination_by structural parts => parts

end

section

variable {holds : Visit → List Part → Prop}

theorem everyPart_append {parts others : List Part} :
    EveryPart holds (parts ++ others) ↔ EveryPart holds parts ∧ EveryPart holds others := by
  induction parts with
  | nil => simp [EveryPart]
  | cons part rest ih => simp [EveryPart, ih, and_assoc]

theorem Stands.of_everyPart {visit : Visit} {inner parts : List Part} {early late : String}
    (stands : Stands visit inner early parts late) (every : EveryPart holds parts) :
    holds visit inner := by
  induction stands with
  | here before after => exact (everyPart_append.1 every).2.1.1
  | inside before after _ ih => exact ih (everyPart_append.1 every).2.1.2

end

/-! ### What rendering keeps of a record

Rendering goes down the nodes of a template and of the templates in quotes inside it, and jumps to
the bodies that replace blocks. A property of what this leaves is kept wherever it goes, if every
node that it comes upon is good in what it is nested in. The induction over the nodes is made once,
for whatever is good and whatever is kept. -/

/-- Every node in the bodies that replace blocks has a property. -/
def EveryBody (holds : Node → Prop) (overrides : Overrides) : Prop :=
  ∀ entry ∈ overrides, ∀ node ∈ entry.2, holds node

/-- The bodies under which the template of a tag is rendered are some of those of the scene. -/
theorem EveryBody.scene {holds : Node → Prop} {scene : Scene}
    (every : EveryBody holds scene.overrides) (purpose : Purpose) :
    EveryBody holds (purpose.scene scene).overrides := by
  cases purpose with
  | inclusion => exact nofun
  | inheritance => exact every

/-- A property that passes down holds also under the blocks of nodes that have it. -/
theorem EveryBody.under {holds : Node → Prop} (down : PassesDown holds) {scene : Scene}
    (every : EveryBody holds scene.overrides) {rest : List Node} (own : ∀ node ∈ rest, holds node) :
    EveryBody holds (scene.under (blocksOf rest)).overrides := by
  intro entry member
  rcases List.mem_append.1 member with old | new
  · exact every entry old
  · exact every_of_mem_blocksOf down own new

/-- Rendering good nodes leaves parts that are kept. Both depend on the tags that the rendering is
nested in, outermost first. What is good stays good further down, inside nodes, inside templates in
quotes and where more blocks are replaced; what is kept is kept where parts are put together. An
include has no replaced blocks. -/
structure Upholds (good : List Visit → Node → Prop) (kept : List Visit → List Part → Prop)
    (render : List Node → Scene → Direct) (fetch : Request → Direct) : Prop where
  down : ∀ outer, PassesDown (good outer)
  later : ∀ {outer node} request, good outer node → good (outer ++ [⟨true, request⟩]) node
  nothing : ∀ outer, kept outer []
  text : ∀ outer text, kept outer [.text text]
  append : ∀ {outer parts others}, kept outer parts → kept outer others →
    kept outer (parts ++ others)
  bodies : ∀ {outer body scene parts}, (∀ node ∈ body, good outer node) →
    EveryBody (good outer) scene.overrides → render body scene = .ok parts → kept outer parts
  enters : ∀ {outer purpose path nodes} context overrides,
    good outer (purpose.tag (.quoted ⟨path, nodes⟩)) → ∀ node ∈ nodes,
      good (outer ++ [⟨true, ⟨purpose, path, context, overrides⟩⟩]) node
  quoted : ∀ {outer purpose path nodes context overrides parts},
    good outer (purpose.tag (.quoted ⟨path, nodes⟩)) → (purpose = .inclusion → overrides = []) →
      directTemplate render fetch ⟨context, overrides⟩ nodes = .ok parts →
        kept (outer ++ [⟨true, ⟨purpose, path, context, overrides⟩⟩]) parts →
          kept outer [.visit ⟨true, ⟨purpose, path, context, overrides⟩⟩ parts]
  bare : ∀ {outer purpose path name context overrides parts},
    good outer (purpose.tag (.bare path)) → context.templateName path = .ok name →
      EveryBody (good outer) overrides → (purpose = .inclusion → overrides = []) →
        fetch ⟨purpose, name, context, overrides⟩ = .ok parts →
          kept outer [.visit ⟨false, ⟨purpose, name, context, overrides⟩⟩ parts]

section

variable {good : List Visit → Node → Prop} {kept : List Visit → List Part → Prop}
variable {render : List Node → Scene → Direct} {fetch : Request → Direct}

theorem Upholds.each {α : Type} (upholds : Upholds good kept render fetch) {outer : List Visit}
    {round : α → Direct} (rounds : ∀ item parts, round item = .ok parts → kept outer parts) :
    ∀ {items : List α} {parts : List Part}, Direct.each round items = .ok parts → kept outer parts
  | [], _, ok => by
      cases ok
      exact upholds.nothing outer
  | item :: rest, _, ok => by
      obtain ⟨front, back, first, others, rfl⟩ := Direct.append_ok_iff.1 ok
      exact upholds.append (rounds item front first) (upholds.each rounds others)

mutual

theorem Node.upholds_direct (upholds : Upholds good kept render fetch) :
    ∀ (node : Node) {outer : List Visit} {scene : Scene} {parts : List Part}, good outer node →
      EveryBody (good outer) scene.overrides → node.direct render fetch scene = .ok parts →
        kept outer parts
  | .text text, outer, _, _, _, _, ok => by
      cases ok
      exact upholds.text outer text
  | .value path, outer, scene, _, _, _, ok => by
      cases found : scene.context.lookup path with
      | none =>
          simp only [Node.direct, found] at ok
          cases ok
          exact upholds.nothing outer
      | some value =>
          simp only [Node.direct, found] at ok
          cases ok
          exact upholds.text outer value.display
  | .block name body, outer, scene, _, here, overrides, ok => by
      cases found : Fields.find? name scene.overrides with
      | some other =>
          simp only [Node.direct, found] at ok
          exact upholds.bodies (overrides _ (Fields.mem_of_find? found)) overrides ok
      | none =>
          simp only [Node.direct, found] at ok
          exact upholds_directAll upholds body ((upholds.down outer).block here) overrides ok
  | .inheritance target, _, scene, _, here, overrides, ok =>
      target.upholds_direct upholds .inheritance scene here overrides nofun ok
  | .inclusion target, _, scene, _, here, _, ok =>
      target.upholds_direct upholds .inclusion scene.bare here nofun (fun _ => rfl) ok
  | .loop loop body, outer, scene, _, here, overrides, ok => by
      cases entries : loop.scopes scene.context with
      | error error => simp [Node.direct, entries] at ok
      | ok scopes =>
          simp only [Node.direct, entries] at ok
          apply upholds.each ?_ ok
          intro scope parts ok
          have same : EveryBody (good outer) (scene.inside scope).overrides := overrides
          exact upholds_directAll upholds body ((upholds.down outer).loop here) same ok
  | .conditional condition body branches, outer, scene, _, here, overrides, ok => by
      by_cases holds : condition.holds scene.context
      · simp only [Node.direct, holds, if_true] at ok
        exact upholds_directAll upholds body ((upholds.down outer).conditional here) overrides ok
      · simp only [Node.direct, holds] at ok
        exact upholds_directBranches upholds branches ((upholds.down outer).branch here) overrides
          ok
termination_by structural node => node

theorem Target.upholds_direct (upholds : Upholds good kept render fetch) :
    ∀ (target : Target) (purpose : Purpose) (scene : Scene) {outer : List Visit}
      {parts : List Part}, good outer (purpose.tag target) →
        EveryBody (good outer) scene.overrides → (purpose = .inclusion → scene.overrides = []) →
          target.direct render fetch purpose scene = .ok parts → kept outer parts
  | .quoted ⟨path, nodes⟩, purpose, scene, outer, parts, here, overrides, alone, ok => by
      simp only [Target.direct] at ok
      obtain ⟨inner, rendered, rfl⟩ := Direct.visit_ok_iff.1 ok
      have inside := upholds.enters scene.context scene.overrides here
      have replaced := fun entry member node among =>
        upholds.later ⟨purpose, path, scene.context, scene.overrides⟩
          (overrides entry member node among)
      exact upholds.quoted here alone rendered
        (upholds_directTemplate upholds nodes inside replaced rendered)
  | .bare path, purpose, scene, outer, parts, here, overrides, alone, ok => by
      cases named : scene.context.templateName path with
      | error error => simp [Target.direct, named] at ok
      | ok name =>
          simp only [Target.direct, named] at ok
          obtain ⟨inner, fetched, rfl⟩ := Direct.visit_ok_iff.1 ok
          exact upholds.bare here named overrides alone fetched
termination_by structural target => target

theorem upholds_directBranches (upholds : Upholds good kept render fetch) :
    ∀ (branches : List Branch) {outer : List Visit} {scene : Scene} {parts : List Part},
      (∀ branch ∈ branches, ∀ node ∈ branch.body, good outer node) →
        EveryBody (good outer) scene.overrides →
          directBranches render fetch scene branches = .ok parts → kept outer parts
  | [], outer, _, _, _, _, ok => by
      cases ok
      exact upholds.nothing outer
  | ⟨guard, body⟩ :: rest, _, scene, _, every, overrides, ok => by
      by_cases holds : guard.all (·.holds scene.context)
      · simp only [directBranches, holds, if_true] at ok
        exact upholds_directAll upholds body (every _ List.mem_cons_self) overrides ok
      · simp only [directBranches, holds] at ok
        exact upholds_directBranches upholds rest
          (fun branch member => every branch (List.mem_cons_of_mem _ member)) overrides ok
termination_by structural branches => branches

theorem upholds_directAll (upholds : Upholds good kept render fetch) :
    ∀ (nodes : List Node) {outer : List Visit} {scene : Scene} {parts : List Part},
      (∀ node ∈ nodes, good outer node) → EveryBody (good outer) scene.overrides →
        directAll render fetch scene nodes = .ok parts → kept outer parts
  | [], outer, _, _, _, _, ok => by
      cases ok
      exact upholds.nothing outer
  | node :: rest, _, _, _, every, overrides, ok => by
      obtain ⟨front, back, first, others, rfl⟩ := Direct.append_ok_iff.1 ok
      exact upholds.append
        (node.upholds_direct upholds (every node List.mem_cons_self) overrides first)
        (upholds_directAll upholds rest
          (fun other member => every other (List.mem_cons_of_mem _ member)) overrides others)
termination_by structural nodes => nodes

/-- Rendering a template of good nodes leaves parts that are kept. -/
theorem upholds_directTemplate (upholds : Upholds good kept render fetch) :
    ∀ (nodes : List Node) {outer : List Visit} {scene : Scene} {parts : List Part},
      (∀ node ∈ nodes, good outer node) → EveryBody (good outer) scene.overrides →
        directTemplate render fetch scene nodes = .ok parts → kept outer parts
  | [], outer, _, _, _, _, ok => by
      cases ok
      exact upholds.nothing outer
  | node :: rest, outer, scene, parts, every, overrides, ok => by
      have others : ∀ other ∈ rest, good outer other :=
        fun other member => every other (List.mem_cons_of_mem _ member)
      have all : directAll render fetch scene (node :: rest) = .ok parts → kept outer parts := by
        intro ok
        obtain ⟨front, back, here, there, rfl⟩ := Direct.append_ok_iff.1 ok
        exact upholds.append
          (node.upholds_direct upholds (every node List.mem_cons_self) overrides here)
          (upholds_directAll upholds rest others overrides there)
      cases node with
      | inheritance target =>
          have further : EveryBody (good outer) (scene.under (blocksOf rest)).overrides :=
            overrides.under (upholds.down outer) others
          exact target.upholds_direct upholds .inheritance _ (every _ List.mem_cons_self) further
            nofun ok
      | _ => exact all ok
termination_by structural nodes => nodes

end

end

/-! ### What holds of every tag that is carried out

A property of tags holds throughout a record if it holds of the tags in quotes, whose templates are
those that their names stand for, and of what fetching leaves. -/

/-- The bodies that replace blocks refer in quotes only to the templates that the names stand
for. -/
def GenuineOverrides (engine : Engine) (overrides : Overrides) : Prop :=
  ∀ entry ∈ overrides, AllGenuine engine entry.2

/-- A renderer of replaced bodies and a fetcher leave only tags that have a property, and so does a
tag in quotes that they render. An include has no replaced blocks. -/
structure Vouches (engine : Engine) (render : List Node → Scene → Direct)
    (fetch : Request → Direct) (holds : Visit → List Part → Prop) : Prop where
  bodies : ∀ body scene parts, AllGenuine engine body → GenuineOverrides engine scene.overrides →
    render body scene = .ok parts → EveryPart holds parts
  requests : ∀ request parts, GenuineOverrides engine request.overrides →
    (request.purpose = .inclusion → request.overrides = []) → fetch request = .ok parts →
      holds ⟨false, request⟩ parts ∧ EveryPart holds parts
  quoted : ∀ request nodes parts, engine.load request.name = .ok ⟨request.name, nodes⟩ →
    (request.purpose = .inclusion → request.overrides = []) →
      directTemplate render fetch ⟨request.context, request.overrides⟩ nodes = .ok parts →
        holds ⟨true, request⟩ parts

section

variable {engine : Engine} {render : List Node → Scene → Direct} {fetch : Request → Direct}
variable {holds : Visit → List Part → Prop}

theorem genuineOverrides_iff {overrides : Overrides} :
    GenuineOverrides engine overrides ↔ EveryBody (Node.Genuine engine) overrides := by
  simp only [GenuineOverrides, EveryBody, allGenuine_iff]

/-- Where rendering vouches for tags, it leaves only such tags of genuine nodes, whatever they are
nested in. -/
theorem Vouches.upholds (vouches : Vouches engine render fetch holds) :
    Upholds (fun _ => Node.Genuine engine) (fun _ => EveryPart holds) render fetch where
  down _ := passesDown_genuine engine
  later _ here := here
  nothing _ := trivial
  text _ _ := ⟨trivial, trivial⟩
  append first others := everyPart_append.2 ⟨first, others⟩
  bodies body overrides ok :=
    vouches.bodies _ _ _ (allGenuine_iff.2 body) (genuineOverrides_iff.2 overrides) ok
  enters {_ purpose _ _} _ _ here := by
    cases purpose <;> exact allGenuine_iff.1 here.2
  quoted {_ purpose _ _ _ _ _} here alone rendered inside := by
    cases purpose <;> exact ⟨⟨vouches.quoted _ _ _ here.1 alone rendered, inside⟩, trivial⟩
  bare _ _ overrides alone fetched :=
    ⟨vouches.requests _ _ (genuineOverrides_iff.2 overrides) alone fetched, trivial⟩

theorem every_directAll (vouches : Vouches engine render fetch holds) (nodes : List Node)
    {scene : Scene} {parts : List Part} (genuine : AllGenuine engine nodes)
    (overrides : GenuineOverrides engine scene.overrides)
    (ok : directAll render fetch scene nodes = .ok parts) : EveryPart holds parts :=
  @upholds_directAll _ _ _ _ vouches.upholds nodes [] scene parts (allGenuine_iff.1 genuine)
    (genuineOverrides_iff.1 overrides) ok

theorem every_directTemplate (vouches : Vouches engine render fetch holds) (nodes : List Node)
    {scene : Scene} {parts : List Part} (genuine : AllGenuine engine nodes)
    (overrides : GenuineOverrides engine scene.overrides)
    (ok : directTemplate render fetch scene nodes = .ok parts) : EveryPart holds parts :=
  @upholds_directTemplate _ _ _ _ vouches.upholds nodes [] scene parts (allGenuine_iff.1 genuine)
    (genuineOverrides_iff.1 overrides) ok

end

/-! ### What includes contribute -/

namespace Engine

/-- What an include contributes: the text of its template rendered alone in the context of the tag.
Where a variable names a template that cannot be loaded, and the engine is to be silent about it,
that is nothing. -/
def Contributes (engine : Engine) (visit : Visit) (text : String) : Prop :=
  engine.render visit.request.name visit.request.context = .ok text ∨
    visit.quoted = false ∧ engine.config.missingInclude = .silent ∧
      (∃ error, engine.load visit.request.name = .error error) ∧ text = ""

/-- How the load of a request was carried out: the pass over its template left the given record, or
the template could not be loaded and was passed over. -/
def CarriedOut (engine : Engine) (request : Request) (parts : List Part) : Prop :=
  (∃ template, engine.load request.name = .ok template ∧
    (template.draft engine.openings request.context request.overrides).Leaves parts) ∨
  request.purpose = .inclusion ∧ engine.config.missingInclude = .silent ∧
    (∃ error, engine.load request.name = .error error) ∧ parts = []

/-- What is true of every tag in a record, with the parts inside it. -/
def Accounted (engine : Engine) (visit : Visit) (parts : List Part) : Prop :=
  (visit.request.purpose = .inclusion → engine.Contributes visit (shownAll parts)) ∧
    (visit.quoted = false → engine.CarriedOut visit.request parts)

variable {engine : Engine}

theorem render_of_direct {name : String} {template : Template} {context : Context}
    {parts : List Part} (loaded : engine.load name = .ok template)
    (ok : engine.direct template context = .ok parts) :
    engine.render name context = .ok (shownAll parts) := by
  refine render_ok_iff.2 ⟨template, loaded, ?_⟩
  rw [textOf_renderTemplate, ok, Direct.said_ok]

/-- Includes of one template in one context contribute the same text, however they refer to it. -/
theorem Contributes.unique {visit other : Visit} {text text' : String}
    (contributes : engine.Contributes visit text) (contributes' : engine.Contributes other text')
    (name : other.request.name = visit.request.name)
    (context : other.request.context = visit.request.context) : text' = text := by
  rcases contributes with rendered | ⟨_, _, ⟨error, missing⟩, nothing⟩
  · rcases contributes' with rendered' | ⟨_, _, ⟨error, missing⟩, _⟩
    · rw [name, context, rendered] at rendered'
      exact (Except.ok.inj rendered').symm
    · obtain ⟨template, loaded, _⟩ := render_ok_iff.1 rendered
      rw [name, loaded] at missing
      exact nomatch missing
  · rcases contributes' with rendered' | ⟨_, _, _, nothing'⟩
    · obtain ⟨template, loaded, _⟩ := render_ok_iff.1 rendered'
      rw [name, missing] at loaded
      exact nomatch loaded
    · rw [nothing, nothing']

/-- What fetching a request leaves: the record of the template rendered in its place, or nothing
where the template is passed over. -/
theorem fetch_ok {depth : Nat} {request : Request} {parts : List Part}
    (ok : engine.fetch depth request = .ok parts) :
    (∃ template, engine.load request.name = .ok template ∧
      engine.directAt depth ⟨request.context, request.overrides⟩ template.nodes = .ok parts) ∨
    request.purpose = .inclusion ∧ engine.config.missingInclude = .silent ∧
      (∃ error, engine.load request.name = .error error) ∧ parts = [] := by
  rw [fetch_eq] at ok
  split at ok
  · simp at ok
  · cases loaded : engine.load request.name with
    | ok template =>
        simp only [loaded] at ok
        exact .inl ⟨template, rfl, ok⟩
    | error error =>
        simp only [loaded] at ok
        split at ok
        · rename_i silent
          exact .inr ⟨silent.1, silent.2, ⟨error, rfl⟩, by simpa using ok.symm⟩
        · simp at ok

theorem fetch_accounted {depth : Nat} {request : Request} {parts : List Part}
    (alone : request.purpose = .inclusion → request.overrides = [])
    (ok : engine.fetch depth request = .ok parts) : engine.Accounted ⟨false, request⟩ parts := by
  rcases fetch_ok ok with ⟨template, loaded, rendered⟩ | ⟨purpose, silent, missing, rfl⟩
  · refine ⟨fun included => .inl ?_, fun _ => .inl ⟨template, loaded, ?_⟩⟩
    · rw [alone included] at rendered
      exact render_of_direct loaded (engine.directAt_agrees (Nat.zero_le depth) _ _ _ rendered)
    · exact engine.leaves_directAt rendered
  · exact ⟨fun _ => .inr ⟨rfl, silent, missing, rfl⟩,
      fun _ => .inr ⟨purpose, silent, missing, rfl⟩⟩

/-- Where fetching leaves only accounted tags, so does the rendering of replaced bodies. -/
theorem vouches_accounted {depth : Nat}
    (requests : ∀ request parts, GenuineOverrides engine request.overrides →
      (request.purpose = .inclusion → request.overrides = []) →
        engine.fetch (depth + 1) request = .ok parts →
          engine.Accounted ⟨false, request⟩ parts ∧ EveryPart engine.Accounted parts) :
    ∀ {openings : Nat}, openings ≤ engine.openings →
      Vouches engine (directBody (engine.fetch (depth + 1)) openings) (engine.fetch (depth + 1))
        engine.Accounted := by
  intro openings fewer
  refine ⟨?_, requests, ?_⟩
  · intro body scene parts genuine overrides ok
    cases openings with
    | zero => exact nomatch ok
    | succ openings =>
        have inner := vouches_accounted requests (Nat.le_of_succ_le fewer)
        exact every_directAll inner body genuine overrides ok
  · intro request nodes parts loaded alone rendered
    refine ⟨?_, nofun⟩
    intro included
    rw [alone included] at rendered
    exact .inl (render_of_direct loaded (engine.direct_of_nested fewer ⟨_, nodes⟩ rendered))

/-- All tags that fetching leaves are accounted for. -/
theorem every_fetch (engine : Engine) (depth : Nat) (request : Request) (parts : List Part)
    (overrides : GenuineOverrides engine request.overrides)
    (alone : request.purpose = .inclusion → request.overrides = [])
    (ok : engine.fetch depth request = .ok parts) :
    engine.Accounted ⟨false, request⟩ parts ∧ EveryPart engine.Accounted parts := by
  refine ⟨fetch_accounted alone ok, ?_⟩
  by_cases deep : engine.config.maxDepth < depth
  · rw [fetch_eq] at ok
    simp [deep] at ok
  · rcases fetch_ok ok with ⟨template, loaded, rendered⟩ | ⟨_, _, _, rfl⟩
    · have requests := every_fetch engine (depth + 1)
      have genuine := genuine_of_loadWithin (Nat.le_refl _) loaded
      exact every_directTemplate (vouches_accounted requests (Nat.le_refl _)) template.nodes genuine
        overrides rendered
    · trivial
termination_by engine.config.maxDepth + 1 - depth

/-- A record of a run: direct rendering keeps it, the pass of the run left it, the loads of the run
were carried out as it tells, and its text is the text of the run. -/
structure Explains (engine : Engine) (template : Template) (context : Context) (text : String)
    (record : List Part) : Prop where
  direct : engine.direct template context = .ok record
  left : (template.draft engine.openings context []).Leaves record
  carriedOut : ∀ visit inner early late, Stands visit inner early record late →
    visit.quoted = false → engine.CarriedOut visit.request inner
  text : text = shownAll record

/-- A run that succeeds has a record, in which every tag is accounted for. -/
theorem exists_record {template : Template} (built : engine.Built template) {context : Context}
    {output : Output} {cells : Cells}
    (ok : engine.renderTemplate template context = .ok (output, cells)) :
    ∃ record, engine.Explains template context (cells.text output) record ∧
      EveryPart engine.Accounted record := by
  obtain ⟨record, direct, shown⟩ := direct_of_renderTemplate ok
  have every : EveryPart engine.Accounted record :=
    every_directTemplate (vouches_accounted (every_fetch engine 1) (Nat.le_refl _)) template.nodes
      built.genuine (by simp [GenuineOverrides]) direct
  exact ⟨record, ⟨direct, engine.leaves_directAt direct,
    fun visit inner early late stands => (stands.of_everyPart every).2, shown.symm⟩, every⟩

end Engine

/-- Includes are transparent and isolated. In every run that succeeds, the text that stands where an
include was carried out is the text of its template rendered alone in the context of the tag, with
the one exception of a template that is passed over in silence; and includes of one template in one
context contribute the same text, however they refer to it. -/
theorem include_contributes_render (engine : Engine) {template : Template}
    (built : engine.Built template) {context : Context} {output : Output} {cells : Cells}
    (ok : engine.renderTemplate template context = .ok (output, cells)) :
    ∃ record, engine.Explains template context (cells.text output) record ∧
      ∀ visit inner early late, Stands visit inner early record late →
        visit.request.purpose = .inclusion →
          cells.text output = early ++ shownAll inner ++ late ∧
          engine.Contributes visit (shownAll inner) ∧
          ∀ other inner' early' late', Stands other inner' early' record late' →
            other.request.purpose = .inclusion → other.request.name = visit.request.name →
              other.request.context = visit.request.context → shownAll inner' = shownAll inner := by
  obtain ⟨record, explains, every⟩ := Engine.exists_record built ok
  refine ⟨record, explains, ?_⟩
  intro visit inner early late stands included
  have contributes := (stands.of_everyPart every).1 included
  refine ⟨explains.text.trans stands.shownAll_eq, contributes, ?_⟩
  intro other inner' early' late' stands' included' name context
  exact contributes.unique ((stands'.of_everyPart every).1 included') name context

/-- The cells after the place has been filled. -/
def leafCells : Cells := ⟨#[⟨[.text "x"]⟩]⟩

theorem leafPage_rendered :
    leafEngine.renderTemplate leafPage leafContext = .ok (leafOutput, leafCells) := by
  have pass : leafEngine.pass leafPage leafContext .empty = (.ok leafOutput, leafStage .silent) :=
    rfl
  have drained : leafEngine.runUntilIdle (leafStage .silent) =
      ⟨(leafStage .silent).queue, [], leafCells, none⟩ := Worker.drain_singleton rfl
  simp only [Engine.renderTemplate, pass, drained]

theorem leaf_page_contributes :
    leafEngine.Built leafPage ∧
      leafEngine.renderTemplate leafPage leafContext = .ok (leafOutput, leafCells) ∧
      ∃ record, leafEngine.Explains leafPage leafContext "<x>" record ∧
        ∀ visit inner early late, Stands visit inner early record late →
          visit.request.purpose = .inclusion → leafEngine.Contributes visit (shownAll inner) := by
  have built : leafEngine.Built leafPage := .inr ⟨"page", leafSource, rfl⟩
  obtain ⟨record, explains, includes⟩ :=
    include_contributes_render leafEngine built leafPage_rendered
  exact ⟨built, leafPage_rendered, record, explains,
    fun visit inner early late stands included =>
      (includes visit inner early late stands included).2.1⟩

end Quire
