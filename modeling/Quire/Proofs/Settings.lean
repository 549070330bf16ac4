/-
Module: Quire.Proofs.Settings
Purpose: The settings of an engine only guard: a render that succeeds under strict settings succeeds
  with the same text under all that are no stricter.
Main exports: Relaxes, Relaxes.loadWithin, Relaxes.fetch, render_of_stricter
-/
import Quire.Proofs.Deferral
import Quire.Proofs.StaticLoading

/-!
The limit is read at every load, those at building included, and the policy where the load of an
included template fails. Neither becomes part of a template or of its text. So two engines are taken
side by side through direct rendering: whatever the stricter one loads the other loads as well, and
where a load of the stricter one fails its render fails. For this last step the stricter one must
not be silent about templates that cannot be included.
-/

namespace Quire

/-- One engine relaxes another: it knows the same templates, lets them nest no less deeply and lets
no fewer bodies be open; and the other is not silent about templates that cannot be loaded. -/
structure Relaxes (loose strict : Engine) : Prop where
  source : loose.source = strict.source
  openings : strict.openings ≤ loose.openings
  maxDepth : strict.config.maxDepth ≤ loose.config.maxDepth
  loud : strict.config.missingInclude = .error

namespace Relaxes

variable {loose strict : Engine}

/-- What is loaded with some room is loaded with as much room and the looser settings. -/
theorem loadWithin (relaxes : Relaxes loose strict) {room : Nat} {chain : List String}
    {name : String} {template : Template}
    (ok : strict.loadWithin room chain name = .ok template) :
    loose.loadWithin room chain name = .ok template := by
  induction room generalizing chain name template with
  | zero =>
      obtain ⟨_, _, _, _, none, _⟩ := Engine.loadWithin_ok_iff.1 ok
      omega
  | succ room ih =>
      obtain ⟨fresh, _, source, nodes, same, found, built, rfl⟩ := Engine.loadWithin_ok_iff.1 ok
      cases same
      exact Engine.loadWithin_ok_iff.2 ⟨fresh, room, source, nodes, rfl, relaxes.source ▸ found,
        assemble_agrees (fun _ _ fetched => ih fetched) built, rfl⟩

theorem load (relaxes : Relaxes loose strict) {name : String} {template : Template}
    (ok : strict.load name = .ok template) : loose.load name = .ok template :=
  loose.loadWithin_agrees relaxes.maxDepth (fun _ member => member) (relaxes.loadWithin ok)

/-- What is fetched on the spot is fetched under the looser settings as well. -/
theorem fetch (relaxes : Relaxes loose strict) (depth : Nat) :
    Agrees (strict.fetch depth) (loose.fetch depth) := by
  intro request parts ok
  rw [Engine.fetch_eq] at ok ⊢
  by_cases deep : strict.config.maxDepth < depth
  · simp [deep] at ok
  · have within : ¬ loose.config.maxDepth < depth := by
      have := relaxes.maxDepth
      omega
    simp only [deep, within, if_false] at ok ⊢
    cases loaded : strict.load request.name with
    | error error =>
        -- only a silent engine goes on from here
        simp [loaded, relaxes.loud] at ok
    | ok template =>
        simp only [loaded, relaxes.load loaded] at ok ⊢
        have requests := relaxes.fetch (depth + 1)
        exact directTemplate_agrees ⟨directBody_agrees requests relaxes.openings, requests⟩ _ ok
termination_by strict.config.maxDepth + 1 - depth

theorem direct (relaxes : Relaxes loose strict) {template : Template} {context : Context}
    {parts : List Part} (ok : strict.direct template context = .ok parts) :
    loose.direct template context = .ok parts := by
  have requests := relaxes.fetch 1
  exact directTemplate_agrees ⟨directBody_agrees requests relaxes.openings, requests⟩ _ ok

end Relaxes

/-- The settings only guard. Where an engine that is not silent about templates that cannot be
included renders a template to a text, it renders it to the same text under all settings that allow
for no less nesting, whatever they say about such templates. -/
theorem render_of_stricter (engine : Engine) (loud : engine.config.missingInclude = .error)
    (config : Config) (deeper : engine.config.maxDepth ≤ config.maxDepth) {name : String}
    {context : Context} {text : String} (ok : engine.render name context = .ok text) :
    { engine with config := config }.render name context = .ok text := by
  have relaxes : Relaxes { engine with config := config } engine :=
    ⟨rfl, Nat.le_refl _, deeper, loud⟩
  obtain ⟨template, loaded, shows⟩ := Engine.render_ok_iff.1 ok
  rw [Engine.textOf_renderTemplate] at shows
  obtain ⟨parts, rendered, shown⟩ := Direct.said_eq_some.1 shows
  refine Engine.render_ok_iff.2 ⟨template, relaxes.load loaded, ?_⟩
  rw [Engine.textOf_renderTemplate]
  exact Direct.said_eq_some.2 ⟨parts, relaxes.direct rendered, shown⟩

/-- An engine that lets one load be nested, fails where a template cannot be included, and knows a
page with one place and a template for it. -/
def guardedEngine : Engine :=
  ⟨fun name =>
    if name = "page" then some ⟨[.text "<", .opening "include" "part", .text ">"]⟩
    else if name = "leaf" then some (.ofText "x")
    else none, ⟨1, .error⟩, 65536⟩

theorem guardedEngine_rendered : guardedEngine.render "page" leafContext = .ok "<x>" := by
  have loaded : guardedEngine.load "page" = .ok leafPage := rfl
  have pass : guardedEngine.pass leafPage leafContext .empty =
      (.ok leafOutput, leafStage .error) := rfl
  have drained : guardedEngine.runUntilIdle (leafStage .error) =
      ⟨(leafStage .error).queue, [], ⟨#[.ofText "x"]⟩, none⟩ := Worker.drain_singleton rfl
  have shown : Cells.text ⟨#[.ofText "x"]⟩ leafOutput = "<x>" := by decide
  simp only [Engine.render, Engine.renderOutput, loaded, Engine.renderTemplate, pass, drained,
    Except.map, shown]

theorem guarded_page_of_stricter :
    guardedEngine.config.missingInclude = .error ∧ guardedEngine.config.maxDepth ≤ 7 ∧
      guardedEngine.render "page" leafContext = .ok "<x>" ∧
      { guardedEngine with config := ⟨7, .silent⟩ }.render "page" leafContext = .ok "<x>" :=
  ⟨rfl, by decide, guardedEngine_rendered,
    render_of_stricter guardedEngine rfl ⟨7, .silent⟩ (by decide) guardedEngine_rendered⟩

end Quire
