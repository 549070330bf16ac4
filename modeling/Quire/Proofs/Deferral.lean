/-
Module: Quire.Proofs.Deferral
Purpose: Rendering that puts loads off gives the text of direct rendering.
Main exports: Draft.settle, accord_said, Engine.outcome, Engine.said_directAt, Stage.SoundFor,
  Engine.cellText_of_drain, Engine.drain_of_outcomes, Engine.complete, Engine.textOf_complete,
  Engine.textOf_renderTemplate, render_ok_iff_renderDirect
-/
import Quire.Proofs.Accord
import Quire.Proofs.FillOnce

/-!
The comparison has two halves, which meet in the text that a draft settles to when its requests are
answered by their texts. A pass over nodes leaves a draft that settles to the text of rendering the
nodes directly, and this follows the nodes. The queue gives every cell the text that the request of
its load comes to, and this follows the tasks in the order of the queue, whatever that order is,
since what a load does to its cell depends on no other task.
-/

namespace Quire

/-! ### What a draft settles to -/

/-- The text of pieces, each request answered by a text or by none. -/
def settlePieces (answer : Request → Option String) : List Piece → Option String
  | [] => some ""
  | .text text :: rest => do
      let others ← settlePieces answer rest
      return text ++ others
  | .request request :: rest => do
      let text ← answer request
      let others ← settlePieces answer rest
      return text ++ others

/-- The text of a draft that came to its end, each request answered by a text or by none. -/
def Draft.settle (answer : Request → Option String) (draft : Draft) : Option String :=
  match draft.stop with
  | none => settlePieces answer draft.pieces
  | some _ => none

/-- The text of a direct render that succeeds. -/
def Direct.said (result : Direct) : Option String :=
  result.toOption.map shownAll

section

variable (answer : Request → Option String)

theorem settlePieces_append (pieces others : List Piece) :
    settlePieces answer (pieces ++ others) = (do
      let front ← settlePieces answer pieces
      let back ← settlePieces answer others
      return front ++ back) := by
  induction pieces with
  | nil => cases rest : settlePieces answer others <;> simp [settlePieces, rest]
  | cons piece pieces ih =>
      cases piece with
      | text text =>
          simp only [List.cons_append, settlePieces, ih]
          cases settlePieces answer pieces <;> cases settlePieces answer others <;>
            simp [String.append_assoc]
      | request request =>
          simp only [List.cons_append, settlePieces, ih]
          cases answer request <;> cases settlePieces answer pieces <;>
            cases settlePieces answer others <;> simp [String.append_assoc]

@[simp] theorem settle_text (text : String) : (Draft.text text).settle answer = some text := by
  simp [Draft.text, Draft.settle, settlePieces]

@[simp] theorem settle_request (request : Request) :
    (Draft.request request).settle answer = answer request := by
  cases found : answer request <;> simp [Draft.request, Draft.settle, settlePieces, found]

theorem settle_andThen (first : Draft) (second : Unit → Draft) :
    (first.andThen second).settle answer = (do
      let front ← first.settle answer
      let back ← (second ()).settle answer
      return front ++ back) := by
  obtain ⟨pieces, stop⟩ := first
  cases stop with
  | some stop => rfl
  | none =>
      simp only [Draft.andThen, Draft.settle]
      cases (second ()).stop with
      | none => exact settlePieces_append answer _ _
      | some stop => cases settlePieces answer pieces <;> simp

end

namespace Direct

@[simp] theorem said_ok (parts : List Part) : said (.ok parts) = some (shownAll parts) := rfl

@[simp] theorem said_error (stop : Stop) : said (.error stop) = none := rfl

theorem said_eq_some {result : Direct} {text : String} :
    result.said = some text ↔ ∃ parts, result = .ok parts ∧ shownAll parts = text := by
  cases result <;> simp

theorem said_append (first second : Direct) :
    said (do let front ← first; let back ← second; return front ++ back) = (do
      let front ← first.said
      let back ← second.said
      return front ++ back) := by
  cases first <;> cases second <;> simp [bind, Except.bind, pure, Except.pure]

/-- The mark of a tag has no text of its own. -/
theorem said_visit (result : Direct) (visit : Visit) :
    said (do let inner ← result; return [.visit visit inner]) = result.said := by
  cases result <;> simp [bind, Except.bind, pure, Except.pure, shownAll, Part.shown]

end Direct

/-! ### A pass settles to the text of direct rendering -/

/-- A draft settles to the text of direct rendering where its requests are answered by the texts of
what is fetched for them. -/
theorem accord_said (fetch : Request → Direct) :
    Accord fetch fun result draft =>
      result.said = draft.settle fun later => (fetch later).said where
  empty := rfl
  text text := by simp [shownAll, Part.shown]
  halt stop := rfl
  andThen first second := by rw [Direct.said_append, settle_andThen, first, second]
  quoted request result draft same := by rw [Direct.said_visit, same]
  bare request := by rw [Direct.said_visit, settle_request]

namespace Engine

/-- The text that a request comes to when it is carried out as the load with the given number among
those it is nested in. -/
def outcome (engine : Engine) (depth : Nat) (request : Request) : Option String :=
  (engine.fetch depth request).said

/-- A pass over nodes, its requests answered by their texts, has the text of direct rendering. -/
theorem said_directAt (engine : Engine) (depth : Nat) (scene : Scene) (nodes : List Node) :
    (engine.directAt depth scene nodes).said =
      (draftTemplate (draftBody engine.openings) scene nodes).settle (engine.outcome (depth + 1)) :=
  engine.accord_directAt (accord_said (engine.fetch (depth + 1))) scene nodes

/-- What a request comes to: nothing where it is too deep, and else the text of the template it asks
for, or the empty text where the template cannot be loaded and the engine is silent about it. -/
theorem outcome_eq (engine : Engine) (depth : Nat) (request : Request) :
    engine.outcome depth request =
      if engine.config.maxDepth < depth then none
      else match engine.load request.name with
        | .error _ =>
            if request.purpose = .inclusion ∧ engine.config.missingInclude = .silent then some ""
            else none
        | .ok template => (template.draft engine.openings request.context request.overrides).settle
            (engine.outcome (depth + 1)) := by
  rw [outcome, fetch_eq]
  by_cases deep : engine.config.maxDepth < depth
  · simp [deep]
  · cases loaded : engine.load request.name with
    | ok template => simp only [deep, if_false, said_directAt, Template.draft]
    | error error =>
        simp only [deep, if_false]
        split <;> rfl

end Engine

/-! ### A filled heap shows what drafts settle to -/

/-- Where every cell of a placed draft shows the text of its request, the output shows the text that
the pieces settle to. -/
theorem settlePieces_eq_text (answer : Request → Option String) {cells : Cells}
    (rising : cells.Rising) {depth : Nat} {policy : MissingInclude} {next : Nat}
    {pieces : List Piece} (answers : ∀ load ∈ (Placed.ofPieces depth policy next pieces).loads,
      answer load.request = some (cells.cellText load.cell)) :
    settlePieces answer pieces =
      some (cells.text (Placed.ofPieces depth policy next pieces).output) := by
  induction pieces generalizing next with
  | nil => simp [settlePieces, Placed.ofPieces, Placed.output, Cells.text]
  | cons piece rest ih =>
      cases piece with
      | text text =>
          have shows : cells.text ⟨(Output.ofText text).fragments⟩ = text := cells.text_ofText text
          simp only [settlePieces, Placed.ofPieces, Placed.output, Cells.text_join, shows]
          rw [ih answers]
          rfl
      | request request =>
          have here := answers ⟨request, ⟨next⟩, depth, policy⟩ List.mem_cons_self
          have there := ih fun load member => answers load (List.mem_cons_of_mem _ member)
          simp only at here
          rw [Cells.text_eq_shown rising] at there ⊢
          simp only [settlePieces, here, there, Placed.ofPieces, Placed.output]
          simp [Cells.shown]

/-- Pieces settle to a text only if every request among them is answered. -/
theorem isSome_of_settlePieces {answer : Request → Option String} {pieces : List Piece}
    (settled : (settlePieces answer pieces).isSome) {depth : Nat} {policy : MissingInclude}
    {next : Nat} :
    ∀ load ∈ (Placed.ofPieces depth policy next pieces).loads, (answer load.request).isSome := by
  induction pieces generalizing next with
  | nil => simp [Placed.ofPieces]
  | cons piece rest ih =>
      cases piece with
      | text text =>
          apply ih
          cases found : settlePieces answer rest <;> simp_all [settlePieces]
      | request request =>
          cases here : answer request with
          | none => simp [settlePieces, here] at settled
          | some text =>
              cases there : settlePieces answer rest with
              | none => simp [settlePieces, here, there] at settled
              | some others =>
                  intro load member
                  rcases List.mem_cons.1 member with rfl | member
                  · simp [here]
                  · exact ih (by simp [there]) load member

/-- A draft that settles came to its end. -/
theorem Draft.settle_eq_some {answer : Request → Option String} {draft : Draft} {text : String} :
    draft.settle answer = some text ↔
      draft.stop = none ∧ settlePieces answer draft.pieces = some text := by
  cases stopped : draft.stop <;> simp [settle, stopped]

/-! ### Loads under the engine's own policy

A load keeps the policy of the engine that has put it off. Direct rendering has no loads, and goes
by the policy of the engine at work. The two agree on the loads of one engine.
-/

/-- The task is no load, or a load under the engine's own policy. -/
def Task.UnderPolicy (engine : Engine) (task : Task) : Prop :=
  ∀ load, task = .load load → load.missingInclude = engine.config.missingInclude

/-- A sound stage whose loads are under the engine's own policy. -/
structure Stage.SoundFor (engine : Engine) (stage : Stage) : Prop where
  sound : stage.Sound
  policy : ∀ task ∈ stage.queue, task.UnderPolicy engine

namespace Engine

variable {engine : Engine}

/-- What the engine puts off while it carries out a task is under its own policy. -/
theorem underPolicy_of_mem_deferred (task : Task) (cells : Cells) :
    ∀ later ∈ (engine.perform task cells).deferred, later.UnderPolicy engine := by
  intro later member
  cases task with
  | load load =>
      obtain ⟨next, deferred, rfl⟩ := List.mem_map.1 member
      rintro _ ⟨⟩
      exact (of_mem_deferred deferred).2.2
  | job job =>
      obtain ⟨next, followUp, rfl⟩ := List.mem_map.1 member
      rintro _ ⟨⟩

/-- What the engine puts off in a pass is under its own policy. -/
theorem underPolicy_pass (template : Template) (context : Context) {stage : Stage}
    (before : ∀ task ∈ stage.queue, task.UnderPolicy engine) :
    ∀ task ∈ (engine.pass template context stage).2.queue, task.UnderPolicy engine := by
  have put : ∀ task ∈ stage.queue ++ (Placed.ofDraft 1 engine.config.missingInclude stage.cells
      (template.draft engine.openings context [])).loads.map .load, task.UnderPolicy engine := by
    intro task member
    rcases List.mem_append.1 member with waiting | new
    · exact before task waiting
    · obtain ⟨load, among, rfl⟩ := List.mem_map.1 new
      rintro _ ⟨⟩
      exact (Placed.of_mem_loads among).2
  unfold pass
  dsimp only
  split <;> exact put

/-- An engine leaves a stage sound for itself when it carries out a task. -/
theorem soundFor_step {stage : Stage} (sound : stage.SoundFor engine) :
    (engine.step stage).SoundFor engine where
  sound := sound.sound.step engine
  policy :=
    forall_mem_step (fun task cells _ => underPolicy_of_mem_deferred task cells) sound.policy

/-- An engine leaves a stage sound for itself when it makes a pass. -/
theorem soundFor_pass {stage : Stage} (sound : stage.SoundFor engine) (template : Template)
    (context : Context) : (engine.pass template context stage).2.SoundFor engine where
  sound := by
    obtain ⟨loads, fresh, same⟩ := Stage.pass_allots engine template context stage
    exact same ▸ sound.sound.allot fresh
  policy := underPolicy_pass template context sound.policy

/-- A load under the engine's own policy that does not fail makes its cell show what its request
comes to, once the loads that it puts off have done so and if its cell is left alone. -/
theorem outcome_eq_cellText {load : Load} {cells last : Cells}
    (policy : load.missingInclude = engine.config.missingInclude) (rising : last.Rising)
    (exist : load.cell.index < cells.size) (vacant : cells.content load.cell = .empty)
    (fine : (engine.performLoad load cells).failure = none)
    (kept : last.content load.cell = (engine.performLoad load cells).state.content load.cell)
    (answers : ∀ later ∈ (engine.performLoad load cells).deferred,
      engine.outcome later.depth later.request = some (last.cellText later.cell)) :
    engine.outcome load.depth load.request = some (last.cellText load.cell) := by
  obtain ⟨_, _, outcome⟩ | ⟨within, _, error, loaded, outcome⟩ |
    ⟨within, template, draft, placed, loaded, pass, rfl, _, outcome⟩ :=
      performLoad_cases engine load cells
  · simp [outcome] at fine
  · rw [outcome] at fine kept
    rw [policy] at fine
    have silent : load.request.purpose = .inclusion ∧ engine.config.missingInclude = .silent := by
      by_contra loud
      simp [loud] at fine
    have nothing : last.cellText load.cell = "" := by simp [Cells.cellText, kept, vacant]
    simp [outcome_eq, Nat.not_lt.2 within, loaded, silent, nothing]
  · rw [outcome] at fine kept answers
    have ended : draft.stop = none := fine
    simp only [ended, if_true] at kept
    rw [Cells.content_set_self (by simp [Placed.among]; omega)] at kept
    have settled := settlePieces_eq_text (engine.outcome (load.depth + 1)) rising
      fun later member => by
        rw [← answers later member, Placed.depth_of_mem_loads member]
    rw [outcome_eq, if_neg (Nat.not_lt.2 within), loaded, Cells.cellText, kept]
    exact Draft.settle_eq_some.2 ⟨pass ▸ ended, pass ▸ settled⟩

/-- Where working off a queue of loads under the engine's own policy ends well, the cell of every
load shows what its request comes to. -/
theorem cellText_of_drain {stage : Stage} (sound : stage.SoundFor engine)
    (well : (engine.runUntilIdle stage).failure = none) :
    ∀ load, .load load ∈ (engine.runUntilIdle stage).ran →
      engine.outcome load.depth load.request =
        some ((engine.runUntilIdle stage).state.cellText load.cell) := by
  obtain ⟨cells, queue⟩ := stage
  have rising := ((runUntilIdle_runs engine ⟨cells, queue⟩).sound sound.sound).rising
  simp only [runUntilIdle] at well rising ⊢
  fun_induction engine.worker.drain queue cells with
  | case1 cells => simp
  | case2 cells task rest outcome stop failed => simp at well
  | case3 cells task rest outcome fine later ih =>
      have others : ∀ load, .load load ∈ later.ran →
          engine.outcome load.depth load.request = some (later.state.cellText load.cell) :=
        ih (soundFor_step sound) well rising
      have well : (engine.runUntilIdle ⟨outcome.state, rest ++ outcome.deferred⟩).failure = none :=
        well
      have done : later.pending = [] := pending_eq_nil well
      intro load member
      rcases List.mem_cons.1 member with rfl | member
      · have runs : engine.Runs ⟨outcome.state, rest ++ outcome.deferred⟩ later.ran
            ⟨later.state, later.pending⟩ := runUntilIdle_runs engine ⟨_, _⟩
        have whole : engine.Runs ⟨cells, .load load :: rest⟩ (.load load :: later.ran)
            ⟨later.state, later.pending⟩ := .next rfl runs
        have kept := Runs.content_of_ran sound.sound (.none _) whole
        have own := sound.policy (.load load) List.mem_cons_self load rfl
        apply outcome_eq_cellText own rising (sound.sound.inBounds _ (by simp))
          (sound.sound.vacant _ (by simp)) fine kept
        intro next deferred
        apply others next
        have waiting : .load next ∈ rest ++ outcome.deferred :=
          List.mem_append_right _ (List.mem_map_of_mem deferred)
        have ran := runs.mem_of_waiting waiting
        rwa [done, List.append_nil] at ran
      · exact others load member

/-- A load under the engine's own policy whose request comes to a text does not fail, and the
requests of the loads that it puts off come to texts as well. -/
theorem performLoad_of_outcome {load : Load} (cells : Cells)
    (policy : load.missingInclude = engine.config.missingInclude)
    (settled : (engine.outcome load.depth load.request).isSome) :
    (engine.performLoad load cells).failure = none ∧
      ∀ later ∈ (engine.performLoad load cells).deferred,
        (engine.outcome later.depth later.request).isSome := by
  rw [outcome_eq] at settled
  obtain ⟨deep, _, outcome⟩ | ⟨within, _, error, loaded, outcome⟩ |
    ⟨within, template, draft, placed, loaded, pass, rfl, _, outcome⟩ :=
      performLoad_cases engine load cells
  · simp [deep] at settled
  · simp only [Nat.not_lt.2 within, if_false, loaded] at settled
    rw [outcome, policy]
    by_cases silent : load.request.purpose = .inclusion ∧ engine.config.missingInclude = .silent
    · simp [silent]
    · simp [silent] at settled
  · simp only [Nat.not_lt.2 within, if_false, loaded, ← pass] at settled
    obtain ⟨text, settled⟩ := Option.isSome_iff_exists.1 settled
    obtain ⟨ended, answered⟩ := Draft.settle_eq_some.1 settled
    rw [outcome]
    constructor
    · exact ended
    · intro later member
      rw [Placed.depth_of_mem_loads member]
      exact isSome_of_settlePieces (by simp [answered]) later member

/-- Working off a queue of loads under the engine's own policy ends well if all their requests come
to texts. -/
theorem drain_of_outcomes {stage : Stage}
    (settled : ∀ task ∈ stage.queue, ∃ load, task = .load load ∧
      load.missingInclude = engine.config.missingInclude ∧
      (engine.outcome load.depth load.request).isSome) :
    (engine.runUntilIdle stage).failure = none := by
  obtain ⟨cells, queue⟩ := stage
  simp only [runUntilIdle] at settled ⊢
  fun_induction engine.worker.drain queue cells with
  | case1 cells => rfl
  | case2 cells task rest outcome stop failed =>
      obtain ⟨load, rfl, policy, answered⟩ := settled task List.mem_cons_self
      have fine : outcome.failure = none := (performLoad_of_outcome cells policy answered).1
      simp [fine] at failed
  | case3 cells task rest outcome fine later ih =>
      apply ih
      intro next waiting
      rcases List.mem_append.1 waiting with waiting | deferred
      · exact settled next (List.mem_cons_of_mem _ waiting)
      · obtain ⟨load, rfl, policy, answered⟩ := settled task List.mem_cons_self
        obtain ⟨inner, member, rfl⟩ := List.mem_map.1 deferred
        exact ⟨inner, rfl, (of_mem_deferred member).2.2,
          (performLoad_of_outcome cells policy answered).2 inner member⟩

/-! ### Drafts made complete -/

/-- What a draft becomes where there are no cells yet. -/
def placed (engine : Engine) (draft : Draft) : Placed :=
  .ofDraft 1 engine.config.missingInclude .empty draft

/-- The stage that a draft leaves where there was none. -/
def start (engine : Engine) (draft : Draft) : Stage :=
  let placed := engine.placed draft
  ⟨placed.among .empty, placed.loads.map .load⟩

/-- The output of a draft once all that it puts off has been done, and the cells in it. -/
def complete (engine : Engine) (draft : Draft) : Except Stop (Output × Cells) :=
  match draft.stop with
  | some stop => .error stop
  | none =>
      let drained := engine.runUntilIdle (engine.start draft)
      match drained.failure with
      | some stop => .error stop
      | none => .ok ((engine.placed draft).output, drained.state)

/-- Rendering a template completes the draft of its pass. -/
theorem renderTemplate_eq_complete (engine : Engine) (template : Template) (context : Context) :
    engine.renderTemplate template context =
      engine.complete (template.draft engine.openings context []) := by
  unfold renderTemplate pass complete
  cases stopped : (template.draft engine.openings context []).stop with
  | some stop => simp only [stopped]
  | none =>
      simp only [stopped, Stage.empty, List.nil_append]
      rfl

theorem soundFor_start (draft : Draft) : (engine.start draft).SoundFor engine where
  sound := by
    have fresh := Placed.cells_ofDraft 1 engine.config.missingInclude .empty draft
    exact Stage.sound_empty.allot fresh
  policy := by
    intro task member
    obtain ⟨load, among, rfl⟩ := List.mem_map.1 member
    rintro _ ⟨⟩
    exact (Placed.of_mem_loads among).2

/-- Where the pieces of a draft settle to a text, what the draft puts off ends well. -/
theorem drain_start_of_settled {draft : Draft}
    (settled : (settlePieces (engine.outcome 1) draft.pieces).isSome) :
    (engine.runUntilIdle (engine.start draft)).failure = none := by
  apply drain_of_outcomes
  intro task waiting
  obtain ⟨load, member, rfl⟩ := List.mem_map.1 waiting
  obtain ⟨depth, policy⟩ := Placed.of_mem_loads member
  exact ⟨load, rfl, policy, depth ▸ isSome_of_settlePieces settled load member⟩

/-- Where what a draft puts off ends well, its output shows the text that its pieces settle to. -/
theorem settled_of_drain_start {draft : Draft}
    (well : (engine.runUntilIdle (engine.start draft)).failure = none) :
    settlePieces (engine.outcome 1) draft.pieces = some
      ((engine.runUntilIdle (engine.start draft)).state.text (engine.placed draft).output) := by
  have runs := runUntilIdle_runs engine (engine.start draft)
  have sound : (engine.start draft).SoundFor engine := soundFor_start draft
  have rising := (runs.sound sound.sound).rising
  apply settlePieces_eq_text (engine.outcome 1) rising
  intro load member
  have waiting : .load load ∈ (engine.start draft).queue := List.mem_map_of_mem member
  have ran := runs.mem_of_waiting waiting
  rw [pending_eq_nil well, List.append_nil] at ran
  rw [← cellText_of_drain sound well load ran, Placed.depth_of_mem_loads member]

/-- The text of a result, if there is one. -/
def textOf (result : Except Stop (Output × Cells)) : Option String :=
  result.toOption.map fun (output, cells) => cells.text output

theorem textOf_eq_some {result : Except Stop (Output × Cells)} {text : String} :
    textOf result = some text ↔
      ∃ output cells, result = .ok (output, cells) ∧ cells.text output = text := by
  cases result with
  | error stop => simp [textOf, Except.toOption]
  | ok pair =>
      obtain ⟨output, cells⟩ := pair
      simp [textOf, Except.toOption, and_assoc]

/-- A draft made complete shows the text that it settles to, its requests answered by what they come
to. -/
theorem textOf_complete (engine : Engine) (draft : Draft) :
    textOf (engine.complete draft) = draft.settle (engine.outcome 1) := by
  cases stopped : draft.stop with
  | some stop => simp [complete, stopped, Draft.settle, textOf, Except.toOption]
  | none =>
      cases failed : (engine.runUntilIdle (engine.start draft)).failure with
      | none =>
          simp [complete, stopped, failed, Draft.settle, textOf, settled_of_drain_start failed,
            Except.toOption]
      | some stop =>
          have unsettled : settlePieces (engine.outcome 1) draft.pieces = none := by
            by_contra settled
            have well := drain_start_of_settled (Option.isSome_iff_ne_none.2 settled)
            simp [failed] at well
          simp [complete, stopped, failed, Draft.settle, textOf, unsettled, Except.toOption]

/-- Rendering a template with all that it puts off gives the text of rendering it directly. -/
theorem textOf_renderTemplate (engine : Engine) (template : Template) (context : Context) :
    textOf (engine.renderTemplate template context) = (engine.direct template context).said := by
  rw [renderTemplate_eq_complete, textOf_complete]
  exact (engine.said_directAt 0 ⟨context, []⟩ template.nodes).symm

/-- A run that succeeds has the text of direct rendering. -/
theorem direct_of_renderTemplate {template : Template} {context : Context} {output : Output}
    {cells : Cells} (ok : engine.renderTemplate template context = .ok (output, cells)) :
    ∃ parts, engine.direct template context = .ok parts ∧ shownAll parts = cells.text output := by
  apply Direct.said_eq_some.1
  rw [← textOf_renderTemplate]
  exact textOf_eq_some.2 ⟨output, cells, ok, rfl⟩

/-- Where direct rendering succeeds there is a run with its text. -/
theorem renderTemplate_of_direct {template : Template} {context : Context} {parts : List Part}
    (ok : engine.direct template context = .ok parts) :
    ∃ output cells, engine.renderTemplate template context = .ok (output, cells) ∧
      cells.text output = shownAll parts := by
  apply textOf_eq_some.1
  rw [textOf_renderTemplate, ok, Direct.said_ok]

theorem render_ok_iff {name : String} {context : Context} {text : String} :
    engine.render name context = .ok text ↔ ∃ template, engine.load name = .ok template ∧
      textOf (engine.renderTemplate template context) = some text := by
  unfold render renderOutput
  cases engine.load name with
  | error error => simp [Except.map]
  | ok template =>
      cases rendered : engine.renderTemplate template context with
      | error stop => simp [rendered, textOf, Except.map, Except.toOption]
      | ok pair =>
          obtain ⟨output, cells⟩ := pair
          simp [rendered, textOf, Except.map, Except.toOption]

theorem renderDirect_ok_iff {name : String} {context : Context} {text : String} :
    engine.renderDirect name context = .ok text ↔ ∃ template, engine.load name = .ok template ∧
      (engine.direct template context).said = some text := by
  unfold renderDirect
  cases engine.load name with
  | error error => simp
  | ok template =>
      cases rendered : engine.direct template context <;> simp [rendered, Except.map]

end Engine

/-- Rendering that puts loads off succeeds with a text just where direct rendering does. -/
theorem render_ok_iff_renderDirect (engine : Engine) (name : String) (context : Context)
    (text : String) :
    engine.render name context = .ok text ↔ engine.renderDirect name context = .ok text := by
  rw [Engine.render_ok_iff, Engine.renderDirect_ok_iff]
  simp only [Engine.textOf_renderTemplate]

end Quire
