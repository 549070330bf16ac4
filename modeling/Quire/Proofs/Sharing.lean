/-
Module: Quire.Proofs.Sharing
Purpose: Renders that share a stage do not disturb one another, in whatever order passes are made
  and the queue is worked off, and whichever of them fail.
Main exports: Action, Session, Engine.session, Engine.Moves, Engine.cellText_of_course,
  Engine.exists_pending_eq_zero, shared_renders_undisturbed
-/
import Mathlib.Data.List.Induction
import Mathlib.Logic.Relation
import Quire.Proofs.Deferral
import Quire.Proofs.Depth

/-!
Several clients may make passes on one stage, put jobs of their own in its queue and work it off, in
any order. A failing task ends the work, but it takes only itself out of the queue, so that working
on brings the turn of all others. What a load comes to is decided by its own request and by the
engine; therefore a load whose request comes to a text fills its cell with that text, whatever is
done around it.
-/

namespace Quire

/-! ### Sessions -/

/-- What a client does on a stage that is shared. -/
inductive Action where
  | pass (template : Template) (context : Context)
  | defer (job : Job)
  /-- Working off the queue, until it is empty or a task fails. -/
  | work

/-- A pass that came to its end, and the output that it returned. -/
structure Returned where
  template : Template
  context : Context
  output : Output

/-- A shared stage, and what the passes on it have returned so far. -/
structure Session where
  stage : Stage
  returned : List Returned

namespace Engine

/-- A session after one more action. -/
def act (engine : Engine) (session : Session) : Action → Session
  | .pass template context =>
      match engine.pass template context session.stage with
      | (.ok output, stage) => ⟨stage, session.returned ++ [⟨template, context, output⟩]⟩
      | (.error _, stage) => { session with stage := stage }
  | .defer job => { session with stage := session.stage.defer (.job job) }
  | .work =>
      let drained := engine.runUntilIdle session.stage
      { session with stage := ⟨drained.state, drained.pending⟩ }

/-- The session of the given actions, from an empty stage. -/
def session (engine : Engine) (actions : List Action) : Session :=
  actions.foldl engine.act ⟨.empty, []⟩

theorem session_append (engine : Engine) (actions others : List Action) :
    engine.session (actions ++ others) = others.foldl engine.act (engine.session actions) :=
  List.foldl_append

/-! ### The course of a stage

The course of a stage is finer than a session: it goes task by task, and continues after a failure
as if another client had gone on with the work. -/

/-- What happens to a stage: its first task is carried out, a pass is made, or a job comes in. -/
inductive Moves (engine : Engine) : Stage → Stage → Prop where
  | task (stage : Stage) : Moves engine stage (engine.step stage)
  | pass (template : Template) (context : Context) (stage : Stage) :
      Moves engine stage (engine.pass template context stage).2
  | defer (job : Job) (stage : Stage) : Moves engine stage (stage.defer (.job job))

/-- Anything that happens to a stage, one thing after another. -/
abbrev Course (engine : Engine) : Stage → Stage → Prop :=
  Relation.ReflTransGen engine.Moves

variable {engine : Engine}

theorem Runs.course {stage last : Stage} {ran : List Task} (runs : engine.Runs stage ran last) :
    engine.Course stage last := by
  induction runs with
  | none => exact .refl
  | @next stage last task rest ran first others ih => exact .head (.task stage) ih

theorem Moves.soundFor {stage next : Stage} (moves : engine.Moves stage next)
    (sound : stage.SoundFor engine) : next.SoundFor engine := by
  cases moves with
  | task => exact soundFor_step sound
  | pass template context => exact soundFor_pass sound template context
  | defer job =>
      refine ⟨sound.sound.jobs [job], fun task member => ?_⟩
      rcases List.mem_append.1 member with waiting | new
      · exact sound.policy task waiting
      · cases List.mem_singleton.1 new
        rintro _ ⟨⟩

theorem Course.soundFor {stage last : Stage} (course : engine.Course stage last)
    (sound : stage.SoundFor engine) : last.SoundFor engine := by
  induction course with
  | refl => exact sound
  | tail _ moves ih => exact moves.soundFor ih

/-- A task that waits behind the first one still waits after anything that happens, and so does the
first one unless it is carried out. -/
theorem Moves.waiting {stage next : Stage} (moves : engine.Moves stage next) {task : Task}
    (waits : task ∈ stage.queue) :
    task ∈ next.queue ∨ next = engine.step stage ∧ ∃ rest, stage.queue = task :: rest := by
  cases moves with
  | task =>
      cases queue : stage.queue with
      | nil => exact nomatch queue ▸ waits
      | cons first rest =>
          rw [queue] at waits
          rcases List.mem_cons.1 waits with rfl | behind
          · exact .inr ⟨rfl, rest, rfl⟩
          · exact .inl (by simp [step, queue, behind])
  | pass template context =>
      obtain ⟨loads, _, same⟩ := Stage.pass_allots engine template context stage
      exact .inl (by simp [same, waits])
  | defer job => exact .inl (by simp [Stage.defer, waits])

end Engine

/-- A cell that there is and that no waiting task owns. -/
structure Stage.Settled (stage : Stage) (id : CellId) : Prop where
  exist : id.index < stage.cells.size
  free : id ∉ cellsOf stage.queue

namespace Engine

variable {engine : Engine}

/-- Whatever happens leaves a settled cell as it is, and settled. -/
theorem Moves.settled {stage next : Stage} (moves : engine.Moves stage next) {id : CellId}
    (settled : stage.Settled id) :
    next.Settled id ∧ next.cells.content id = stage.cells.content id := by
  obtain ⟨exist, free⟩ := settled
  cases moves with
  | task =>
      refine ⟨⟨Nat.lt_of_lt_of_le exist (engine.size_le_step stage), ?_⟩,
        content_step_of_notMem engine free⟩
      intro owned
      cases queue : stage.queue with
      | nil => simp [step, queue, cellsOf] at owned
      | cons task rest =>
          have once : engine.Runs stage [task] (engine.step stage) := .next queue (.none _)
          have owned : id ∈ cellsOf ([task] ++ (engine.step stage).queue) := by
            rw [cellsOf_append]
            exact List.mem_append_right _ owned
          rcases once.owned_or_new owned with waiting | new
          · exact free waiting
          · omega
  | pass template context =>
      obtain ⟨loads, fresh, same⟩ := Stage.pass_allots engine template context stage
      rw [same]
      refine ⟨⟨by simp only [Cells.size_allot]; omega, ?_⟩, by simp⟩
      simp only [cellsOf_append, cellsOf_map_load, fresh, List.mem_append, not_or]
      refine ⟨free, fun new => ?_⟩
      have := (Cells.mem_next.1 new).1
      omega
  | defer job => exact ⟨⟨exist, by simpa [Stage.defer, cellsOf] using free⟩, rfl⟩

theorem Course.content_of_settled {stage last : Stage} (course : engine.Course stage last)
    {id : CellId} (settled : stage.Settled id) :
    last.cells.content id = stage.cells.content id := by
  suffices both : last.Settled id ∧ last.cells.content id = stage.cells.content id from both.2
  induction course with
  | refl => exact ⟨settled, rfl⟩
  | tail _ moves ih =>
      obtain ⟨settled, same⟩ := ih
      obtain ⟨again, kept⟩ := moves.settled settled
      exact ⟨again, kept.trans same⟩

/-- Once nothing waits any more, the cell of every load whose request comes to a text shows that
text. The induction is on the course: when the load has its turn, the loads that it puts off are
among those that wait. -/
theorem cellText_of_course {stage last : Stage} (course : engine.Course stage last)
    (sound : stage.SoundFor engine) (idle : last.queue = []) {load : Load} {text : String}
    (waits : .load load ∈ stage.queue)
    (answered : engine.outcome load.depth load.request = some text) :
    last.cells.cellText load.cell = text := by
  induction course using Relation.ReflTransGen.head_induction_on generalizing load text with
  | refl => simp [idle] at waits
  | @head stage next moves course ih =>
      have ih := @ih (moves.soundFor sound)
      rcases moves.waiting waits with waits | ⟨rfl, rest, first⟩
      · exact ih waits answered
      · have policy := sound.policy (.load load) (by simp [first]) load rfl
        have rising := (Course.soundFor course (moves.soundFor sound)).sound.rising
        have sound := sound.sound
        obtain ⟨fine, later⟩ :=
          performLoad_of_outcome stage.cells policy (Option.isSome_of_eq_some answered)
        have after : engine.step stage = ⟨(engine.performLoad load stage.cells).state,
            rest ++ (engine.performLoad load stage.cells).deferred.map .load⟩ := by
          simp [step, first, perform]
        have exist := sound.inBounds load.cell (by simp [first])
        have settled : (engine.step stage).Settled load.cell :=
          ⟨Nat.lt_of_lt_of_le exist (engine.size_le_step stage),
            own_notMem_step engine sound first⟩
        have kept := Course.content_of_settled course settled
        rw [after] at kept
        have shows := outcome_eq_cellText policy rising exist
          (sound.vacant load.cell (by simp [first])) fine kept fun next deferred => by
            obtain ⟨inner, answered⟩ := Option.isSome_iff_exists.1 (later next deferred)
            have waits : .load next ∈ (engine.step stage).queue := by simp [after, deferred]
            rw [answered, ih waits answered]
        exact Option.some.inj (shows.symm.trans answered)

/-- An output that a pass has returned shows the text of rendering its template alone, once nothing
waits any more. -/
theorem text_of_course {template : Template} {context : Context} {stage next last : Stage}
    {output : Output} (ok : engine.pass template context stage = (.ok output, next))
    (sound : stage.SoundFor engine) (course : engine.Course next last) (idle : last.queue = [])
    {alone : Output} {cells : Cells}
    (own : engine.renderTemplate template context = .ok (alone, cells)) :
    last.cells.text output = cells.text alone := by
  have moves : engine.Moves stage next := by
    have passed : engine.Moves stage (engine.pass template context stage).2 := .pass ..
    rwa [ok] at passed
  have sound := moves.soundFor sound
  have rising := (Course.soundFor course sound).sound.rising
  have settled : (template.draft engine.openings context []).settle (engine.outcome 1) =
      some (cells.text alone) := by
    rw [← textOf_complete, ← renderTemplate_eq_complete]
    exact textOf_eq_some.2 ⟨alone, cells, own, rfl⟩
  obtain ⟨ended, settled⟩ := Draft.settle_eq_some.1 settled
  obtain ⟨rfl, rfl⟩ : (Placed.ofDraft 1 engine.config.missingInclude stage.cells
      (template.draft engine.openings context [])).output = output ∧ _ = next := by
    simpa [pass, ended] using ok
  have answers : ∀ load ∈ (Placed.ofDraft 1 engine.config.missingInclude stage.cells
      (template.draft engine.openings context [])).loads,
        engine.outcome 1 load.request = some (last.cells.cellText load.cell) := by
    intro load member
    obtain ⟨text, answered⟩ := Option.isSome_iff_exists.1
      (isSome_of_settlePieces (Option.isSome_of_eq_some settled) load member)
    have depth : load.depth = 1 := Placed.depth_of_mem_loads member
    have waits : .load load ∈ stage.queue ++ List.map Task.load _ :=
      List.mem_append_right _ (List.mem_map_of_mem member)
    rw [answered, cellText_of_course course sound idle waits (depth ▸ answered)]
  have shows := settlePieces_eq_text (engine.outcome 1) rising answers
  exact Option.some.inj (shows.symm.trans settled)

/-! ### Sessions are courses -/

/-- What happens to the stage in one action of a session. -/
theorem course_act (engine : Engine) (session : Session) (action : Action) :
    engine.Course session.stage (engine.act session action).stage := by
  cases action with
  | pass template context =>
      have moves : engine.Moves session.stage (engine.pass template context session.stage).2 :=
        .pass ..
      simp only [act]
      split <;> (rename_i passed; rw [passed] at moves; exact .single moves)
  | defer job => exact .single (.defer job session.stage)
  | work => exact (engine.runUntilIdle_runs session.stage).course

/-- What an action adds to the outputs that have been returned comes from a pass on the stage. -/
theorem returned_act {session : Session} {action : Action} {render : Returned}
    (member : render ∈ (engine.act session action).returned) :
    render ∈ session.returned ∨
      engine.pass render.template render.context session.stage =
        (.ok render.output, (engine.act session action).stage) := by
  cases action with
  | pass template context =>
      simp only [act] at member ⊢
      split at member
      · rename_i output stage passed
        rcases List.mem_append.1 member with old | new
        · exact .inl old
        · cases List.mem_singleton.1 new
          exact .inr (by simp [passed])
      · exact .inl member
  | defer job => exact .inl member
  | work => exact .inl member

/-- The stage of a session is sound for its engine, and every output that has been returned comes
from a pass on such a stage earlier in its course. -/
theorem session_course (engine : Engine) (actions : List Action) :
    (engine.session actions).stage.SoundFor engine ∧
      ∀ render ∈ (engine.session actions).returned, ∃ before after : Stage,
        before.SoundFor engine ∧
        engine.pass render.template render.context before = (.ok render.output, after) ∧
        engine.Course after (engine.session actions).stage := by
  induction actions using List.reverseRecOn with
  | nil => exact ⟨⟨Stage.sound_empty, nofun⟩, fun render member => nomatch member⟩
  | append_singleton actions action ih =>
      obtain ⟨sound, passes⟩ := ih
      have course := engine.course_act (engine.session actions) action
      rw [session_append, List.foldl_cons, List.foldl_nil]
      refine ⟨Course.soundFor course sound, fun render member => ?_⟩
      rcases returned_act member with old | new
      · obtain ⟨before, after, first, passed, others⟩ := passes render old
        exact ⟨before, after, first, passed, others.trans course⟩
      · exact ⟨_, _, sound, new, .refl⟩

/-! ### Working on until nothing waits -/

theorem Runs.append {stage mid last : Stage} {early late : List Task}
    (before : engine.Runs stage early mid) (after : engine.Runs mid late last) :
    engine.Runs stage (early ++ late) last := by
  induction before with
  | none => exact after
  | next first _ ih => exact .next first (ih after)

/-- Working on carries out one task at least, if one waits. -/
theorem runUntilIdle_ran_ne_nil (engine : Engine) {stage : Stage} (waits : stage.queue ≠ []) :
    (engine.runUntilIdle stage).ran ≠ [] := by
  obtain ⟨cells, queue⟩ := stage
  cases queue with
  | nil => exact absurd rfl waits
  | cons task rest =>
      rw [runUntilIdle, Worker.drain.eq_def]
      dsimp only
      split <;> simp

/-- Where runs are no longer than some number of tasks, working on often enough leaves nothing that
waits: every time carries out a task at least. -/
theorem exists_queue_eq_nil {bound : Nat} {session : Session}
    (bounded : ∀ ran last, engine.Runs session.stage ran last → ran.length ≤ bound) :
    ∃ drains, ((List.replicate drains .work).foldl engine.act session).stage.queue = [] := by
  induction bound generalizing session with
  | zero =>
      refine ⟨0, ?_⟩
      by_contra waits
      have waits : session.stage.queue ≠ [] := waits
      have some := List.length_pos_iff.2 (engine.runUntilIdle_ran_ne_nil waits)
      have none := bounded _ _ (engine.runUntilIdle_runs session.stage)
      omega
  | succ bound ih =>
      by_cases waits : session.stage.queue = []
      · exact ⟨0, waits⟩
      · have first := engine.runUntilIdle_runs session.stage
        have some := List.length_pos_iff.2 (engine.runUntilIdle_ran_ne_nil waits)
        obtain ⟨drains, idle⟩ := @ih (engine.act session .work) fun ran last runs => by
          have both := bounded _ _ (first.append runs)
          rw [List.length_append] at both
          omega
        exact ⟨drains + 1, idle⟩

end Engine

/-- Renders that share a stage do not disturb one another. Whatever has been done on a stage,
working on often enough leaves nothing that waits. And whenever nothing waits, every output that a
pass has returned shows the text of rendering its template alone, if that succeeds, whatever else
was done and whatever failed. -/
theorem shared_renders_undisturbed (engine : Engine) (actions : List Action) :
    (∃ drains, (engine.session (actions ++ List.replicate drains .work)).stage.pending = 0) ∧
    ((engine.session actions).stage.pending = 0 →
      ∀ render ∈ (engine.session actions).returned, ∀ output cells,
        engine.renderTemplate render.template render.context = .ok (output, cells) →
          (engine.session actions).stage.cells.text render.output = cells.text output) := by
  constructor
  · obtain ⟨bound, bounded⟩ := engine.runs_bounded (engine.session actions).stage
    obtain ⟨drains, idle⟩ := Engine.exists_queue_eq_nil bounded
    refine ⟨drains, ?_⟩
    rw [Engine.session_append, Stage.pending, idle, List.length_nil]
  · intro idle render member output cells own
    obtain ⟨_, passes⟩ := engine.session_course actions
    obtain ⟨before, after, sound, passed, course⟩ := passes render member
    exact Engine.text_of_course passed sound course (List.length_eq_zero_iff.1 idle) own

/-- A task that fails ends the work, and what waits behind it stays. -/
theorem Worker.drain_of_failure {Task State Failure : Type} {worker : Worker Task State Failure}
    {task : Task} {rest deferred : List Task} {before after : State} {failure : Failure}
    (performed : worker.perform task before = ⟨after, deferred, some failure⟩) :
    worker.drain (task :: rest) before = ⟨[task], rest ++ deferred, after, some failure⟩ := by
  rw [Worker.drain.eq_def]
  simp only [performed]

/-- An engine that knows one template, `leaf`, and fails where another is to be included. -/
def strictEngine : Engine :=
  { leafEngine with config := { missingInclude := .error } }

/-- A context in which `part` names a template that there is not. -/
def lostContext : Context := .ofPairs [("part", .string "nowhere")]

/-- The load that a pass over the page puts off in a context, where `part` names a template. -/
def partLoad (name : String) (cell : Nat) : Load :=
  ⟨⟨.inclusion, name, .ofPairs [("part", .string name)], []⟩, ⟨cell⟩, 1, .error⟩

/-- A pass whose load will fail, a pass whose load will not, and the work on both. -/
def sharedActions : List Action :=
  [.pass leafPage lostContext, .pass leafPage leafContext, .work, .work]

/-- What the two passes return: one place each. -/
def sharedReturned : List Returned :=
  [⟨leafPage, lostContext, ⟨[.text "<", .cell ⟨0⟩, .text ">"]⟩⟩,
    ⟨leafPage, leafContext, ⟨[.text "<", .cell ⟨1⟩, .text ">"]⟩⟩]

/-- The session after the load of the first pass has failed and that of the second has not. -/
theorem session_sharedActions :
    strictEngine.session sharedActions = ⟨⟨⟨#[.empty, .ofText "x"]⟩, []⟩, sharedReturned⟩ := by
  have passes : strictEngine.session (sharedActions.take 2) =
      ⟨⟨⟨#[.empty, .empty]⟩, [.load (partLoad "nowhere" 0), .load (partLoad "leaf" 1)]⟩,
        sharedReturned⟩ := rfl
  have fails : strictEngine.runUntilIdle
      ⟨⟨#[.empty, .empty]⟩, [.load (partLoad "nowhere" 0), .load (partLoad "leaf" 1)]⟩ =
        ⟨[.load (partLoad "nowhere" 0)], [.load (partLoad "leaf" 1)], ⟨#[.empty, .empty]⟩,
          some (.error (.missingTemplate "nowhere"))⟩ := Worker.drain_of_failure rfl
  have fills : strictEngine.runUntilIdle
      ⟨⟨#[.empty, .empty]⟩, [.load (partLoad "leaf" 1)]⟩ =
        ⟨[.load (partLoad "leaf" 1)], [], ⟨#[.empty, .ofText "x"]⟩, none⟩ :=
    Worker.drain_singleton rfl
  rw [← List.take_append_drop 2 sharedActions, Engine.session_append, passes]
  simp only [sharedActions, List.drop_succ_cons, List.drop_zero, List.foldl_cons, List.foldl_nil,
    Engine.act, fails, fills]

theorem strictEngine_rendered :
    strictEngine.renderTemplate leafPage leafContext = .ok (leafOutput, ⟨#[.ofText "x"]⟩) := by
  have pass : strictEngine.pass leafPage leafContext .empty =
      (.ok leafOutput, leafStage .error) := rfl
  have drained : strictEngine.runUntilIdle (leafStage .error) =
      ⟨(leafStage .error).queue, [], ⟨#[.ofText "x"]⟩, none⟩ := Worker.drain_singleton rfl
  simp only [Engine.renderTemplate, pass, drained]

theorem shared_leaf_undisturbed :
    (strictEngine.session sharedActions).stage.pending = 0 ∧
      ∃ render ∈ (strictEngine.session sharedActions).returned,
        strictEngine.renderTemplate render.template render.context =
          .ok (leafOutput, ⟨#[.ofText "x"]⟩) ∧
        (strictEngine.session sharedActions).stage.cells.text render.output =
          Cells.text ⟨#[.ofText "x"]⟩ leafOutput := by
  have idle : (strictEngine.session sharedActions).stage.pending = 0 := by
    rw [session_sharedActions]
    rfl
  have member : sharedReturned[1] ∈ (strictEngine.session sharedActions).returned := by
    rw [session_sharedActions]
    exact List.getElem_mem _
  exact ⟨idle, sharedReturned[1], member, strictEngine_rendered,
    (shared_renders_undisturbed strictEngine sharedActions).2 idle _ member _ _
      strictEngine_rendered⟩

end Quire
