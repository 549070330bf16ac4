/-
Module: Quire.Stage
Purpose: Rendering templates with the queue of the work that passes put off.
Main exports: Stage, Stage.defer, Engine.pass, Engine.runUntilIdle, Engine.renderTemplate,
  Engine.renderOutput, Engine.render
-/
import Quire.Task

/-!
A pass turns its draft into output: every request becomes an empty cell, and a task that will fill
it joins the queue. Several passes may share a stage; working off its queue fills the cells of all.
-/

namespace Quire

/-- Where passes are made: the cells of their outputs and the tasks that wait. -/
structure Stage where
  cells : Cells
  queue : List Task

namespace Stage

/-- No cells and no tasks. -/
def empty : Stage := ⟨.empty, []⟩

/-- How many tasks wait. -/
def pending (stage : Stage) : Nat :=
  stage.queue.length

/-- A task at the end of the queue. -/
def defer (stage : Stage) (task : Task) : Stage :=
  { stage with queue := stage.queue ++ [task] }

/-- The queue of a stage, as text. -/
def summary (stage : Stage) : String :=
  "Scheduler \x7b pending: " ++ toString stage.pending ++ " \x7d"

end Stage

namespace Engine

/-- Renders a template in one pass. What it puts off joins the queue, also if the pass fails, and
its cells stay empty until the queue is worked off. -/
def pass (engine : Engine) (template : Template) (context : Context) (stage : Stage) :
    Except Stop Output × Stage :=
  let draft := template.draft engine.openings context []
  let placed := Placed.ofDraft 1 engine.config.missingInclude stage.cells draft
  let stage := ⟨placed.among stage.cells, stage.queue ++ placed.loads.map .load⟩
  match draft.stop with
  | some stop => (.error stop, stage)
  | none => (.ok placed.output, stage)

/-- Works off the queue of a stage. The answer tells which tasks were carried out, and why the work
ended if tasks are left. -/
def runUntilIdle (engine : Engine) (stage : Stage) : Drained Task Cells Stop :=
  engine.worker.drain stage.queue stage.cells

/-- Renders a template with all that it puts off. The answer is its output and the cells in it. -/
def renderTemplate (engine : Engine) (template : Template) (context : Context) :
    Except Stop (Output × Cells) :=
  match engine.pass template context .empty with
  | (.error stop, _) => .error stop
  | (.ok output, stage) =>
      let drained := engine.runUntilIdle stage
      match drained.failure with
      | some stop => .error stop
      | none => .ok (output, drained.state)

/-- Renders the template of a name with all that it puts off. -/
def renderOutput (engine : Engine) (name : String) (context : Context) :
    Except Stop (Output × Cells) :=
  match engine.load name with
  | .error error => .error (.error error)
  | .ok template => engine.renderTemplate template context

/-- The text of the template of a name. -/
def render (engine : Engine) (name : String) (context : Context) : Except Stop String :=
  (engine.renderOutput name context).map fun (output, cells) => cells.text output

end Engine

end Quire
