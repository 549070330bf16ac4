/-
Module: Quire.Proofs.Ownership
Purpose: Every load in the queue owns one empty cell of its own; what a load does to the cells, and
  the invariant of all stages that can be reached.
Main exports: cellsOf, Engine.completes, Engine.Effect, Engine.performLoad_cases, Engine.step,
  Stage.Reached, Stage.Sound, Stage.Reached.sound
-/
import Quire.Stage
import Quire.Proofs.CellHeap

/-!
A pass makes cells and loads in step, so that each load owns the cell made with it. The invariant
`Stage.Sound` says what this gives for every stage that passes, clients and tasks can bring about:
the cells of waiting loads are distinct, exist and are empty, and no cell is held twice or by a
later one. Every task keeps it, whether it fails or not.
-/

namespace Quire

/-! ### Cells and loads are made in step -/

namespace Placed

/-- The cells of a placed draft are those of its loads, in order. -/
theorem cells_output (depth : Nat) (policy : MissingInclude) (next : Nat) (pieces : List Piece) :
    (ofPieces depth policy next pieces).output.cells =
      (ofPieces depth policy next pieces).loads.map Load.cell := by
  induction pieces generalizing next with
  | nil => rfl
  | cons piece rest ih =>
      cases piece with
      | text text =>
          have nothing : (⟨(Output.ofText text).fragments⟩ : Output).cells = [] :=
            Output.cells_ofText text
          simp only [ofPieces, output, Output.cells_join, nothing, List.nil_append]
          exact ih next
      | request request =>
          simp only [ofPieces, output, Output.cells_cons_cell, List.map_cons, List.cons.injEq,
            true_and]
          exact ih (next + 1)

/-- The cells of the loads are numbered without a gap. -/
theorem cells_loads (depth : Nat) (policy : MissingInclude) (next : Nat) (pieces : List Piece) :
    (ofPieces depth policy next pieces).loads.map Load.cell =
      (List.range' next (ofPieces depth policy next pieces).loads.length).map CellId.mk := by
  induction pieces generalizing next with
  | nil => rfl
  | cons piece rest ih =>
      cases piece with
      | text text => exact ih next
      | request request =>
          simp only [ofPieces, List.map_cons, List.length_cons, List.range'_succ, ih (next + 1)]

/-- The loads of a draft own the next cells. -/
theorem cells_ofDraft (depth : Nat) (policy : MissingInclude) (cells : Cells) (draft : Draft) :
    (ofDraft depth policy cells draft).loads.map Load.cell =
      cells.next (ofDraft depth policy cells draft).loads.length :=
  cells_loads depth policy cells.size draft.pieces

end Placed

/-! ### Who owns a cell -/

/-- The load that a task carries out, if it is not a client's. -/
def Task.load? : Task → Option Load
  | .load carried => some carried
  | .job _ => none

/-- The loads among tasks. -/
def loadsIn (tasks : List Task) : List Load :=
  tasks.filterMap Task.load?

/-- The cells that tasks own, in order. -/
def cellsOf (tasks : List Task) : List CellId :=
  (loadsIn tasks).map Load.cell

@[simp] theorem loadsIn_nil : loadsIn [] = [] := rfl

@[simp] theorem loadsIn_cons_load (load : Load) (tasks : List Task) :
    loadsIn (.load load :: tasks) = load :: loadsIn tasks := rfl

@[simp] theorem loadsIn_cons_job (job : Job) (tasks : List Task) :
    loadsIn (.job job :: tasks) = loadsIn tasks := rfl

@[simp] theorem loadsIn_append (tasks others : List Task) :
    loadsIn (tasks ++ others) = loadsIn tasks ++ loadsIn others := by
  simp [loadsIn]

@[simp] theorem loadsIn_map_load (loads : List Load) : loadsIn (loads.map .load) = loads := by
  induction loads with
  | nil => rfl
  | cons load rest ih => simp [ih]

@[simp] theorem loadsIn_map_job (jobs : List Job) : loadsIn (jobs.map .job) = [] := by
  induction jobs with
  | nil => rfl
  | cons job rest ih => simp [ih]

theorem mem_loadsIn {tasks : List Task} {load : Load} :
    load ∈ loadsIn tasks ↔ .load load ∈ tasks := by
  induction tasks with
  | nil => simp
  | cons task rest ih => cases task <;> simp [ih]

@[simp] theorem cellsOf_append (tasks others : List Task) :
    cellsOf (tasks ++ others) = cellsOf tasks ++ cellsOf others := by
  simp [cellsOf]

@[simp] theorem cellsOf_map_load (loads : List Load) :
    cellsOf (loads.map .load) = loads.map Load.cell := by
  simp [cellsOf]

@[simp] theorem cellsOf_cons_load (load : Load) (tasks : List Task) :
    cellsOf (.load load :: tasks) = load.cell :: cellsOf tasks := rfl

@[simp] theorem cellsOf_cons_job (job : Job) (tasks : List Task) :
    cellsOf (.job job :: tasks) = cellsOf tasks := rfl

/-! ### What one task does to the cells -/

namespace Engine

/-- Whether a load comes to its end: it is within the limit, its template can be loaded, and the
pass over the template does not stop. -/
def completes (engine : Engine) (load : Load) : Bool :=
  if engine.config.maxDepth < load.depth then false
  else match engine.load load.request.name with
    | .error _ => false
    | .ok template =>
        (template.draft engine.openings load.request.context load.request.overrides).stop.isNone

/-- Whether a load is passed over in silence: it is to include a template that cannot be loaded, and
was put off under the silent policy. -/
def PassesOver (engine : Engine) (load : Load) : Prop :=
  load.request.purpose = .inclusion ∧ load.missingInclude = .silent ∧
    ∃ error, engine.load load.request.name = .error error

/-- The cells that tasks have filled. -/
def filled (engine : Engine) (tasks : List Task) : List CellId :=
  ((loadsIn tasks).filter engine.completes).map Load.cell

/-- The effect of a load: it puts off loads that own the next cells, under the policy of the engine
that carries it out, and fills its own cell with an output of just these cells if it comes to its
end. -/
structure Effect (engine : Engine) (load : Load) (before : Cells) (later : List Load)
    (after : Cells) : Prop where
  fresh : later.map Load.cell = before.next later.length
  policy : ∀ next ∈ later, next.missingInclude = engine.config.missingInclude
  untouched : engine.completes load = false → after = before.allot later.length
  fills : engine.completes load = true → ∃ output : Output,
    output.cells = later.map Load.cell ∧ after = (before.allot later.length).set load.cell output

/-- What a load comes to: it is too deep, its template cannot be loaded, or it is rendered. -/
theorem performLoad_cases (engine : Engine) (load : Load) (cells : Cells) :
    (engine.config.maxDepth < load.depth ∧ engine.completes load = false ∧
      engine.performLoad load cells =
        ⟨cells, [], some (.error (.tooDeep load.request.name engine.config.maxDepth))⟩) ∨
    (load.depth ≤ engine.config.maxDepth ∧ engine.completes load = false ∧
      ∃ error, engine.load load.request.name = .error error ∧
        engine.performLoad load cells = ⟨cells, [],
          if load.request.purpose = .inclusion ∧ load.missingInclude = .silent then none
          else some (.error error)⟩) ∨
    (load.depth ≤ engine.config.maxDepth ∧
      ∃ template draft placed, engine.load load.request.name = .ok template ∧
        draft = template.draft engine.openings load.request.context load.request.overrides ∧
        placed = Placed.ofDraft (load.depth + 1) engine.config.missingInclude cells draft ∧
        engine.completes load = draft.stop.isNone ∧
        engine.performLoad load cells = ⟨
          if draft.stop = none then (placed.among cells).set load.cell placed.output
          else placed.among cells, placed.loads, draft.stop⟩) := by
  by_cases deep : engine.config.maxDepth < load.depth
  · exact .inl ⟨deep, by simp [completes, deep], by simp [performLoad, deep]⟩
  · have within : load.depth ≤ engine.config.maxDepth := Nat.le_of_not_lt deep
    cases loaded : engine.load load.request.name with
    | error error =>
        refine .inr (.inl ⟨within, by simp [completes, deep, loaded], error, rfl, ?_⟩)
        simp only [performLoad, deep, loaded, if_false]
        split <;> rfl
    | ok template =>
        refine .inr (.inr ⟨within, template, _, _, rfl, rfl, rfl, ?_, ?_⟩)
        · simp [completes, deep, loaded]
        · simp only [performLoad, deep, loaded, if_false]
          split <;> simp_all

/-- A load put off under the silent policy is passed over by an engine that is not silent, and one
put off under the other policy fails also in an engine that is. -/
example :
    let request : Request := ⟨.inclusion, "gone", .empty, []⟩
    let knowing (policy : MissingInclude) : Engine :=
      ⟨fun _ => none, { missingInclude := policy }, 0⟩
    ((knowing .error).performLoad ⟨request, ⟨0⟩, 1, .silent⟩ ⟨#[.empty]⟩).failure = none ∧
      ((knowing .silent).performLoad ⟨request, ⟨0⟩, 1, .error⟩ ⟨#[.empty]⟩).failure =
        some (.error (.missingTemplate "gone")) :=
  ⟨rfl, rfl⟩

/-- Every load has that effect. -/
theorem performLoad_effect (engine : Engine) (load : Load) (cells : Cells) :
    engine.Effect load cells (engine.performLoad load cells).deferred
      (engine.performLoad load cells).state := by
  obtain ⟨_, idle, outcome⟩ | ⟨_, idle, error, _, outcome⟩ |
    ⟨_, template, draft, placed, _, _, rfl, completed, outcome⟩ :=
      performLoad_cases engine load cells
  · rw [outcome]
    exact ⟨rfl, nofun, fun _ => by simp, fun completed => by simp [idle] at completed⟩
  · rw [outcome]
    exact ⟨rfl, nofun, fun _ => by simp, fun completed => by simp [idle] at completed⟩
  · rw [outcome]
    refine ⟨Placed.cells_ofDraft _ _ _ _, fun _ member => (Placed.of_mem_loads member).2,
      fun idle => ?_, fun done => ?_⟩
    · have stopped : draft.stop ≠ none := by
        intro none
        simp [completed, none] at idle
      simp [stopped, Placed.among]
    · have ended : draft.stop = none := by simpa [completed] using done
      refine ⟨(Placed.ofDraft (load.depth + 1) _ cells draft).output,
        Placed.cells_output _ _ _ _, ?_⟩
      simp [ended, Placed.among]

/-- A load that does not fail comes to its end or is passed over. -/
theorem completes_or_passesOver {engine : Engine} {load : Load} {cells : Cells}
    (well : (engine.performLoad load cells).failure = none) :
    engine.completes load = true ∨ (engine.completes load = false ∧ engine.PassesOver load) := by
  obtain ⟨_, _, outcome⟩ | ⟨_, idle, error, loaded, outcome⟩ |
    ⟨_, template, draft, placed, _, _, _, completed, outcome⟩ := performLoad_cases engine load cells
  · simp [outcome] at well
  · rw [outcome] at well
    refine .inr ⟨idle, ?_⟩
    by_cases silent : load.request.purpose = .inclusion ∧ load.missingInclude = .silent
    · exact ⟨silent.1, silent.2, error, loaded⟩
    · simp [silent] at well
  · rw [outcome] at well
    exact .inl (by simpa [completed] using well)

/-- A load that fails does not come to its end. -/
theorem completes_of_failure {engine : Engine} {load : Load} {cells : Cells} {stop : Stop}
    (failed : (engine.performLoad load cells).failure = some stop) :
    engine.completes load = false := by
  obtain ⟨_, idle, _⟩ | ⟨_, idle, _⟩ |
    ⟨_, template, draft, placed, _, _, _, completed, outcome⟩ := performLoad_cases engine load cells
  · exact idle
  · exact idle
  · rw [outcome] at failed
    have stopped : draft.stop = some stop := failed
    simp [completed, stopped]

end Engine

/-! ### Stages that can be reached -/

/-- A stage after its first task has been carried out. -/
def Engine.step (engine : Engine) (stage : Stage) : Stage :=
  match stage.queue with
  | [] => stage
  | task :: rest =>
      let outcome := engine.perform task stage.cells
      ⟨outcome.state, rest ++ outcome.deferred⟩

/-- Stages that passes, clients and tasks bring about, whichever engines are at work. -/
inductive Stage.Reached : Stage → Prop where
  | empty : Reached .empty
  | pass {stage : Stage} (engine : Engine) (template : Template) (context : Context)
      (reached : Reached stage) : Reached (engine.pass template context stage).2
  | defer {stage : Stage} (job : Job) (reached : Reached stage) : Reached (stage.defer (.job job))
  | step {stage : Stage} (engine : Engine) (reached : Reached stage) : Reached (engine.step stage)

/-- The invariant of reached stages: cells hold later cells only and none is held twice, and every
waiting load owns a cell of its own, which exists and is empty. -/
structure Stage.Sound (stage : Stage) : Prop where
  rising : stage.cells.Rising
  heldOnce : stage.cells.held.Nodup
  ownOnce : (cellsOf stage.queue).Nodup
  inBounds : ∀ id ∈ cellsOf stage.queue, id.index < stage.cells.size
  vacant : ∀ id ∈ cellsOf stage.queue, stage.cells.content id = .empty

namespace Stage

theorem sound_empty : Stage.empty.Sound where
  rising := Cells.rising_empty
  heldOnce := List.nodup_nil
  ownOnce := List.nodup_nil
  inBounds := by simp [Stage.empty, cellsOf]
  vacant := by simp [Stage.empty, cellsOf]

/-- Loads that own the next cells may join the queue together with their cells. -/
theorem Sound.allot {cells : Cells} {queue : List Task} (sound : Sound ⟨cells, queue⟩)
    {later : List Load} (fresh : later.map Load.cell = cells.next later.length) :
    Sound ⟨cells.allot later.length, queue ++ later.map .load⟩ where
  rising := sound.rising.allot later.length
  heldOnce := by simpa using sound.heldOnce
  ownOnce := by
    simp only [cellsOf_append, cellsOf_map_load, fresh]
    exact Cells.nodup_append_next sound.ownOnce sound.inBounds _
  inBounds := by
    intro id member
    simp only [cellsOf_append, cellsOf_map_load, fresh, List.mem_append] at member
    simp only [Cells.size_allot]
    rcases member with old | new
    · have := sound.inBounds id old
      simp only at this
      omega
    · exact (Cells.mem_next.1 new).2
  vacant := by
    intro id member
    simp only [cellsOf_append, cellsOf_map_load, fresh, List.mem_append] at member
    simp only [Cells.content_allot]
    rcases member with old | new
    · exact sound.vacant id old
    · exact Cells.content_of_size_le (Cells.mem_next.1 new).1

/-- The first task may leave the queue. -/
theorem Sound.tail {cells : Cells} {task : Task} {rest : List Task}
    (sound : Sound ⟨cells, task :: rest⟩) : Sound ⟨cells, rest⟩ := by
  have more : ∀ id ∈ cellsOf rest, id ∈ cellsOf (task :: rest) := by
    cases task <;> simp +contextual
  have sub : (cellsOf rest).Sublist (cellsOf (task :: rest)) := by
    cases task <;> simp
  exact ⟨sound.rising, sound.heldOnce, sound.ownOnce.sublist sub,
    fun id member => sound.inBounds id (more id member),
    fun id member => sound.vacant id (more id member)⟩

/-- An empty cell that no waiting load owns may be filled with later cells that are not held yet. -/
theorem Sound.fill {cells : Cells} {queue : List Task} (sound : Sound ⟨cells, queue⟩)
    {id : CellId} {output : Output} (bound : id.index < cells.size)
    (vacant : cells.content id = .empty) (free : id ∉ cellsOf queue)
    (later : ∀ inner ∈ output.cells, id.index < inner.index ∧ inner.index < cells.size)
    (once : (cells.held ++ output.cells).Nodup) : Sound ⟨cells.set id output, queue⟩ where
  rising := sound.rising.set bound later
  heldOnce := (Cells.held_set_of_empty bound vacant output).nodup_iff.2 once
  ownOnce := sound.ownOnce
  inBounds := by simpa using sound.inBounds
  vacant := by
    intro other member
    have different : other ≠ id := fun same => free (same ▸ member)
    rw [Cells.content_set_of_ne different]
    exact sound.vacant other member

/-- The cells of a load that fills its own cell come later than that cell. -/
theorem Sound.later {cells : Cells} {load : Load} {rest : List Task}
    (sound : Sound ⟨cells, .load load :: rest⟩) {count : Nat} {inner : CellId}
    (new : inner ∈ cells.next count) :
    load.cell.index < inner.index ∧ inner.index < (cells.allot count).size := by
  have own := sound.inBounds load.cell (by simp)
  have := Cells.mem_next.1 new
  simp only at own
  simp only [Cells.size_allot]
  omega

/-- The invariant is kept by a load. -/
theorem Sound.effect {engine : Engine} {cells after : Cells} {load : Load} {rest : List Task}
    {later : List Load} (sound : Sound ⟨cells, .load load :: rest⟩)
    (effect : engine.Effect load cells later after) :
    Sound ⟨after, rest ++ later.map .load⟩ := by
  have waiting := sound.tail.allot effect.fresh
  cases completed : engine.completes load with
  | false => exact effect.untouched completed ▸ waiting
  | true =>
      obtain ⟨output, shows, rfl⟩ := effect.fills completed
      have own := sound.inBounds load.cell (by simp)
      have alone := sound.allot effect.fresh
      apply waiting.fill
      · simp only at own
        simp only [Cells.size_allot]
        omega
      · simpa using sound.vacant load.cell (by simp)
      · exact (List.nodup_cons.1 alone.ownOnce).1
      · intro inner member
        rw [shows, effect.fresh] at member
        exact sound.later member
      · rw [shows, effect.fresh, Cells.held_allot]
        have old : ∀ id ∈ cells.held, id.index < cells.size := fun id => sound.rising.held_lt_size
        exact Cells.nodup_append_next sound.heldOnce old _

/-- The forest below an output is kept by a load. -/
theorem Sound.forest_effect {engine : Engine} {cells after : Cells} {load : Load} {rest : List Task}
    {later : List Load} (sound : Sound ⟨cells, .load load :: rest⟩)
    (effect : engine.Effect load cells later after) {output : Output}
    (forest : cells.Forest output) : after.Forest output := by
  have grown := forest.allot later.length
  cases completed : engine.completes load with
  | false => exact effect.untouched completed ▸ grown
  | true =>
      obtain ⟨contents, shows, rfl⟩ := effect.fills completed
      have own := sound.inBounds load.cell (by simp)
      apply grown.set
      · simp only at own
        simp only [Cells.size_allot]
        omega
      · simpa using sound.vacant load.cell (by simp)
      · intro inner member
        rw [shows, effect.fresh] at member
        exact sound.later member
      · rw [shows, effect.fresh, Cells.held_allot]
        apply Cells.nodup_append_next forest.once
        intro id member
        rcases List.mem_append.1 member with standing | held
        · exact forest.inBounds id standing
        · exact forest.rising.held_lt_size held

/-- A client's job waits without a cell. -/
theorem Sound.jobs {cells : Cells} {queue : List Task} (sound : Sound ⟨cells, queue⟩)
    (jobs : List Job) : Sound ⟨cells, queue ++ jobs.map .job⟩ := by
  have same : cellsOf (queue ++ jobs.map .job) = cellsOf queue := by simp [cellsOf]
  exact ⟨sound.rising, sound.heldOnce, same ▸ sound.ownOnce, same ▸ sound.inBounds,
    same ▸ sound.vacant⟩

/-- The invariant is kept by every task. -/
theorem Sound.step {stage : Stage} (sound : stage.Sound) (engine : Engine) :
    (engine.step stage).Sound := by
  obtain ⟨cells, queue⟩ := stage
  cases queue with
  | nil => exact sound
  | cons task rest =>
      cases task with
      | load load => exact sound.effect (engine.performLoad_effect load cells)
      | job job => exact sound.tail.jobs job.followUps

/-- A pass adds loads with fresh cells, whether it fails or not. -/
theorem pass_allots (engine : Engine) (template : Template) (context : Context) (stage : Stage) :
    ∃ loads : List Load, loads.map Load.cell = stage.cells.next loads.length ∧
      (engine.pass template context stage).2 =
        ⟨stage.cells.allot loads.length, stage.queue ++ loads.map .load⟩ := by
  refine ⟨_, Placed.cells_ofDraft 1 engine.config.missingInclude stage.cells
    (template.draft engine.openings context []), ?_⟩
  unfold Engine.pass
  dsimp only
  split <;> rfl

/-- Every stage that can be reached keeps the invariant. -/
theorem Reached.sound {stage : Stage} (reached : stage.Reached) : stage.Sound := by
  induction reached with
  | empty => exact sound_empty
  | pass engine template context _ ih =>
      obtain ⟨loads, fresh, same⟩ := pass_allots engine template context _
      exact same ▸ ih.allot fresh
  | defer job _ ih => exact ih.jobs [job]
  | step engine _ ih => exact ih.step engine

end Stage

end Quire
