/-
Module: Quire.Proofs.FillOnce
Purpose: Working off the queue loses no cell, fills none twice and crosses none.
Main exports: Engine.Runs, Engine.Runs.forall_mem, Engine.runUntilIdle_runs, PassAccount,
  StepAccount, DrainAccount, pass_and_drain_account
-/
import Mathlib.Data.List.Nodup
import Quire.Proofs.Ownership

/-!
A run carries out tasks one after another from the front of the queue. What a run does to a cell is
decided by the task that owns it: no other task touches the cell, and the task itself is carried out
once. The cells that an output shows are those of the loads that its own pass put off, and of the
loads that these put off in turn, so after a run that ends well every one of them had its turn.
-/

namespace Quire

/-- A queue of one task that puts off nothing and does not fail is worked off by that task. -/
theorem Worker.drain_singleton {Task State Failure : Type} {worker : Worker Task State Failure}
    {task : Task} {before after : State}
    (performed : worker.perform task before = ⟨after, [], none⟩) :
    worker.drain [task] before = ⟨[task], [], after, none⟩ := by
  have rest : worker.drain [] after = ⟨[], [], after, none⟩ := by
    rw [Worker.drain.eq_def]
  rw [Worker.drain.eq_def]
  simp only [performed, List.nil_append, rest]

/-! ### Runs -/

/-- Tasks that are carried out one after another from the front of the queue. -/
inductive Engine.Runs (engine : Engine) : Stage → List Task → Stage → Prop where
  | none (stage : Stage) : Runs engine stage [] stage
  | next {stage last : Stage} {task : Task} {rest ran : List Task}
      (first : stage.queue = task :: rest) (others : Runs engine (engine.step stage) ran last) :
      Runs engine stage (task :: ran) last

namespace Engine

variable {engine : Engine}

theorem Runs.sound {stage last : Stage} {ran : List Task} (runs : engine.Runs stage ran last)
    (sound : stage.Sound) : last.Sound := by
  induction runs with
  | none => exact sound
  | next _ _ ih => exact ih (sound.step engine)

/-- What holds of the tasks that wait, and of all that such tasks put off, holds of those that wait
after one of them has been carried out. -/
theorem forall_mem_step {holds : Task → Prop} {stage : Stage}
    (kept : ∀ task cells, holds task → ∀ later ∈ (engine.perform task cells).deferred, holds later)
    (before : ∀ task ∈ stage.queue, holds task) :
    ∀ task ∈ (engine.step stage).queue, holds task := by
  cases queue : stage.queue with
  | nil => simp [step, queue]
  | cons first rest =>
      rw [queue] at before
      intro task member
      simp only [step, queue, List.mem_append] at member
      rcases member with waiting | deferred
      · exact before task (List.mem_cons_of_mem _ waiting)
      · exact kept first stage.cells (before first List.mem_cons_self) task deferred

/-- It holds of all tasks of a run, and of those that wait after it. -/
theorem Runs.forall_mem {holds : Task → Prop} {stage last : Stage} {ran : List Task}
    (kept : ∀ task cells, holds task → ∀ later ∈ (engine.perform task cells).deferred, holds later)
    (runs : engine.Runs stage ran last)
    (before : ∀ task ∈ stage.queue, holds task) : ∀ task ∈ ran ++ last.queue, holds task := by
  induction runs with
  | none => exact before
  | next first _ ih =>
      intro task member
      rcases List.mem_cons.1 member with rfl | later
      · exact before _ (by simp [first])
      · exact ih (forall_mem_step kept before) task later

/-- A run may be stopped after any of its tasks. -/
theorem Runs.split {stage last : Stage} {early late : List Task}
    (runs : engine.Runs stage (early ++ late) last) :
    ∃ mid, engine.Runs stage early mid ∧ engine.Runs mid late last := by
  induction early generalizing stage with
  | nil => exact ⟨stage, .none stage, runs⟩
  | cons task early ih =>
      cases runs with
      | next first others =>
          obtain ⟨mid, before, after⟩ := ih others
          exact ⟨mid, .next first before, after⟩

/-- What a run comes to is decided by its tasks. -/
theorem Runs.unique {stage last other : Stage} {ran : List Task} (runs : engine.Runs stage ran last)
    (again : engine.Runs stage ran other) : last = other := by
  induction runs with
  | none =>
      cases again with
      | none => rfl
  | next _ _ ih =>
      cases again with
      | next _ others => exact ih others

/-- What a stage becomes by its first task, a load. -/
theorem step_load (engine : Engine) {stage : Stage} {load : Load} {rest : List Task}
    (first : stage.queue = .load load :: rest) :
    ∃ later : List Load, (engine.step stage).queue = rest ++ later.map .load ∧
      engine.Effect load stage.cells later (engine.step stage).cells := by
  refine ⟨(engine.performLoad load stage.cells).deferred, ?_, ?_⟩
  · simp [step, first, perform]
  · have effect := engine.performLoad_effect load stage.cells
    simpa [step, first, perform] using effect

/-- What a stage becomes by its first task, a client's. -/
theorem step_job (engine : Engine) {stage : Stage} {job : Job} {rest : List Task}
    (first : stage.queue = .job job :: rest) :
    engine.step stage = ⟨stage.cells, rest ++ job.followUps.map .job⟩ := by
  simp [step, first, perform]

theorem Runs.forest {stage last : Stage} {ran : List Task} (runs : engine.Runs stage ran last)
    (sound : stage.Sound) {output : Output} (forest : stage.cells.Forest output) :
    last.cells.Forest output := by
  induction runs with
  | none => exact forest
  | @next stage last task rest ran first others ih =>
      apply ih (sound.step engine)
      obtain ⟨cells, queue⟩ := stage
      cases first
      cases task with
      | load load => exact sound.forest_effect (engine.performLoad_effect load cells) forest
      | job job => exact forest

/-- Carrying out a task makes no cells vanish. -/
theorem size_le_step (engine : Engine) (stage : Stage) :
    stage.cells.size ≤ (engine.step stage).cells.size := by
  cases queue : stage.queue with
  | nil => simp [step, queue]
  | cons task rest =>
      cases task with
      | job job => simp [step_job engine queue]
      | load load =>
          obtain ⟨later, _, effect⟩ := step_load engine queue
          cases completed : engine.completes load with
          | false => simp [effect.untouched completed]
          | true =>
              obtain ⟨output, _, filled⟩ := effect.fills completed
              simp [filled]

/-- The tasks of a run, and those that wait after it, own cells that waiting tasks owned before it,
or new ones. -/
theorem Runs.owned_or_new {stage last : Stage} {ran : List Task} (runs : engine.Runs stage ran last)
    {id : CellId} (owned : id ∈ cellsOf (ran ++ last.queue)) :
    id ∈ cellsOf stage.queue ∨ stage.cells.size ≤ id.index := by
  induction runs with
  | none => exact .inl owned
  | @next stage last task rest ran first others ih =>
      rw [List.cons_append] at owned
      rw [first]
      have grown := size_le_step engine stage
      cases task with
      | job job =>
          rcases ih owned with waiting | new
          · simp only [step_job engine first, cellsOf_append, List.mem_append] at waiting
            rcases waiting with old | job
            · exact .inl old
            · simp [cellsOf] at job
          · exact .inr (Nat.le_trans grown new)
      | load load =>
          obtain ⟨later, queue, effect⟩ := step_load engine first
          rcases List.mem_cons.1 owned with rfl | owned
          · exact .inl (by simp)
          rcases ih owned with waiting | new
          · simp only [queue, cellsOf_append, cellsOf_map_load, List.mem_append] at waiting
            rcases waiting with old | later
            · exact .inl (by simp [old])
            · rw [effect.fresh] at later
              exact .inr (Cells.mem_next.1 later).1
          · exact .inr (Nat.le_trans grown new)

/-- After its turn a load owns its cell no more, and no other task will. -/
theorem own_notMem_step (engine : Engine) {stage : Stage} (sound : stage.Sound) {load : Load}
    {rest : List Task} (first : stage.queue = .load load :: rest) :
    load.cell ∉ cellsOf (engine.step stage).queue := by
  obtain ⟨cells, queue⟩ := stage
  obtain ⟨later, after, effect⟩ := step_load engine first
  cases first
  rw [after]
  exact (List.nodup_cons.1 (sound.allot effect.fresh).ownOnce).1

/-- The tasks of a run, and those that wait after it, own distinct cells. -/
theorem Runs.ownOnce {stage last : Stage} {ran : List Task} (runs : engine.Runs stage ran last)
    (sound : stage.Sound) : (cellsOf (ran ++ last.queue)).Nodup := by
  induction runs with
  | none => exact sound.ownOnce
  | @next stage last task rest ran first others ih =>
      have once := ih (sound.step engine)
      cases task with
      | job job => exact once
      | load load =>
          apply List.nodup_cons.2
          refine ⟨?_, once⟩
          intro again
          rcases others.owned_or_new again with waiting | new
          · exact own_notMem_step engine sound first waiting
          · have old := sound.inBounds load.cell (by simp [first])
            have := size_le_step engine stage
            omega

/-- A task changes no cell but its own. -/
theorem content_step_of_notMem (engine : Engine) {stage : Stage} {id : CellId}
    (free : id ∉ cellsOf stage.queue) :
    (engine.step stage).cells.content id = stage.cells.content id := by
  cases queue : stage.queue with
  | nil => simp [step, queue]
  | cons task rest =>
      cases task with
      | job job => simp [step_job engine queue]
      | load load =>
          obtain ⟨later, _, effect⟩ := step_load engine queue
          have different : id ≠ load.cell := by
            rintro rfl
            exact free (by simp [queue])
          cases completed : engine.completes load with
          | false => simp [effect.untouched completed]
          | true =>
              obtain ⟨output, _, filled⟩ := effect.fills completed
              simp [filled, Cells.content_set_of_ne different]

/-- A run changes no cell that no waiting task owns. -/
theorem Runs.content_of_notMem {stage last : Stage} {ran : List Task}
    (runs : engine.Runs stage ran last) {id : CellId} (exist : id.index < stage.cells.size)
    (free : id ∉ cellsOf stage.queue) : last.cells.content id = stage.cells.content id := by
  induction runs with
  | none => rfl
  | @next stage last task rest ran first others ih =>
      rw [← content_step_of_notMem engine free]
      have grown := size_le_step engine stage
      apply ih (Nat.lt_of_lt_of_le exist grown)
      intro owned
      have once : engine.Runs stage [task] (engine.step stage) := .next first (.none _)
      have owned : id ∈ cellsOf ([task] ++ (engine.step stage).queue) := by
        cases task <;> simp [owned]
      rcases once.owned_or_new owned with waiting | new
      · exact free waiting
      · omega

/-- A load that has had its turn leaves its cell as it is from then on. -/
theorem Runs.content_of_ran {stage mid last : Stage} {early late : List Task} {load : Load}
    (sound : stage.Sound) (before : engine.Runs stage early mid)
    (after : engine.Runs mid (.load load :: late) last) :
    last.cells.content load.cell = (engine.step mid).cells.content load.cell := by
  have sound := before.sound sound
  cases after with
  | next first others =>
      refine others.content_of_notMem ?_ (own_notMem_step engine sound first)
      have exist := sound.inBounds load.cell (by simp [first])
      exact Nat.lt_of_lt_of_le exist (size_le_step engine mid)

/-! ### What a run leaves -/

theorem filled_sublist (tasks : List Task) : (engine.filled tasks).Sublist (cellsOf tasks) :=
  (List.filter_sublist).map Load.cell

theorem mem_filled {tasks : List Task} {id : CellId} :
    id ∈ engine.filled tasks ↔
      ∃ load, .load load ∈ tasks ∧ engine.completes load = true ∧ load.cell = id := by
  simp [filled, mem_loadsIn, and_assoc]

/-- A cell that a task of the run, or one that waits after it, owns and that was not filled is
empty. -/
theorem Runs.vacant {stage last : Stage} {ran : List Task} (runs : engine.Runs stage ran last)
    (sound : stage.Sound) {id : CellId} (owned : id ∈ cellsOf (ran ++ last.queue))
    (never : id ∉ engine.filled ran) : last.cells.content id = .empty := by
  rw [cellsOf_append, List.mem_append] at owned
  rcases owned with owned | waiting
  · obtain ⟨load, member, rfl⟩ := List.mem_map.1 owned
    rw [mem_loadsIn] at member
    have idle : engine.completes load = false := by
      cases completed : engine.completes load with
      | false => rfl
      | true => exact absurd (mem_filled.2 ⟨load, member, completed, rfl⟩) never
    obtain ⟨early, late, rfl⟩ := List.append_of_mem member
    obtain ⟨mid, before, after⟩ := runs.split
    rw [Runs.content_of_ran sound before after]
    have sound := before.sound sound
    cases after with
    | next first others =>
        obtain ⟨later, _, effect⟩ := step_load engine first
        rw [effect.untouched idle, Cells.content_allot]
        exact sound.vacant load.cell (by simp [first])
  · exact (runs.sound sound).vacant id waiting

/-- A task that waits before a run is carried out in it or waits after it. -/
theorem Runs.mem_of_waiting {stage last : Stage} {ran : List Task}
    (runs : engine.Runs stage ran last) {task : Task} (waiting : task ∈ stage.queue) :
    task ∈ ran ++ last.queue := by
  induction runs with
  | none => exact waiting
  | next first _ ih =>
      rw [first] at waiting
      rcases List.mem_cons.1 waiting with rfl | waiting
      · exact List.mem_cons_self
      · exact List.mem_cons_of_mem _ (ih (by simp [step, first, waiting]))

/-- The cells that waiting tasks own before a run are still owned by its tasks or by those that wait
after it. -/
theorem Runs.owned_of_waiting {stage last : Stage} {ran : List Task}
    (runs : engine.Runs stage ran last) {id : CellId} (waiting : id ∈ cellsOf stage.queue) :
    id ∈ cellsOf (ran ++ last.queue) := by
  obtain ⟨load, member, rfl⟩ := List.mem_map.1 waiting
  have kept := runs.mem_of_waiting (mem_loadsIn.1 member)
  exact List.mem_map.2 ⟨load, mem_loadsIn.2 kept, rfl⟩

/-- The cells held by a cell that such a task owns are owned by such tasks. -/
theorem Runs.owned_of_held {stage last : Stage} {ran : List Task}
    (runs : engine.Runs stage ran last) (sound : stage.Sound) :
    ∀ outer ∈ cellsOf (ran ++ last.queue), ∀ inner ∈ (last.cells.content outer).cells,
      inner ∈ cellsOf (ran ++ last.queue) := by
  induction runs with
  | none stage =>
      intro outer waiting inner holds
      rw [sound.vacant outer waiting] at holds
      simp at holds
  | @next stage last task rest ran first others ih =>
      have ih := ih (sound.step engine)
      cases task with
      | job job => exact ih
      | load load =>
          intro outer owned inner holds
          apply List.mem_cons_of_mem
          rcases List.mem_cons.1 owned with rfl | owned
          · -- the cell of the first task: what it holds belongs to what the task put off
            rw [Runs.content_of_ran sound (.none stage) (.next first others)] at holds
            obtain ⟨later, queue, effect⟩ := step_load engine first
            cases completed : engine.completes load with
            | false =>
                rw [effect.untouched completed, Cells.content_allot] at holds
                rw [sound.vacant load.cell (by simp [first])] at holds
                simp at holds
            | true =>
                obtain ⟨output, shows, filled⟩ := effect.fills completed
                have exist : load.cell.index < (stage.cells.allot later.length).size := by
                  have := sound.inBounds load.cell (by simp [first])
                  simp only [Cells.size_allot]
                  omega
                rw [filled, Cells.content_set_self exist, shows] at holds
                exact others.owned_of_waiting (by simp [queue, holds])
          · exact ih outer owned inner holds

/-! ### Working off the queue -/

/-- Working off the queue is a run. -/
theorem runUntilIdle_runs (engine : Engine) (stage : Stage) :
    engine.Runs stage (engine.runUntilIdle stage).ran
      ⟨(engine.runUntilIdle stage).state, (engine.runUntilIdle stage).pending⟩ := by
  obtain ⟨cells, queue⟩ := stage
  simp only [runUntilIdle]
  fun_induction engine.worker.drain queue cells with
  | case1 cells => exact .none _
  | case2 cells task rest outcome stop failed => exact .next rfl (.none _)
  | case3 cells task rest outcome well later ih => exact .next rfl ih

/-- Where working off the queue ends well, nothing waits. -/
theorem pending_eq_nil {stage : Stage} (well : (engine.runUntilIdle stage).failure = none) :
    (engine.runUntilIdle stage).pending = [] := by
  obtain ⟨cells, queue⟩ := stage
  simp only [runUntilIdle] at well ⊢
  fun_induction engine.worker.drain queue cells with
  | case1 cells => rfl
  | case2 cells task rest outcome stop failed => simp at well
  | case3 cells task rest outcome fine later ih => exact ih well

/-- Where working off the queue ends well, every load came to its end or was passed over. -/
theorem runUntilIdle_of_none {stage : Stage} (well : (engine.runUntilIdle stage).failure = none) :
    ∀ load, .load load ∈ (engine.runUntilIdle stage).ran →
      engine.completes load = true ∨
        (engine.completes load = false ∧ engine.PassesOver load) := by
  obtain ⟨cells, queue⟩ := stage
  simp only [runUntilIdle] at well ⊢
  fun_induction engine.worker.drain queue cells with
  | case1 cells => simp
  | case2 cells task rest outcome stop failed => simp at well
  | case3 cells task rest outcome fine later ih =>
      intro load member
      rcases List.mem_cons.1 member with rfl | member
      · have fine : (engine.performLoad load cells).failure = none := fine
        exact completes_or_passesOver fine
      · exact ih well load member

/-- Where working off the queue fails, the last task that was carried out did not come to its
end. -/
theorem runUntilIdle_of_some {stage : Stage} {stop : Stop}
    (failed : (engine.runUntilIdle stage).failure = some stop) :
    ∃ early task, (engine.runUntilIdle stage).ran = early ++ [task] ∧
      ∀ load, task = .load load → engine.completes load = false := by
  obtain ⟨cells, queue⟩ := stage
  simp only [runUntilIdle] at failed ⊢
  fun_induction engine.worker.drain queue cells with
  | case1 cells => simp at failed
  | case2 cells task rest outcome stop' failed' =>
      refine ⟨[], task, rfl, ?_⟩
      rintro load rfl
      have failed' : (engine.performLoad load cells).failure = some stop' := failed'
      exact completes_of_failure failed'
  | case3 cells task rest outcome fine later ih =>
      obtain ⟨early, last, ran, idle⟩ := ih failed
      exact ⟨task :: early, last, congrArg (task :: ·) ran, idle⟩

end Engine

/-! ### The account of a pass and of the work that follows it -/

/-- What a pass that comes to its end does to a stage: it puts one load in the queue for each cell
of its output, in the order of the cells and under the policy of the engine that makes the pass, and
these cells are new, distinct and empty. -/
structure PassAccount (engine : Engine) (before : Stage) (output : Output) (after : Stage) :
    Prop where
  owned : ∃ loads : List Load, after.queue = before.queue ++ loads.map .load ∧
    loads.map Load.cell = output.cells ∧
    ∀ load ∈ loads, load.missingInclude = engine.config.missingInclude
  fresh : ∀ id ∈ output.cells, before.cells.size ≤ id.index ∧ id.index < after.cells.size
  distinct : output.cells.Nodup
  vacant : ∀ id ∈ output.cells, after.cells.content id = .empty
  kept : ∀ id, id.index < before.cells.size → after.cells.content id = before.cells.content id

/-- What the first task of a stage does: it changes no cell but its own, and its own at most once. A
load puts off further loads, which own new, distinct and empty cells, in order, and which keep the
policy of the engine that is at work; where the load comes to its end its own cell is filled with an
output of just these cells, and else with nothing. -/
structure StepAccount (engine : Engine) (task : Task) (before after : Stage) : Prop where
  job : ∀ job, task = .job job → after.cells = before.cells
  load : ∀ load, task = .load load → ∃ (rest : List Task) (later : List Load),
    before.queue = task :: rest ∧ after.queue = rest ++ later.map .load ∧
    later.map Load.cell = before.cells.next later.length ∧
    (∀ next ∈ later, next.missingInclude = engine.config.missingInclude) ∧
    (engine.completes load = false ∧ after.cells = before.cells.allot later.length ∨
      engine.completes load = true ∧ ∃ output : Output, output.cells = later.map Load.cell ∧
        after.cells = (before.cells.allot later.length).set load.cell output)

/-- What is left when working off the queue after a pass has ended. Every cell has one task at most.
If the work ended well, every cell that the output shows has been filled exactly once, or never and
is empty, its load being passed over in silence. If the work failed, the cells that have been filled
are those of loads that came to their end; the cells of the failing task and of the tasks that still
wait are empty. What a cell was filled with stays. -/
structure DrainAccount (engine : Engine) (output : Output) (start : Stage)
    (drained : Drained Task Cells Stop) : Prop where
  runs : engine.Runs start drained.ran ⟨drained.state, drained.pending⟩
  owners : (cellsOf (drained.ran ++ drained.pending)).Nodup
  kept : ∀ early load late mid, drained.ran = early ++ .load load :: late →
    engine.Runs start early mid →
      drained.state.content load.cell = (engine.step mid).cells.content load.cell
  vacant : ∀ id ∈ cellsOf (drained.ran ++ drained.pending), id ∉ engine.filled drained.ran →
    drained.state.content id = .empty
  success : drained.failure = none → drained.pending = [] ∧
    ∀ id, drained.state.Reaches output id →
      (engine.filled drained.ran).count id = 1 ∨
      (id ∉ engine.filled drained.ran ∧ drained.state.content id = .empty ∧
        ∃ load, .load load ∈ drained.ran ∧ load.cell = id ∧ engine.PassesOver load)
  failure : ∀ stop, drained.failure = some stop → ∃ early task, drained.ran = early ++ [task] ∧
    ∀ id ∈ cellsOf (task :: drained.pending),
      id ∉ engine.filled drained.ran ∧ drained.state.content id = .empty

namespace Engine

variable {engine : Engine}

/-- A pass that comes to its end, seen as loads and cells made in step. -/
theorem pass_ok {template : Template} {context : Context} {stage next : Stage} {output : Output}
    (ok : engine.pass template context stage = (.ok output, next)) :
    ∃ loads : List Load, loads.map Load.cell = stage.cells.next loads.length ∧
      (∀ load ∈ loads, load.missingInclude = engine.config.missingInclude) ∧
      output.cells = loads.map Load.cell ∧
      next = ⟨stage.cells.allot loads.length, stage.queue ++ loads.map .load⟩ := by
  refine ⟨_, Placed.cells_ofDraft 1 engine.config.missingInclude stage.cells
    (template.draft engine.openings context []), fun _ member => (Placed.of_mem_loads member).2, ?_⟩
  unfold pass at ok
  dsimp only at ok
  split at ok
  · simp at ok
  · obtain ⟨rfl, rfl⟩ : _ ∧ _ := by simpa using ok
    exact ⟨Placed.cells_output _ _ _ _, rfl⟩

theorem passAccount {template : Template} {context : Context} {stage next : Stage} {output : Output}
    (ok : engine.pass template context stage = (.ok output, next)) :
    PassAccount engine stage output next := by
  obtain ⟨loads, fresh, policy, shows, rfl⟩ := pass_ok ok
  exact {
    owned := ⟨loads, rfl, shows.symm, policy⟩
    fresh := fun id member => by
      rw [shows, fresh] at member
      simpa using Cells.mem_next.1 member
    distinct := shows ▸ fresh ▸ stage.cells.nodup_next _
    vacant := fun id member => by
      rw [shows, fresh] at member
      simpa using Cells.content_of_size_le (Cells.mem_next.1 member).1
    kept := fun id _ => by simp }

/-- The cells of the output of a pass form a forest of single cells. -/
theorem forest_of_pass {template : Template} {context : Context} {stage next : Stage}
    {output : Output} (sound : stage.Sound)
    (ok : engine.pass template context stage = (.ok output, next)) : next.cells.Forest output := by
  obtain ⟨loads, fresh, _, shows, rfl⟩ := pass_ok ok
  exact {
    inBounds := fun id member => by
      rw [shows, fresh] at member
      simpa using (Cells.mem_next.1 member).2
    rising := sound.rising.allot loads.length
    once := by
      rw [shows, fresh, Cells.held_allot]
      apply List.perm_append_comm.nodup_iff.2
      have old : ∀ id ∈ stage.cells.held, id.index < stage.cells.size := fun id =>
        sound.rising.held_lt_size
      exact Cells.nodup_append_next sound.heldOnce old _ }

theorem stepAccount {stage : Stage} {task : Task} {rest : List Task}
    (first : stage.queue = task :: rest) : StepAccount engine task stage (engine.step stage) where
  job := by
    rintro job rfl
    rw [step_job engine first]
  load := by
    rintro load rfl
    obtain ⟨later, queue, effect⟩ := step_load engine first
    refine ⟨rest, later, first, queue, effect.fresh, effect.policy, ?_⟩
    cases completed : engine.completes load with
    | false => exact .inl ⟨rfl, effect.untouched completed⟩
    | true => exact .inr ⟨rfl, effect.fills completed⟩

theorem drainAccount {stage : Stage} {output : Output} (sound : stage.Sound)
    (roots : ∀ id ∈ output.cells, id ∈ cellsOf stage.queue) :
    DrainAccount engine output stage (engine.runUntilIdle stage) := by
  have runs := engine.runUntilIdle_runs stage
  have owners := runs.ownOnce sound
  refine ⟨runs, owners, ?_, fun id owned never => runs.vacant sound owned never, ?_, ?_⟩
  · intro early load late mid ran before
    rw [ran] at runs
    obtain ⟨mid', before', after⟩ := runs.split
    obtain rfl := before.unique before'
    exact Runs.content_of_ran sound before after
  · intro well
    have done := pending_eq_nil well
    refine ⟨done, ?_⟩
    intro id reaches
    have owned : id ∈ cellsOf _ := reaches.mem_of_closed
      (fun root standing => runs.owned_of_waiting (roots root standing))
      (runs.owned_of_held sound)
    have once : (engine.filled (engine.runUntilIdle stage).ran).Nodup :=
      (List.nodup_append.1 (by simpa using owners)).1.sublist (filled_sublist _)
    by_cases filled : id ∈ engine.filled (engine.runUntilIdle stage).ran
    · exact .inl (List.count_eq_one_of_mem once filled)
    · have empty := runs.vacant sound owned filled
      rw [done, List.append_nil] at owned
      obtain ⟨load, member, rfl⟩ := List.mem_map.1 owned
      rw [mem_loadsIn] at member
      rcases runUntilIdle_of_none well load member with completed | ⟨_, passes⟩
      · exact absurd (mem_filled.2 ⟨load, member, completed, rfl⟩) filled
      · exact .inr ⟨filled, empty, load, member, rfl, passes⟩
  · intro stop failed
    obtain ⟨early, task, ran, idle⟩ := runUntilIdle_of_some failed
    have apart : cellsOf ((engine.runUntilIdle stage).ran ++ (engine.runUntilIdle stage).pending) =
        cellsOf early ++ cellsOf (task :: (engine.runUntilIdle stage).pending) := by
      rw [ran, List.append_assoc, cellsOf_append]
      rfl
    refine ⟨early, task, ran, ?_⟩
    intro id owned
    have never : id ∉ engine.filled (engine.runUntilIdle stage).ran := by
      intro filled
      obtain ⟨load, member, completed, rfl⟩ := mem_filled.1 filled
      rw [ran] at member
      rcases List.mem_append.1 member with before | last
      · have before : load.cell ∈ cellsOf early :=
          List.mem_map.2 ⟨load, mem_loadsIn.2 before, rfl⟩
        exact (List.nodup_append.1 (apart ▸ owners)).2.2 _ before _ owned rfl
      · have last : task = .load load := (List.mem_singleton.1 last).symm
        simp [idle load last] at completed
    exact ⟨never, runs.vacant sound (apart ▸ List.mem_append_right _ owned) never⟩

end Engine

/-- No cell is lost, filled twice or crossed, from a pass that comes to its end on any stage that
can be reached to the end of the work that follows it, and at every moment in between. -/
theorem pass_and_drain_account (engine : Engine) (template : Template) (context : Context)
    {stage next : Stage} {output : Output} (reached : stage.Reached)
    (ok : engine.pass template context stage = (.ok output, next)) :
    PassAccount engine stage output next ∧
    (∀ ran mid, engine.Runs next ran mid →
      mid.cells.Forest output ∧
      (∀ bound, mid.cells.size ≤ bound →
        String.join (output.fragments.map (mid.cells.fragmentText bound)) = mid.cells.text output) ∧
      ∀ task rest, mid.queue = task :: rest → StepAccount engine task mid (engine.step mid)) ∧
    DrainAccount engine output next (engine.runUntilIdle next) := by
  have before := reached.sound
  have after : next.Sound := by
    have : next = (engine.pass template context stage).2 := by rw [ok]
    exact this ▸ (reached.pass engine template context).sound
  refine ⟨Engine.passAccount ok, fun ran mid runs => ?_, Engine.drainAccount after ?_⟩
  · have forest := runs.forest after (Engine.forest_of_pass before ok)
    exact ⟨forest, fun bound enough => forest.rising.text_bound output enough,
      fun task rest first => Engine.stepAccount first⟩
  · obtain ⟨loads, _, _, shows, rfl⟩ := Engine.pass_ok ok
    intro id standing
    rw [shows] at standing
    simp [standing]

/-- An engine that knows one template, `leaf`. -/
def leafEngine : Engine :=
  ⟨fun name => if name = "leaf" then some (.ofText "x") else none, {}, 65536⟩

/-- A context in which `part` names that template. -/
def leafContext : Context := .ofPairs [("part", .string "leaf")]

/-- A page that has one place, for the template that `part` names. -/
def leafPage : Template := ⟨"page", [.text "<", .inclusion (.bare "part"), .text ">"]⟩

/-- The source of that page. -/
def leafSource : Source := ⟨[.text "<", .opening "include" " part ", .text ">"]⟩

/-- What a pass over the page leaves. -/
def leafOutput : Output := ⟨[.text "<", .cell ⟨0⟩, .text ">"]⟩

/-- The stage after that pass, made by an engine with the given policy. -/
def leafStage (policy : MissingInclude) : Stage :=
  ⟨⟨#[.empty]⟩, [.load ⟨⟨.inclusion, "leaf", leafContext, []⟩, ⟨0⟩, 1, policy⟩]⟩

theorem leaf_page_account :
    Stage.empty.Reached ∧
      leafEngine.pass leafPage leafContext .empty = (.ok leafOutput, leafStage .silent) ∧
      PassAccount leafEngine .empty leafOutput (leafStage .silent) ∧
      DrainAccount leafEngine leafOutput (leafStage .silent)
        (leafEngine.runUntilIdle (leafStage .silent)) :=
  have ok : leafEngine.pass leafPage leafContext .empty = (.ok leafOutput, leafStage .silent) := rfl
  have account := pass_and_drain_account leafEngine leafPage leafContext .empty ok
  ⟨.empty, ok, account.1, account.2.2⟩

end Quire
