/-
Module: Quire.Proofs.Depth
Purpose: Working off the queue ends: every load is one deeper than the load whose template asked for
  it, and a load beyond the engine's limit asks for nothing.
Main exports: Engine.PutsOff, Load.Brings, Engine.performLoad_brings, Engine.runs_bounded,
  Engine.Nests, DepthAccount, drain_ends
-/
import Quire.Proofs.FillOnce

/-!
A task may lengthen the queue by any number of tasks, so that the length of the queue tells nothing
about when it will be empty. What decreases is the room that the waiting loads leave below the
limit. A load brings others only while the template that it has loaded is rendered, all of them one
deeper than itself, and it brings none once it is beyond the limit. This holds whatever names the
variables hold, and however many templates there are.
-/

namespace Quire

/-- The loads of placed pieces carry the requests among them, in order. -/
theorem Placed.requests_ofPieces (depth : Nat) (policy : MissingInclude) (next : Nat)
    (pieces : List Piece) (stop : Option Stop) :
    (Placed.ofPieces depth policy next pieces).loads.map Load.request =
      (Draft.mk pieces stop).requests := by
  induction pieces generalizing next with
  | nil => rfl
  | cons piece rest ih =>
      cases piece with
      | text text => exact ih next
      | request request => exact congrArg (request :: ·) (ih (next + 1))

/-- The loads of a placed draft carry its requests, in order. -/
theorem Placed.requests_ofDraft (depth : Nat) (policy : MissingInclude) (cells : Cells)
    (draft : Draft) :
    (Placed.ofDraft depth policy cells draft).loads.map Load.request = draft.requests :=
  requests_ofPieces depth policy cells.size draft.pieces draft.stop

/-! ### What one load brings -/

/-- A pass over a template puts off these loads, nested as deep as given and under the policy of the
engine: one for each of its requests, in their order. -/
def Engine.PutsOff (engine : Engine) (template : Template) (context : Context)
    (overrides : Overrides) (depth : Nat) (loads : List Load) : Prop :=
  loads.map Load.request = (template.draft engine.openings context overrides).requests ∧
    ∀ load ∈ loads, load.depth = depth ∧ load.missingInclude = engine.config.missingInclude

/-- A load within the limit brings those that a pass over the template that it has loaded puts off,
nested one deeper than itself. -/
def Load.Brings (engine : Engine) (load : Load) (later : List Load) : Prop :=
  load.depth ≤ engine.config.maxDepth ∧ ∃ template, engine.load load.request.name = .ok template ∧
    engine.PutsOff template load.request.context load.request.overrides (load.depth + 1) later

namespace Engine

variable {engine : Engine}

theorem putsOff_ofDraft (engine : Engine) (template : Template) (context : Context)
    (overrides : Overrides) (depth : Nat) (cells : Cells) :
    engine.PutsOff template context overrides depth
      (Placed.ofDraft depth engine.config.missingInclude cells
        (template.draft engine.openings context overrides)).loads :=
  ⟨Placed.requests_ofDraft _ _ _ _, fun _ member => Placed.of_mem_loads member⟩

/-- A load beyond the limit fails, and does nothing else. -/
theorem performLoad_beyond {load : Load} (beyond : engine.config.maxDepth < load.depth)
    (cells : Cells) : engine.performLoad load cells =
      ⟨cells, [], some (.error (.tooDeep load.request.name engine.config.maxDepth))⟩ := by
  simp [performLoad, beyond]

/-- A load brings nothing, or what the template that it has loaded asks for. -/
theorem performLoad_brings (engine : Engine) (load : Load) (cells : Cells) :
    (engine.performLoad load cells).deferred = [] ∨
      load.Brings engine (engine.performLoad load cells).deferred := by
  obtain ⟨_, _, outcome⟩ | ⟨_, _, _, _, outcome⟩ |
    ⟨within, template, draft, placed, loaded, rfl, rfl, _, outcome⟩ :=
      performLoad_cases engine load cells
  · exact .inl (by rw [outcome])
  · exact .inl (by rw [outcome])
  · refine .inr ⟨within, template, loaded, ?_⟩
    rw [outcome]
    exact engine.putsOff_ofDraft template _ _ _ cells

/-! ### Runs are bounded -/

/-- However a stage has come about, no run from it is longer than some number of tasks. -/
theorem runs_bounded (engine : Engine) (stage : Stage) :
    ∃ bound, ∀ ran last, engine.Runs stage ran last → ran.length ≤ bound := by
  obtain ⟨cells, queue⟩ := stage
  suffices waiting : ∀ waiting : Waiting engine.rank, ∀ cells, ∃ bound, ∀ ran last,
      engine.Runs ⟨cells, waiting.tasks⟩ ran last → ran.length ≤ bound from waiting ⟨queue⟩ cells
  intro waiting
  induction waiting using WellFounded.induction Waiting.wellFounded_after with
  | _ waiting ih =>
      obtain ⟨queue⟩ := waiting
      intro cells
      cases queue with
      | nil =>
          refine ⟨0, fun ran last runs => ?_⟩
          cases runs with
          | none => exact Nat.le_refl _
          | next first _ => exact nomatch first
      | cons task rest =>
          -- all runs begin with the same task and go on from the same stage
          have after := Waiting.After.step task rest _ (engine.rank_lt_of_mem_deferred task cells)
          obtain ⟨bound, bounded⟩ := ih _ after (engine.perform task cells).state
          refine ⟨bound + 1, fun ran last runs => ?_⟩
          cases runs with
          | none => exact Nat.zero_le _
          | next first others =>
              cases first
              exact Nat.succ_le_succ (bounded _ _ others)

/-- Where working off the queue fails, it does so at the last task that was carried out, for the
reason that the task has. -/
theorem failure_of_last {stage : Stage} {stop : Stop}
    (failed : (engine.runUntilIdle stage).failure = some stop) :
    ∃ early task rest mid, (engine.runUntilIdle stage).ran = early ++ [task] ∧
      engine.Runs stage early mid ∧ mid.queue = task :: rest ∧
      (engine.perform task mid.cells).failure = some stop := by
  obtain ⟨cells, queue⟩ := stage
  simp only [runUntilIdle] at failed ⊢
  fun_induction engine.worker.drain queue cells with
  | case1 cells => simp at failed
  | case2 cells task rest outcome stop' failed' =>
      cases failed
      exact ⟨[], task, rest, ⟨cells, task :: rest⟩, rfl, .none _, rfl, failed'⟩
  | case3 cells task rest outcome fine later ih =>
      obtain ⟨early, last, others, mid, ran, before, first, reason⟩ := ih failed
      exact ⟨task :: early, last, others, mid, congrArg (task :: ·) ran, .next rfl before, first,
        reason⟩

end Engine

/-! ### How deep loads are nested -/

/-- The tasks are loads, nested at least once and at most one deeper than the engine's limit. -/
def Engine.Nests (engine : Engine) (tasks : List Task) : Prop :=
  ∀ task ∈ tasks, ∃ load, task = .load load ∧
    1 ≤ load.depth ∧ load.depth ≤ engine.config.maxDepth + 1

namespace Engine

variable {engine : Engine}

/-- The tasks of a run, and those that wait after it, are nested as those that wait before it: what
a load brings is nested as loads are. -/
theorem Runs.nests {stage last : Stage} {ran : List Task} (runs : engine.Runs stage ran last)
    (nests : engine.Nests stage.queue) : engine.Nests (ran ++ last.queue) := by
  refine runs.forall_mem ?_ nests
  rintro task cells ⟨load, rfl, _⟩ other brought
  obtain ⟨later, deferred, rfl⟩ := List.mem_map.1 brought
  have := of_mem_deferred deferred
  exact ⟨later, rfl, by omega, by omega⟩

/-- A pass with nothing before it leaves a queue of the loads that it puts off, nested once. -/
theorem pass_putsOff (engine : Engine) (template : Template) (context : Context) :
    ∃ loads, (engine.pass template context .empty).2.queue = loads.map .load ∧
      engine.PutsOff template context [] 1 loads := by
  refine ⟨_, ?_, engine.putsOff_ofDraft template context [] 1 Stage.empty.cells⟩
  unfold pass
  dsimp only
  split <;> simp [Stage.empty]

end Engine

/-- How loads are nested in a run, up to a stage on the way: all tasks so far, and all that wait,
are loads nested at most one deeper than the limit. The load at the front of the queue puts nothing
in the queue, or what it brings, one deeper than itself. One that is nested one deeper than the
limit leaves all as it is and fails for its depth. -/
structure DepthAccount (engine : Engine) (ran : List Task) (mid : Stage) : Prop where
  nests : engine.Nests (ran ++ mid.queue)
  step : ∀ load rest, mid.queue = .load load :: rest → ∃ later,
    (engine.step mid).queue = rest ++ later.map .load ∧ (later = [] ∨ load.Brings engine later)
  beyond : ∀ load rest, mid.queue = .load load :: rest →
    load.depth = engine.config.maxDepth + 1 → engine.performLoad load mid.cells =
      ⟨mid.cells, [], some (.error (.tooDeep load.request.name engine.config.maxDepth))⟩

/-- Every stage of a run whose tasks are nested as loads are keeps that account. -/
theorem Engine.Runs.depthAccount {engine : Engine} {stage mid : Stage} {ran : List Task}
    (runs : engine.Runs stage ran mid) (nests : engine.Nests stage.queue) :
    DepthAccount engine ran mid where
  nests := runs.nests nests
  step load rest first :=
    ⟨(engine.performLoad load mid.cells).deferred, by simp [Engine.step, first, Engine.perform],
      engine.performLoad_brings load mid.cells⟩
  beyond load rest _ deep := Engine.performLoad_beyond (by omega) mid.cells

/-- Working off the queue ends. A pass with nothing before it leaves a queue of what it puts off,
nested once. No run from there is longer than some number of tasks; every run, whether it is
continued after a failure or not, nests its loads as it should; and working off the queue is such a
run, which ends with an empty queue or with the failure of its last task. -/
theorem drain_ends (engine : Engine) (template : Template) (context : Context) :
    let start := (engine.pass template context .empty).2
    let drained := engine.runUntilIdle start
    (∃ loads, start.queue = loads.map .load ∧ engine.PutsOff template context [] 1 loads) ∧
    (∃ bound, ∀ ran mid, engine.Runs start ran mid → ran.length ≤ bound) ∧
    (∀ ran mid, engine.Runs start ran mid → DepthAccount engine ran mid) ∧
    engine.Runs start drained.ran ⟨drained.state, drained.pending⟩ ∧
    (drained.failure = none → drained.pending = []) ∧
    ∀ stop, drained.failure = some stop → ∃ early task rest mid, drained.ran = early ++ [task] ∧
      engine.Runs start early mid ∧ mid.queue = task :: rest ∧
      (engine.perform task mid.cells).failure = some stop := by
  intro start drained
  obtain ⟨loads, queue, put⟩ := engine.pass_putsOff template context
  have nests : engine.Nests start.queue := by
    intro task member
    rw [queue] at member
    obtain ⟨load, waits, rfl⟩ := List.mem_map.1 member
    have once := (put.2 load waits).1
    exact ⟨load, rfl, by omega, by omega⟩
  exact ⟨⟨loads, queue, put⟩, engine.runs_bounded start,
    fun ran mid runs => runs.depthAccount nests, engine.runUntilIdle_runs start,
    Engine.pending_eq_nil, fun stop => Engine.failure_of_last⟩

end Quire
