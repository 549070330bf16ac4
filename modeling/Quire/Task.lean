/-
Module: Quire.Task
Purpose: The tasks of the queue: loads that passes put off, and the work of clients.
Main exports: Load, Job, Task, Placed, Engine.performLoad, Engine.perform, Engine.worker
-/
import Quire.Engine
import Quire.Rendering
import Quire.Output
import Quire.Queue

/-!
A load fills one cell with a template that a pass asked for. The template may ask for more, and each
of its requests becomes a load of its own, one deeper. A load beyond the engine's limit fails before
it asks for anything; this is what lets the queue come to an end.
-/

namespace Quire

/-! ### Tasks -/

/-- A request that waits in the queue, and the cell it is to fill. -/
structure Load where
  request : Request
  cell : CellId
  /-- How many loads it is nested in, itself included. -/
  depth : Nat
  /-- What becomes of it if it is an inclusion of a template that cannot be loaded. This is the
  policy of the engine that put it off, whichever engine comes to carry it out. -/
  missingInclude : MissingInclude

/-- Work that a client puts in the queue. It puts its follow-ups in the queue in turn and then ends
well or fails. -/
structure Job where
  label : String
  followUps : List Job
  failure : Option Error

/-- An entry of the queue. -/
inductive Task where
  | load (load : Load)
  | job (job : Job)

mutual

/-- How deep follow-ups are nested in a job. -/
def Job.height : Job → Nat
  | ⟨_, followUps, _⟩ => heightOf followUps
termination_by structural job => job

/-- A bound on the nesting of the given jobs, themselves included. -/
def heightOf : List Job → Nat
  | [] => 0
  | job :: rest => max (job.height + 1) (heightOf rest)
termination_by structural jobs => jobs

end

/-- A job is nested less deep than the jobs it is one of. -/
theorem height_lt_heightOf {job : Job} {jobs : List Job} (h : job ∈ jobs) :
    job.height < heightOf jobs := by
  induction jobs with
  | nil => simp at h
  | cons first rest ih =>
      simp only [heightOf]
      rcases List.mem_cons.1 h with rfl | h
      · omega
      · have := ih h
        omega

/-- A job is nested as deep as its follow-ups. -/
theorem Job.height_eq (job : Job) : job.height = heightOf job.followUps := by
  cases job
  rfl

/-! ### From draft to output -/

/-- What the pieces of a draft become: fragments, and a load for each cell among them, in the order
of the cells. -/
structure Placed where
  fragments : List Fragment
  loads : List Load

namespace Placed

/-- Pieces as fragments. Each request becomes a cell, numbered from `next` on, and a load nested as
deep as given, put off under the given policy. -/
def ofPieces (depth : Nat) (policy : MissingInclude) (next : Nat) : List Piece → Placed
  | [] => ⟨[], []⟩
  | .text text :: rest =>
      let placed := ofPieces depth policy next rest
      { placed with fragments := Output.join (Output.ofText text).fragments placed.fragments }
  | .request request :: rest =>
      let placed := ofPieces depth policy (next + 1) rest
      ⟨.cell ⟨next⟩ :: placed.fragments, ⟨request, ⟨next⟩, depth, policy⟩ :: placed.loads⟩

/-- A draft among the cells there are. -/
def ofDraft (depth : Nat) (policy : MissingInclude) (cells : Cells) (draft : Draft) : Placed :=
  ofPieces depth policy cells.size draft.pieces

/-- The output of the fragments. -/
def output (placed : Placed) : Output :=
  ⟨placed.fragments⟩

/-- The cells there are, and one more for each load. -/
def among (placed : Placed) (cells : Cells) : Cells :=
  cells.allot placed.loads.length

variable {depth : Nat} {policy : MissingInclude} {next : Nat} {pieces : List Piece} {load : Load}

/-- Loads are nested as deep as they are said to be, and put off under the policy that they are said
to be. -/
theorem of_mem_loads (h : load ∈ (ofPieces depth policy next pieces).loads) :
    load.depth = depth ∧ load.missingInclude = policy := by
  induction pieces generalizing next with
  | nil => simp [ofPieces] at h
  | cons piece rest ih =>
      cases piece with
      | text _ => exact ih h
      | request request =>
          rcases List.mem_cons.1 h with rfl | h
          · exact ⟨rfl, rfl⟩
          · exact ih h

theorem depth_of_mem_loads (h : load ∈ (ofPieces depth policy next pieces).loads) :
    load.depth = depth :=
  (of_mem_loads h).1

end Placed

/-! ### Carrying out tasks -/

namespace Engine

/-- Carries out a load. A template that cannot be loaded leaves the cell empty if it was to be
included and the load was put off under the silent policy. The requests of the template wait one
deeper, put off under the policy of this engine. -/
def performLoad (engine : Engine) (load : Load) (cells : Cells) : Outcome Load Cells Stop :=
  let request := load.request
  if engine.config.maxDepth < load.depth then
    ⟨cells, [], some (.error (.tooDeep request.name engine.config.maxDepth))⟩
  else match engine.load request.name with
    | .error error =>
        if request.purpose = .inclusion ∧ load.missingInclude = .silent then
          ⟨cells, [], none⟩
        else ⟨cells, [], some (.error error)⟩
    | .ok template =>
        let draft := template.draft engine.openings request.context request.overrides
        let placed := Placed.ofDraft (load.depth + 1) engine.config.missingInclude cells draft
        let among := placed.among cells
        match draft.stop with
        | some stop => ⟨among, placed.loads, some stop⟩
        | none => ⟨among.set load.cell placed.output, placed.loads, none⟩

/-- Carries out a task. -/
def perform (engine : Engine) (task : Task) (cells : Cells) : Outcome Task Cells Stop :=
  match task with
  | .load load =>
      let outcome := engine.performLoad load cells
      ⟨outcome.state, outcome.deferred.map .load, outcome.failure⟩
  | .job job => ⟨cells, job.followUps.map .job, job.failure.map .error⟩

/-- How much more nesting a task may lead to. -/
def rank (engine : Engine) : Task → Nat
  | .load load => engine.config.maxDepth + 1 - load.depth
  | .job job => job.height

/-- A load within the limit puts off loads one deeper, under the policy of the engine that carries
it out, and one beyond the limit none. -/
theorem of_mem_deferred {engine : Engine} {load later : Load} {cells : Cells}
    (h : later ∈ (engine.performLoad load cells).deferred) :
    load.depth ≤ engine.config.maxDepth ∧ later.depth = load.depth + 1 ∧
      later.missingInclude = engine.config.missingInclude := by
  unfold performLoad at h
  dsimp only at h
  split at h
  · simp at h
  · refine ⟨by omega, ?_⟩
    split at h
    · split at h <;> simp at h
    · split at h <;> exact Placed.of_mem_loads h

/-- Whatever a task defers may lead to less nesting than the task itself. -/
theorem rank_lt_of_mem_deferred (engine : Engine) (task : Task) (cells : Cells) :
    ∀ later ∈ (engine.perform task cells).deferred, engine.rank later < engine.rank task := by
  intro later member
  cases task with
  | load load =>
      obtain ⟨next, deferred, rfl⟩ := List.mem_map.1 member
      have := of_mem_deferred deferred
      simp only [rank]
      omega
  | job job =>
      obtain ⟨next, followUp, rfl⟩ := List.mem_map.1 member
      have := height_lt_heightOf followUp
      simpa only [rank, Job.height_eq job] using this

/-- The engine at work on its queue. -/
def worker (engine : Engine) : Worker Task Cells Stop where
  perform := engine.perform
  rank := engine.rank
  rank_lt := engine.rank_lt_of_mem_deferred

end Engine

end Quire
