/-
Module: Quire.Proofs.QueueOrder
Purpose: The queue loses no task, carries out none twice and keeps them in the order in which they
  were put in, over any history of calls and whichever tasks fail.
Main exports: Turn, Engine.turns, Call, Event, Allows, Engine.history, WorkAccount, breadthFirst,
  eq_breadthFirst, calls_keep_order
-/
import Mathlib.Data.List.Induction
import Quire.Proofs.FillOnce

/-!
A history of calls is seen as the events on the queue, one after another: a task is put in, by a
client or by a task that is being carried out, a task is taken out and begins, a task ends. Each
event is what a queue allows at that moment, and from this alone it follows that the tasks begun so
far and those that wait are all that were ever put in, in their order. For jobs this order is an
equation: it is the jobs of the start followed by what the jobs in it put in. An order that solves
the equation goes through the jobs level by level.
-/

namespace Quire

/-! ### Turns -/

/-- A task that was carried out, and what came of it. -/
structure Turn where
  task : Task
  outcome : Outcome Task Cells Stop

/-- What turns put in the queue, in order. -/
def laterOf (turns : List Turn) : List Task :=
  turns.flatMap fun turn => turn.outcome.deferred

/-- The failures of turns, in order. -/
def failuresOf (turns : List Turn) : List Stop :=
  turns.filterMap fun turn => turn.outcome.failure

namespace Engine

/-- Tasks carried out one after another, each with what comes of it. -/
def turns (engine : Engine) : List Task → Cells → List Turn
  | [], _ => []
  | task :: rest, cells =>
      let outcome := engine.perform task cells
      ⟨task, outcome⟩ :: engine.turns rest outcome.state

variable {engine : Engine}

theorem map_task_turns (engine : Engine) (tasks : List Task) (cells : Cells) :
    (engine.turns tasks cells).map Turn.task = tasks := by
  induction tasks generalizing cells with
  | nil => rfl
  | cons task rest ih => simp [turns, ih]

/-- The turns of a run that goes on are those up to any stage on the way and those from there. -/
theorem Runs.turns_append {stage mid : Stage} {early : List Task}
    (runs : engine.Runs stage early mid) (late : List Task) :
    engine.turns (early ++ late) stage.cells =
      engine.turns early stage.cells ++ engine.turns late mid.cells := by
  induction runs with
  | none => rfl
  | next first _ ih =>
      simp only [step, first] at ih
      simp only [List.cons_append, turns, ih]

/-- What a run takes from the queue and what it leaves there is what there was and what the tasks of
the run put in. -/
theorem Runs.order {stage last : Stage} {ran : List Task} (runs : engine.Runs stage ran last) :
    ran ++ last.queue = stage.queue ++ laterOf (engine.turns ran stage.cells) := by
  induction runs with
  | none => simp [turns, laterOf]
  | @next stage last task rest ran first _ ih =>
      simp only [step, first] at ih
      simp only [List.cons_append, ih, first, turns, laterOf, List.flatMap_cons, List.append_assoc]

/-- From a stage with an empty queue no task can be carried out. -/
theorem Runs.eq_of_idle {stage last : Stage} {ran : List Task} (runs : engine.Runs stage ran last)
    (idle : stage.queue = []) : ran = [] ∧ last = stage := by
  cases runs with
  | none => exact ⟨rfl, rfl⟩
  | next first _ => simp [idle] at first

/-- A run that leaves an empty queue begins with every other run from the same stage. -/
theorem Runs.beyond {stage last mid : Stage} {ran early : List Task}
    (runs : engine.Runs stage ran last) (idle : last.queue = [])
    (other : engine.Runs stage early mid) :
    ∃ late, ran = early ++ late ∧ engine.Runs mid late last := by
  induction other generalizing ran with
  | none => exact ⟨ran, rfl, runs⟩
  | next first _ ih =>
      cases runs with
      | none => simp [idle] at first
      | next first' others =>
          cases first.symm.trans first'
          obtain ⟨late, rfl, after⟩ := ih others
          exact ⟨late, rfl, after⟩

/-- The tasks of every stage can be carried out to the last, failures or not. -/
theorem exists_idle_run (engine : Engine) (stage : Stage) :
    ∃ ran last, engine.Runs stage ran last ∧ last.queue = [] := by
  obtain ⟨cells, queue⟩ := stage
  suffices waiting : ∀ waiting : Waiting engine.rank, ∀ cells, ∃ ran last,
      engine.Runs ⟨cells, waiting.tasks⟩ ran last ∧ last.queue = [] from waiting ⟨queue⟩ cells
  intro waiting
  induction waiting using WellFounded.induction Waiting.wellFounded_after with
  | _ waiting ih =>
      obtain ⟨queue⟩ := waiting
      intro cells
      cases queue with
      | nil => exact ⟨[], _, .none _, rfl⟩
      | cons task rest =>
          have after := Waiting.After.step task rest _ (engine.rank_lt_of_mem_deferred task cells)
          obtain ⟨ran, last, runs, idle⟩ := ih _ after (engine.perform task cells).state
          exact ⟨task :: ran, last, .next rfl runs, idle⟩

end Engine

/-! ### What one call to work off the queue comes to -/

/-- What working off the queue of a stage comes to. Either nothing is left, and no task failed. Or
the last task that was carried out failed, for the reason that is given, and no other; then what
waited behind it is left, and after that what the failing task itself put in. -/
structure WorkAccount (engine : Engine) (before : Stage) (drained : Drained Task Cells Stop) :
    Prop where
  success : drained.failure = none → drained.pending = [] ∧
    ∀ turn ∈ engine.turns drained.ran before.cells, turn.outcome.failure = none
  failure : ∀ stop, drained.failure = some stop → ∃ early last behind,
    engine.turns drained.ran before.cells = early ++ [last] ∧
    last.outcome.failure = some stop ∧
    (∀ turn ∈ early, turn.outcome.failure = none) ∧
    before.queue ++ laterOf early = early.map Turn.task ++ last.task :: behind ∧
    drained.pending = behind ++ last.outcome.deferred

namespace Engine

variable {engine : Engine}

theorem workAccount (engine : Engine) (stage : Stage) :
    WorkAccount engine stage (engine.runUntilIdle stage) := by
  obtain ⟨cells, queue⟩ := stage
  simp only [runUntilIdle]
  fun_induction engine.worker.drain queue cells with
  | case1 cells => exact ⟨fun _ => ⟨rfl, by simp [turns]⟩, by simp⟩
  | case2 cells task rest outcome stop failed =>
      refine ⟨by simp, ?_⟩
      rintro stop' ⟨⟩
      exact ⟨[], ⟨task, outcome⟩, rest, rfl, failed, by simp, by simp [laterOf], rfl⟩
  | case3 cells task rest outcome fine later ih =>
      have fine : (engine.perform task cells).failure = none := fine
      constructor
      · intro well
        obtain ⟨done, others⟩ := ih.success well
        exact ⟨done, List.forall_mem_cons.2 ⟨fine, others⟩⟩
      · intro stop failed
        obtain ⟨early, last, behind, ran, reason, others, waited, left⟩ := ih.failure stop failed
        refine ⟨⟨task, engine.perform task cells⟩ :: early, last, behind, ?_, reason,
          List.forall_mem_cons.2 ⟨fine, others⟩, ?_, left⟩
        · exact congrArg (_ :: ·) ran
        · simp only [List.append_assoc] at waited
          simp only [laterOf, List.flatMap_cons, List.cons_append, List.map_cons, List.cons.injEq,
            true_and]
          exact waited

end Engine

/-- One call reports the failures of its tasks: none or one. -/
theorem WorkAccount.failuresOf {engine : Engine} {stage : Stage}
    {drained : Drained Task Cells Stop} (account : WorkAccount engine stage drained) :
    failuresOf (engine.turns drained.ran stage.cells) = drained.failure.toList := by
  cases failure : drained.failure with
  | none =>
      have fine := (account.success failure).2
      exact List.filterMap_eq_nil_iff.2 fine
  | some stop =>
      obtain ⟨early, last, behind, ran, reason, fine, _⟩ := account.failure stop failure
      have none : Quire.failuresOf early = [] := List.filterMap_eq_nil_iff.2 fine
      rw [ran, Quire.failuresOf, List.filterMap_append]
      simp only [Quire.failuresOf] at none
      simp [none, reason]

/-! ### Events -/

/-- What happens on a queue. -/
inductive Event where
  /-- A task is put at the end, by a client or by the task that is being carried out. -/
  | deferred (task : Task)
  /-- The task at the front is taken out and carried out. -/
  | begun (task : Task)
  /-- The task that is being carried out has ended, well or with a failure. -/
  | ended (failure : Option Stop)
  /-- A client has been told how many tasks wait. -/
  | counted (count : Nat)
  /-- A client has been told that the queue was worked off, or why not. -/
  | answered (failure : Option Stop)

/-- What a queue becomes by an event. -/
def Event.queue (queue : List Task) : Event → List Task
  | .deferred task => queue ++ [task]
  | .begun _ => queue.tail
  | .ended _ | .counted _ | .answered _ => queue

/-- An event is one that a queue allows: only the task at the front begins, and what is counted are
the tasks that wait. -/
def Event.Fits (queue : List Task) : Event → Prop
  | .begun task => queue.head? = some task
  | .counted count => count = queue.length
  | .deferred _ | .ended _ | .answered _ => True

/-- The tasks that were put in, in order. -/
def deferredIn (events : List Event) : List Task :=
  events.filterMap fun
    | .deferred task => some task
    | _ => none

/-- The tasks that have been carried out, in order. The last of them may not have ended yet. -/
def begunIn (events : List Event) : List Task :=
  events.filterMap fun
    | .begun task => some task
    | _ => none

/-- What clients have been told about the work, in order. -/
def answersIn (events : List Event) : List (Option Stop) :=
  events.filterMap fun
    | .answered failure => some failure
    | _ => none

/-- The tasks that wait after events on a queue that was empty. -/
def waitingAfter (events : List Event) : List Task :=
  events.foldl Event.queue []

/-- Events one after another, each of which the queue allows when it happens. -/
def Allows (queue : List Task) : List Event → Prop
  | [] => True
  | event :: rest => event.Fits queue ∧ Allows (event.queue queue) rest

theorem allows_append {queue : List Task} {events others : List Event} :
    Allows queue (events ++ others) ↔
      Allows queue events ∧ Allows (events.foldl Event.queue queue) others := by
  induction events generalizing queue with
  | nil => simp [Allows]
  | cons event rest ih => simp [Allows, ih, and_assoc]

theorem allows_singleton {queue : List Task} {event : Event} :
    Allows queue [event] ↔ event.Fits queue := by
  simp [Allows]

/-- What has begun, followed by what waits, is what waited before and was put in since. -/
theorem Allows.order {queue : List Task} {events : List Event} (allows : Allows queue events) :
    begunIn events ++ events.foldl Event.queue queue = queue ++ deferredIn events := by
  induction events generalizing queue with
  | nil => simp [begunIn, deferredIn]
  | cons event rest ih =>
      obtain ⟨fits, others⟩ := allows
      have ih := ih others
      simp only [begunIn, deferredIn, List.foldl_cons] at ih ⊢
      cases event with
      | deferred task => simpa [Event.queue] using ih
      | begun task =>
          obtain ⟨behind, rfl⟩ : ∃ behind, queue = task :: behind := List.head?_eq_some_iff.1 fits
          simpa [Event.queue] using ih
      | ended failure => simpa [Event.queue] using ih
      | counted count => simpa [Event.queue] using ih
      | answered failure => simpa [Event.queue] using ih

/-- Tasks may be put in at any moment, and then wait behind all others. -/
theorem allows_map_deferred (queue tasks : List Task) :
    Allows queue (tasks.map .deferred) ∧
      (tasks.map Event.deferred).foldl Event.queue queue = queue ++ tasks := by
  induction tasks generalizing queue with
  | nil => simp [Allows]
  | cons task rest ih =>
      obtain ⟨allows, waiting⟩ := ih (queue ++ [task])
      refine ⟨⟨trivial, allows⟩, ?_⟩
      simpa [Event.queue] using waiting

/-! ### Histories -/

/-- A call on a stage. -/
inductive Call where
  | defer (task : Task)
  | pending
  | work

/-- A stage, and the events on its queue so far. -/
structure History where
  stage : Stage
  events : List Event

/-- The events of one turn. -/
def Turn.events (turn : Turn) : List Event :=
  .begun turn.task :: turn.outcome.deferred.map .deferred ++ [.ended turn.outcome.failure]

namespace Engine

/-- A history after one more call. -/
def call (engine : Engine) (history : History) : Call → History
  | .defer task => ⟨history.stage.defer task, history.events ++ [.deferred task]⟩
  | .pending => ⟨history.stage, history.events ++ [.counted history.stage.pending]⟩
  | .work =>
      let drained := engine.runUntilIdle history.stage
      let turns := engine.turns drained.ran history.stage.cells
      ⟨⟨drained.state, drained.pending⟩,
        history.events ++ (turns.flatMap Turn.events ++ [.answered drained.failure])⟩

/-- The history of calls on an empty queue. -/
def history (engine : Engine) (cells : Cells) (calls : List Call) : History :=
  calls.foldl engine.call ⟨⟨cells, []⟩, []⟩

variable {engine : Engine}

theorem history_append (engine : Engine) (cells : Cells) (calls others : List Call) :
    engine.history cells (calls ++ others) =
      others.foldl engine.call (engine.history cells calls) :=
  List.foldl_append

/-- The events of a run are such as the queue allows, and lead to the queue that the run leaves. -/
theorem Runs.allows {stage last : Stage} {ran : List Task} (runs : engine.Runs stage ran last) :
    Allows stage.queue ((engine.turns ran stage.cells).flatMap Turn.events) ∧
      ((engine.turns ran stage.cells).flatMap Turn.events).foldl Event.queue stage.queue =
        last.queue := by
  induction runs with
  | none => exact ⟨trivial, rfl⟩
  | @next stage last task rest ran first _ ih =>
      simp only [step, first] at ih
      obtain ⟨allows, waiting⟩ := allows_map_deferred rest
        (engine.perform task stage.cells).deferred
      simp only [turns, List.flatMap_cons, Turn.events, List.cons_append, Allows, allows_append,
        List.foldl_cons, List.foldl_append, first, Event.queue, List.tail_cons, waiting,
        List.foldl_nil]
      exact ⟨⟨rfl, ⟨allows, trivial, trivial⟩, ih.1⟩, ih.2⟩

/-- A call goes on with events that the queue allows. -/
theorem allows_call {history : History} (call : Call)
    (allows : Allows [] history.events)
    (waiting : waitingAfter history.events = history.stage.queue) :
    Allows [] (engine.call history call).events ∧
      waitingAfter (engine.call history call).events = (engine.call history call).stage.queue := by
  simp only [waitingAfter] at waiting ⊢
  cases call with
  | defer task =>
      simp [Engine.call, allows_append, allows, waiting, allows_singleton, Event.Fits,
        Event.queue, Stage.defer]
  | pending =>
      simp [Engine.call, allows_append, allows, waiting, allows_singleton, Event.Fits,
        Event.queue, Stage.pending]
  | work =>
      obtain ⟨more, after⟩ := (engine.runUntilIdle_runs history.stage).allows
      simp only [Engine.call, allows_append, List.foldl_append, waiting, after]
      exact ⟨⟨allows, more, allows_singleton.2 trivial⟩, rfl⟩

/-- Every history consists of events that the queue allows, and they lead to its queue. -/
theorem allows_history (engine : Engine) (cells : Cells) (calls : List Call) :
    Allows [] (engine.history cells calls).events ∧
      waitingAfter (engine.history cells calls).events =
        (engine.history cells calls).stage.queue := by
  induction calls using List.reverseRecOn with
  | nil => exact ⟨trivial, rfl⟩
  | append_singleton calls call ih =>
      rw [history_append, List.foldl_cons, List.foldl_nil]
      exact allows_call call ih.1 ih.2

end Engine

/-! ### Working on until nothing is left -/

theorem begunIn_append (events others : List Event) :
    begunIn (events ++ others) = begunIn events ++ begunIn others :=
  List.filterMap_append

theorem answersIn_append (events others : List Event) :
    answersIn (events ++ others) = answersIn events ++ answersIn others :=
  List.filterMap_append

theorem Turn.begunIn_events (turn : Turn) : begunIn turn.events = [turn.task] := by
  simp [Turn.events, begunIn, List.filterMap_map]

theorem Turn.answersIn_events (turn : Turn) : answersIn turn.events = [] := by
  simp [Turn.events, answersIn, List.filterMap_map]

theorem begunIn_turns (turns : List Turn) :
    begunIn (turns.flatMap Turn.events) = turns.map Turn.task := by
  induction turns with
  | nil => rfl
  | cons turn rest ih => simp [begunIn_append, turn.begunIn_events, ih]

theorem answersIn_turns (turns : List Turn) : answersIn (turns.flatMap Turn.events) = [] := by
  induction turns with
  | nil => rfl
  | cons turn rest ih => simp [answersIn_append, turn.answersIn_events, ih]

namespace Engine

variable {engine : Engine}

theorem begunIn_work (engine : Engine) (history : History) :
    begunIn (engine.call history .work).events =
      begunIn history.events ++ (engine.runUntilIdle history.stage).ran := by
  have told : begunIn [.answered (engine.runUntilIdle history.stage).failure] = [] := rfl
  simp only [call, begunIn_append, begunIn_turns, map_task_turns, told, List.append_nil]

theorem answersIn_work (engine : Engine) (history : History) :
    answersIn (engine.call history .work).events =
      answersIn history.events ++ [(engine.runUntilIdle history.stage).failure] := by
  have told : answersIn [.answered (engine.runUntilIdle history.stage).failure] =
      [(engine.runUntilIdle history.stage).failure] := rfl
  simp only [call, answersIn_append, answersIn_turns, told, List.nil_append]

/-- What a call carries out is the beginning of the run to the last task, and what is left is the
rest of it. -/
theorem beyond_work {history : History} {ran : List Task} {last : Stage}
    (runs : engine.Runs history.stage ran last) (idle : last.queue = []) :
    ∃ late, ran = (engine.runUntilIdle history.stage).ran ++ late ∧
      engine.Runs (engine.call history .work).stage late last :=
  runs.beyond idle (engine.runUntilIdle_runs history.stage)

/-- However often the queue is worked off, what is carried out is the beginning of the run to the
last task. -/
theorem begunIn_drains {history : History} {ran : List Task} {last : Stage}
    (runs : engine.Runs history.stage ran last) (idle : last.queue = []) (drains : Nat) :
    begunIn ((List.replicate drains .work).foldl engine.call history).events <+:
      begunIn history.events ++ ran := by
  induction drains generalizing history ran with
  | zero => exact List.prefix_append _ _
  | succ drains ih =>
      obtain ⟨late, rfl, after⟩ := beyond_work runs idle
      have more := ih after
      rwa [begunIn_work, List.append_assoc] at more

/-- Working off the queue once for each task that will fail, and once more, carries out all tasks.
The calls report the failures in order, and the last one that nothing is left. -/
theorem work_on {history : History} {ran : List Task} {last : Stage}
    (runs : engine.Runs history.stage ran last) (idle : last.queue = []) {failures : List Stop}
    (fail : failuresOf (engine.turns ran history.stage.cells) = failures) :
    let after := (List.replicate (failures.length + 1) .work).foldl engine.call history
    after.stage.queue = [] ∧ begunIn after.events = begunIn history.events ++ ran ∧
      answersIn after.events = answersIn history.events ++ (failures.map some ++ [none]) := by
  induction failures generalizing history ran with
  | nil =>
      obtain ⟨late, rfl, after⟩ := beyond_work runs idle
      have split := (engine.runUntilIdle_runs history.stage).turns_append late
      rw [split, failuresOf, List.filterMap_append, List.append_eq_nil_iff] at fail
      have well := (engine.workAccount history.stage).failuresOf.symm.trans fail.1
      have well : (engine.runUntilIdle history.stage).failure = none := by simpa using well
      have done := pending_eq_nil well
      obtain ⟨rfl, _⟩ := after.eq_of_idle done
      refine ⟨done, ?_, ?_⟩
      · simp [begunIn_work]
      · simp [answersIn_work, well]
  | cons stop failures ih =>
      obtain ⟨late, rfl, after⟩ := beyond_work runs idle
      have split := (engine.runUntilIdle_runs history.stage).turns_append late
      rw [split, failuresOf, List.filterMap_append] at fail
      have first := (engine.workAccount history.stage).failuresOf
      rw [failuresOf] at first
      rw [first] at fail
      cases failure : (engine.runUntilIdle history.stage).failure with
      | none =>
          -- a call that ends well leaves nothing that could fail
          have done := pending_eq_nil failure
          obtain ⟨rfl, _⟩ := after.eq_of_idle done
          simp [failure, turns] at fail
      | some stop' =>
          simp only [failure, Option.toList_some, List.singleton_append, List.cons.injEq] at fail
          obtain ⟨rfl, fail⟩ := fail
          obtain ⟨empty, begun, answers⟩ := ih after fail
          refine ⟨empty, ?_, ?_⟩
          · rw [begunIn_work, List.append_assoc] at begun
            exact begun
          · rw [answersIn_work, failure, List.append_assoc] at answers
            exact answers

end Engine

/-! ### Jobs and their levels -/

theorem heightOf_le_iff {jobs : List Job} {bound : Nat} :
    heightOf jobs ≤ bound ↔ ∀ job ∈ jobs, job.height < bound := by
  induction jobs with
  | nil => simp [heightOf]
  | cons job rest ih =>
      rw [heightOf, Nat.max_le, Nat.succ_le_iff, ih]
      simp

/-- What jobs put in the queue, in order. -/
def followUpsOf (jobs : List Job) : List Job :=
  jobs.flatMap Job.followUps

/-- What jobs put in the queue is nested less deep than the jobs. -/
theorem heightOf_followUpsOf_lt {jobs : List Job} (some : jobs ≠ []) :
    heightOf (followUpsOf jobs) < heightOf jobs := by
  have positive : 0 < heightOf jobs := by
    obtain ⟨job, rest, rfl⟩ := List.exists_cons_of_ne_nil some
    have := height_lt_heightOf (List.mem_cons_self (a := job) (l := rest))
    omega
  suffices below : heightOf (followUpsOf jobs) ≤ heightOf jobs - 1 by omega
  refine heightOf_le_iff.2 fun job member => ?_
  obtain ⟨parent, among, followUp⟩ := List.mem_flatMap.1 member
  have lower := height_lt_heightOf followUp
  have higher := height_lt_heightOf among
  rw [Job.height_eq parent] at higher
  omega

/-- Jobs and all that they lead to, level by level: first the jobs themselves, then what they put in
the queue, then what this puts in the queue, and so on. -/
def breadthFirst (jobs : List Job) : List Job :=
  if jobs = [] then [] else jobs ++ breadthFirst (followUpsOf jobs)
termination_by heightOf jobs
decreasing_by exact heightOf_followUpsOf_lt ‹_›

/-- An order of jobs in which the given ones come first, and after them what all jobs of the order
put in the queue, goes level by level. -/
theorem eq_breadthFirst {jobs order : List Job}
    (queued : order = jobs ++ followUpsOf order) : order = breadthFirst jobs := by
  fun_induction breadthFirst jobs generalizing order with
  | case1 =>
      by_contra some
      have lower := heightOf_followUpsOf_lt some
      rw [List.nil_append] at queued
      rw [← queued] at lower
      exact Nat.lt_irrefl _ lower
  | case2 jobs some ih =>
      have later : followUpsOf order = followUpsOf jobs ++ followUpsOf (followUpsOf order) := by
        calc followUpsOf order
            _ = followUpsOf (jobs ++ followUpsOf order) := congrArg followUpsOf queued
            _ = followUpsOf jobs ++ followUpsOf (followUpsOf order) := List.flatMap_append
      rw [queued, ih later]

example : (breadthFirst [⟨"first", [⟨"nested", [], none⟩], none⟩, ⟨"second", [], none⟩]).map
    Job.label = ["first", "second", "nested"] := by cbv

namespace Engine

variable {engine : Engine}

/-- A job puts its follow-ups in the queue and ends as it is said to, whatever the cells hold. -/
theorem turns_jobs (engine : Engine) (jobs : List Job) (cells : Cells) :
    engine.turns (jobs.map .job) cells = jobs.map fun job =>
      ⟨.job job, ⟨cells, job.followUps.map .job, job.failure.map .error⟩⟩ := by
  induction jobs with
  | nil => rfl
  | cons job rest ih => simp [turns, perform, ih]

theorem laterOf_jobs (engine : Engine) (jobs : List Job) (cells : Cells) :
    laterOf (engine.turns (jobs.map .job) cells) = (followUpsOf jobs).map .job := by
  simp [turns_jobs, laterOf, followUpsOf, List.flatMap_map, List.map_flatMap]

theorem failuresOf_jobs (engine : Engine) (jobs : List Job) (cells : Cells) :
    failuresOf (engine.turns (jobs.map .job) cells) =
      (jobs.filterMap Job.failure).map .error := by
  simp [turns_jobs, failuresOf, List.filterMap_map, List.map_filterMap]

/-- Where only jobs wait, a run carries out jobs only. -/
theorem Runs.jobs {stage last : Stage} {ran : List Task} (runs : engine.Runs stage ran last)
    {jobs : List Job} (waiting : stage.queue = jobs.map .job) :
    ∃ order : List Job, ran = order.map .job := by
  induction runs generalizing jobs with
  | none => exact ⟨[], rfl⟩
  | @next stage last task rest ran first _ ih =>
      obtain ⟨job, others, rfl, rfl, rfl⟩ := List.map_eq_cons_iff.1 (waiting.symm.trans first)
      obtain ⟨order, rfl⟩ := @ih (others ++ job.followUps) (by simp [step, first, perform])
      exact ⟨job :: order, rfl⟩

/-- A run that leaves nothing of a forest of jobs goes through it level by level. -/
theorem Runs.breadthFirst {cells : Cells} {forest : List Job} {ran : List Task} {last : Stage}
    (runs : engine.Runs ⟨cells, forest.map .job⟩ ran last) (idle : last.queue = []) :
    ran = (breadthFirst forest).map .job := by
  obtain ⟨order, rfl⟩ := runs.jobs rfl
  have queued := runs.order
  rw [idle, List.append_nil, laterOf_jobs, ← List.map_append] at queued
  have injective : Function.Injective Task.job := fun _ _ same => Task.job.inj same
  rw [eq_breadthFirst (injective.list_map queued)]

/-- A forest of jobs that comes into an empty queue waits in its order. -/
theorem history_jobs (engine : Engine) (cells : Cells) (forest : List Job) :
    engine.history cells (forest.map fun job => .defer (.job job)) =
      ⟨⟨cells, forest.map .job⟩, forest.map fun job => .deferred (.job job)⟩ := by
  induction forest using List.reverseRecOn with
  | nil => rfl
  | append_singleton forest job ih =>
      simp only [List.map_append, List.map_cons, List.map_nil, history_append, ih, List.foldl_cons,
        List.foldl_nil, call, Stage.defer]

end Engine

/-- The queue neither loses, repeats nor reorders tasks. After any calls, at every moment so far,
also in the middle of a call or of a task, the tasks carried out followed by those that wait are all
that were put in, in order; what clients are told are the tasks that wait at that moment; and the
next call to work off the queue leaves nothing and no failure, or ends with its only failure and
leaves all the rest. A forest of jobs that is put in an empty queue is therefore carried out level
by level, however often the work is interrupted by a failure, and as many calls as there are jobs
that fail, and one more, carry out all of it and report each failure once. -/
theorem calls_keep_order (engine : Engine) (cells : Cells) :
    (∀ calls : List Call,
      let history := engine.history cells calls
      (∀ moment, moment <+: history.events →
        begunIn moment ++ waitingAfter moment = deferredIn moment) ∧
      (∀ moment count, moment ++ [.counted count] <+: history.events →
        count = (waitingAfter moment).length) ∧
      waitingAfter history.events = history.stage.queue ∧
      WorkAccount engine history.stage (engine.runUntilIdle history.stage)) ∧
    ∀ forest : List Job,
      let order := breadthFirst forest
      let failures := order.filterMap Job.failure
      let after := fun drains => engine.history cells
        ((forest.map fun job => .defer (.job job)) ++ List.replicate drains .work)
      (∀ drains, begunIn (after drains).events <+: order.map .job) ∧
      begunIn (after (failures.length + 1)).events = order.map .job ∧
      (after (failures.length + 1)).stage.queue = [] ∧
      answersIn (after (failures.length + 1)).events =
        (failures.map fun error => some (.error error)) ++ [none] := by
  constructor
  · intro calls history
    obtain ⟨allows, waiting⟩ := engine.allows_history cells calls
    refine ⟨?_, ?_, waiting, engine.workAccount history.stage⟩
    · rintro moment ⟨later, split⟩
      have allows : Allows [] (moment ++ later) := split ▸ allows
      exact (allows_append.1 allows).1.order
    · rintro moment count ⟨later, split⟩
      have allows : Allows [] (moment ++ [.counted count] ++ later) := split ▸ allows
      have counted := (allows_append.1 (allows_append.1 allows).1).2
      exact allows_singleton.1 counted
  · intro forest order failures after
    obtain ⟨ran, last, runs, idle⟩ := engine.exists_idle_run ⟨cells, forest.map .job⟩
    obtain rfl := runs.breadthFirst idle
    have start := engine.history_jobs cells forest
    have runs : engine.Runs (engine.history cells (forest.map fun job => .defer (.job job))).stage
        (order.map .job) last := by rwa [start]
    have nothing : begunIn (engine.history cells
        (forest.map fun job => .defer (.job job))).events = [] := by
      simp [start, begunIn, List.filterMap_map]
    have silence : answersIn (engine.history cells
        (forest.map fun job => .defer (.job job))).events = [] := by
      simp [start, answersIn, List.filterMap_map]
    have whole := Engine.work_on runs idle (engine.failuresOf_jobs order _)
    simp only [List.length_map, ← Engine.history_append, nothing, silence, List.nil_append,
      List.map_map] at whole
    refine ⟨fun drains => ?_, whole.2.1, whole.1, whole.2.2⟩
    have part := Engine.begunIn_drains runs idle drains
    rwa [← Engine.history_append, nothing, List.nil_append] at part

end Quire
