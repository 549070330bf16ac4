/-
Module: Quire.Queue
Purpose: Working off a queue of tasks that may put further tasks at its end.
Main exports: Outcome, Worker, Drained, Worker.drain
-/

/-!
Tasks are taken from the front, and what they defer goes to the end. Working off the queue ends
because whatever a task defers ranks below it: the queue grows, but only with tasks of lower rank.
The first task that fails ends the work, and all tasks still queued then stay.
-/

namespace Quire

/-- What comes of one task. What it deferred before it failed stays deferred. -/
structure Outcome (Task State Failure : Type) where
  state : State
  deferred : List Task
  failure : Option Failure

/-- How tasks are carried out, and why that cannot go on for ever. -/
structure Worker (Task State Failure : Type) where
  perform : Task → State → Outcome Task State Failure
  rank : Task → Nat
  rank_lt : ∀ task state, ∀ later ∈ (perform task state).deferred, rank later < rank task

/-- What comes of working off a queue: the tasks that were carried out, in order, those that are
left, and the failure of the last one carried out if that is why the work ended. -/
structure Drained (Task State Failure : Type) where
  ran : List Task
  pending : List Task
  state : State
  failure : Option Failure

/-- A queue seen as what is left to do, in the order that a ranking gives it. -/
structure Waiting {Task : Type} (rank : Task → Nat) where
  tasks : List Task

namespace Waiting

variable {Task : Type}

/-- One queue comes after another if its front task gave way to tasks of lower rank at the end. -/
inductive After (rank : Task → Nat) : Waiting rank → Waiting rank → Prop where
  | step (task : Task) (rest deferred : List Task)
      (lower : ∀ later ∈ deferred, rank later < rank task) :
      After rank ⟨rest ++ deferred⟩ ⟨task :: rest⟩

variable {rank : Task → Nat}

/-- Nothing comes after the empty queue. -/
theorem acc_nil : Acc (After rank) ⟨[]⟩ :=
  ⟨_, fun _ after => nomatch after⟩

/-- A queue is finished after finitely many tasks, if those at its front rank no higher than `bound`
and the others lower. -/
theorem acc_append (bound : Nat) :
    ∀ (front back : List Task), (∀ task ∈ front, rank task ≤ bound) →
      (∀ task ∈ back, rank task < bound) → Acc (After rank) ⟨front ++ back⟩ := by
  induction bound with
  | zero =>
      intro front
      induction front with
      | nil =>
          intro back _ below
          cases back with
          | nil => exact acc_nil
          | cons task rest => exact absurd (below task (by simp)) (by omega)
      | cons task rest ih =>
          intro back upTo below
          refine ⟨_, fun earlier after => ?_⟩
          cases after with
          | step _ _ deferred lower =>
              have empty : deferred = [] := by
                cases deferred with
                | nil => rfl
                | cons later others =>
                    have := lower later (by simp)
                    have := upTo task (by simp)
                    omega
              subst empty
              simpa using ih back (fun t h => upTo t (by simp [h])) below
  | succ bound step =>
      intro front
      induction front with
      | nil =>
          intro back _ below
          have := step back [] (fun t h => by have := below t h; omega) (by simp)
          simpa using this
      | cons task rest ih =>
          intro back upTo below
          refine ⟨_, fun earlier after => ?_⟩
          cases after with
          | step _ _ deferred lower =>
              have := ih (back ++ deferred) (fun t h => upTo t (by simp [h])) (by
                intro later h
                rcases List.mem_append.1 h with h | h
                · exact below later h
                · have := lower later h
                  have := upTo task (by simp)
                  omega)
              simpa using this

/-- Every queue is finished after finitely many tasks. -/
theorem wellFounded_after : WellFounded (After rank) := by
  refine ⟨fun ⟨tasks⟩ => ?_⟩
  have bounded : ∃ bound, ∀ task ∈ tasks, rank task ≤ bound := by
    induction tasks with
    | nil => exact ⟨0, by simp⟩
    | cons task rest ih =>
        obtain ⟨bound, h⟩ := ih
        refine ⟨max bound (rank task), fun t member => ?_⟩
        rcases List.mem_cons.1 member with rfl | member
        · omega
        · have := h t member
          omega
  obtain ⟨bound, h⟩ := bounded
  simpa using acc_append bound tasks [] h (by simp)

instance : WellFoundedRelation (Waiting rank) := ⟨After rank, wellFounded_after⟩

end Waiting

namespace Worker

variable {Task State Failure : Type}

/-- Works off a queue until no task is left or one fails. -/
def drain (worker : Worker Task State Failure) (queue : List Task) (state : State) :
    Drained Task State Failure :=
  match queue with
  | [] => ⟨[], [], state, none⟩
  | task :: rest =>
      let outcome := worker.perform task state
      match outcome.failure with
      | some failure => ⟨[task], rest ++ outcome.deferred, outcome.state, some failure⟩
      | none =>
          let later := worker.drain (rest ++ outcome.deferred) outcome.state
          { later with ran := task :: later.ran }
termination_by (⟨queue⟩ : Waiting worker.rank)
decreasing_by exact .step task rest _ (worker.rank_lt task state)

end Worker

end Quire
