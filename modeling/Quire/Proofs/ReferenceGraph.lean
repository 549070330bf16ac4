/-
Module: Quire.Proofs.ReferenceGraph
Purpose: Which templates can be loaded: those from which references in quotes lead to well-formed
  templates only, never in a circle and no further than there is room.
Main exports: Engine.RefersTo, Engine.Reaches, Engine.Loadable, Engine.loadWithin_isOk_iff,
  Engine.circular_of_loadWithin, Engine.Asks, load_succeeds_iff
-/
import Mathlib.Data.List.Chain
import Mathlib.Logic.Relation
import Quire.Proofs.Building

/-!
The sources that an engine knows form a graph, with an edge for each name in quotes. Loading a
template walks through this graph, carrying the names on the way to where it is. What it finds is
decided by the graph alone: the condition `Engine.Loadable` speaks of paths and of the names on the
way, and it passes from a template to those that it refers to with one name more on the way and
room for one less.
-/

namespace Quire

namespace Engine

/-! ### The graph -/

/-- The source of one name refers in quotes to the template of another. -/
def RefersTo (engine : Engine) (name target : String) : Prop :=
  ∃ source, engine.source name = some source ∧ target ∈ source.quoted

/-- References in quotes lead from one name to another, in any number of steps. -/
def Reaches (engine : Engine) : String → String → Prop :=
  Relation.ReflTransGen engine.RefersTo

/-- References in quotes lead from a name back to it. -/
def Circular (engine : Engine) (name : String) : Prop :=
  Relation.TransGen engine.RefersTo name name

/-- A template may be loaded on behalf of a chain where there is room for some more: no name that
can be reached stands in the chain, all of them have sources that are well formed on their own, none
leads back to itself, and no path is longer than there is room. -/
structure Loadable (engine : Engine) (room : Nat) (chain : List String) (name : String) : Prop where
  apart : ∀ other, engine.Reaches name other → other ∉ chain
  found : ∀ other, engine.Reaches name other →
    ∃ source, engine.source other = some source ∧ source.WellFormed other
  acyclic : ∀ other, engine.Reaches name other → ¬ engine.Circular other
  short : ∀ rest, List.IsChain engine.RefersTo (name :: rest) → (name :: rest).length ≤ room

variable {engine : Engine}

theorem Reaches.head {name target other : String} (refers : engine.RefersTo name target)
    (reaches : engine.Reaches target other) : engine.Reaches name other :=
  Relation.ReflTransGen.head refers reaches

/-- Where a template may be loaded, so may those that it refers to, on behalf of one more. -/
theorem Loadable.target {room : Nat} {chain : List String} {name target : String}
    (loadable : engine.Loadable (room + 1) chain name) (refers : engine.RefersTo name target) :
    engine.Loadable room (chain ++ [name]) target where
  apart other reaches member := by
    rcases List.mem_append.1 member with before | last
    · exact loadable.apart other (reaches.head refers) before
    · cases List.mem_singleton.1 last
      exact loadable.acyclic name .refl (Relation.TransGen.head' refers reaches)
  found other reaches := loadable.found other (reaches.head refers)
  acyclic other reaches := loadable.acyclic other (reaches.head refers)
  short rest path := by
    have longer := loadable.short (target :: rest) (.cons_cons refers path)
    simpa using longer

/-- A template may be loaded if its source is well formed and those that it refers to may be loaded
on behalf of one more. -/
theorem Loadable.of_targets {room : Nat} {chain : List String} {name : String} {source : Source}
    (fresh : name ∉ chain) (known : engine.source name = some source)
    (wellFormed : source.WellFormed name)
    (targets : ∀ target, engine.RefersTo name target →
      engine.Loadable room (chain ++ [name]) target) :
    engine.Loadable (room + 1) chain name := by
  have onward : ∀ {other}, engine.Reaches name other → name = other ∨
      ∃ target, engine.RefersTo name target ∧ engine.Reaches target other :=
    fun reaches => Relation.ReflTransGen.cases_head reaches
  constructor
  · intro other reaches
    rcases onward reaches with rfl | ⟨target, refers, reaches⟩
    · exact fresh
    · intro member
      exact (targets target refers).apart other reaches (List.mem_append_left _ member)
  · intro other reaches
    rcases onward reaches with rfl | ⟨target, refers, reaches⟩
    · exact ⟨source, known, wellFormed⟩
    · exact (targets target refers).found other reaches
  · intro other reaches
    rcases onward reaches with rfl | ⟨target, refers, reaches⟩
    · intro circular
      obtain ⟨target, refers, back⟩ := Relation.TransGen.head'_iff.1 circular
      exact (targets target refers).apart name back (by simp)
    · exact (targets target refers).acyclic other reaches
  · intro rest path
    cases rest with
    | nil => simp
    | cons target rest =>
        obtain ⟨refers, path⟩ := List.isChain_cons_cons.1 path
        have shorter := (targets target refers).short rest path
        simpa using shorter

/-- Loading succeeds just where the graph allows it. -/
theorem loadWithin_isOk_iff {room : Nat} {chain : List String} {name : String} :
    (∃ template, engine.loadWithin room chain name = .ok template) ↔
      engine.Loadable room chain name := by
  induction room generalizing chain name with
  | zero =>
      constructor
      · rintro ⟨template, ok⟩
        obtain ⟨_, _, _, _, none, _⟩ := loadWithin_ok_iff.1 ok
        omega
      · intro loadable
        have none := loadable.short [] (.singleton name)
        simp at none
  | succ room ih =>
      constructor
      · rintro ⟨template, ok⟩
        obtain ⟨fresh, _, source, nodes, same, known, built, rfl⟩ := loadWithin_ok_iff.1 ok
        cases same
        obtain ⟨wellFormed, fetched⟩ := assemble_isOk_iff.1 ⟨nodes, built⟩
        refine .of_targets fresh known wellFormed ?_
        rintro target ⟨source', known', member⟩
        cases known.symm.trans known'
        exact ih.1 (fetched target member)
      · intro loadable
        obtain ⟨source, known, wellFormed⟩ := loadable.found name .refl
        have fetched : ∀ target ∈ source.quoted,
            ∃ inner, engine.loadWithin room (chain ++ [name]) target = .ok inner :=
          fun target member => ih.2 (loadable.target ⟨source, known, member⟩)
        obtain ⟨nodes, built⟩ := assemble_isOk_iff.2 ⟨wellFormed, fetched⟩
        exact ⟨⟨name, nodes⟩, loadWithin_ok_iff.2 ⟨loadable.apart name .refl, room, source, nodes,
          rfl, known, built, rfl⟩⟩

/-! ### Circles that are reported -/

/-- Loading fails for a circle only where there is one: on behalf of a chain whose names all lead to
the name that is loaded, a name that can be reached leads back to itself. -/
theorem circular_of_loadWithin {room : Nat} {chain : List String} {name owner : String}
    {names : List String}
    (lead : ∀ earlier ∈ chain, Relation.TransGen engine.RefersTo earlier name)
    (failed : engine.loadWithin room chain name = .error (.malformed owner (.circular names))) :
    ∃ other, engine.Reaches name other ∧ engine.Circular other := by
  by_cases met : name ∈ chain
  · exact ⟨name, .refl, lead name met⟩
  induction room generalizing chain name with
  | zero => simp [loadWithin, met] at failed
  | succ room ih =>
      simp only [loadWithin, met, if_false] at failed
      cases known : engine.source name with
      | none => simp [known] at failed
      | some source =>
          simp only [known] at failed
          rcases bind_error_iff.1 failed with building | ⟨_, _, done⟩
          · rcases assemble_error building with ⟨fault, own, same⟩ | ⟨target, member, later⟩
            · cases same
              exact absurd rfl (own names)
            · have refers : engine.RefersTo name target := ⟨source, known, member⟩
              have lead' : ∀ earlier ∈ chain ++ [name],
                  Relation.TransGen engine.RefersTo earlier target := by
                intro earlier before
                rcases List.mem_append.1 before with before | last
                · exact (lead earlier before).tail refers
                · cases List.mem_singleton.1 last
                  exact .single refers
              have beyond : ∃ other, engine.Reaches target other ∧ engine.Circular other := by
                by_cases met' : target ∈ chain ++ [name]
                · exact ⟨target, .refl, lead' target met'⟩
                · exact ih lead' later met'
              obtain ⟨other, reaches, circular⟩ := beyond
              exact ⟨other, reaches.head refers, circular⟩
          · cases done

/-! ### Loads within loads -/

/-- A template on behalf of a chain, with as much room as the chain leaves of the engine's limit. -/
def loadOn (engine : Engine) (chain : List String) (name : String) : Except Error Template :=
  engine.loadWithin (engine.config.maxDepth - chain.length) chain name

/-- What loading on behalf of a chain comes to: it fails at a name that is met again and beyond the
limit, and else builds the source of the name with what loading on behalf of one more gives. -/
theorem loadOn_eq (engine : Engine) (chain : List String) (name : String) :
    engine.loadOn chain name =
      if name ∈ chain then
        .error (.malformed (chain.getLastD name) (.circular (chain ++ [name])))
      else if engine.config.maxDepth ≤ chain.length then
        .error (.tooDeep name engine.config.maxDepth)
      else match engine.source name with
        | none => .error (.missingTemplate name)
        | some source => do
            return ⟨name, ← assemble (engine.loadOn (chain ++ [name])) name source⟩ := by
  by_cases met : name ∈ chain
  · cases room : engine.config.maxDepth - chain.length <;> simp [loadOn, loadWithin, met, room]
  · by_cases full : engine.config.maxDepth ≤ chain.length
    · have spent : engine.config.maxDepth - chain.length = 0 := by omega
      simp [loadOn, loadWithin, met, full, spent]
    · have left : engine.config.maxDepth - chain.length =
          engine.config.maxDepth - (chain ++ [name]).length + 1 := by
        simp only [List.length_append, List.length_singleton]
        omega
      simp only [loadOn, left, loadWithin, met, full, if_false]
      rfl

/-- Loading one template on behalf of a chain asks for another on behalf of one more. -/
inductive Asks (engine : Engine) : List String × String → List String × String → Prop where
  | target {chain : List String} {name target : String} (fresh : name ∉ chain)
      (room : chain.length < engine.config.maxDepth) (refers : engine.RefersTo name target) :
      Asks engine (chain, name) (chain ++ [name], target)

/-- Loads within loads come to an end, whatever the templates refer to. -/
theorem wellFounded_asks (engine : Engine) :
    WellFounded fun later earlier => engine.Asks earlier later := by
  refine Subrelation.wf ?_ (measure fun load => engine.config.maxDepth - load.1.length).wf
  rintro later earlier ⟨_, room, _⟩
  simp only [WellFoundedRelation.rel, InvImage, List.length_append, List.length_singleton]
  omega

end Engine

/-- Static loading accepts exactly the bounded acyclic graphs. A load ends after finitely many loads
within it, and it succeeds just where every template that references in quotes lead to is known,
none of them leads back to itself, no path holds more templates than the limit, and every source
among them is well formed on its own. Where none leads back to itself, no circle is ever
reported. -/
theorem load_succeeds_iff (engine : Engine) (name : String) :
    Acc (fun later earlier => engine.Asks earlier later) ([], name) ∧
    ((∃ template, engine.load name = .ok template) ↔
      (∀ other, engine.Reaches name other → ∃ source, engine.source other = some source) ∧
      (∀ other, engine.Reaches name other → ¬ engine.Circular other) ∧
      (∀ rest, List.IsChain engine.RefersTo (name :: rest) →
        (name :: rest).length ≤ engine.config.maxDepth) ∧
      ∀ other source, engine.Reaches name other → engine.source other = some source →
        source.WellFormed other) ∧
    ((∀ other, engine.Reaches name other → ¬ engine.Circular other) →
      ∀ owner names, engine.load name ≠ .error (.malformed owner (.circular names))) := by
  refine ⟨engine.wellFounded_asks.apply _, ?_, ?_⟩
  · rw [Engine.load, Engine.loadWithin_isOk_iff]
    constructor
    · intro loadable
      refine ⟨?_, loadable.acyclic, loadable.short, ?_⟩
      · intro other reaches
        obtain ⟨source, known, _⟩ := loadable.found other reaches
        exact ⟨source, known⟩
      · intro other source reaches known
        obtain ⟨source', known', wellFormed⟩ := loadable.found other reaches
        cases known.symm.trans known'
        exact wellFormed
    · rintro ⟨known, acyclic, short, wellFormed⟩
      refine ⟨by simp, ?_, acyclic, short⟩
      intro other reaches
      obtain ⟨source, found⟩ := known other reaches
      exact ⟨source, found, wellFormed other source reaches found⟩
  · intro acyclic owner names failed
    obtain ⟨other, reaches, circular⟩ := Engine.circular_of_loadWithin (by simp) failed
    exact acyclic other reaches circular

end Quire
