/-
Module: Quire.Engine
Purpose: The engine's settings, and building templates with everything they refer to in quotes.
Main exports: MissingInclude, Config, Engine, Engine.load, Engine.build
-/
import Quire.Template.Assembly

namespace Quire

/-- What becomes of an included template that is found by a variable and cannot be loaded. -/
inductive MissingInclude where
  /-- Its place stays empty. -/
  | silent
  /-- The render fails with the error of loading it. -/
  | error
deriving DecidableEq, Repr

/-- The name of a policy. -/
def MissingInclude.name : MissingInclude → String
  | .silent => "Silent"
  | .error => "Error"

/-- The settings of an engine. -/
structure Config where
  /-- How deeply templates may refer to one another. -/
  maxDepth : Nat := 32
  missingInclude : MissingInclude := .silent
deriving DecidableEq, Repr

/-- What templates are built and rendered with. -/
structure Engine where
  /-- The source of a template by its name. -/
  source : String → Option Source
  config : Config
  /-- How many replaced blocks may be open inside one another. Rendering that needs more has no
  result. -/
  openings : Nat := 65536

namespace Engine

/-- A template by its name, on behalf of the templates in `chain`, which are still being built, the
outermost first. There is room for `room` more. A name in the chain refers back to itself; blame
for that falls on the last template of the chain. -/
def loadWithin (engine : Engine) (room : Nat) (chain : List String) (name : String) :
    Except Error Template :=
  if name ∈ chain then
    .error (.malformed (chain.getLastD name) (.circular (chain ++ [name])))
  else match room with
    | 0 => .error (.tooDeep name engine.config.maxDepth)
    | room + 1 =>
        match engine.source name with
        | none => .error (.missingTemplate name)
        | some source => do
            return ⟨name, ← assemble (engine.loadWithin room (chain ++ [name])) name source⟩

/-- A template by its name. -/
def load (engine : Engine) (name : String) : Except Error Template :=
  engine.loadWithin engine.config.maxDepth [] name

/-- A template from a source of one's own, under a name of one's own. -/
def build (engine : Engine) (name : String) (source : Source) : Except Error Template := do
  let fetch := engine.loadWithin (engine.config.maxDepth - 1) [name]
  return ⟨name, ← assemble fetch name source⟩

/-- The settings of an engine, as text. -/
def summary (engine : Engine) : String :=
  "Engine \x7b config: EngineConfig \x7b max_depth: " ++ toString engine.config.maxDepth ++
    ", missing_include: " ++ engine.config.missingInclude.name ++ " \x7d, .. \x7d"

end Engine

end Quire
