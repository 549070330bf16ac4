/-
Module: Quire.Proofs.Variables
Purpose: The variables that the markup of templates names, and that whatever is built from it reads
  no others.
Main exports: Path.first, Lexeme.reads, Source.Names, Engine.Names, Node.ReadsOnly, NamesOnly,
  readsOnly_of_assemble, Engine.readsOnly_of_loadWithin
-/
import Quire.Proofs.Bracketing

/-!
A path starts from a variable and goes on to members of its value, so what a path leads to depends
on the variable alone. The paths in a template are those of its markup: each stands in a
substitution or in the parameters of a tag. A template in quotes brings its own, which stand in its
own markup.
-/

namespace Quire

/-! ### The variables that markup names -/

/-- The variable from which a path starts. -/
def Path.first (path : String) : String :=
  (Text.pieces '.' path).headD ""

def Operand.reads : Operand → List String
  | .number _ => []
  | .path dotted => [Path.first dotted]

/-- The variables from which the paths in a condition start. -/
def Condition.reads (condition : Condition) : List String :=
  condition.left.reads ++ match condition.comparison with
    | none => []
    | some (_, right) => right.reads

/-- The variable from which a reference starts, unless it is in quotes. -/
def Reference.reads : Reference → List String
  | .quoted _ => []
  | .bare path => [Path.first path]

/-- The variables that the parameters of a tag name. -/
def Tag.reads (params : String) : Tag → List String
  | .block => []
  | .inheritance | .inclusion =>
      match Reference.parse? params with
      | none => []
      | some reference => reference.reads
  | .loop =>
      match Loop.parse params with
      | .error _ => []
      | .ok spec => [Path.first spec.path]
  | .conditional =>
      match Condition.parse? params with
      | none => []
      | some condition => condition.reads
  | .otherwise =>
      match parseGuard params with
      | .ok (some condition) => condition.reads
      | _ => []

/-- The variables that a lexeme names: the first segments of the paths in it. -/
def Lexeme.reads : Lexeme → List String
  | .text _ | .closing _ => []
  | .value path => [Path.first (Text.trimmed path)]
  | .opening name params =>
      match Tag.named? name with
      | none => []
      | some tag => tag.reads (Text.trimmed params)

/-- A source names a variable. -/
def Source.Names (source : Source) (name : String) : Prop :=
  ∃ lexeme ∈ source.lexemes, name ∈ lexeme.reads

/-- The variables named by a source of one's own and by all that an engine knows. -/
def Engine.Names (engine : Engine) (entry : Source) (name : String) : Prop :=
  entry.Names name ∨ ∃ other source, engine.source other = some source ∧ source.Names name

/-! ### The variables that nodes read -/

mutual

/-- Rendering a node looks up no variables but the given ones. -/
inductive Node.ReadsOnly (allowed : String → Prop) : Node → Prop where
  | text (text : String) : Node.ReadsOnly allowed (.text text)
  | value {path : String} (named : allowed (Path.first path)) : Node.ReadsOnly allowed (.value path)
  | block (name : String) {body : List Node}
      (inner : ∀ node ∈ body, Node.ReadsOnly allowed node) :
      Node.ReadsOnly allowed (.block name body)
  | inheritance {target : Target} (refers : Target.ReadsOnly allowed target) :
      Node.ReadsOnly allowed (.inheritance target)
  | inclusion {target : Target} (refers : Target.ReadsOnly allowed target) :
      Node.ReadsOnly allowed (.inclusion target)
  | loop {spec : Loop} {body : List Node} (named : allowed (Path.first spec.path))
      (inner : ∀ node ∈ body, Node.ReadsOnly allowed node) :
      Node.ReadsOnly allowed (.loop spec body)
  | conditional {condition : Condition} {body : List Node} {branches : List Branch}
      (named : ∀ name ∈ condition.reads, allowed name)
      (inner : ∀ node ∈ body, Node.ReadsOnly allowed node)
      (guards : ∀ branch ∈ branches, ∀ guard ∈ branch.guard, ∀ name ∈ guard.reads, allowed name)
      (others : ∀ branch ∈ branches, ∀ node ∈ branch.body, Node.ReadsOnly allowed node) :
      Node.ReadsOnly allowed (.conditional condition body branches)

/-- A template that is referred to in quotes reads no other variables, and the path of one that is
not starts from one of them. -/
inductive Target.ReadsOnly (allowed : String → Prop) : Target → Prop where
  | quoted {template : Template}
      (inner : ∀ node ∈ template.nodes, Node.ReadsOnly allowed node) :
      Target.ReadsOnly allowed (.quoted template)
  | bare {path : String} (named : allowed (Path.first path)) : Target.ReadsOnly allowed (.bare path)

end

variable {allowed : String → Prop}

theorem passesDown_readsOnly : PassesDown (Node.ReadsOnly allowed) where
  block := by
    intro name body reads
    cases reads with
    | block _ inner => exact inner
  loop := by
    intro spec body reads
    cases reads with
    | loop _ inner => exact inner
  conditional := by
    intro condition body branches reads
    cases reads with
    | conditional _ inner _ _ => exact inner
  branch := by
    intro condition body branches reads
    cases reads with
    | conditional _ _ _ others => exact others

/-! ### What is built reads what its markup names -/

/-- The lexemes name no variables but the given ones. -/
def NamesOnly (allowed : String → Prop) (lexemes : List Lexeme) : Prop :=
  ∀ lexeme ∈ lexemes, ∀ name ∈ lexeme.reads, allowed name

theorem NamesOnly.subset {lexemes others : List Lexeme} (only : NamesOnly allowed lexemes)
    (within : others ⊆ lexemes) : NamesOnly allowed others :=
  fun lexeme member => only lexeme (within member)

/-- Fetched templates read no variables but the given ones. -/
def FetchesOnly (allowed : String → Prop) (fetch : String → Except Error Template) : Prop :=
  ∀ name template, fetch name = .ok template → ∀ node ∈ template.nodes, node.ReadsOnly allowed

section

variable {fetch : String → Except Error Template}

theorem Target.readsOnly_of_resolve (fetches : FetchesOnly allowed fetch) {reference : Reference}
    {target : Target} (resolved : Assembly.resolve fetch reference = .ok target)
    (named : ∀ name ∈ reference.reads, allowed name) : target.ReadsOnly allowed := by
  cases reference with
  | quoted name =>
      obtain ⟨template, fetched, done⟩ := bind_ok_iff.1 resolved
      cases done
      exact .quoted (fetches name template fetched)
  | bare path =>
      cases resolved
      exact .bare (named _ List.mem_cons_self)

/-- The variables that an opening names are those that its parameters name. -/
theorem NamesOnly.tag {lexemes : List Lexeme} (only : NamesOnly allowed lexemes) {tag : Tag}
    {params : String} (member : .opening tag.name params ∈ lexemes) :
    ∀ name ∈ tag.reads (Text.trimmed params), allowed name := by
  have named := only _ member
  simpa only [Lexeme.reads, Tag.named?_name] using named

mutual

theorem Node.readsOnly_of_spells (fetches : FetchesOnly allowed fetch) :
    ∀ (node : Node) {lexemes : List Lexeme}, node.tree.Spells fetch lexemes →
      NamesOnly allowed lexemes → node.ReadsOnly allowed
  | .text text, _, _, _ => .text text
  | .value path, _, spells, only => by
      cases spells with
      | value written => exact .value (only _ List.mem_cons_self _ List.mem_cons_self)
  | .block name body, _, spells, only => by
      obtain ⟨params, inner, _, _, within, subset⟩ := Tree.Spells.tag spells
      exact .block name (readsOnly_of_spellsAll fetches body within (only.subset subset))
  | .inheritance target, _, spells, only => by
      obtain ⟨params, _, opened, written, _⟩ := Tree.Spells.tag spells
      cases written with
      | inheritance parsed resolved =>
          have named := only.tag opened
          simp only [Mark.tag, Tag.reads, parsed] at named
          exact .inheritance (target.readsOnly_of_resolve fetches resolved named)
  | .inclusion target, _, spells, only => by
      obtain ⟨params, _, opened, written, _⟩ := Tree.Spells.tag spells
      cases written with
      | inclusion parsed resolved =>
          have named := only.tag opened
          simp only [Mark.tag, Tag.reads, parsed] at named
          exact .inclusion (target.readsOnly_of_resolve fetches resolved named)
  | .loop spec body, _, spells, only => by
      obtain ⟨params, inner, opened, written, within, subset⟩ := Tree.Spells.tag spells
      cases written with
      | loop parsed =>
          have named := only.tag opened
          simp only [Mark.tag, Tag.reads, parsed] at named
          exact .loop (named _ List.mem_cons_self)
            (readsOnly_of_spellsAll fetches body within (only.subset subset))
  | .conditional condition body branches, _, spells, only => by
      obtain ⟨params, inner, opened, written, within, subset⟩ := Tree.Spells.tag spells
      cases written with
      | conditional parsed =>
          have named := only.tag opened
          simp only [Mark.tag, Tag.reads, parsed] at named
          obtain ⟨front, back, rfl, inFront, inBack⟩ := within.split
          have only := only.subset subset
          obtain ⟨guards, others⟩ := readsOnly_of_branchTrees fetches branches inBack
            (only.subset (List.subset_append_right front back))
          exact .conditional named (readsOnly_of_spellsAll fetches body inFront
            (only.subset (List.subset_append_left front back))) guards others
termination_by structural node => node

theorem readsOnly_of_spellsAll (fetches : FetchesOnly allowed fetch) :
    ∀ (nodes : List Node) {lexemes : List Lexeme}, SpellsAll fetch (treesOf nodes) lexemes →
      NamesOnly allowed lexemes → ∀ node ∈ nodes, node.ReadsOnly allowed
  | [], _, _, _ => nofun
  | node :: rest, _, spells, only => by
      cases spells with
      | @cons _ _ lexemes others first spells =>
          have here := node.readsOnly_of_spells fetches first
            (only.subset (List.subset_append_left lexemes others))
          have there := readsOnly_of_spellsAll fetches rest spells
            (only.subset (List.subset_append_right lexemes others))
          exact List.forall_mem_cons.2 ⟨here, there⟩
termination_by structural nodes => nodes

theorem readsOnly_of_branchTrees (fetches : FetchesOnly allowed fetch) :
    ∀ (branches : List Branch) {lexemes : List Lexeme},
      SpellsAll fetch (branchTrees branches) lexemes → NamesOnly allowed lexemes →
        (∀ branch ∈ branches, ∀ guard ∈ branch.guard, ∀ name ∈ guard.reads, allowed name) ∧
          ∀ branch ∈ branches, ∀ node ∈ branch.body, node.ReadsOnly allowed
  | [], _, _, _ => ⟨nofun, nofun⟩
  | ⟨guard, body⟩ :: rest, _, spells, only => by
      cases spells with
      | @cons _ _ lexemes others first spells =>
          obtain ⟨params, _, opened, written, _⟩ := first.tag
          obtain ⟨front, back, rfl, inFront, inBack⟩ := spells.split
          have onlyHere := only.subset (List.subset_append_left lexemes (front ++ back))
          have onlyLater := only.subset (List.subset_append_right lexemes (front ++ back))
          have inner := readsOnly_of_spellsAll fetches body inFront
            (onlyLater.subset (List.subset_append_left front back))
          obtain ⟨guards, bodies⟩ := readsOnly_of_branchTrees fetches rest inBack
            (onlyLater.subset (List.subset_append_right front back))
          cases written with
          | otherwise parsed =>
              have named := onlyHere.tag opened
              simp only [Mark.tag, Tag.reads, parsed] at named
              refine ⟨List.forall_mem_cons.2 ⟨?_, guards⟩, List.forall_mem_cons.2 ⟨inner, bodies⟩⟩
              rintro condition ⟨⟩
              exact named
termination_by structural branches => branches

end

/-- Nodes that are built from a source read what the source names, if what they refer to in quotes
does. -/
theorem readsOnly_of_assemble (fetches : FetchesOnly allowed fetch) {template : String}
    {source : Source} (named : ∀ name, source.Names name → allowed name) {nodes : List Node}
    (ok : assemble fetch template source = .ok nodes) :
    ∀ node ∈ nodes, node.ReadsOnly allowed :=
  readsOnly_of_spellsAll fetches nodes (spelled_of_assemble ok).2
    fun lexeme member name reads => named name ⟨lexeme, member, reads⟩

end

namespace Engine

variable {engine : Engine}

/-- A template that an engine loads reads what the sources known to the engine name. -/
theorem readsOnly_of_loadWithin
    (known : ∀ other source, engine.source other = some source →
      ∀ name, source.Names name → allowed name) (room : Nat) (chain : List String) :
    FetchesOnly allowed (engine.loadWithin room chain) := by
  induction room generalizing chain with
  | zero =>
      intro name template ok
      obtain ⟨_, _, _, _, none, _⟩ := loadWithin_ok_iff.1 ok
      omega
  | succ room ih =>
      intro name template ok
      obtain ⟨_, _, source, nodes, same, found, assembled, rfl⟩ := loadWithin_ok_iff.1 ok
      cases same
      exact readsOnly_of_assemble (ih _) (known name source found) assembled

end Engine

end Quire
