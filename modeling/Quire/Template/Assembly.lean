/-
Module: Quire.Template.Assembly
Purpose: Building the tree of a template from its lexemes.
Main exports: Child, Frame, Assembly, Assembly.step, assemble
-/
import Quire.Reference
import Quire.Source
import Quire.Tag
import Quire.Tag.Params
import Quire.Template

/-!
Lexemes are taken one by one. Tags that enclose others stay open, innermost first, until their
closing marker comes. What the assembly does at a lexeme depends on the lexemes before it alone, so
the first lexeme that does not fit decides the error.
-/

namespace Quire

/-- What stands directly inside a conditional: a node, or the start of a further branch. -/
inductive Child where
  | node (node : Node)
  | divider (guard : Option Condition)

namespace Child

/-- The nodes up to the first divider, and the branches that the dividers start. -/
def branches : List Child → List Node × List Branch
  | [] => ([], [])
  | .node first :: rest =>
      let (body, others) := branches rest
      (first :: body, others)
  | .divider guard :: rest =>
      let (body, others) := branches rest
      ([], ⟨guard, body⟩ :: others)

end Child

/-- Whether no branch follows one that has no condition. -/
def inOrder : List Branch → Bool
  | [] => true
  | [_] => true
  | branch :: rest => branch.guard.isSome && inOrder rest

/-- A tag whose closing marker has not come yet, with what it encloses so far. -/
inductive Frame where
  | block (name : String) (body : List Node)
  | loop (spec : Loop) (body : List Node)
  | conditional (condition : Condition) (children : List Child)

namespace Frame

/-- The tag that is open. -/
def tag : Frame → Tag
  | .block _ _ => .block
  | .loop _ _ => .loop
  | .conditional _ _ => .conditional

/-- How many children the open tag has so far, dividers included. -/
def size : Frame → Nat
  | .block _ body => body.length
  | .loop _ body => body.length
  | .conditional _ children => children.length

/-- A node as the last child of the open tag. -/
def add (node : Node) : Frame → Frame
  | .block name body => .block name (body ++ [node])
  | .loop spec body => .loop spec (body ++ [node])
  | .conditional condition children => .conditional condition (children ++ [.node node])

/-- The node that an open tag becomes at its closing marker. -/
def close : Frame → Except Fault Node
  | .block name body => .ok (.block name body)
  | .loop spec body => .ok (.loop spec body)
  | .conditional condition children =>
      let (body, branches) := Child.branches children
      if inOrder branches then .ok (.conditional condition body branches)
      else .error .branchAfterElse

end Frame

/-- What has been built of a template: the open tags, innermost first, the finished nodes outside
every tag, and the names that its blocks have taken. -/
structure Assembly where
  frames : List Frame
  roots : List Node
  names : List String

namespace Assembly

/-- Nothing built and no tag open. -/
def empty : Assembly := ⟨[], [], []⟩

/-- How many nodes stand before the next one inside the innermost open tag, or at the root. -/
def siblings (assembly : Assembly) : Nat :=
  match assembly.frames with
  | [] => assembly.roots.length
  | frame :: _ => frame.size

/-- A finished node inside the innermost open tag, or at the root. -/
def add (assembly : Assembly) (node : Node) : Assembly :=
  match assembly.frames with
  | [] => { assembly with roots := assembly.roots ++ [node] }
  | frame :: outer => { assembly with frames := frame.add node :: outer }

/-- A further open tag. -/
def enter (assembly : Assembly) (frame : Frame) : Assembly :=
  { assembly with frames := frame :: assembly.frames }

/-- A start of a branch, which must stand directly inside a conditional. -/
def divide (assembly : Assembly) (params : String) : Except Fault Assembly :=
  match assembly.frames with
  | .conditional condition children :: outer => do
      let guard ← parseGuard params
      let frame := Frame.conditional condition (children ++ [.divider guard])
      return { assembly with frames := frame :: outer }
  | _ => .error .elseOutsideIf

/-- A closing marker, which must name the innermost open tag. -/
def close (assembly : Assembly) (name : String) : Except Fault Assembly :=
  match assembly.frames with
  | [] => .error (.unexpectedClose none name)
  | frame :: outer =>
      if frame.tag.name = name then do
        let node ← frame.close
        return { assembly with frames := outer }.add node
      else .error (.unexpectedClose (some frame.tag.name) name)

/-- An error of the template being built. -/
def blame {α : Type} (template : String) : Except Fault α → Except Error α
  | .ok result => .ok result
  | .error fault => .error (.malformed template fault)

/-- The target of a reference. A quoted template is fetched at once. -/
def resolve (fetch : String → Except Error Template) : Reference → Except Error Target
  | .quoted name => do return .quoted (← fetch name)
  | .bare path => return .bare path

/-- The parameters of a tag that do not have its form. -/
def invalid {α : Type} (tag : Tag) (params : String) : Except Fault α :=
  .error (.invalidParams tag.name params)

/-- A tag with its parameters, blanks around them taken off. -/
def openTag (fetch : String → Except Error Template) (template : String) (assembly : Assembly)
    (params : String) : Tag → Except Error Assembly
  | .block =>
      blame template <| match blockName? params with
        | none => invalid .block params
        | some name =>
            if name ∈ assembly.names then .error (.duplicateBlock name)
            else .ok { assembly.enter (.block name []) with names := name :: assembly.names }
  | .inheritance =>
      match Reference.parse? params with
      | none => blame template (invalid .inheritance params)
      | some reference =>
          if assembly.siblings = 0 then do
            return assembly.add (.inheritance (← resolve fetch reference))
          else blame template (.error .misplacedExtends)
  | .inclusion =>
      match Reference.parse? params with
      | none => blame template (invalid .inclusion params)
      | some reference => do return assembly.add (.inclusion (← resolve fetch reference))
  | .loop => blame template ((Loop.parse params).map fun spec => assembly.enter (.loop spec []))
  | .conditional =>
      blame template <| match Condition.parse? params with
        | none => invalid .conditional params
        | some condition => .ok (assembly.enter (.conditional condition []))
  | .otherwise => blame template (assembly.divide params)

/-- The assembly after one more lexeme. -/
def step (fetch : String → Except Error Template) (template : String) (assembly : Assembly) :
    Lexeme → Except Error Assembly
  | .text text => .ok (assembly.add (.text text))
  | .value path => .ok (assembly.add (.value (Text.trimmed path)))
  | .opening name params =>
      match Tag.named? name with
      | none => blame template (.error (.unknownTag name))
      | some tag => openTag fetch template assembly (Text.trimmed params) tag
  | .closing name => blame template (assembly.close name)

/-- The nodes of a template, once no tag is open any more. -/
def finish (assembly : Assembly) : Except Fault (List Node) :=
  match assembly.frames with
  | [] => .ok assembly.roots
  | frame :: _ => .error (.unclosed frame.tag.name)

end Assembly

/-- The nodes of a template with the given lexemes. Quoted templates come from `fetch`. -/
def assemble (fetch : String → Except Error Template) (template : String) (source : Source) :
    Except Error (List Node) := do
  let assembly ← source.lexemes.foldlM (Assembly.step fetch template) .empty
  Assembly.blame template assembly.finish

end Quire
