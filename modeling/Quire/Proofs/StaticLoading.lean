/-
Module: Quire.Proofs.StaticLoading
Purpose: What the templates in quotes are: building passes a property of nodes from parts to wholes,
  and a template in quotes is the one that loading its name gives, whoever refers to it.
Main exports: assemble_agrees, Engine.loadWithin_ok_iff, Engine.loadWithin_agrees,
  Assembly.Advance, Assembly.advance_of_step, Hereditary, assemble_every, AllGenuine,
  Engine.Built, Engine.Built.genuine
-/
import Quire.Engine
import Quire.Proofs.Blocks
import Quire.Proofs.Steps

/-!
A template is built with the templates that it refers to in quotes, on behalf of those that refer to
it. The more templates it is built on behalf of, the less room there is and the more names would run
in a circle; but whenever building succeeds, the result is the same.
-/

namespace Quire

namespace Assembly

/-! ### Building reads only the results of fetching -/

section

variable {fetch fetch' : String → Except Error Template}

theorem resolve_agrees (agrees : ∀ name template, fetch name = .ok template →
    fetch' name = .ok template) {reference : Reference} {target : Target}
    (ok : resolve fetch reference = .ok target) : resolve fetch' reference = .ok target := by
  cases reference with
  | bare path => exact ok
  | quoted name =>
      obtain ⟨template, fetched, done⟩ := bind_ok_iff.1 ok
      exact bind_ok_iff.2 ⟨template, agrees name template fetched, done⟩

/-- Parameters state the same mark. -/
theorem written_agrees (agrees : ∀ name template, fetch name = .ok template →
    fetch' name = .ok template) {params : String} {mark : Mark}
    (written : mark.Written fetch params) : mark.Written fetch' params := by
  cases written with
  | block named => exact .block named
  | inheritance parsed resolved => exact .inheritance parsed (resolve_agrees agrees resolved)
  | inclusion parsed resolved => exact .inclusion parsed (resolve_agrees agrees resolved)
  | loop parsed => exact .loop parsed
  | conditional parsed => exact .conditional parsed
  | otherwise parsed => exact .otherwise parsed

theorem step_agrees (agrees : ∀ name template, fetch name = .ok template →
    fetch' name = .ok template) {template : String} {assembly next : Assembly} {lexeme : Lexeme}
    (ok : step fetch template assembly lexeme = .ok next) :
    step fetch' template assembly lexeme = .ok next := by
  apply step_of_fits
  cases fits_of_step ok with
  | text text => exact .text text
  | value written => exact .value written
  | opening written accepts => exact .opening (written_agrees agrees written) accepts
  | closing inside closed => exact .closing inside closed

theorem foldlM_agrees (agrees : ∀ name template, fetch name = .ok template →
    fetch' name = .ok template) {template : String} {lexemes : List Lexeme}
    {assembly last : Assembly}
    (ok : lexemes.foldlM (step fetch template) assembly = .ok last) :
    lexemes.foldlM (step fetch' template) assembly = .ok last := by
  induction lexemes generalizing assembly with
  | nil =>
      cases ok
      rfl
  | cons lexeme rest ih =>
      obtain ⟨next, first, others⟩ := bind_ok_iff.1 ok
      exact bind_ok_iff.2 ⟨next, step_agrees agrees first, ih others⟩

end

end Assembly

/-- Building with more templates to fetch gives the same nodes, if it succeeds with fewer. -/
theorem assemble_agrees {fetch fetch' : String → Except Error Template}
    (agrees : ∀ name template, fetch name = .ok template → fetch' name = .ok template)
    {template : String} {source : Source} {nodes : List Node}
    (ok : assemble fetch template source = .ok nodes) :
    assemble fetch' template source = .ok nodes := by
  obtain ⟨assembly, folded, finished⟩ := bind_ok_iff.1 ok
  exact bind_ok_iff.2 ⟨assembly, Assembly.foldlM_agrees agrees folded, finished⟩

namespace Engine

/-- What loading a template comes to, if it succeeds: the name is not among those that are being
built, there is room, and its source can be built. -/
theorem loadWithin_ok_iff {engine : Engine} {room : Nat} {chain : List String} {name : String}
    {template : Template} :
    engine.loadWithin room chain name = .ok template ↔
      name ∉ chain ∧ ∃ fewer source nodes, room = fewer + 1 ∧ engine.source name = some source ∧
        assemble (engine.loadWithin fewer (chain ++ [name])) name source = .ok nodes ∧
        template = ⟨name, nodes⟩ := by
  by_cases circular : name ∈ chain
  · cases room <;> simp [loadWithin, circular]
  · cases room with
    | zero => simp [loadWithin, circular]
    | succ fewer =>
        simp only [loadWithin, circular, if_false]
        cases found : engine.source name with
        | none => simp
        | some source =>
            simp only [bind_ok_iff]
            constructor
            · rintro ⟨nodes, built, same⟩
              exact ⟨not_false, fewer, source, nodes, rfl, rfl, built, by cases same; rfl⟩
            · rintro ⟨_, _, _, nodes, same, found, built, rfl⟩
              cases same
              cases found
              exact ⟨nodes, built, rfl⟩

/-- A template that can be loaded on behalf of others can be loaded with more room and on behalf of
fewer, and is then the same. -/
theorem loadWithin_agrees (engine : Engine) {room room' : Nat} (more : room ≤ room')
    {chain chain' : List String} (fewer : ∀ name ∈ chain', name ∈ chain) {name : String}
    {template : Template} (ok : engine.loadWithin room chain name = .ok template) :
    engine.loadWithin room' chain' name = .ok template := by
  induction room generalizing room' chain chain' name template with
  | zero =>
      obtain ⟨_, _, _, _, none, _⟩ := loadWithin_ok_iff.1 ok
      omega
  | succ room ih =>
      obtain ⟨fresh, _, source, nodes, same, found, built, rfl⟩ := loadWithin_ok_iff.1 ok
      cases same
      obtain ⟨room', rfl⟩ : ∃ larger, room' = larger + 1 := ⟨room' - 1, by omega⟩
      refine loadWithin_ok_iff.2 ⟨fun again => fresh (fewer name again), room', source, nodes, rfl,
        found, assemble_agrees (fun inner template fetched => ?_) built, rfl⟩
      apply ih (by omega) ?_ fetched
      intro other member
      rcases List.mem_append.1 member with old | new
      · exact List.mem_append_left _ (fewer other old)
      · exact List.mem_append_right _ new

end Engine

/-! ### What a lexeme makes of an assembly -/

/-- What becomes of an assembly by a lexeme that fits: a finished node is added, a tag is opened or
divided, or the innermost open tag is closed. -/
inductive Assembly.Advance (fetch : String → Except Error Template) (assembly : Assembly) :
    Assembly → Prop where
  | text (text : String) : Advance fetch assembly (assembly.add (.text text))
  | value (path : String) : Advance fetch assembly (assembly.add (.value path))
  | inheritance {reference : Reference} {target : Target} (first : assembly.siblings = 0)
      (resolved : resolve fetch reference = .ok target) :
      Advance fetch assembly (assembly.add (.inheritance target))
  | inclusion {reference : Reference} {target : Target}
      (resolved : resolve fetch reference = .ok target) :
      Advance fetch assembly (assembly.add (.inclusion target))
  | block {name : String} (fresh : name ∉ assembly.names) :
      Advance fetch assembly
        { assembly.enter (.block name []) with names := name :: assembly.names }
  | loop (spec : Loop) : Advance fetch assembly (assembly.enter (.loop spec []))
  | conditional (condition : Condition) :
      Advance fetch assembly (assembly.enter (.conditional condition []))
  | divider {condition : Condition} {children : List Child} {guard : Option Condition}
      {outer : List Frame} (inside : assembly.frames = .conditional condition children :: outer) :
      Advance fetch assembly { assembly with
        frames := .conditional condition (children ++ [.divider guard]) :: outer }
  | closing {frame : Frame} {outer : List Frame} {node : Node}
      (inside : assembly.frames = frame :: outer) (closed : frame.close = .ok node) :
      Advance fetch assembly ({ assembly with frames := outer }.add node)

namespace Assembly

variable {fetch : String → Except Error Template}

theorem advance_of_step {template : String} {assembly next : Assembly} {lexeme : Lexeme}
    (ok : step fetch template assembly lexeme = .ok next) : Advance fetch assembly next := by
  cases fits_of_step ok with
  | text text => exact .text text
  | value written => exact .value _
  | closing inside closed => exact .closing inside closed
  | opening written accepts =>
      cases accepts with
      | block fresh => exact .block fresh
      | inheritance first =>
          cases written with
          | inheritance _ resolved => exact .inheritance first resolved
      | inclusion target =>
          cases written with
          | inclusion _ resolved => exact .inclusion resolved
      | loop spec => exact .loop spec
      | conditional condition => exact .conditional condition
      | divider guard inside => exact .divider inside

end Assembly

/-! ### What passes from the parts of a tree to the whole

The builder takes lexemes one by one, so a property of finished nodes is proved of the nodes it has
put together so far: those at the root and those inside open tags. -/

/-- A property that a node has if the nodes inside it have it. A tag that refers to a template has
it if the template, where it stands in quotes, was fetched. -/
structure Hereditary (fetch : String → Except Error Template) (holds : Node → Prop) : Prop where
  text : ∀ text, holds (.text text)
  value : ∀ path, holds (.value path)
  block : ∀ name body, (∀ node ∈ body, holds node) → holds (.block name body)
  loop : ∀ spec body, (∀ node ∈ body, holds node) → holds (.loop spec body)
  conditional : ∀ condition body branches, (∀ node ∈ body, holds node) →
    (∀ branch ∈ branches, ∀ node ∈ branch.body, holds node) →
      holds (.conditional condition body branches)
  inheritance : ∀ reference target, Assembly.resolve fetch reference = .ok target →
    holds (.inheritance target)
  inclusion : ∀ reference target, Assembly.resolve fetch reference = .ok target →
    holds (.inclusion target)

/-- Every node directly inside a conditional has a property. -/
def Child.Every (holds : Node → Prop) : Child → Prop
  | .node direct => holds direct
  | .divider _ => True

/-- Every node inside an open tag has a property. -/
def Frame.Every (holds : Node → Prop) : Frame → Prop
  | .block _ body | .loop _ body => ∀ node ∈ body, holds node
  | .conditional _ children => ∀ child ∈ children, child.Every holds

/-- Every node that has been put together so far has a property. -/
structure Assembly.Every (holds : Node → Prop) (assembly : Assembly) : Prop where
  frames : ∀ frame ∈ assembly.frames, frame.Every holds
  roots : ∀ node ∈ assembly.roots, holds node

section

variable {fetch : String → Except Error Template} {holds : Node → Prop}

theorem Child.every_branches {children : List Child}
    (every : ∀ child ∈ children, child.Every holds) :
    (∀ node ∈ (Child.branches children).1, holds node) ∧
      ∀ branch ∈ (Child.branches children).2, ∀ node ∈ branch.body, holds node := by
  induction children with
  | nil => simp [Child.branches]
  | cons child rest ih =>
      obtain ⟨body, others⟩ := ih fun child member => every child (List.mem_cons_of_mem _ member)
      have first : child.Every holds := every child List.mem_cons_self
      cases child with
      | node direct =>
          have first : holds direct := first
          constructor
          · intro other member
            rcases List.mem_cons.1 member with rfl | member
            · exact first
            · exact body other member
          · exact others
      | divider guard =>
          constructor
          · simp [Child.branches]
          · intro branch member
            rcases List.mem_cons.1 member with rfl | member
            · exact body
            · exact others branch member

theorem Frame.every_add {frame : Frame} {node : Node} (every : frame.Every holds)
    (last : holds node) : (frame.add node).Every holds := by
  cases frame with
  | block name body =>
      intro other member
      rcases List.mem_append.1 member with old | new
      · exact every other old
      · exact List.mem_singleton.1 new ▸ last
  | loop spec body =>
      intro other member
      rcases List.mem_append.1 member with old | new
      · exact every other old
      · exact List.mem_singleton.1 new ▸ last
  | conditional condition children =>
      have last : (Child.node node).Every holds := last
      intro child member
      rcases List.mem_append.1 member with old | new
      · exact every child old
      · exact List.mem_singleton.1 new ▸ last

theorem Frame.holds_close (hereditary : Hereditary fetch holds) {frame : Frame} {node : Node}
    (every : frame.Every holds) (ok : frame.close = .ok node) : holds node := by
  cases frame with
  | block name body =>
      cases ok
      exact hereditary.block name body every
  | loop spec body =>
      cases ok
      exact hereditary.loop spec body every
  | conditional condition children =>
      simp only [Frame.close] at ok
      split at ok
      · cases ok
        obtain ⟨body, branches⟩ := Child.every_branches every
        exact hereditary.conditional condition _ _ body branches
      · simp at ok

namespace Assembly

theorem Every.add {assembly : Assembly} {node : Node} (every : assembly.Every holds)
    (last : holds node) : (assembly.add node).Every holds := by
  obtain ⟨frames, roots, names⟩ := assembly
  cases frames with
  | nil =>
      refine ⟨every.frames, ?_⟩
      intro other member
      rcases List.mem_append.1 member with old | new
      · exact every.roots other old
      · exact List.mem_singleton.1 new ▸ last
  | cons frame outer =>
      refine ⟨?_, every.roots⟩
      intro other member
      rcases List.mem_cons.1 member with rfl | member
      · exact Frame.every_add (every.frames frame List.mem_cons_self) last
      · exact every.frames other (List.mem_cons_of_mem _ member)

theorem Every.enter {assembly : Assembly} {frame : Frame} (every : assembly.Every holds)
    (first : frame.Every holds) : (assembly.enter frame).Every holds := by
  refine ⟨?_, every.roots⟩
  intro other member
  rcases List.mem_cons.1 member with rfl | member
  · exact first
  · exact every.frames other member

theorem Every.advance (hereditary : Hereditary fetch holds) {assembly next : Assembly}
    (every : assembly.Every holds) (advance : Advance fetch assembly next) : next.Every holds := by
  cases advance with
  | text text => exact every.add (hereditary.text text)
  | value path => exact every.add (hereditary.value path)
  | inheritance _ resolved => exact every.add (hereditary.inheritance _ _ resolved)
  | inclusion resolved => exact every.add (hereditary.inclusion _ _ resolved)
  | @block name fresh =>
      have first : (Frame.block name []).Every holds := by simp [Frame.Every]
      exact ⟨(every.enter first).frames, every.roots⟩
  | loop spec => exact every.enter (by simp [Frame.Every])
  | conditional condition => exact every.enter (by simp [Frame.Every])
  | @divider condition children guard outer inside =>
      obtain ⟨frames, roots, names⟩ := assembly
      cases inside
      refine ⟨?_, every.roots⟩
      intro frame member
      rcases List.mem_cons.1 member with rfl | member
      · intro child member
        rcases List.mem_append.1 member with old | new
        · exact every.frames _ List.mem_cons_self child old
        · cases List.mem_singleton.1 new
          trivial
      · exact every.frames frame (List.mem_cons_of_mem _ member)
  | @closing frame outer node inside closed =>
      obtain ⟨frames, roots, names⟩ := assembly
      cases inside
      have here := Frame.holds_close hereditary (every.frames frame List.mem_cons_self) closed
      have rest : Assembly.Every holds ⟨outer, roots, names⟩ :=
        ⟨fun other member => every.frames other (List.mem_cons_of_mem _ member), every.roots⟩
      exact rest.add here

theorem Every.foldlM (hereditary : Hereditary fetch holds) {template : String}
    {lexemes : List Lexeme} {assembly last : Assembly} (every : assembly.Every holds)
    (ok : lexemes.foldlM (Assembly.step fetch template) assembly = .ok last) :
    last.Every holds := by
  induction lexemes generalizing assembly with
  | nil =>
      cases ok
      exact every
  | cons lexeme rest ih =>
      obtain ⟨next, first, others⟩ := bind_ok_iff.1 ok
      exact ih (every.advance hereditary (advance_of_step first)) others

end Assembly

/-- A property that passes from the parts of a tree to the whole holds of all nodes that are
built. -/
theorem assemble_every (hereditary : Hereditary fetch holds) {template : String} {source : Source}
    {nodes : List Node} (ok : assemble fetch template source = .ok nodes) :
    ∀ node ∈ nodes, holds node := by
  obtain ⟨assembly, folded, finished⟩ := bind_ok_iff.1 ok
  have start : Assembly.empty.Every holds := ⟨by simp [Assembly.empty], by simp [Assembly.empty]⟩
  have every := start.foldlM hereditary folded
  rw [Assembly.blame_ok_iff, Assembly.finish] at finished
  split at finished
  · cases finished
    exact every.roots
  · simp at finished

end

/-! ### The templates in quotes -/

mutual

/-- Every template in quotes inside a node is the one that loading its name gives. -/
def Node.Genuine (engine : Engine) : Node → Prop
  | .text _ | .value _ => True
  | .block _ body | .loop _ body => AllGenuine engine body
  | .inheritance target | .inclusion target => target.Genuine engine
  | .conditional _ body branches => AllGenuine engine body ∧ BranchesGenuine engine branches
termination_by structural node => node

/-- A template in quotes is the one that loading its name gives, and so are all inside it. -/
def Target.Genuine (engine : Engine) : Target → Prop
  | .quoted ⟨path, nodes⟩ => engine.load path = .ok ⟨path, nodes⟩ ∧ AllGenuine engine nodes
  | .bare _ => True
termination_by structural target => target

def AllGenuine (engine : Engine) : List Node → Prop
  | [] => True
  | node :: rest => node.Genuine engine ∧ AllGenuine engine rest
termination_by structural nodes => nodes

def BranchesGenuine (engine : Engine) : List Branch → Prop
  | [] => True
  | ⟨_, body⟩ :: rest => AllGenuine engine body ∧ BranchesGenuine engine rest
termination_by structural branches => branches

end

theorem allGenuine_iff {engine : Engine} {nodes : List Node} :
    AllGenuine engine nodes ↔ ∀ node ∈ nodes, node.Genuine engine := by
  induction nodes with
  | nil => simp [AllGenuine]
  | cons node rest ih => simp [AllGenuine, ih]

theorem branchesGenuine_iff {engine : Engine} {branches : List Branch} :
    BranchesGenuine engine branches ↔ ∀ branch ∈ branches, AllGenuine engine branch.body := by
  induction branches with
  | nil => simp [BranchesGenuine]
  | cons branch rest ih =>
      obtain ⟨guard, body⟩ := branch
      simp [BranchesGenuine, ih]

theorem passesDown_genuine (engine : Engine) : PassesDown (Node.Genuine engine) where
  block genuine := allGenuine_iff.1 genuine
  loop genuine := allGenuine_iff.1 genuine
  conditional genuine := allGenuine_iff.1 genuine.1
  branch genuine branch among := allGenuine_iff.1 (branchesGenuine_iff.1 genuine.2 branch among)

namespace Engine

variable {engine : Engine}

/-- Where whatever is fetched is what loading its name gives, that passes to all nodes built. -/
theorem hereditary_genuine {fetch : String → Except Error Template}
    (fetched : ∀ name template, fetch name = .ok template → template.path = name ∧
      engine.load name = .ok template ∧ AllGenuine engine template.nodes) :
    Hereditary fetch (Node.Genuine engine) := by
  have target : ∀ reference target, Assembly.resolve fetch reference = .ok target →
      target.Genuine engine := by
    intro reference target resolved
    cases reference with
    | bare path =>
        cases resolved
        trivial
    | quoted name =>
        obtain ⟨⟨path, nodes⟩, found, done⟩ := bind_ok_iff.1 resolved
        cases done
        obtain ⟨rfl, loaded, inner⟩ := fetched name _ found
        exact ⟨loaded, inner⟩
  exact {
    text := fun _ => trivial
    value := fun _ => trivial
    block := fun _ _ inner => allGenuine_iff.2 inner
    loop := fun _ _ inner => allGenuine_iff.2 inner
    conditional := fun _ _ _ inner others =>
      ⟨allGenuine_iff.2 inner, branchesGenuine_iff.2 fun branch member =>
        allGenuine_iff.2 (others branch member)⟩
    inheritance := target
    inclusion := target }

theorem path_of_loadWithin {room : Nat} {chain : List String} {name : String} {template : Template}
    (ok : engine.loadWithin room chain name = .ok template) : template.path = name := by
  obtain ⟨_, _, _, _, _, _, _, rfl⟩ := loadWithin_ok_iff.1 ok
  rfl

/-- A template loaded on behalf of others is the one that loading it for itself gives. -/
theorem load_of_loadWithin {room : Nat} (within : room ≤ engine.config.maxDepth)
    {chain : List String} {name : String} {template : Template}
    (ok : engine.loadWithin room chain name = .ok template) : engine.load name = .ok template :=
  engine.loadWithin_agrees within (by simp) ok

theorem genuine_of_loadWithin {room : Nat} (within : room ≤ engine.config.maxDepth)
    {chain : List String} {name : String} {template : Template}
    (ok : engine.loadWithin room chain name = .ok template) : AllGenuine engine template.nodes := by
  induction room generalizing chain name template with
  | zero =>
      obtain ⟨_, _, _, _, none, _⟩ := loadWithin_ok_iff.1 ok
      omega
  | succ room ih =>
      obtain ⟨_, _, source, nodes, same, _, built, rfl⟩ := loadWithin_ok_iff.1 ok
      cases same
      have within : room ≤ engine.config.maxDepth := by omega
      apply allGenuine_iff.2
      apply assemble_every (hereditary_genuine ?_) built
      intro inner template fetched
      exact ⟨path_of_loadWithin fetched, load_of_loadWithin within fetched, ih within fetched⟩

/-- A template that the engine has built, from a source of its own or of somebody else's. -/
def Built (engine : Engine) (template : Template) : Prop :=
  (∃ name, engine.load name = .ok template) ∨
    ∃ name source, engine.build name source = .ok template

/-- Every template in quotes inside a built one is the one that loading its name gives. -/
theorem Built.genuine {template : Template} (built : engine.Built template) :
    AllGenuine engine template.nodes := by
  rcases built with ⟨name, loaded⟩ | ⟨name, source, built⟩
  · exact genuine_of_loadWithin (Nat.le_refl _) loaded
  · obtain ⟨nodes, assembled, done⟩ := bind_ok_iff.1 built
    cases done
    have within : engine.config.maxDepth - 1 ≤ engine.config.maxDepth := Nat.sub_le _ _
    apply allGenuine_iff.2
    apply assemble_every (hereditary_genuine ?_) assembled
    intro inner template fetched
    exact ⟨path_of_loadWithin fetched, load_of_loadWithin within fetched,
      genuine_of_loadWithin within fetched⟩

end Engine

end Quire
