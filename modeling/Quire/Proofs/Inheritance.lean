/-
Module: Quire.Proofs.Inheritance
Purpose: A chain of inheritance shows the nodes of its last template, each block replaced by the
  body that the most derived template defines for it.
Main exports: AllPlain, Chain, mostDerived, MostDerived, Shows, Shows.unique, Chain.direct_root,
  shows_directAll, inheritance_picks_most_derived
-/
import Quire.Proofs.Inclusion

/-!
Going up a chain of inheritance, the blocks of each template are put under those that are replaced
already, so the map that arrives at the last template has for every name the body of the most
derived template. From there on the map stays as it is: rendering only looks names up in it, in the
nodes of the last template and again in the bodies that it holds. What the nodes then show is a
relation of its own, in which neither the chain nor the measure of open bodies occurs any more.
-/

namespace Quire

/-! ### Chains -/

mutual

/-- No inheritance tag stands in a node. The templates that it includes may have some. -/
def Node.Plain : Node → Prop
  | .text _ | .value _ | .inclusion _ => True
  | .inheritance _ => False
  | .block _ body | .loop _ body => AllPlain body
  | .conditional _ body branches => AllPlain body ∧ BranchesPlain branches
termination_by structural node => node

def AllPlain : List Node → Prop
  | [] => True
  | node :: rest => node.Plain ∧ AllPlain rest
termination_by structural nodes => nodes

def BranchesPlain : List Branch → Prop
  | [] => True
  | ⟨_, body⟩ :: rest => AllPlain body ∧ BranchesPlain rest
termination_by structural branches => branches

end

theorem allPlain_iff {nodes : List Node} : AllPlain nodes ↔ ∀ node ∈ nodes, node.Plain := by
  induction nodes with
  | nil => simp [AllPlain]
  | cons node rest ih => simp [AllPlain, ih]

theorem branchesPlain_iff {branches : List Branch} :
    BranchesPlain branches ↔ ∀ branch ∈ branches, AllPlain branch.body := by
  induction branches with
  | nil => simp [BranchesPlain]
  | cons branch rest ih =>
      obtain ⟨guard, body⟩ := branch
      simp [BranchesPlain, ih]

theorem passesDown_plain : PassesDown Node.Plain where
  block plain := allPlain_iff.1 plain
  loop plain := allPlain_iff.1 plain
  conditional plain := allPlain_iff.1 plain.1
  branch plain branch among := allPlain_iff.1 (branchesPlain_iff.1 plain.2 branch among)

/-- The template that a target leads to in a context: the one in quotes, or the one whose name a
variable holds. -/
def Target.LeadsTo (engine : Engine) (context : Context) (parent : Template) : Target → Prop
  | .quoted template => template = parent
  | .bare path => ∃ name, context.templateName path = .ok name ∧ engine.load name = .ok parent

/-- A chain of inheritance, from a template over those that are derived to the root. Each but the
root is headed by an inheritance tag that leads to the next, and no other inheritance tag stands in
any of them. -/
inductive Chain (engine : Engine) (context : Context) :
    Template → List Template → Template → Prop where
  | root {template : Template} (plain : AllPlain template.nodes) :
      Chain engine context template [] template
  | derived {template parent root : Template} {target : Target} {rest : List Node}
      {others : List Template} (heads : template.nodes = .inheritance target :: rest)
      (plain : AllPlain rest) (leads : target.LeadsTo engine context parent)
      (chain : Chain engine context parent others root) :
      Chain engine context template (template :: others) root

/-! ### The most derived body of a block -/

/-- The bodies that a chain puts in the place of blocks. -/
def mostDerived (derived : List Template) : Overrides :=
  derived.flatMap Template.blocks

/-- A map that holds, of every name, a body from the first template that defines a block of the
name, and nothing of the names that no template defines a block of. -/
structure MostDerived (derived : List Template) (blocks : Overrides) : Prop where
  found : ∀ name body, Fields.find? name blocks = some body →
    ∃ before template after, derived = before ++ template :: after ∧ template.Defines name body ∧
      ∀ earlier ∈ before, ∀ other, ¬ earlier.Defines name other
  missing : ∀ name, Fields.find? name blocks = none ↔
    ∀ template ∈ derived, ∀ body, ¬ template.Defines name body

theorem find?_blocks_eq_none_iff {template : Template} {name : String} :
    Fields.find? name template.blocks = none ↔ ∀ body, ¬ template.Defines name body := by
  simp only [Fields.find?_eq_none_iff, Template.mem_blocks_iff]

/-- The bodies that a chain puts in the place of blocks are the most derived ones. -/
theorem mostDerived_spec (derived : List Template) : MostDerived derived (mostDerived derived) := by
  induction derived with
  | nil => exact ⟨by simp [mostDerived, Fields.find?], by simp [mostDerived, Fields.find?]⟩
  | cons template rest ih =>
      have first : ∀ name, Fields.find? name (mostDerived (template :: rest)) =
          (Fields.find? name template.blocks).or (Fields.find? name (mostDerived rest)) := by
        intro name
        exact Fields.find?_append name template.blocks (mostDerived rest)
      constructor
      · intro name body found
        rw [first] at found
        cases here : Fields.find? name template.blocks with
        | some other =>
            rw [here, Option.some_or] at found
            cases found
            have defines := Template.mem_blocks_iff.1 (Fields.mem_of_find? here)
            exact ⟨[], template, rest, rfl, defines, fun _ none => absurd none List.not_mem_nil⟩
        | none =>
            rw [here, Option.none_or] at found
            obtain ⟨before, source, after, rfl, defines, least⟩ := ih.found name body found
            refine ⟨template :: before, source, after, rfl, defines, ?_⟩
            intro earlier member
            rcases List.mem_cons.1 member with rfl | member
            · exact find?_blocks_eq_none_iff.1 here
            · exact least earlier member
      · intro name
        rw [first, Option.or_eq_none_iff, find?_blocks_eq_none_iff, ih.missing]
        rw [List.forall_mem_cons]

/-! ### What nodes show under a fixed map of bodies -/

mutual

/-- Nodes show a text in a context. A block shows the body that the map holds for its name, wherever
the block stands, and its own body if the map holds none. What a template shows that is included is
the text of rendering it alone, so the map has no part in it. -/
inductive Shows (engine : Engine) (blocks : Overrides) : Context → List Node → String → Prop where
  | nil {context : Context} : Shows engine blocks context [] ""
  | cons {context : Context} {node : Node} {rest : List Node} {text others : String}
      (first : ShowsNode engine blocks context node text)
      (after : Shows engine blocks context rest others) :
      Shows engine blocks context (node :: rest) (text ++ others)

inductive ShowsNode (engine : Engine) (blocks : Overrides) : Context → Node → String → Prop where
  | text {context : Context} (text : String) : ShowsNode engine blocks context (.text text) text
  | value {context : Context} {path : String} {value : Value}
      (found : context.lookup path = some value) :
      ShowsNode engine blocks context (.value path) value.display
  | noValue {context : Context} {path : String} (missing : context.lookup path = none) :
      ShowsNode engine blocks context (.value path) ""
  | replaced {context : Context} {name : String} {body other : List Node} {text : String}
      (found : Fields.find? name blocks = some other)
      (shows : Shows engine blocks context other text) :
      ShowsNode engine blocks context (.block name body) text
  | kept {context : Context} {name : String} {body : List Node} {text : String}
      (missing : Fields.find? name blocks = none) (shows : Shows engine blocks context body text) :
      ShowsNode engine blocks context (.block name body) text
  | quoted {context : Context} {template : Template} {output : Output} {cells : Cells}
      (rendered : engine.renderTemplate template context = .ok (output, cells)) :
      ShowsNode engine blocks context (.inclusion (.quoted template)) (cells.text output)
  | bare {context : Context} {path name : String} {text : String}
      (named : context.templateName path = .ok name)
      (contributes : engine.Contributes ⟨false, ⟨.inclusion, name, context, []⟩⟩ text) :
      ShowsNode engine blocks context (.inclusion (.bare path)) text
  | loop {context : Context} {spec : Loop} {body : List Node} {scopes : List Scope} {text : String}
      (entries : spec.scopes context = .ok scopes)
      (rounds : ShowsRounds engine blocks context body scopes text) :
      ShowsNode engine blocks context (.loop spec body) text
  | taken {context : Context} {condition : Condition} {body : List Node} {branches : List Branch}
      {text : String} (holds : condition.holds context = true)
      (shows : Shows engine blocks context body text) :
      ShowsNode engine blocks context (.conditional condition body branches) text
  | passed {context : Context} {condition : Condition} {body : List Node} {branches : List Branch}
      {text : String} (fails : condition.holds context = false)
      (shows : ShowsBranches engine blocks context branches text) :
      ShowsNode engine blocks context (.conditional condition body branches) text

inductive ShowsRounds (engine : Engine) (blocks : Overrides) :
    Context → List Node → List Scope → String → Prop where
  | nil {context : Context} {body : List Node} : ShowsRounds engine blocks context body [] ""
  | cons {context : Context} {body : List Node} {scope : Scope} {rest : List Scope}
      {text others : String} (first : Shows engine blocks (context.push scope) body text)
      (after : ShowsRounds engine blocks context body rest others) :
      ShowsRounds engine blocks context body (scope :: rest) (text ++ others)

inductive ShowsBranches (engine : Engine) (blocks : Overrides) :
    Context → List Branch → String → Prop where
  | nil {context : Context} : ShowsBranches engine blocks context [] ""
  | taken {context : Context} {guard : Option Condition} {body : List Node} {rest : List Branch}
      {text : String} (holds : guard.all (·.holds context) = true)
      (shows : Shows engine blocks context body text) :
      ShowsBranches engine blocks context (⟨guard, body⟩ :: rest) text
  | passed {context : Context} {guard : Option Condition} {body : List Node} {rest : List Branch}
      {text : String} (fails : guard.all (·.holds context) = false)
      (shows : ShowsBranches engine blocks context rest text) :
      ShowsBranches engine blocks context (⟨guard, body⟩ :: rest) text

end

section

variable {engine : Engine} {blocks : Overrides}

mutual

/-- Nodes show one text only. -/
theorem Shows.unique {context : Context} {nodes : List Node} {text text' : String} :
    Shows engine blocks context nodes text → Shows engine blocks context nodes text' → text = text'
  | .nil, .nil => rfl
  | .cons first after, .cons first' after' => by rw [first.unique first', after.unique after']
termination_by structural shows => shows

theorem ShowsNode.unique {context : Context} {node : Node} {text text' : String} :
    ShowsNode engine blocks context node text → ShowsNode engine blocks context node text' →
      text = text'
  | .text _, .text _ => rfl
  | .value found, .value found' => by rw [Option.some.inj (found.symm.trans found')]
  | .value found, .noValue missing => nomatch found.symm.trans missing
  | .noValue missing, .value found => nomatch found.symm.trans missing
  | .noValue _, .noValue _ => rfl
  | .replaced found shows, .replaced found' shows' => by
      cases Option.some.inj (found.symm.trans found')
      exact shows.unique shows'
  | .replaced found _, .kept missing _ => nomatch found.symm.trans missing
  | .kept missing _, .replaced found _ => nomatch found.symm.trans missing
  | .kept _ shows, .kept _ shows' => shows.unique shows'
  | .quoted rendered, .quoted rendered' => by
      cases Except.ok.inj (rendered.symm.trans rendered')
      rfl
  | .bare named contributes, .bare named' contributes' => by
      cases Except.ok.inj (named.symm.trans named')
      exact contributes'.unique contributes rfl rfl
  | .loop entries rounds, .loop entries' rounds' => by
      cases Except.ok.inj (entries.symm.trans entries')
      exact rounds.unique rounds'
  | .taken _ shows, .taken _ shows' => shows.unique shows'
  | .taken holds _, .passed fails _ => nomatch holds.symm.trans fails
  | .passed fails _, .taken holds _ => nomatch holds.symm.trans fails
  | .passed _ shows, .passed _ shows' => shows.unique shows'
termination_by structural shows => shows

theorem ShowsRounds.unique {context : Context} {body : List Node} {scopes : List Scope}
    {text text' : String} : ShowsRounds engine blocks context body scopes text →
      ShowsRounds engine blocks context body scopes text' → text = text'
  | .nil, .nil => rfl
  | .cons first after, .cons first' after' => by rw [first.unique first', after.unique after']
termination_by structural shows => shows

theorem ShowsBranches.unique {context : Context} {branches : List Branch} {text text' : String} :
    ShowsBranches engine blocks context branches text →
      ShowsBranches engine blocks context branches text' → text = text'
  | .nil, .nil => rfl
  | .taken _ shows, .taken _ shows' => shows.unique shows'
  | .taken holds _, .passed fails _ => nomatch holds.symm.trans fails
  | .passed fails _, .taken holds _ => nomatch holds.symm.trans fails
  | .passed _ shows, .passed _ shows' => shows.unique shows'
termination_by structural shows => shows

end

end

/-! ### Rendering shows just that -/

section

variable {engine : Engine} {blocks : Overrides} {render : List Node → Scene → Direct}
variable {fetch : Request → Direct}

/-- A renderer of replaced bodies and a fetcher that give what the map says: bodies show what they
show under the map, and includes contribute what their templates give alone. -/
structure Follows (engine : Engine) (blocks : Overrides) (render : List Node → Scene → Direct)
    (fetch : Request → Direct) : Prop where
  bodies : ∀ name body context parts, Fields.find? name blocks = some body →
    render body ⟨context, blocks⟩ = .ok parts → Shows engine blocks context body (shownAll parts)
  quoted : ∀ path nodes context parts, directTemplate render fetch ⟨context, []⟩ nodes = .ok parts →
    engine.direct ⟨path, nodes⟩ context = .ok parts
  requests : ∀ name context parts, fetch ⟨.inclusion, name, context, []⟩ = .ok parts →
    engine.Contributes ⟨false, ⟨.inclusion, name, context, []⟩⟩ (shownAll parts)

theorem showsRounds_each {body : List Node} {context : Context}
    (round : ∀ scope parts, directAll render fetch ⟨context.push scope, blocks⟩ body = .ok parts →
      Shows engine blocks (context.push scope) body (shownAll parts)) :
    ∀ {scopes : List Scope} {parts : List Part},
      Direct.each (fun scope => directAll render fetch ⟨context.push scope, blocks⟩ body) scopes =
        .ok parts → ShowsRounds engine blocks context body scopes (shownAll parts)
  | [], _, ok => by
      cases ok
      exact .nil
  | scope :: rest, _, ok => by
      obtain ⟨front, back, first, others, rfl⟩ := Direct.append_ok_iff.1 ok
      rw [shownAll_append]
      exact .cons (round scope front first) (showsRounds_each round others)

mutual

theorem Node.shows_direct (follows : Follows engine blocks render fetch) :
    ∀ (node : Node) {context : Context} {parts : List Part}, node.Plain →
      node.direct render fetch ⟨context, blocks⟩ = .ok parts →
        ShowsNode engine blocks context node (shownAll parts)
  | .text text, _, _, _, ok => by
      cases ok
      simpa [shownAll, Part.shown] using ShowsNode.text text
  | .value path, context, _, _, ok => by
      cases found : context.lookup path with
      | some value =>
          simp only [Node.direct, found] at ok
          cases ok
          simpa [shownAll, Part.shown] using ShowsNode.value found
      | none =>
          simp only [Node.direct, found] at ok
          cases ok
          exact .noValue found
  | .block name body, context, parts, plain, ok => by
      cases found : Fields.find? name blocks with
      | some other =>
          simp only [Node.direct, found] at ok
          exact .replaced found (follows.bodies name other context parts found ok)
      | none =>
          simp only [Node.direct, found] at ok
          exact .kept found (shows_directAll follows body plain ok)
  | .inclusion (.quoted ⟨path, nodes⟩), context, _, _, ok => by
      obtain ⟨inner, rendered, rfl⟩ := Direct.visit_ok_iff.1 ok
      have alone := follows.quoted path nodes context inner rendered
      obtain ⟨output, cells, rendered, shown⟩ := Engine.renderTemplate_of_direct alone
      have shows : ShowsNode engine blocks context (.inclusion (.quoted ⟨path, nodes⟩))
          (cells.text output) := .quoted rendered
      simpa [shownAll, Part.shown, shown] using shows
  | .inclusion (.bare path), context, _, _, ok => by
      cases named : context.templateName path with
      | error error => simp [Node.direct, Target.direct, Scene.bare, named] at ok
      | ok name =>
          simp only [Node.direct, Target.direct, Scene.bare, named] at ok
          obtain ⟨inner, fetched, rfl⟩ := Direct.visit_ok_iff.1 ok
          have shows : ShowsNode engine blocks context (.inclusion (.bare path)) (shownAll inner) :=
            .bare named (follows.requests name context inner fetched)
          simpa [shownAll, Part.shown] using shows
  | .loop spec body, context, parts, plain, ok => by
      cases entries : spec.scopes context with
      | error error => simp [Node.direct, entries] at ok
      | ok scopes =>
          simp only [Node.direct, entries] at ok
          exact .loop entries (showsRounds_each (fun _ _ => shows_directAll follows body plain) ok)
  | .conditional condition body branches, context, parts, plain, ok => by
      by_cases holds : condition.holds context = true
      · simp only [Node.direct, holds, if_true] at ok
        exact .taken holds (shows_directAll follows body plain.1 ok)
      · simp only [Node.direct, holds] at ok
        exact .passed (by simpa using holds) (shows_directBranches follows branches plain.2 ok)
termination_by structural node => node

theorem shows_directBranches (follows : Follows engine blocks render fetch) :
    ∀ (branches : List Branch) {context : Context} {parts : List Part}, BranchesPlain branches →
      directBranches render fetch ⟨context, blocks⟩ branches = .ok parts →
        ShowsBranches engine blocks context branches (shownAll parts)
  | [], _, _, _, ok => by
      cases ok
      exact .nil
  | ⟨guard, body⟩ :: rest, context, parts, plain, ok => by
      by_cases holds : guard.all (·.holds context) = true
      · simp only [directBranches, holds, if_true] at ok
        exact .taken holds (shows_directAll follows body plain.1 ok)
      · simp only [directBranches, holds] at ok
        exact .passed (by simpa using holds) (shows_directBranches follows rest plain.2 ok)
termination_by structural branches => branches

/-- Where no inheritance tag stands, rendering gives just what nodes show under the map. -/
theorem shows_directAll (follows : Follows engine blocks render fetch) :
    ∀ (nodes : List Node) {context : Context} {parts : List Part}, AllPlain nodes →
      directAll render fetch ⟨context, blocks⟩ nodes = .ok parts →
        Shows engine blocks context nodes (shownAll parts)
  | [], _, _, _, ok => by
      cases ok
      exact .nil
  | node :: rest, _, _, plain, ok => by
      obtain ⟨front, back, first, others, rfl⟩ := Direct.append_ok_iff.1 ok
      rw [shownAll_append]
      exact .cons (node.shows_direct follows plain.1 first)
        (shows_directAll follows rest plain.2 others)
termination_by structural nodes => nodes

end

end

namespace Chain

variable {engine : Engine} {context : Context} {template root : Template} {derived : List Template}

theorem plain_root (chain : Chain engine context template derived root) : AllPlain root.nodes := by
  induction chain with
  | root plain => exact plain
  | derived _ _ _ _ ih => exact ih

/-- No inheritance tag stands in the bodies that a chain puts in the place of blocks. -/
theorem plain_mostDerived (chain : Chain engine context template derived root) :
    ∀ entry ∈ mostDerived derived, AllPlain entry.2 := by
  induction chain with
  | root plain => simp [mostDerived]
  | @derived template parent root target rest others heads plain leads chain ih =>
      intro entry member
      rcases List.mem_append.1 member with first | others
      · have blocks : template.blocks = blocksOf rest := by
          rw [Template.blocks, heads]
          rfl
        rw [blocks] at first
        exact allPlain_iff.2 (every_of_mem_blocksOf passesDown_plain (allPlain_iff.1 plain) first)
      · exact ih entry others

/-- Rendering the template at the head of a chain is rendering its last one, with the blocks of the
others under those that are replaced already. -/
theorem direct_root (chain : Chain engine context template derived root) {depth : Nat}
    {overrides : Overrides} {parts : List Part}
    (ok : engine.directAt depth ⟨context, overrides⟩ template.nodes = .ok parts) :
    ∃ shown, engine.directAt 0 ⟨context, overrides ++ mostDerived derived⟩ root.nodes = .ok shown ∧
      shownAll parts = shownAll shown := by
  induction chain generalizing depth overrides parts with
  | root plain =>
      have same : overrides ++ mostDerived [] = overrides := List.append_nil _
      rw [same]
      exact ⟨parts, engine.directAt_agrees (Nat.zero_le depth) _ _ _ ok, rfl⟩
  | @derived template parent root target rest others heads plain leads chain ih =>
      have blocks : template.blocks = blocksOf rest := by
        rw [Template.blocks, heads]
        rfl
      have under : overrides ++ mostDerived (template :: others) =
          (overrides ++ blocksOf rest) ++ mostDerived others := by
        rw [List.append_assoc, ← blocks]
        rfl
      rw [under]
      rw [Engine.directAt, heads] at ok
      cases target with
      | quoted source =>
          obtain ⟨path, nodes⟩ := source
          cases leads
          obtain ⟨inner, rendered, rfl⟩ := Direct.visit_ok_iff.1 ok
          obtain ⟨shown, last, same⟩ := ih rendered
          exact ⟨shown, last, by simpa [shownAll, Part.shown] using same⟩
      | bare path =>
          obtain ⟨name, named, loaded⟩ := leads
          simp only [directTemplate, Target.direct, Scene.under, named] at ok
          obtain ⟨inner, fetched, rfl⟩ := Direct.visit_ok_iff.1 ok
          rcases Engine.fetch_ok fetched with ⟨found, again, rendered⟩ | ⟨purpose, _⟩
          · cases Except.ok.inj (loaded.symm.trans again)
            obtain ⟨shown, last, same⟩ := ih rendered
            exact ⟨shown, last, by simpa [shownAll, Part.shown] using same⟩
          · exact nomatch purpose

end Chain

theorem follows_directBody (engine : Engine) {blocks : Overrides}
    (plain : ∀ entry ∈ blocks, AllPlain entry.2) (depth : Nat) :
    ∀ {openings : Nat}, openings ≤ engine.openings →
      Follows engine blocks (directBody (engine.fetch (depth + 1)) openings)
        (engine.fetch (depth + 1)) := by
  intro openings fewer
  constructor
  · intro name body context parts found ok
    cases openings with
    | zero => exact nomatch ok
    | succ openings =>
        have inner := follows_directBody engine plain depth (Nat.le_of_succ_le fewer)
        exact shows_directAll inner body (plain _ (Fields.mem_of_find? found)) ok
  · intro path nodes context parts ok
    exact engine.direct_of_nested fewer ⟨path, nodes⟩ ok
  · intro name context parts ok
    exact (Engine.fetch_accounted (fun _ => rfl) ok).1 rfl

/-- A template without inheritance tags shows under a map what rendering it with the map gives. -/
theorem shows_directAt (engine : Engine) {blocks : Overrides}
    (plain : ∀ entry ∈ blocks, AllPlain entry.2) {nodes : List Node} (plainNodes : AllPlain nodes)
    {depth : Nat} {context : Context} {parts : List Part}
    (ok : engine.directAt depth ⟨context, blocks⟩ nodes = .ok parts) :
    Shows engine blocks context nodes (shownAll parts) := by
  have follows := follows_directBody engine plain depth (Nat.le_refl engine.openings)
  cases nodes with
  | nil => exact shows_directAll follows [] plainNodes ok
  | cons node rest =>
      have plainNode : ∀ target, node ≠ .inheritance target := by
        rintro target rfl
        exact plainNodes.1
      rw [Engine.directAt, directTemplate_cons plainNode] at ok
      exact shows_directAll follows (node :: rest) plainNodes ok

/-- Inheritance picks the most derived block. Where rendering the template at the head of a chain
succeeds, its text is that of the last template rendered with the most derived body of every block
in the place of the block; and this is the one text that the nodes of the last template show when
every block, there and in those bodies, shows the most derived body of its name, or its own body if
there is none. -/
theorem inheritance_picks_most_derived (engine : Engine) {context : Context}
    {template root : Template} {derived : List Template}
    (chain : Chain engine context template derived root) {output : Output} {cells : Cells}
    (ok : engine.renderTemplate template context = .ok (output, cells)) :
    MostDerived derived (mostDerived derived) ∧
      (∃ output' cells',
        engine.complete (root.draft engine.openings context (mostDerived derived)) =
          .ok (output', cells') ∧
        cells'.text output' = cells.text output) ∧
      ∀ text, Shows engine (mostDerived derived) context root.nodes text ↔
        text = cells.text output := by
  obtain ⟨parts, direct, shown⟩ := Engine.direct_of_renderTemplate ok
  obtain ⟨parts', last, same⟩ := chain.direct_root direct
  rw [List.nil_append] at last
  rw [same] at shown
  refine ⟨mostDerived_spec derived, ?_, ?_⟩
  · apply Engine.textOf_eq_some.1
    rw [Engine.textOf_complete, Template.draft, ← Engine.said_directAt, last, Direct.said_ok, shown]
  · intro text
    have shows : Shows engine (mostDerived derived) context root.nodes (cells.text output) := by
      rw [← shown]
      exact shows_directAt engine chain.plain_mostDerived chain.plain_root last
    constructor
    · intro other
      exact other.unique shows
    · rintro rfl
      exact shows

/-- An engine that knows one template, `base`, which has one block. -/
def baseEngine : Engine :=
  ⟨fun name => if name = "base" then some ⟨[.text "<", .opening "block" "title", .text "base",
    .closing "block", .text ">"]⟩ else none, {}, 65536⟩

/-- A context in which `layout` names that template. -/
def baseContext : Context := .ofPairs [("layout", .string "base")]

/-- The template of that name. -/
def baseRoot : Template := ⟨"base", [.text "<", .block "title" [.text "base"], .text ">"]⟩

/-- A template that is derived from the one that `layout` names. -/
def baseMiddle : Template :=
  ⟨"middle", [.inheritance (.bare "layout"), .block "title" [.text "middle"]]⟩

/-- A template that is derived from a derived one. -/
def baseLeaf : Template :=
  ⟨"leaf", [.inheritance (.quoted baseMiddle), .block "title" [.text "leaf"]]⟩

theorem baseLeaf_chain :
    Chain baseEngine baseContext baseLeaf [baseLeaf, baseMiddle] baseRoot := by
  have root : Chain baseEngine baseContext baseRoot [] baseRoot :=
    .root ⟨trivial, ⟨trivial, trivial⟩, trivial, trivial⟩
  have middle : Chain baseEngine baseContext baseMiddle [baseMiddle] baseRoot :=
    .derived rfl ⟨⟨trivial, trivial⟩, trivial⟩ ⟨"base", rfl, rfl⟩ root
  exact .derived rfl ⟨⟨trivial, trivial⟩, trivial⟩ rfl middle

/-- What rendering that template gives. -/
def baseOutput : Output := ⟨[.cell ⟨0⟩]⟩

/-- The cell in it. -/
def baseCells : Cells := ⟨#[⟨[.text "<leaf>"]⟩]⟩

theorem baseLeaf_rendered :
    baseEngine.renderTemplate baseLeaf baseContext = .ok (baseOutput, baseCells) := by
  let blocks := mostDerived [baseLeaf, baseMiddle]
  let load : Load := ⟨⟨.inheritance, "base", baseContext, blocks⟩, ⟨0⟩, 1, .silent⟩
  have pass : baseEngine.pass baseLeaf baseContext .empty =
      (.ok baseOutput, ⟨⟨#[.empty]⟩, [.load load]⟩) := rfl
  have drained : baseEngine.runUntilIdle ⟨⟨#[.empty]⟩, [.load load]⟩ =
      ⟨[.load load], [], baseCells, none⟩ := Worker.drain_singleton rfl
  simp only [Engine.renderTemplate, pass, drained]

theorem base_leaf_picks_leaf :
    Chain baseEngine baseContext baseLeaf [baseLeaf, baseMiddle] baseRoot ∧
      baseEngine.renderTemplate baseLeaf baseContext = .ok (baseOutput, baseCells) ∧
      Shows baseEngine (mostDerived [baseLeaf, baseMiddle]) baseContext baseRoot.nodes "<leaf>" :=
  ⟨baseLeaf_chain, baseLeaf_rendered,
    ((inheritance_picks_most_derived baseEngine baseLeaf_chain baseLeaf_rendered).2.2 _).2 rfl⟩

end Quire
