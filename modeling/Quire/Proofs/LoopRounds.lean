/-
Module: Quire.Proofs.LoopRounds
Purpose: A loop is a fold over the entries of a collection: one round for each entry, in order, up
  to the first round that stops.
Main exports: Rendered, Draft.rendered, Rendered.inTurn, Draft.rendered_each, Context.Surrounds,
  draftAll_asks, Value.Lists, Loop.rounds, Loop.RoundView, LoopAccount, loop_folds_over_entries
-/
import Mathlib.Data.List.Induction
import Quire.Proofs.Dependence
import Quire.Proofs.Depth
import Quire.Proofs.Kept
import Quire.Proofs.OutputLaws

/-!
Rendering is seen here as the rest of the engine sees it: as output or the reason for a stop,
together with the loads that wait afterwards. Drafts that follow one another are then a fold, which
numbers the cells of each on from those of the drafts before it, and a loop is such a fold over its
rounds. What a round puts off keeps the context in which its tag stood. This is the context of the
round itself or of a round of a further loop within it, so it holds what the round has bound,
however much later the load is made.
-/

namespace Quire

/-! ### What drafts leave one after another -/

/-- Of pieces after others the cells are numbered on from theirs. -/
theorem Placed.ofPieces_append (depth : Nat) (policy : MissingInclude) (next : Nat)
    (pieces others : List Piece) :
    let front := ofPieces depth policy next pieces
    let back := ofPieces depth policy (next + front.loads.length) others
    ofPieces depth policy next (pieces ++ others) =
      ⟨Output.join front.fragments back.fragments, front.loads ++ back.loads⟩ := by
  induction pieces generalizing next with
  | nil => rfl
  | cons piece rest ih =>
      cases piece with
      | text text =>
          dsimp only at ih ⊢
          simp only [List.cons_append, ofPieces, ih, Output.join_assoc]
      | request request =>
          have number : next + 1 + (ofPieces depth policy (next + 1) rest).loads.length =
              next + ((ofPieces depth policy (next + 1) rest).loads.length + 1) := by omega
          dsimp only at ih ⊢
          simp [ofPieces, ih, number, Output.join]

/-- What rendering leaves: its output or why it has stopped, and the loads that wait afterwards, in
the order in which they were put off. -/
structure Rendered where
  answer : Except Stop Output
  loads : List Load

/-- A draft as output. Its loads are nested as deep as given and put off under the given policy, and
its cells are numbered from `next` on. -/
def Draft.rendered (depth : Nat) (policy : MissingInclude) (next : Nat) (draft : Draft) :
    Rendered :=
  let placed := Placed.ofPieces depth policy next draft.pieces
  ⟨draft.stop.elim (.ok placed.output) .error, placed.loads⟩

namespace Rendered

/-- Where nothing has been rendered yet. -/
def start : Rendered := ⟨.ok .empty, []⟩

/-- Rendering goes on with a draft, whose output comes after what there is and whose loads wait
after those that wait. Where rendering has stopped it does not go on. -/
def goOn (depth : Nat) (policy : MissingInclude) (next : Nat) (before : Rendered) (draft : Draft) :
    Rendered :=
  match before.answer with
  | .error _ => before
  | .ok output =>
      let rest := draft.rendered depth policy (next + before.loads.length)
      ⟨rest.answer.map output.append, before.loads ++ rest.loads⟩

/-- What drafts leave that are rendered one after another. -/
def inTurn (depth : Nat) (policy : MissingInclude) (next : Nat) (drafts : List Draft) : Rendered :=
  drafts.foldl (goOn depth policy next) start

end Rendered

namespace Draft

variable {depth : Nat} {policy : MissingInclude} {next : Nat}

theorem requests_rendered (draft : Draft) :
    (draft.rendered depth policy next).loads.map Load.request = draft.requests :=
  Placed.requests_ofPieces depth policy next draft.pieces draft.stop

/-- A pass and another after it leave what rendering leaves that goes on from the first with the
second. -/
theorem rendered_andThen (first : Draft) (second : Unit → Draft) :
    (first.andThen second).rendered depth policy next =
      (first.rendered depth policy next).goOn depth policy next (second ()) := by
  obtain ⟨pieces, stop⟩ := first
  cases stop with
  | some stop => rfl
  | none =>
      have placed := Placed.ofPieces_append depth policy next pieces (second ()).pieces
      dsimp only at placed
      cases later : (second ()).stop <;>
        simp [andThen, rendered, Rendered.goOn, later, placed, Except.map, Placed.output,
          Output.append]

theorem andThen_assoc (first : Draft) (second third : Unit → Draft) :
    (first.andThen second).andThen third =
      first.andThen fun _ => (second ()).andThen third := by
  cases stopped : first.stop with
  | some stop => simp only [andThen, stopped]
  | none =>
      cases later : (second ()).stop <;> simp [andThen, stopped, later]

@[simp] theorem andThen_empty (draft : Draft) : (draft.andThen fun _ => .empty) = draft := by
  obtain ⟨pieces, stop⟩ := draft
  cases stop <;> simp [andThen, empty]

@[simp] theorem empty_andThen (later : Unit → Draft) : Draft.empty.andThen later = later () := by
  simp [andThen, empty]

/-- The passes for further items are made after those for the items before them. -/
theorem each_append {α : Type} (pass : α → Draft) (items others : List α) :
    each pass (items ++ others) = (each pass items).andThen fun _ => each pass others := by
  induction items with
  | nil => rw [List.nil_append, each, empty_andThen]
  | cons item rest ih => rw [List.cons_append, each, each, ih, andThen_assoc]

/-- One pass for each item leaves what the passes leave one after another. -/
theorem rendered_each {α : Type} (pass : α → Draft) (items : List α) :
    (each pass items).rendered depth policy next = .inTurn depth policy next (items.map pass) := by
  -- the fold is over what has been rendered so far, so the last item is split off
  induction items using List.reverseRecOn with
  | nil => rfl
  | append_singleton items item ih =>
      rw [each_append, rendered_andThen, ih, each, each, andThen_empty]
      simp only [Rendered.inTurn, List.map_append, List.map_cons, List.map_nil, List.foldl_append,
        List.foldl_cons, List.foldl_nil]

end Draft

namespace Engine

/-- A pass over a template leaves what its draft is rendered to, with cells after those of the
stage, and its loads join the queue. -/
theorem pass_eq_rendered (engine : Engine) (template : Template) (context : Context)
    (stage : Stage) :
    let rendered := (template.draft engine.openings context []).rendered 1
      engine.config.missingInclude stage.cells.size
    engine.pass template context stage = (rendered.answer,
      ⟨stage.cells.allot rendered.loads.length, stage.queue ++ rendered.loads.map .load⟩) := by
  unfold pass Draft.rendered
  dsimp only
  cases (template.draft engine.openings context []).stop <;> rfl

/-- A load within the limit, of a template that there is, leaves what the template is rendered to in
the context of the request, whatever has been rendered since the request was made. -/
theorem performLoad_eq_rendered {engine : Engine} {load : Load} {template : Template}
    (within : load.depth ≤ engine.config.maxDepth)
    (loaded : engine.load load.request.name = .ok template) (cells : Cells) :
    let rendered := (template.draft engine.openings load.request.context
      load.request.overrides).rendered (load.depth + 1) engine.config.missingInclude cells.size
    let among := cells.allot rendered.loads.length
    (∀ output, rendered.answer = .ok output →
      engine.performLoad load cells = ⟨among.set load.cell output, rendered.loads, none⟩) ∧
    (∀ stop, rendered.answer = .error stop →
      engine.performLoad load cells = ⟨among, rendered.loads, some stop⟩) := by
  simp only [performLoad, if_neg (Nat.not_lt.2 within), loaded, Draft.rendered]
  cases (template.draft engine.openings load.request.context load.request.overrides).stop with
  | none =>
      constructor
      · intro output same
        cases same
        rfl
      · intro stop same
        cases same
  | some stop =>
      constructor
      · intro output same
        cases same
      · intro other same
        cases same
        rfl

end Engine

/-! ### Rounds that stop -/

namespace Rendered

variable {depth : Nat} {policy : MissingInclude} {next : Nat}

/-- Rendering that has stopped is not changed by any further drafts. -/
theorem foldl_goOn_of_error {before : Rendered} {stop : Stop}
    (stopped : before.answer = .error stop) (drafts : List Draft) :
    drafts.foldl (goOn depth policy next) before = before := by
  induction drafts with
  | nil => rfl
  | cons draft rest ih =>
      have here : before.goOn depth policy next draft = before := by simp only [goOn, stopped]
      rw [List.foldl_cons, here, ih]

/-- Rendering that has not stopped goes on with a draft: it stops if the draft does, and the
requests of the draft wait after those there are. -/
theorem goOn_of_ok (depth : Nat) (policy : MissingInclude) (next : Nat) {before : Rendered}
    {output : Output} (done : before.answer = .ok output) (draft : Draft) :
    (∀ stop, draft.stop = some stop → (before.goOn depth policy next draft).answer = .error stop) ∧
      (draft.stop = none → ∃ output, (before.goOn depth policy next draft).answer = .ok output) ∧
      (before.goOn depth policy next draft).loads.map Load.request =
        before.loads.map Load.request ++ draft.requests := by
  simp only [goOn, done, List.map_append, Draft.requests_rendered, and_true]
  constructor
  · intro stop stopped
    simp only [Draft.rendered, stopped, Option.elim, Except.map]
  · intro complete
    simp only [Draft.rendered, complete, Option.elim, Except.map]
    exact ⟨_, rfl⟩

theorem inTurn_append (drafts others : List Draft) :
    inTurn depth policy next (drafts ++ others) =
      others.foldl (goOn depth policy next) (inTurn depth policy next drafts) :=
  List.foldl_append

/-- Drafts that all come to their end leave output, and their requests wait in order. -/
theorem inTurn_completes (depth : Nat) (policy : MissingInclude) (next : Nat) {drafts : List Draft}
    (done : ∀ draft ∈ drafts, draft.stop = none) :
    (∃ output, (inTurn depth policy next drafts).answer = .ok output) ∧
      (inTurn depth policy next drafts).loads.map Load.request = drafts.flatMap Draft.requests := by
  induction drafts using List.reverseRecOn with
  | nil => exact ⟨⟨.empty, rfl⟩, rfl⟩
  | append_singleton drafts draft ih =>
      have early : ∀ draft ∈ drafts, draft.stop = none := fun draft member =>
        done draft (List.mem_append_left _ member)
      obtain ⟨⟨output, answer⟩, requests⟩ := ih early
      obtain ⟨_, completes, waiting⟩ := goOn_of_ok depth policy next answer draft
      rw [inTurn_append, List.foldl_cons, List.foldl_nil]
      constructor
      · exact completes (done draft (by simp))
      · rw [waiting, requests, List.flatMap_append, List.flatMap_singleton]

/-- Where drafts come to their end up to one that stops, rendering stops with that one, whatever
comes after it. -/
theorem inTurn_stops (depth : Nat) (policy : MissingInclude) (next : Nat) {early : List Draft}
    {draft : Draft} {stop : Stop} (done : ∀ draft ∈ early, draft.stop = none)
    (stopped : draft.stop = some stop) (late : List Draft) :
    inTurn depth policy next (early ++ draft :: late) =
        inTurn depth policy next (early ++ [draft]) ∧
      (inTurn depth policy next (early ++ [draft])).answer = .error stop ∧
      (inTurn depth policy next (early ++ [draft])).loads.map Load.request =
        (early ++ [draft]).flatMap Draft.requests := by
  obtain ⟨⟨output, answer⟩, requests⟩ := inTurn_completes depth policy next done
  obtain ⟨stops, _, waiting⟩ := goOn_of_ok depth policy next answer draft
  have here := stops stop stopped
  rw [inTurn_append, inTurn_append, List.foldl_cons, foldl_goOn_of_error here]
  refine ⟨rfl, here, ?_⟩
  rw [List.foldl_cons, List.foldl_nil, waiting, requests, List.flatMap_append,
    List.flatMap_singleton]

end Rendered

/-! ### What a round puts off

A request keeps the context of the tag that makes it, and its template is rendered in this context,
whenever that may be. Rendering opens a scope for each round of a loop and no others. So going down
a tree from some context it comes upon no contexts but those that this one surrounds.
-/

/-- A context surrounds itself, and the contexts of the rounds of any loop that goes through the
entries of a collection in a context that it surrounds. -/
inductive Context.Surrounds (outer : Context) : Context → Prop where
  | here : Surrounds outer outer
  | round {context : Context} {spec : Loop} {scopes : List Scope} {scope : Scope}
      (within : Surrounds outer context) (opened : spec.scopes context = .ok scopes)
      (member : scope ∈ scopes) : Surrounds outer (context.push scope)

namespace Context.Surrounds

variable {outer middle inner : Context}

theorem trans (first : outer.Surrounds middle) (second : middle.Surrounds inner) :
    outer.Surrounds inner := by
  induction second with
  | here => exact first
  | round _ opened member ih => exact .round ih opened member

/-- A context that is surrounded has all scopes of the outer one, and further ones inside them. What
these do not bind means what it means outside. -/
theorem reads (surrounds : outer.Surrounds inner) :
    ∃ added, inner.scopes = added ++ outer.scopes ∧
      ∀ name, (∀ scope ∈ added, Fields.find? name scope = none) →
        inner.find? name = outer.find? name := by
  induction surrounds with
  | here => exact ⟨[], rfl, fun _ _ => rfl⟩
  | @round context _ _ scope _ _ _ ih =>
      obtain ⟨added, scopes, same⟩ := ih
      refine ⟨scope :: added, congrArg (scope :: ·) scopes, fun name unbound => ?_⟩
      obtain ⟨here, there⟩ := List.forall_mem_cons.1 unbound
      rw [Context.find?_push, here, Option.none_or, same name there]

end Context.Surrounds

/-- A request is made by a tag that stands in a context that the given one surrounds: it keeps that
context, for its template to be rendered in, and it is for the template that a variable names
there. -/
structure Request.StandsIn (outer : Context) (request : Request) : Prop where
  surrounded : outer.Surrounds request.context
  named : ∃ path, request.context.templateName path = .ok request.name

/-- All requests of a draft are made by tags that stand in contexts that the given one surrounds. -/
def Draft.AsksIn (outer : Context) (draft : Draft) : Prop :=
  ∀ request ∈ draft.requests, request.StandsIn outer

namespace Draft.AsksIn

variable {outer : Context}

theorem empty : Draft.empty.AsksIn outer := nofun

theorem text (text : String) : (Draft.text text).AsksIn outer := nofun

theorem halt (stop : Stop) : (Draft.halt stop).AsksIn outer := nofun

theorem andThen {first : Draft} {second : Unit → Draft} (here : first.AsksIn outer)
    (there : (second ()).AsksIn outer) : (first.andThen second).AsksIn outer := by
  cases stopped : first.stop with
  | some stop => simpa only [Draft.andThen, stopped] using here
  | none =>
      intro request member
      simp only [Draft.andThen, stopped, Draft.requests, List.filterMap_append,
        List.mem_append] at member
      cases member with
      | inl early => exact here request early
      | inr late => exact there request late

theorem of_surrounds {inner : Context} {draft : Draft} (surrounds : outer.Surrounds inner)
    (asks : draft.AsksIn inner) : draft.AsksIn outer := by
  intro request member
  obtain ⟨within, named⟩ := asks request member
  exact ⟨surrounds.trans within, named⟩

end Draft.AsksIn

/-- Replacing bodies ask in the context that they are rendered in. -/
def BodiesAsk (replaced : List Node → Scene → Draft) : Prop :=
  ∀ body scene, (replaced body scene).AsksIn scene.context

/-- Nothing is asked of nodes and scenes. -/
theorem kept_asks {replaced : List Node → Scene → Draft} (bodies : BodiesAsk replaced) :
    Kept (fun _ : Unit => replaced) (fun _ => True) (fun _ => True)
      fun scene pass => (pass ()).AsksIn scene.context where
  down := ⟨fun _ _ _ => trivial, fun _ _ _ => trivial, fun _ _ _ => trivial,
    fun _ _ _ _ _ => trivial⟩
  inside _ _ := trivial
  empty _ := .empty
  text _ text := .text text
  andThen first second := first.andThen second
  replaces _ _ _ := bodies _ _
  unlooped _ _ := .halt _
  round opened member asks := asks.of_surrounds (.round .here opened member)
  unnamed _ _ := .halt _
  request _ named := by
    intro request member
    cases List.mem_singleton.1 member
    exact ⟨.here, _, named⟩
  quoted {purpose _ _ scene} _ _ inner := by
    have asks := @inner (purpose.scene scene) (fun _ _ => trivial) trivial
    rwa [Purpose.context_scene] at asks
  derived _ _ _ inner := inner trivial

theorem draftAll_asks {replaced : List Node → Scene → Draft} (bodies : BodiesAsk replaced)
    (nodes : List Node) (scene : Scene) : (draftAll replaced scene nodes).AsksIn scene.context :=
  kept_draftAll (kept_asks bodies) nodes (fun _ _ => trivial) trivial

/-- The tags of nodes, wherever they stand in them and in the bodies that replace their blocks, ask
in contexts that the context of the nodes surrounds. -/
theorem draftBody_asks : ∀ openings, BodiesAsk (draftBody openings)
  | 0, _, _ => .halt .endless
  | openings + 1, body, scene => draftAll_asks (draftBody_asks openings) body scene

/-! ### The rounds of a loop -/

/-- The entry of a collection at a position: of an array the item and the position, of an object
the value of a field and its name, of a text the character and the position. -/
def Value.entry? : Value → Nat → Option (Value × Value)
  | .array items, position => items[position]?.map fun item => (item, .ofNat position)
  | .object fields, position => fields[position]?.map fun (name, value) => (value, .string name)
  | .string text, position => text.toList[position]?.map fun c => (.ofChar c, .ofNat position)
  | _, _ => none

/-- These are the entries of a collection, in order and none left out. -/
def Value.Lists (value : Value) (entries : List (Value × Value)) : Prop :=
  ∀ position, entries[position]? = value.entry? position

namespace Loop

/-- What a round binds, in the order in which it does. -/
def bindings (spec : Loop) (length position : Nat) (entry : Value × Value) :
    List (String × Value) :=
  (spec.item, entry.1) :: (spec.index.toList.map fun name => (name, entry.2)) ++
    [("forloop", progress position length)]

/-- The context of a round: one scope more than that of the loop. -/
def roundContext (spec : Loop) (outer : Context) (length position : Nat) (entry : Value × Value) :
    Context :=
  outer.push (Fields.ofPairs (spec.bindings length position entry))

/-- The draft of a round: the body in the context of the round. -/
def round (spec : Loop) (openings : Nat) (scene : Scene) (body : List Node)
    (length position : Nat) (entry : Value × Value) : Draft :=
  draftAll (draftBody openings)
    ⟨spec.roundContext scene.context length position entry, scene.overrides⟩ body

/-- The drafts of the rounds over some entries, in order. -/
def rounds (spec : Loop) (openings : Nat) (scene : Scene) (body : List Node)
    (entries : List (Value × Value)) : List Draft :=
  entries.mapIdx (spec.round openings scene body entries.length)

/-- How far a loop has got, as its own variable tells it. -/
def standing (length position : Nat) : Value :=
  .object [
    ("counter", .ofNat (position + 1)),
    ("counter0", .ofNat position),
    ("first", .bool (decide (position = 0))),
    ("last", .bool (decide (position + 1 = length))),
    ("length", .ofNat length)]

/-- What is seen in a round: there is one scope more than outside the loop, and a name means what it
was bound to last, or what it means outside where the round does not bind it. A path that starts at
the loop's own variable leads to the members that tell how far the loop has got. -/
structure RoundView (spec : Loop) (outer : Context) (length position : Nat) (entry : Value × Value)
    (round : Context) : Prop where
  scope : round.pop? = some (Fields.ofPairs (spec.bindings length position entry), outer)
  find : ∀ name, round.find? name =
    if name = "forloop" then some (standing length position)
    else if spec.index = some name then some entry.2
    else if name = spec.item then some entry.1
    else outer.find? name
  standing : ∀ path members, Text.pieces '.' path = "forloop" :: members →
    round.lookup path = members.foldlM Value.member? (standing length position)

variable (spec : Loop) (outer : Context) (length position : Nat) (entry : Value × Value)

theorem progress_eq_standing : progress position length = standing length position := rfl

/-- Of equal names the one that is bound later counts. -/
theorem find?_bindings (name : String) :
    Fields.find? name (Fields.ofPairs (spec.bindings length position entry)) =
      if name = "forloop" then some (standing length position)
      else if spec.index = some name then some entry.2
      else if name = spec.item then some entry.1
      else none := by
  rw [← List.reverse_reverse (spec.bindings length position entry), Fields.find?_ofPairs_reverse]
  cases named : spec.index <;>
    simp [bindings, named, Fields.find?, eq_comm, progress_eq_standing]

/-- The scope of a round is what the round binds. -/
theorem scope_eq_ofPairs_bindings :
    spec.scope length entry position = Fields.ofPairs (spec.bindings length position entry) := by
  cases named : spec.index <;> simp [scope, bindings, Fields.ofPairs, named]

theorem roundView_roundContext : spec.RoundView outer length position entry
    (spec.roundContext outer length position entry) := by
  have find : ∀ name, (spec.roundContext outer length position entry).find? name =
      if name = "forloop" then some (standing length position)
      else if spec.index = some name then some entry.2
      else if name = spec.item then some entry.1
      else outer.find? name := by
    intro name
    rw [roundContext, Context.find?_push, find?_bindings]
    split_ifs <;> rfl
  refine ⟨rfl, find, fun path members pieces => ?_⟩
  simp only [Context.lookup, pieces, find, if_true, Option.bind_some]

/-- The collections are the arrays, the objects and the texts. -/
theorem exists_lists {value : Value}
    (collection : value.kind = .array ∨ value.kind = .object ∨ value.kind = .string) :
    ∃ entries, entries? value = some entries ∧ value.Lists entries := by
  cases value with
  | array items =>
      refine ⟨_, rfl, fun position => ?_⟩
      cases here : items[position]? <;> simp [Value.entry?, here]
  | object fields =>
      refine ⟨_, rfl, fun position => ?_⟩
      rw [List.getElem?_map]
      rfl
  | string text =>
      refine ⟨_, rfl, fun position => ?_⟩
      cases here : text.toList[position]? <;> simp [Value.entry?, here]
  | null => simp [Value.kind] at collection
  | bool b => simp [Value.kind] at collection
  | number x => simp [Value.kind] at collection

/-- A loop leaves what its rounds leave one after another. -/
theorem rendered_draft (openings depth : Nat) (policy : MissingInclude) (next : Nat)
    {scene : Scene} (body : List Node) {entries : List (Value × Value)}
    (found : spec.entries scene.context = .ok entries) :
    ((Node.loop spec body).draft (draftBody openings) scene).rendered depth policy next =
      .inTurn depth policy next (spec.rounds openings scene body entries) := by
  have opened : spec.scopes scene.context = .ok (entries.zipIdx.map fun pair =>
      Fields.ofPairs (spec.bindings entries.length pair.2 pair.1)) := by
    simp only [scopes, found, ← scope_eq_ofPairs_bindings]
    rfl
  simp only [Node.draft, opened, Draft.rendered_each, List.map_map]
  rw [rounds, List.mapIdx_eq_zipIdx_map]
  rfl

end Loop

/-- How a loop is rendered that goes through the given entries, where loads are nested as deep as
given and put off under the given policy, and cells are numbered from `next` on. What it leaves is a
fold over its rounds: each is rendered in the context of its own entry, its output comes after that
of the rounds before it and its loads wait after theirs. Every request of a round is made in the
context of that round, or of a round of a loop within it. If all rounds come to their end there is
output. Otherwise the loop stops with the first round that stops, and for the same reason, and the
later rounds are not made. -/
structure LoopAccount (spec : Loop) (openings depth : Nat) (policy : MissingInclude) (next : Nat)
    (scene : Scene) (body : List Node) (entries : List (Value × Value)) (rendered : Rendered) :
    Prop where
  folds : rendered = .inTurn depth policy next (spec.rounds openings scene body entries)
  view : ∀ position entry, entries[position]? = some entry →
    spec.RoundView scene.context entries.length position entry
      (spec.roundContext scene.context entries.length position entry)
  asks : ∀ position entry, entries[position]? = some entry →
    (spec.round openings scene body entries.length position entry).AsksIn
      (spec.roundContext scene.context entries.length position entry)
  reads : ∀ position entry, entries[position]? = some entry →
    ∀ request ∈ (spec.round openings scene body entries.length position entry).requests,
      ∃ added, request.context.scopes = added ++
          (spec.roundContext scene.context entries.length position entry).scopes ∧
        ∀ name, (∀ scope ∈ added, Fields.find? name scope = none) → request.context.find? name =
          (spec.roundContext scene.context entries.length position entry).find? name
  completes : (∀ round ∈ spec.rounds openings scene body entries, round.stop = none) →
    (∃ output, rendered.answer = .ok output) ∧ rendered.loads.map Load.request =
      (spec.rounds openings scene body entries).flatMap Draft.requests
  stops : ∀ early round late stop,
    spec.rounds openings scene body entries = early ++ round :: late →
      (∀ earlier ∈ early, earlier.stop = none) → round.stop = some stop →
        rendered = .inTurn depth policy next (early ++ [round]) ∧ rendered.answer = .error stop ∧
          rendered.loads.map Load.request = (early ++ [round]).flatMap Draft.requests

/-- A loop keeps this account of the entries that it goes through. -/
theorem Loop.account (spec : Loop) (openings depth : Nat) (policy : MissingInclude) (next : Nat)
    {scene : Scene} (body : List Node) {entries : List (Value × Value)}
    (found : spec.entries scene.context = .ok entries) :
    LoopAccount spec openings depth policy next scene body entries
      (((Node.loop spec body).draft (draftBody openings) scene).rendered depth policy next) := by
  have folds := spec.rendered_draft openings depth policy next body found
  have asks : ∀ position entry,
      (spec.round openings scene body entries.length position entry).AsksIn
        (spec.roundContext scene.context entries.length position entry) :=
    fun position entry => draftAll_asks (draftBody_asks openings) body _
  rw [folds]
  refine ⟨rfl, ?_, ?_, ?_, ?_, ?_⟩
  · intro position entry _
    exact spec.roundView_roundContext scene.context entries.length position entry
  · intro position entry _
    exact asks position entry
  · intro position entry _ request member
    exact (asks position entry request member).surrounded.reads
  · intro done
    exact Rendered.inTurn_completes depth policy next done
  · intro early round late stop split done stopped
    obtain ⟨same, stops⟩ := Rendered.inTurn_stops depth policy next done stopped late
    rw [split, same]
    exact ⟨rfl, stops⟩

/-- A loop is a fold over the entries of the collection that its path leads to. Where the path leads
nowhere or to a falsy value, nothing is rendered and nothing is put off. Where it leads to a truthy
value that is not a collection, the loop fails and says what it has found. -/
theorem loop_folds_over_entries (spec : Loop) (openings depth : Nat) (policy : MissingInclude)
    (next : Nat) (scene : Scene) (body : List Node) :
    let rendered :=
      ((Node.loop spec body).draft (draftBody openings) scene).rendered depth policy next
    ((∀ value, scene.context.lookup spec.path = some value → value.isTruthy = false) →
      rendered = ⟨.ok .empty, []⟩) ∧
    ∀ value, scene.context.lookup spec.path = some value → value.isTruthy = true →
      (value.kind = .boolean ∨ value.kind = .number →
        rendered = ⟨.error (.error (.notLoopable spec.path value.kind.name)), []⟩) ∧
      (value.kind = .array ∨ value.kind = .object ∨ value.kind = .string →
        ∃ entries, value.Lists entries ∧
          LoopAccount spec openings depth policy next scene body entries rendered) := by
  intro rendered
  constructor
  · intro falsy
    have none : spec.entries scene.context = .ok [] := by
      unfold Loop.entries
      cases found : scene.context.lookup spec.path with
      | none => rfl
      | some value => simp [falsy value found]
    exact spec.rendered_draft openings depth policy next body none
  intro value found truthy
  constructor
  · intro scalar
    have failed : spec.entries scene.context =
        .error (.notLoopable spec.path value.kind.name) := by
      simp only [Loop.entries, found, truthy, if_true]
      cases value <;> simp_all [Loop.entries?, Value.kind]
    have opened : spec.scopes scene.context =
        .error (.notLoopable spec.path value.kind.name) := by
      simp only [Loop.scopes, failed]
      rfl
    simp only [rendered, Node.draft, opened]
    rfl
  · intro collection
    obtain ⟨entries, known, lists⟩ := Loop.exists_lists collection
    have listed : spec.entries scene.context = .ok entries := by
      simp only [Loop.entries, found, truthy, if_true, known]
    exact ⟨entries, lists, spec.account openings depth policy next body listed⟩

/-- A loop over the letters of a word, which shows each letter and puts off an inclusion. -/
def lettersLoop : Loop := ⟨"x", some "i", "word"⟩

def lettersBody : List Node := [.value "x", .inclusion (.bare "part")]

def lettersScene : Scene := ⟨.ofPairs [("word", .string "ab"), ("part", .string "p")], []⟩

theorem letters_loop_folds :
    let rendered :=
      ((Node.loop lettersLoop lettersBody).draft (draftBody 0) lettersScene).rendered 1 .silent 0
    rendered.answer = .ok ⟨[.text "a", .cell ⟨0⟩, .text "b", .cell ⟨1⟩]⟩ ∧
      rendered.loads.map (fun load => load.request.context.lookup "x") =
        [some (.string "a"), some (.string "b")] ∧
      ∃ entries, (Value.string "ab").Lists entries ∧
        LoopAccount lettersLoop 0 1 .silent 0 lettersScene lettersBody entries rendered := by
  have word : lettersScene.context.lookup lettersLoop.path = some (.string "ab") := by rfl
  have account := (loop_folds_over_entries lettersLoop 0 1 .silent 0 lettersScene lettersBody).2
    (.string "ab") word (by decide)
  exact ⟨by rfl, by rfl, account.2 (.inr (.inr rfl))⟩

end Quire
