/-
Module: Quire.Proofs.Nesting
Purpose: How deeply the templates of a run are nested. The engine's limit holds for the tags with
  variables on the way to a template, and for the tags in quotes between two of them, but not for
  all of them together.
Main exports: EveryUnder, Engine.Leads, Fits, Engine.WithinLimit, Engine.LedTo, nesting_bounded,
  nesting_exceeds_limit
-/
import Quire.Proofs.Inclusion

/-!
Two counts keep templates from being nested too deeply. Loading counts the templates in quotes that
lead to the one being loaded, and starts anew at every template that a variable names. Rendering
counts the loads that a pass is nested in, and does not count the templates in quotes. So where tags
of both kinds alternate, a template may be reached by more tags than the limit says.
-/

namespace Quire

/-! ### Tags and what they are nested in -/

mutual

/-- Every tag in a part has a property together with the tags that it is nested in, which are those
outside the part and those inside it, outermost first. -/
def Part.EveryUnder (holds : List Visit → Visit → Prop) : List Visit → Part → Prop
  | _, .text _ => True
  | outer, .visit visit parts => holds outer visit ∧ EveryUnder holds (outer ++ [visit]) parts
termination_by structural _ part => part

/-- Every tag among parts has a property together with the tags that it is nested in. -/
def EveryUnder (holds : List Visit → Visit → Prop) : List Visit → List Part → Prop
  | _, [] => True
  | outer, part :: rest => part.EveryUnder holds outer ∧ EveryUnder holds outer rest
termination_by structural _ parts => parts

end

theorem everyUnder_append {holds : List Visit → Visit → Prop} {outer : List Visit}
    {parts others : List Part} :
    EveryUnder holds outer (parts ++ others) ↔
      EveryUnder holds outer parts ∧ EveryUnder holds outer others := by
  induction parts with
  | nil => simp [EveryUnder]
  | cons part rest ih => simp [EveryUnder, ih, and_assoc]

/-- How many of the tags name their template in quotes. -/
def quotedCount (visits : List Visit) : Nat :=
  visits.countP (·.quoted)

/-- How many of the tags name their template by a variable. -/
def bareCount (visits : List Visit) : Nat :=
  visits.countP (!·.quoted)

@[simp] theorem quotedCount_append_quoted (visits : List Visit) (request : Request) :
    quotedCount (visits ++ [⟨true, request⟩]) = quotedCount visits + 1 := by
  simp [quotedCount]

@[simp] theorem quotedCount_append_bare (visits : List Visit) (request : Request) :
    quotedCount (visits ++ [⟨false, request⟩]) = quotedCount visits := by
  simp [quotedCount]

@[simp] theorem bareCount_append_quoted (visits : List Visit) (request : Request) :
    bareCount (visits ++ [⟨true, request⟩]) = bareCount visits := by
  simp [bareCount]

@[simp] theorem bareCount_append_bare (visits : List Visit) (request : Request) :
    bareCount (visits ++ [⟨false, request⟩]) = bareCount visits + 1 := by
  simp [bareCount]

/-! ### Paths of tags -/

/-- Tags lead from a template to another one: each of them stands in the template that those before
it lead to, and refers to the next one. -/
inductive Engine.Leads (engine : Engine) (entry : Template) : List Visit → Template → Prop where
  | start : Leads engine entry [] entry
  | quoted {path : List Visit} {template target : Template} {node : Node} {purpose : Purpose}
      (context : Context) (overrides : Overrides) (leads : Leads engine entry path template)
      (member : node ∈ template.nodes) (inside : Inside (purpose.tag (.quoted target)) node) :
      Leads engine entry (path ++ [⟨true, ⟨purpose, target.path, context, overrides⟩⟩]) target
  | bare {path : List Visit} {template target : Template} {node : Node} {purpose : Purpose}
      {reference name : String} {context : Context} (overrides : Overrides)
      (leads : Leads engine entry path template) (member : node ∈ template.nodes)
      (inside : Inside (purpose.tag (.bare reference)) node)
      (named : context.templateName reference = .ok name)
      (loaded : engine.load name = .ok target) :
      Leads engine entry (path ++ [⟨false, ⟨purpose, name, context, overrides⟩⟩]) target

/-! ### How deeply loaded templates are nested -/

/-- Templates in quotes are nested in nodes less deeply than there is room. -/
inductive Fits : Nat → List Node → Prop where
  | intro {room : Nat} {nodes : List Node}
      (inner : ∀ node ∈ nodes, ∀ (purpose : Purpose) (target : Template),
        Inside (purpose.tag (.quoted target)) node → Fits room target.nodes) :
      Fits (room + 1) nodes

theorem Fits.pos {room : Nat} {nodes : List Node} (fits : Fits room nodes) : 0 < room := by
  cases fits
  exact Nat.succ_pos _

/-- A property of all tags that refer to what was fetched holds of the tags inside every node that
is built. -/
theorem hereditary_inside {fetch : String → Except Error Template} {holds : Target → Prop}
    (tags : ∀ reference target, Assembly.resolve fetch reference = .ok target → holds target) :
    Hereditary fetch fun node => ∀ inner, Inside inner node → ∀ purpose target,
      inner = Purpose.tag purpose target → holds target where
  text := by
    rintro text _ ⟨⟩ purpose target same
    cases purpose <;> exact nomatch same
  value := by
    rintro path _ ⟨⟩ purpose target same
    cases purpose <;> exact nomatch same
  block := by
    rintro name body every _ (_ | ⟨member, inside⟩) purpose target same
    · cases purpose <;> exact nomatch same
    · exact every _ member _ inside purpose target same
  loop := by
    rintro spec body every _ (_ | _ | ⟨member, inside⟩) purpose target same
    · cases purpose <;> exact nomatch same
    · exact every _ member _ inside purpose target same
  conditional := by
    rintro condition body branches every others _ inside purpose target same
    cases inside with
    | here => cases purpose <;> exact nomatch same
    | inConditional member inside => exact every _ member _ inside purpose target same
    | inBranch among member inside => exact others _ among _ member _ inside purpose target same
  inheritance := by
    rintro reference target resolved _ ⟨⟩ purpose other same
    cases purpose with
    | inclusion => exact nomatch same
    | inheritance =>
        cases same
        exact tags reference target resolved
  inclusion := by
    rintro reference target resolved _ ⟨⟩ purpose other same
    cases purpose with
    | inheritance => exact nomatch same
    | inclusion =>
        cases same
        exact tags reference target resolved

/-- What is loaded fits into the room that there was for loading it. -/
theorem Engine.fits_of_loadWithin {engine : Engine} {room : Nat} {chain : List String}
    {name : String} {template : Template}
    (ok : engine.loadWithin room chain name = .ok template) : Fits room template.nodes := by
  induction room generalizing chain name template with
  | zero =>
      obtain ⟨_, _, _, _, none, _⟩ := loadWithin_ok_iff.1 ok
      omega
  | succ room ih =>
      obtain ⟨_, _, source, nodes, same, _, built, rfl⟩ := loadWithin_ok_iff.1 ok
      cases same
      have tags : ∀ reference target,
          Assembly.resolve (engine.loadWithin room (chain ++ [name])) reference = .ok target →
            ∀ template, target = .quoted template → Fits room template.nodes := by
        rintro reference _ resolved template rfl
        cases reference with
        | bare path => exact nomatch resolved
        | quoted other =>
            obtain ⟨_, fetched, done⟩ := bind_ok_iff.1 resolved
            cases done
            exact ih fetched
      have every := assemble_every (hereditary_inside tags) built
      exact .intro fun node member purpose target inside =>
        every node member _ inside purpose _ rfl target rfl

/-! ### What every template of a run is nested in -/

/-- Where a tag was carried out that is nested in others: no more of them than the limit, itself
included, name their template by a variable. Some of them lead to the template that the tag refers
to, and of these at most one less than the limit stand in quotes one after another. -/
def Engine.WithinLimit (engine : Engine) (entry : Template) (outer : List Visit) (visit : Visit) :
    Prop :=
  bareCount (outer ++ [visit]) ≤ engine.config.maxDepth ∧
    ∀ target, engine.load visit.request.name = .ok target → ∃ path,
      path.Sublist (outer ++ [visit]) ∧ engine.Leads entry path target ∧
        quotedCount path ≤ (bareCount path + 1) * (engine.config.maxDepth - 1)

/-- Some of the given tags lead to a template, which has been loaded after `streak` tags in quotes
one after another, with room for what it nests. -/
def Engine.LedTo (engine : Engine) (entry : Template) (outer : List Visit) (template : Template) :
    Prop :=
  ∃ path room streak, path.Sublist outer ∧ engine.Leads entry path template ∧
    Fits room template.nodes ∧ room + streak = engine.config.maxDepth ∧
    quotedCount path ≤ bareCount path * (engine.config.maxDepth - 1) + streak

/-- A node stands in a template that some of the tags it is nested in lead to. -/
structure Engine.Located (engine : Engine) (entry : Template) (depth : Nat) (outer : List Visit)
    (node : Node) : Prop where
  genuine : node.Genuine engine
  depth : bareCount outer = depth
  led : ∃ template, engine.LedTo entry outer template ∧
    ∃ root ∈ template.nodes, Inside node root

namespace Engine

variable {engine : Engine} {entry : Template} {depth : Nat} {outer : List Visit}

theorem LedTo.later {template : Template} (led : engine.LedTo entry outer template)
    (visit : Visit) : engine.LedTo entry (outer ++ [visit]) template := by
  obtain ⟨path, room, streak, below, rest⟩ := led
  exact ⟨path, room, streak, below.trans (List.sublist_append_left outer [visit]), rest⟩

theorem LedTo.located {template : Template} (led : engine.LedTo entry outer template)
    (count : bareCount outer = depth) (genuine : AllGenuine engine template.nodes) :
    ∀ node ∈ template.nodes, engine.Located entry depth outer node :=
  fun node member => ⟨allGenuine_iff.1 genuine node member, count, template, led, node, member,
    .here⟩

/-- A template that is led to by a tag, and those that the tag is nested in, is within the limit. -/
theorem LedTo.withinLimit {visit : Visit} {template : Template}
    (led : engine.LedTo entry (outer ++ [visit]) template)
    (loaded : engine.load visit.request.name = .ok template)
    (count : bareCount (outer ++ [visit]) ≤ engine.config.maxDepth) :
    engine.WithinLimit entry outer visit := by
  obtain ⟨path, room, streak, below, leads, fits, sum, few⟩ := led
  refine ⟨count, fun target again => ⟨path, below, ?_, ?_⟩⟩
  · exact Except.ok.inj (loaded.symm.trans again) ▸ leads
  · have := fits.pos
    rw [Nat.succ_mul]
    omega

theorem Located.inner {node inner : Node} (located : engine.Located entry depth outer node)
    (genuine : inner.Genuine engine) (inside : Inside inner node) :
    engine.Located entry depth outer inner := by
  obtain ⟨template, led, root, member, within⟩ := located.led
  exact ⟨genuine, located.depth, template, led, root, member, inside.trans within⟩

theorem passesDown_located (engine : Engine) (entry : Template) (depth : Nat)
    (outer : List Visit) : PassesDown (engine.Located entry depth outer) :=
  .of_inside fun inside located =>
    located.inner ((passesDown_genuine engine).inside inside located.genuine) inside

theorem Located.later {node : Node} (located : engine.Located entry depth outer node)
    {visit : Visit} {deeper : Nat} (count : bareCount (outer ++ [visit]) = deeper) :
    engine.Located entry deeper (outer ++ [visit]) node := by
  obtain ⟨template, led, stands⟩ := located.led
  exact ⟨located.genuine, count, template, led.later visit, stands⟩

/-- The template that a tag in quotes refers to is the one that loading its name gives. -/
theorem genuine_tag {purpose : Purpose} {path : String} {nodes : List Node}
    (genuine : (purpose.tag (.quoted ⟨path, nodes⟩)).Genuine engine) :
    engine.load path = .ok ⟨path, nodes⟩ ∧ AllGenuine engine nodes := by
  cases purpose <;> exact genuine

/-- The tag in quotes that is carried out leads from the template it stands in to its own, for which
there is room for one less. -/
theorem Located.quoted {purpose : Purpose} {path : String} {nodes : List Node}
    (located : engine.Located entry depth outer (purpose.tag (.quoted ⟨path, nodes⟩)))
    (context : Context) (overrides : Overrides) :
    engine.LedTo entry (outer ++ [⟨true, ⟨purpose, path, context, overrides⟩⟩]) ⟨path, nodes⟩ := by
  obtain ⟨template, ⟨way, room, streak, below, leads, fits, sum, few⟩, root, member, inside⟩ :=
    located.led
  cases fits with
  | intro inner =>
      refine ⟨_, _, streak + 1, below.append (.refl _),
        leads.quoted context overrides member inside, inner root member purpose _ inside, ?_, ?_⟩
      · omega
      · simp only [quotedCount_append_quoted, bareCount_append_quoted]
        omega

/-- The tag with a variable that is carried out leads from the template it stands in to the one that
is loaded, for which there is room anew. -/
theorem Located.bare {purpose : Purpose} {reference : String}
    (located : engine.Located entry depth outer (purpose.tag (.bare reference))) {name : String}
    {context : Context} (overrides : Overrides)
    (named : context.templateName reference = .ok name) {target : Template}
    (loaded : engine.load name = .ok target) :
    engine.LedTo entry (outer ++ [⟨false, ⟨purpose, name, context, overrides⟩⟩]) target := by
  obtain ⟨template, ⟨way, room, streak, below, leads, fits, sum, few⟩, root, member, inside⟩ :=
    located.led
  refine ⟨_, engine.config.maxDepth, 0, below.append (.refl _),
    leads.bare overrides member inside named loaded, fits_of_loadWithin loaded, by omega, ?_⟩
  have := fits.pos
  simp only [quotedCount_append_bare, bareCount_append_bare, Nat.succ_mul]
  omega

/-- Where carrying out requests leaves tags within the limit, so does rendering located nodes. -/
theorem upholds_withinLimit (within : depth ≤ engine.config.maxDepth)
    (requests : ∀ {outer purpose reference name context overrides parts},
      engine.Located entry depth outer (purpose.tag (.bare reference)) →
        context.templateName reference = .ok name →
          EveryBody (engine.Located entry depth outer) overrides →
            engine.fetch (depth + 1) ⟨purpose, name, context, overrides⟩ = .ok parts →
              EveryUnder (engine.WithinLimit entry) outer
                [.visit ⟨false, ⟨purpose, name, context, overrides⟩⟩ parts]) :
    ∀ openings, Upholds (engine.Located entry depth) (EveryUnder (engine.WithinLimit entry))
      (directBody (engine.fetch (depth + 1)) openings) (engine.fetch (depth + 1)) := by
  intro openings
  exact {
    down := passesDown_located engine entry depth
    later := fun request located => located.later (by simpa using located.depth)
    nothing := fun _ => trivial
    text := fun _ _ => ⟨trivial, trivial⟩
    append := fun first others => everyUnder_append.2 ⟨first, others⟩
    bodies := by
      intro outer body scene parts every overrides ok
      cases openings with
      | zero => exact nomatch ok
      | succ openings =>
          exact upholds_directAll (upholds_withinLimit within requests openings) body every
            overrides ok
    enters := by
      intro outer purpose path nodes context overrides located
      have led := located.quoted context overrides
      exact led.located (by simpa using located.depth) (genuine_tag located.genuine).2
    quoted := by
      intro outer purpose path nodes context overrides parts located _ _ inside
      have led := located.quoted context overrides
      have count := located.depth
      exact ⟨⟨led.withinLimit (genuine_tag located.genuine).1 (by simp [count, within]), inside⟩,
        trivial⟩
    bare := fun located named overrides _ fetched => requests located named overrides fetched }

/-- Carrying out a request leaves tags within the limit only. -/
theorem withinLimit_fetch (engine : Engine) (entry : Template) (depth : Nat)
    {outer : List Visit} {purpose : Purpose} {reference name : String} {context : Context}
    {overrides : Overrides} {parts : List Part}
    (located : engine.Located entry depth outer (purpose.tag (.bare reference)))
    (named : context.templateName reference = .ok name)
    (bodies : EveryBody (engine.Located entry depth outer) overrides)
    (ok : engine.fetch (depth + 1) ⟨purpose, name, context, overrides⟩ = .ok parts) :
    EveryUnder (engine.WithinLimit entry) outer
      [.visit ⟨false, ⟨purpose, name, context, overrides⟩⟩ parts] := by
  by_cases deep : engine.config.maxDepth < depth + 1
  · rw [fetch_eq] at ok
    simp [deep] at ok
  · have within : depth + 1 ≤ engine.config.maxDepth := Nat.le_of_not_lt deep
    have count : bareCount (outer ++ [⟨false, ⟨purpose, name, context, overrides⟩⟩]) =
        depth + 1 := by
      simp [located.depth]
    rcases fetch_ok ok with ⟨template, loaded, rendered⟩ | ⟨_, _, ⟨error, missing⟩, rfl⟩
    · have led := located.bare overrides named loaded
      have nodes := led.located count (genuine_of_loadWithin (Nat.le_refl _) loaded)
      have replaced : EveryBody (engine.Located entry (depth + 1) _) overrides :=
        fun body member node among => (bodies body member node among).later count
      have upholds := upholds_withinLimit within
        (fun located named => withinLimit_fetch engine entry (depth + 1) located named)
        engine.openings
      exact ⟨⟨led.withinLimit loaded (count ▸ within),
        upholds_directTemplate upholds template.nodes nodes replaced rendered⟩, trivial⟩
    · refine ⟨⟨⟨count ▸ within, ?_⟩, trivial⟩, trivial⟩
      intro target loaded
      exact nomatch missing.symm.trans loaded
termination_by engine.config.maxDepth + 1 - depth

end Engine

/-- The limit bounds the nesting of tags with variables, and of tags in quotes between them. In
every run that succeeds, a template is nested in no more tags with variables than the limit says;
and among those that lead to it from the template of the run there are, once and once more for every
tag with a variable, at most one less than the limit in quotes. -/
theorem nesting_bounded (engine : Engine) {name : String} {context : Context} {text : String}
    (ok : engine.render name context = .ok text) :
    ∃ template record, engine.load name = .ok template ∧
      engine.Explains template context text record ∧
      EveryUnder (engine.WithinLimit template) [] record := by
  obtain ⟨template, loaded, shown⟩ := Engine.render_ok_iff.1 ok
  obtain ⟨output, cells, rendered, rfl⟩ := Engine.textOf_eq_some.1 shown
  obtain ⟨record, explains, _⟩ := Engine.exists_record (.inl ⟨name, loaded⟩) rendered
  refine ⟨template, record, loaded, explains, ?_⟩
  have led : engine.LedTo template [] template :=
    ⟨[], engine.config.maxDepth, 0, .refl [], .start, Engine.fits_of_loadWithin loaded, rfl,
      Nat.zero_le _⟩
  have located := led.located rfl (Engine.genuine_of_loadWithin (Nat.le_refl _) loaded)
  have upholds := Engine.upholds_withinLimit (Nat.zero_le _)
    (fun located named => engine.withinLimit_fetch template 0 located named) engine.openings
  exact upholds_directTemplate upholds template.nodes located (by simp [EveryBody]) explains.direct

/-! ### The limit does not bound their sum -/

/-- An engine that lets templates be nested twice. Its templates include one another in turn, by a
variable, in quotes and by a variable again. -/
def turnsEngine : Engine :=
  ⟨fun name =>
    if name = "a" then some ⟨[.opening "include" "x"]⟩
    else if name = "b" then some ⟨[.opening "include" "'c'"]⟩
    else if name = "c" then some ⟨[.opening "include" "y"]⟩
    else if name = "e" then some ⟨[.text "deep"]⟩
    else none, ⟨2, .silent⟩, 65536⟩

/-- A context in which the variables name the second template and the last. -/
def turnsContext : Context := .ofPairs [("x", .string "b"), ("y", .string "e")]

/-- The last of these templates. -/
def turnsLast : Template := ⟨"e", [.text "deep"]⟩

/-- The one that includes it by a variable. -/
def turnsThird : Template := ⟨"c", [.inclusion (.bare "y")]⟩

/-- The one that includes that in quotes. -/
def turnsSecond : Template := ⟨"b", [.inclusion (.quoted turnsThird)]⟩

/-- The one that includes that by a variable. -/
def turnsFirst : Template := ⟨"a", [.inclusion (.bare "x")]⟩

/-- An include of a template in that context. -/
def turnsVisit (quoted : Bool) (name : String) : Visit :=
  ⟨quoted, ⟨.inclusion, name, turnsContext, []⟩⟩

/-- What rendering the first template leaves: three includes, one in the other. -/
def turnsRecord : List Part :=
  [.visit (turnsVisit false "b") [.visit (turnsVisit true "c") [.visit (turnsVisit false "e")
    [.text "deep"]]]]

theorem turns_direct : turnsEngine.direct turnsFirst turnsContext = .ok turnsRecord := by
  have last : turnsEngine.fetch 2 ⟨.inclusion, "e", turnsContext, []⟩ = .ok [.text "deep"] := by
    rw [Engine.fetch_eq]
    rfl
  have third : turnsEngine.directAt 1 ⟨turnsContext, []⟩ turnsThird.nodes =
      .ok [.visit (turnsVisit false "e") [.text "deep"]] :=
    Direct.append_ok_iff.2 ⟨_, _, Direct.visit_ok_iff.2 ⟨_, last, rfl⟩, rfl, rfl⟩
  have second : turnsEngine.fetch 1 ⟨.inclusion, "b", turnsContext, []⟩ =
      .ok [.visit (turnsVisit true "c") [.visit (turnsVisit false "e") [.text "deep"]]] := by
    rw [Engine.fetch_eq]
    exact Direct.append_ok_iff.2 ⟨_, _, Direct.visit_ok_iff.2 ⟨_, third, rfl⟩, rfl, rfl⟩
  exact Direct.append_ok_iff.2 ⟨_, _, Direct.visit_ok_iff.2 ⟨_, second, rfl⟩, rfl, rfl⟩

theorem turns_rendered : turnsEngine.render "a" turnsContext = .ok "deep" := by
  have loaded : turnsEngine.load "a" = .ok turnsFirst := rfl
  exact Engine.render_of_direct loaded turns_direct

/-- In that context every template is reached by one more tag than the one before it. -/
theorem turns_leads {path : List Visit} {target : Template}
    (leads : turnsEngine.Leads turnsFirst path target)
    (made : ∀ visit ∈ path, visit.request.context = turnsContext) :
    (path.length, target) ∈
      [(0, turnsFirst), (1, turnsSecond), (2, turnsThird), (3, turnsLast)] := by
  induction leads with
  | start => simp
  | @quoted path template target node purpose context overrides leads member inside ih =>
      have before := ih fun visit among => made visit (List.mem_append_left _ among)
      simp only [List.mem_cons, Prod.mk.injEq, List.not_mem_nil, or_false] at before
      rcases before with ⟨_, rfl⟩ | ⟨count, rfl⟩ | ⟨_, rfl⟩ | ⟨_, rfl⟩
      all_goals cases List.mem_singleton.1 member
      · cases purpose <;> cases inside
      · cases purpose with
        | inheritance => cases inside
        | inclusion =>
            cases inside
            simp [count]
      · cases purpose <;> cases inside
      · cases purpose <;> cases inside
  | @bare path template target node purpose reference name context overrides leads member inside
      named loaded ih =>
      have before := ih fun visit among => made visit (List.mem_append_left _ among)
      have same : context = turnsContext := made _ (List.mem_append_right _ List.mem_cons_self)
      subst same
      simp only [List.mem_cons, Prod.mk.injEq, List.not_mem_nil, or_false] at before
      rcases before with ⟨count, rfl⟩ | ⟨_, rfl⟩ | ⟨count, rfl⟩ | ⟨_, rfl⟩
      all_goals cases List.mem_singleton.1 member
      · cases purpose with
        | inheritance => cases inside
        | inclusion =>
            cases inside
            cases named
            have second : turnsEngine.load "b" = .ok turnsSecond := rfl
            cases Except.ok.inj (second.symm.trans loaded)
            simp [count]
      · cases purpose <;> cases inside
      · cases purpose with
        | inheritance => cases inside
        | inclusion =>
            cases inside
            cases named
            have last : turnsEngine.load "e" = .ok turnsLast := rfl
            cases Except.ok.inj (last.symm.trans loaded)
            simp [count]
      · cases purpose <;> cases inside

theorem turns_bounded :
    turnsEngine.render "a" turnsContext = .ok "deep" ∧
      ∃ template record, turnsEngine.load "a" = .ok template ∧
        turnsEngine.Explains template turnsContext "deep" record ∧
        EveryUnder (turnsEngine.WithinLimit template) [] record :=
  ⟨turns_rendered, nesting_bounded turnsEngine turns_rendered⟩

theorem turns_explained :
    turnsEngine.Explains turnsFirst turnsContext "deep" turnsRecord := by
  have loaded : turnsEngine.load "a" = .ok turnsFirst := rfl
  obtain ⟨template, again, shown⟩ := Engine.render_ok_iff.1 turns_rendered
  cases Except.ok.inj (loaded.symm.trans again)
  obtain ⟨output, cells, rendered, same⟩ := Engine.textOf_eq_some.1 shown
  obtain ⟨record, explains, _⟩ := Engine.exists_record (.inl ⟨"a", loaded⟩) rendered
  cases Except.ok.inj (turns_direct.symm.trans explains.direct)
  exact same ▸ explains

/-- Tags of both kinds taken together are not bounded by the limit: here a run that succeeds shows a
template to which no two tags lead, where the limit is two. -/
theorem nesting_exceeds_limit :
    turnsEngine.config.maxDepth = 2 ∧ turnsEngine.render "a" turnsContext = .ok "deep" ∧
      turnsEngine.load "a" = .ok turnsFirst ∧
      turnsEngine.Explains turnsFirst turnsContext "deep" turnsRecord ∧
      ¬ EveryUnder (fun outer visit => ∀ target,
        turnsEngine.load visit.request.name = .ok target → ∃ path,
          path.Sublist (outer ++ [visit]) ∧ turnsEngine.Leads turnsFirst path target ∧
            path.length ≤ turnsEngine.config.maxDepth) [] turnsRecord := by
  refine ⟨rfl, turns_rendered, rfl, turns_explained, ?_⟩
  rintro ⟨⟨_, ⟨_, ⟨last, _⟩, _⟩, _⟩, _⟩
  obtain ⟨path, below, leads, few⟩ := last turnsLast rfl
  have made : ∀ visit ∈ path, visit.request.context = turnsContext := by
    intro visit among
    have member := below.subset among
    simp only [List.nil_append, List.cons_append, List.mem_cons, List.not_mem_nil, or_false]
      at member
    rcases member with rfl | rfl | rfl <;> rfl
  have count : path.length = 3 := by
    simpa [turnsFirst, turnsSecond, turnsThird, turnsLast] using turns_leads leads made
  have few : path.length ≤ 2 := few
  omega

end Quire
