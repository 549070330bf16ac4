/-
Module: Quire.Proofs.LoadErrors
Purpose: Errors of loading are genuine: each is raised by one of the loads within the load, and
  tells the truth about the references in quotes that lead there.
Main exports: Source.AsksFor, atFault_or_asksFor, Engine.Loading, Engine.Trail,
  Engine.Loading.trail, Engine.Raises, Engine.exists_raises_of_load, load_errors_genuine,
  fault_reproduced
-/
import Mathlib.Data.List.Nodup
import Quire.Proofs.ReferenceGraph

/-!
A load asks for further loads while it builds its source, each on behalf of one name more. An error
goes unchanged from the load that raises it through all that asked for it. What is known of the
names on whose behalf a load is made, that each refers to the next, that they are distinct and no
more than the limit, therefore bears out what the error says. A fault of the source itself does not
depend on these names: what has been fetched before it is fetched again on behalf of fewer names,
with the same result.
-/

namespace Quire

/-! ### Where building stops -/

/-- Why something has failed, if it has. -/
def reason? {ε α : Type} : Except ε α → Option ε
  | .error error => some error
  | .ok _ => none

theorem reason?_eq_some {ε α : Type} {result : Except ε α} {error : ε} :
    reason? result = some error ↔ result = .error error := by
  cases result <;> simp [reason?]

/-- What fails in a fold fails at one of the items. -/
theorem foldlM_error {ε α β : Type} {step : β → α → Except ε β} {items : List α} {start : β}
    {error : ε} (failed : items.foldlM step start = .error error) :
    ∃ early item late mid, items = early ++ item :: late ∧
      early.foldlM step start = .ok mid ∧ step mid item = .error error := by
  induction items generalizing start with
  | nil => exact nomatch failed
  | cons item rest ih =>
      rcases bind_error_iff.1 failed with here | ⟨next, first, later⟩
      · exact ⟨[], item, rest, start, rfl, rfl, here⟩
      · obtain ⟨early, other, late, mid, rfl, before, there⟩ := ih later
        exact ⟨item :: early, other, late, mid, rfl, bind_ok_iff.2 ⟨next, first, before⟩, there⟩

namespace Assembly

variable {fetch : String → Except Error Template} {template : String}

/-- A lexeme that fails does so whatever is fetched, or it fits and what it asks for cannot be
fetched. -/
theorem refused_or_asks {assembly : Assembly} {lexeme : Lexeme} {error : Error}
    (failed : step fetch template assembly lexeme = .error error) :
    (∀ fetch', step fetch' template assembly lexeme = .error error) ∨
      ∃ target next, lexeme.quoted? = some target ∧ fetch target = .error error ∧
        step assumed template assembly lexeme = .ok next := by
  cases lexeme with
  | text text => exact nomatch failed
  | value path => exact nomatch failed
  | closing name => exact .inl fun _ => failed
  | opening name params =>
      simp only [step] at failed ⊢
      cases known : Tag.named? name with
      | none => exact .inl fun _ => by simpa only [known] using failed
      | some tag =>
          simp only [known] at failed
          have quotes : ∀ target, tag.Quotes (Text.trimmed params) target →
              (Lexeme.opening name params).quoted? = some target :=
            fun target => Lexeme.quoted?_of_quotes known
          cases tag with
          | block => exact .inl fun _ => failed
          | loop => exact .inl fun _ => failed
          | conditional => exact .inl fun _ => failed
          | otherwise => exact .inl fun _ => failed
          | inheritance =>
              simp only [openTag] at failed ⊢
              split at failed
              · exact .inl fun _ => failed
              · rename_i reference parsed
                by_cases first : assembly.siblings = 0
                · simp only [first, if_true] at failed ⊢
                  obtain ⟨target, rfl, missing⟩ := missing_of_resolve failed
                  exact .inr ⟨target, _, quotes target ⟨.inl rfl, parsed⟩, missing, rfl⟩
                · exact .inl fun _ => by simpa only [first, if_false] using failed
          | inclusion =>
              simp only [openTag] at failed ⊢
              split at failed
              · exact .inl fun _ => failed
              · rename_i reference parsed
                obtain ⟨target, rfl, missing⟩ := missing_of_resolve failed
                exact .inr ⟨target, _, quotes target ⟨.inr rfl, parsed⟩, missing, rfl⟩

end Assembly

/-- Building a source comes to ask for a template: all that stands before one of the references to
it has been built, and there is nothing wrong with that reference itself. -/
inductive Source.AsksFor (fetch : String → Except Error Template) (source : Source)
    (name target : String) : Prop where
  | reference {early late : List Lexeme} {lexeme : Lexeme} {assembly next : Assembly}
      (reading : source.lexemes = early ++ lexeme :: late)
      (before : early.foldlM (Assembly.step fetch name) .empty = .ok assembly)
      (quotes : lexeme.quoted? = some target)
      (fits : Assembly.step assumed name assembly lexeme = .ok next) :
      AsksFor fetch source name target

section

variable {fetch : String → Except Error Template} {name : String} {source : Source}

theorem Source.AsksFor.mem_quoted {target : String} (asks : source.AsksFor fetch name target) :
    target ∈ source.quoted := by
  obtain ⟨reading, _, quotes, _⟩ := asks
  exact Source.mem_quoted.2 ⟨_, by simp [reading], quotes⟩

/-- A source that cannot be built is at fault whatever else can be fetched besides, or comes to ask
for a template that cannot be fetched. -/
theorem refused_or_asksFor {error : Error} (failed : assemble fetch name source = .error error) :
    (∀ fetch', (∀ inner template, fetch inner = .ok template → fetch' inner = .ok template) →
      assemble fetch' name source = .error error) ∨
    ∃ target, source.AsksFor fetch name target ∧ fetch target = .error error := by
  rcases bind_error_iff.1 failed with folding | ⟨assembly, folded, finishing⟩
  · obtain ⟨early, lexeme, late, assembly, reading, before, here⟩ := foldlM_error folding
    rcases Assembly.refused_or_asks here with refused | ⟨target, next, quotes, missing, fits⟩
    · refine .inl fun fetch' agrees => bind_error_iff.2 (.inl ?_)
      rw [reading, List.foldlM_append]
      have again := Assembly.foldlM_agrees agrees before
      simp only [again, List.foldlM_cons, refused fetch', bind, Except.bind]
    · exact .inr ⟨target, .reference reading before quotes fits, missing⟩
  · exact .inl fun fetch' agrees =>
      bind_error_iff.2 (.inr ⟨assembly, Assembly.foldlM_agrees agrees folded, finishing⟩)

/-- A source is at fault: building it fails for a fault of its own, whatever else than what has been
fetched can be fetched besides. -/
structure Source.AtFault (fetch : String → Except Error Template) (source : Source) (name : String)
    (fault : Fault) : Prop where
  own : fault.Own
  fails : ∀ fetch', (∀ inner template, fetch inner = .ok template → fetch' inner = .ok template) →
    assemble fetch' name source = .error (.malformed name fault)

/-- A source that cannot be built is at fault, or comes to ask for a template that cannot be
fetched. -/
theorem atFault_or_asksFor {error : Error} (failed : assemble fetch name source = .error error) :
    (∃ fault, error = .malformed name fault ∧ source.AtFault fetch name fault) ∨
      ∃ target, source.AsksFor fetch name target ∧ fetch target = .error error := by
  refine (refused_or_asksFor failed).imp_left fun refused => ?_
  -- with all templates taken to be there, none is left to be missing
  let complete (inner : String) : Except Error Template :=
    match fetch inner with
    | .ok template => .ok template
    | .error _ => assumed inner
  have agrees : ∀ inner template, fetch inner = .ok template → complete inner = .ok template :=
    fun inner template found => by simp only [complete, found]
  rcases assemble_error (refused complete agrees) with ⟨fault, own, rfl⟩ | ⟨target, _, missing⟩
  · exact ⟨fault, rfl, own, refused⟩
  · simp only [complete] at missing
    split at missing <;> exact nomatch missing

end

/-! ### The loads within a load -/

namespace Engine

/-- A load of an entry comes to load a template on behalf of a chain: the entry itself on behalf of
none, and whatever the source of a template that is being built comes to ask for, on behalf of the
chain and this template. -/
inductive Loading (engine : Engine) (entry : String) : List String → String → Prop where
  | entry : Loading engine entry [] entry
  | within {chain : List String} {name target : String} {source : Source}
      (loading : Loading engine entry chain name) (fresh : name ∉ chain)
      (room : chain.length < engine.config.maxDepth) (known : engine.source name = some source)
      (asks : source.AsksFor (engine.loadOn (chain ++ [name])) name target) :
      Loading engine entry (chain ++ [name]) target

/-- What is known of the names on whose behalf a template is loaded: they lead from the entry to it
by references in quotes, are distinct and no more than the limit. -/
structure Trail (engine : Engine) (entry : String) (chain : List String) (name : String) :
    Prop where
  starts : (chain ++ [name]).head? = some entry
  path : List.IsChain engine.RefersTo (chain ++ [name])
  distinct : chain.Nodup
  short : chain.length ≤ engine.config.maxDepth

variable {engine : Engine} {entry : String} {chain : List String} {name : String}

/-- With a name that is new to them the names are still distinct. -/
theorem Trail.nodup_concat (trail : engine.Trail entry chain name) (fresh : name ∉ chain) :
    (chain ++ [name]).Nodup := by
  simpa using trail.distinct.concat fresh

theorem Trail.extend (trail : engine.Trail entry chain name) (fresh : name ∉ chain)
    (room : chain.length < engine.config.maxDepth) {target : String}
    (refers : engine.RefersTo name target) : engine.Trail entry (chain ++ [name]) target where
  starts := by
    rw [List.head?_append, trail.starts]
    rfl
  path := by
    rw [List.isChain_append]
    refine ⟨trail.path, .singleton target, ?_⟩
    simp [refers]
  distinct := trail.nodup_concat fresh
  short := by
    rw [List.length_append, List.length_singleton]
    omega

/-- Every load within a load is made on behalf of such names. -/
theorem Loading.trail (loading : engine.Loading entry chain name) :
    engine.Trail entry chain name := by
  induction loading with
  | entry => exact ⟨rfl, .singleton _, List.nodup_nil, Nat.zero_le _⟩
  | within _ fresh room known asks ih => exact ih.extend fresh room ⟨_, known, asks.mem_quoted⟩

theorem Loading.reaches (loading : engine.Loading entry chain name) :
    engine.Reaches entry name := by
  induction loading with
  | entry => exact .refl
  | within _ _ _ known asks ih => exact ih.tail ⟨_, known, asks.mem_quoted⟩

/-! ### Where errors are raised -/

/-- A load raises an error itself. -/
inductive Raises (engine : Engine) (chain : List String) (name : String) : Error → Prop where
  | circular (met : name ∈ chain) :
      Raises engine chain name
        (.malformed (chain.getLastD name) (.circular (chain ++ [name])))
  | tooDeep (fresh : name ∉ chain) (full : engine.config.maxDepth ≤ chain.length) :
      Raises engine chain name (.tooDeep name engine.config.maxDepth)
  | missing (unknown : engine.source name = none) :
      Raises engine chain name (.missingTemplate name)
  | fault {source : Source} {fault : Fault} (room : chain.length < engine.config.maxDepth)
      (known : engine.source name = some source)
      (faulty : source.AtFault (engine.loadOn (chain ++ [name])) name fault) :
      Raises engine chain name (.malformed name fault)

/-- Every error of a load is raised by one of the loads within it. The induction is on the loads
that a load asks for. -/
theorem exists_raises {error : Error} (loading : engine.Loading entry chain name)
    (failed : engine.loadOn chain name = .error error) :
    ∃ chain' name', engine.Loading entry chain' name' ∧ engine.Raises chain' name' error := by
  suffices all : ∀ load : List String × String, engine.Loading entry load.1 load.2 →
      engine.loadOn load.1 load.2 = .error error →
        ∃ chain' name', engine.Loading entry chain' name' ∧ engine.Raises chain' name' error
    from all (chain, name) loading failed
  intro load
  induction load using engine.wellFounded_asks.induction with
  | _ load ih =>
      obtain ⟨chain, name⟩ := load
      intro loading failed
      rw [loadOn_eq] at failed
      split at failed
      · cases failed
        exact ⟨chain, name, loading, .circular ‹_›⟩
      split at failed
      · cases failed
        exact ⟨chain, name, loading, .tooDeep ‹_› ‹_›⟩
      split at failed
      · cases failed
        exact ⟨chain, name, loading, .missing ‹_›⟩
      · rename_i fresh full _ source known
        have room : chain.length < engine.config.maxDepth := Nat.lt_of_not_le full
        rcases bind_error_iff.1 failed with building | ⟨_, _, done⟩
        · rcases atFault_or_asksFor building with ⟨fault, rfl, faulty⟩ | ⟨target, asks, missing⟩
          · exact ⟨chain, name, loading, .fault room known faulty⟩
          · exact ih _ (.target fresh room ⟨source, known, asks.mem_quoted⟩)
              (loading.within fresh room known asks) missing
        · exact nomatch done

/-- Every error of loading an entry is raised by one of the loads within it. -/
theorem exists_raises_of_load {error : Error} (failed : engine.load entry = .error error) :
    ∃ chain name, engine.Loading entry chain name ∧ engine.Raises chain name error :=
  exists_raises .entry failed

end Engine

/-- Errors of loading are genuine. A circle that is reported starts at the name that was loaded,
each of its names refers in quotes to the next, and its last name is the only one that has come
before; blame falls on the name before the last. Where the nesting is too deep, references in quotes
lead to the template that is named through distinct names, one more than the limit allows. A
template that is missing is the one that was loaded or one that references in quotes lead to, and
there is no source for it. And at every moment of a load the names of the templates that are being
built are distinct and no more than the limit. -/
theorem load_errors_genuine (engine : Engine) (name : String) :
    (∀ owner names, engine.load name = .error (.malformed owner (.circular names)) →
      ∃ chain again, names = chain ++ [again] ∧ names.head? = some name ∧
        List.IsChain engine.RefersTo names ∧ chain.Nodup ∧ chain.count again = 1 ∧
        chain.getLast? = some owner) ∧
    (∀ other limit, engine.load name = .error (.tooDeep other limit) →
      limit = engine.config.maxDepth ∧ ∃ path, path.length = engine.config.maxDepth + 1 ∧
        path.Nodup ∧ List.IsChain engine.RefersTo path ∧ path.head? = some name ∧
        path.getLast? = some other) ∧
    (∀ other, engine.load name = .error (.missingTemplate other) →
      engine.Reaches name other ∧ engine.source other = none) ∧
    ∀ chain other, engine.Loading name chain other →
      (chain.Nodup ∧ chain.length ≤ engine.config.maxDepth) ∧
      (other ∉ chain → chain.length < engine.config.maxDepth →
        (chain ++ [other]).Nodup ∧ (chain ++ [other]).length ≤ engine.config.maxDepth) := by
  refine ⟨?_, ?_, ?_, ?_⟩
  · intro owner names failed
    obtain ⟨chain, again, loading, raises⟩ := Engine.exists_raises_of_load failed
    have trail := loading.trail
    cases raises with
    | circular met =>
        refine ⟨chain, again, rfl, trail.starts, trail.path, trail.distinct,
          List.count_eq_one_of_mem trail.distinct met, ?_⟩
        rw [List.getLastD_eq_getLast?, List.getLast?_eq_some_getLast (List.ne_nil_of_mem met)]
        rfl
    | fault _ _ faulty => exact absurd rfl (faulty.own names)
  · intro other limit failed
    obtain ⟨chain, last, loading, raises⟩ := Engine.exists_raises_of_load failed
    have trail := loading.trail
    cases raises with
    | tooDeep fresh full =>
        have length : chain.length = engine.config.maxDepth := Nat.le_antisymm trail.short full
        exact ⟨rfl, chain ++ [other], by simp [length], trail.nodup_concat fresh, trail.path,
          trail.starts, List.getLast?_concat⟩
  · intro other failed
    obtain ⟨chain, last, loading, raises⟩ := Engine.exists_raises_of_load failed
    cases raises with
    | missing unknown => exact ⟨loading.reaches, unknown⟩
  · intro chain other loading
    have trail := loading.trail
    refine ⟨⟨trail.distinct, trail.short⟩, fun fresh room => ⟨trail.nodup_concat fresh, ?_⟩⟩
    rw [List.length_append, List.length_singleton]
    exact room

/-- An engine with a limit that knows two templates, each of which includes the other, and one that
includes a template that there is not. -/
def circleEngine (limit : Nat) : Engine where
  source
    | "left" => some ⟨[.opening "include" "'right'"]⟩
    | "right" => some ⟨[.text "x", .opening "include" "'left'"]⟩
    | "lost" => some ⟨[.opening "include" "'nowhere'"]⟩
    | _ => none
  config := { maxDepth := limit }

theorem circle_errors_genuine :
    ((circleEngine 2).load "left" =
        .error (.malformed "right" (.circular ["left", "right", "left"])) ∧
      List.IsChain (circleEngine 2).RefersTo ["left", "right", "left"]) ∧
    ((circleEngine 1).load "left" = .error (.tooDeep "right" 1) ∧
      ∃ path, path.length = 2 ∧ path.Nodup ∧ List.IsChain (circleEngine 1).RefersTo path ∧
        path.head? = some "left" ∧ path.getLast? = some "right") ∧
    (circleEngine 2).load "lost" = .error (.missingTemplate "nowhere") ∧
      (circleEngine 2).Reaches "lost" "nowhere" := by
  have circle : (circleEngine 2).load "left" =
      .error (.malformed "right" (.circular ["left", "right", "left"])) :=
    reason?_eq_some.1 (by decide +kernel)
  have deep : (circleEngine 1).load "left" = .error (.tooDeep "right" 1) :=
    reason?_eq_some.1 (by decide +kernel)
  have lost : (circleEngine 2).load "lost" = .error (.missingTemplate "nowhere") :=
    reason?_eq_some.1 (by decide +kernel)
  obtain ⟨_, _, _, _, path, _⟩ := (load_errors_genuine (circleEngine 2) "left").1 _ _ circle
  have short := ((load_errors_genuine (circleEngine 1) "left").2.1 _ _ deep).2
  have reaches := ((load_errors_genuine (circleEngine 2) "lost").2.2.1 _ lost).1
  exact ⟨⟨circle, path⟩, ⟨deep, short⟩, lost, reaches⟩

/-! ### Faults are those of the template that is blamed -/

/-- A fault that is reported while a template is loaded is that of a template that references in
quotes lead to, and loading this template alone reports the same fault. -/
theorem fault_reproduced {engine : Engine} {name template : String} {fault : Fault}
    (own : fault.Own) (failed : engine.load name = .error (.malformed template fault)) :
    engine.Reaches name template ∧ engine.load template = .error (.malformed template fault) := by
  obtain ⟨chain, blamed, loading, raises⟩ := Engine.exists_raises_of_load failed
  cases raises with
  | circular met => exact absurd rfl (own _)
  | @fault source _ room known faulty =>
      refine ⟨loading.reaches, ?_⟩
      have again : ∀ inner found, engine.loadOn (chain ++ [template]) inner = .ok found →
          engine.loadOn ([] ++ [template]) inner = .ok found := fun inner found =>
        engine.loadWithin_agrees (by simp; omega) (by simp)
      have some : ¬ engine.config.maxDepth ≤ ([] : List String).length := by
        rw [List.length_nil]
        omega
      have alone : engine.load template = engine.loadOn [] template := rfl
      rw [alone, Engine.loadOn_eq, if_neg List.not_mem_nil, if_neg some, known]
      exact bind_error_iff.2 (.inl (faulty.fails _ again))

/-- An engine that knows a page, a part that the page includes behind another one, and no tag of the
name that the part uses. -/
def faultyEngine : Engine where
  source
    | "page" => some ⟨[.opening "include" "'head'", .opening "block" "b",
        .opening "include" "'part'", .closing "block"]⟩
    | "part" => some ⟨[.opening "include" "'head'", .opening "macro" "x()"]⟩
    | "head" => some (.ofText "x")
    | _ => none
  config := {}

theorem faulty_part_reproduced :
    (Fault.unknownTag "macro").Own ∧
      faultyEngine.load "page" = .error (.malformed "part" (.unknownTag "macro")) ∧
      faultyEngine.Reaches "page" "part" ∧
      faultyEngine.load "part" = .error (.malformed "part" (.unknownTag "macro")) := by
  have own : (Fault.unknownTag "macro").Own := by simp [Fault.Own]
  have failed : faultyEngine.load "page" =
      .error (.malformed "part" (.unknownTag "macro")) := reason?_eq_some.1 (by decide +kernel)
  exact ⟨own, failed, fault_reproduced own failed⟩

end Quire
