/-
Module: Quire.Proofs.LoadChains
Purpose: A template does not depend on those on whose behalf it is loaded. These can only let the
  load be refused, for a circle that closes among them or for want of room.
Main exports: Engine.Walk, Engine.Refused, Engine.loadOn_ok_iff, Engine.refused_of_load,
  load_independent_of_chain
-/
import Quire.Proofs.LoadErrors

/-!
A load carries the names of the templates that are being built. It reads them in two places only:
where it asks whether a name is among them, and where it counts them. A template that can be loaded
on its own is therefore the same on behalf of any chain, or the load comes upon a name of the chain
or upon the limit. In both cases references in quotes lead there.
-/

namespace Quire

namespace Engine

variable {engine : Engine} {chain : List String} {name target last : String}

/-! ### Chains that let a load succeed -/

/-- Whether a template may be loaded on behalf of a chain is decided by the template itself, the
names that can be reached and the length of the chain. -/
theorem loadable_iff_alone : engine.Loadable (engine.config.maxDepth - chain.length) chain name ↔
    engine.Loadable engine.config.maxDepth [] name ∧
      (∀ other, engine.Reaches name other → other ∉ chain) ∧
      ∀ rest, List.IsChain engine.RefersTo (name :: rest) →
        chain.length + (name :: rest).length ≤ engine.config.maxDepth := by
  constructor
  · intro loadable
    have short : ∀ rest, List.IsChain engine.RefersTo (name :: rest) →
        chain.length + (name :: rest).length ≤ engine.config.maxDepth := by
      intro rest path
      have within := loadable.short rest path
      have some : 0 < (name :: rest).length := List.length_pos_of_ne_nil (List.cons_ne_nil _ _)
      omega
    refine ⟨⟨by simp, loadable.found, loadable.acyclic, ?_⟩, loadable.apart, short⟩
    intro rest path
    exact Nat.le_trans (Nat.le_add_left _ _) (short rest path)
  · rintro ⟨alone, apart, short⟩
    refine ⟨apart, alone.found, alone.acyclic, ?_⟩
    intro rest path
    have within := short rest path
    omega

/-- Loading on behalf of a chain gives a template just where loading alone gives it, nothing that
can be reached stands in the chain, and every path fits behind it. -/
theorem loadOn_ok_iff {template : Template} : engine.loadOn chain name = .ok template ↔
    engine.load name = .ok template ∧
      (∀ other, engine.Reaches name other → other ∉ chain) ∧
      ∀ rest, List.IsChain engine.RefersTo (name :: rest) →
        chain.length + (name :: rest).length ≤ engine.config.maxDepth := by
  have within : engine.config.maxDepth - chain.length ≤ engine.config.maxDepth := Nat.sub_le _ _
  constructor
  · intro ok
    have alone := load_of_loadWithin within ok
    have loadable := loadable_iff_alone.1 (loadWithin_isOk_iff.1 ⟨template, ok⟩)
    exact ⟨alone, loadable.2⟩
  · rintro ⟨alone, free⟩
    have loadable := loadable_iff_alone.2 ⟨loadWithin_isOk_iff.1 ⟨template, alone⟩, free⟩
    obtain ⟨found, ok⟩ := loadWithin_isOk_iff.2 loadable
    -- the template that is found is the one that loading alone gives
    cases alone.symm.trans (load_of_loadWithin within ok)
    exact ok

/-- With a template, those that it refers to can be loaded. -/
theorem exists_load_target {template : Template} (loads : engine.load name = .ok template)
    (refers : engine.RefersTo name target) : ∃ inner, engine.load target = .ok inner := by
  obtain ⟨fresh, fewer, source, nodes, room, known, built, rfl⟩ := loadWithin_ok_iff.1 loads
  obtain ⟨source', known', member⟩ := refers
  cases known.symm.trans known'
  obtain ⟨inner, fetched⟩ := (assemble_isOk_iff.1 ⟨nodes, built⟩).2 target member
  exact ⟨inner, load_of_loadWithin (by omega) fetched⟩

/-! ### Chains that do not -/

/-- A walk along references in quotes: from a name along a path, which starts with this name, to the
name after the path. -/
inductive Walk (engine : Engine) : String → List String → String → Prop where
  | here (name : String) : Walk engine name [] name
  | step {name target last : String} {path : List String} (refers : engine.RefersTo name target)
      (walk : Walk engine target path last) : Walk engine name (name :: path) last

theorem Walk.reaches {path : List String} (walk : engine.Walk name path last) :
    engine.Reaches name last := by
  induction walk with
  | here => exact .refl
  | step refers _ ih => exact ih.head refers

/-- A load is refused for the chain on whose behalf it is made: references in quotes lead to a name
that stands in the chain, or to one before which the chain and the path take up all the room. -/
inductive Refused (engine : Engine) (chain : List String) (name : String) : Error → Prop where
  | circular {path : List String} {last : String} (walk : engine.Walk name path last)
      (met : last ∈ chain) :
      Refused engine chain name
        (.malformed ((chain ++ path).getLastD last) (.circular (chain ++ path ++ [last])))
  | tooDeep {path : List String} {last : String} (walk : engine.Walk name path last)
      (full : engine.config.maxDepth ≤ (chain ++ path).length) :
      Refused engine chain name (.tooDeep last engine.config.maxDepth)

/-- What a load asks for is refused for the chain and the name that is loaded. If that name does not
lead back to itself, it is refused for the chain alone. -/
theorem Refused.behind {error : Error} (refused : engine.Refused (chain ++ [name]) target error)
    (refers : engine.RefersTo name target) (straight : ¬ engine.Circular name) :
    engine.Refused chain name error := by
  cases refused with
  | @circular path last walk met =>
      rw [List.append_assoc chain [name] path]
      rcases List.mem_append.1 met with met | again
      · exact .circular (.step refers walk) met
      · cases List.mem_singleton.1 again
        exact absurd (Relation.TransGen.head' refers walk.reaches) straight
  | @tooDeep path last walk full =>
      rw [List.append_assoc chain [name] path] at full
      exact .tooDeep (.step refers walk) full

/-- A source that loading alone can build is not at fault on behalf of a chain. -/
theorem not_atFault_of_load {template : Template} {source : Source} {fault : Fault}
    (loads : engine.load name = .ok template) (known : engine.source name = some source) :
    ¬ source.AtFault (engine.loadOn (chain ++ [name])) name fault := by
  intro faulty
  obtain ⟨_, fewer, source', nodes, room, known', built, _⟩ := loadWithin_ok_iff.1 loads
  cases known.symm.trans known'
  have agrees : ∀ inner found, engine.loadOn (chain ++ [name]) inner = .ok found →
      engine.loadWithin fewer ([] ++ [name]) inner = .ok found := by
    intro inner found
    apply engine.loadWithin_agrees
    · rw [List.length_append, List.length_singleton]
      omega
    · simp
  cases (faulty.fails _ agrees).symm.trans built

/-- Where a template can be loaded alone, a load on behalf of a chain that fails is refused for the
chain. The induction is on the loads that a load asks for. -/
theorem refused_of_load {template : Template} {error : Error}
    (loads : engine.load name = .ok template) (failed : engine.loadOn chain name = .error error) :
    engine.Refused chain name error := by
  suffices all : ∀ load : List String × String, ∀ alone error, engine.load load.2 = .ok alone →
      engine.loadOn load.1 load.2 = .error error → engine.Refused load.1 load.2 error
    from all (chain, name) template error loads failed
  intro load
  induction load using engine.wellFounded_asks.induction with
  | _ load ih =>
      obtain ⟨chain, name⟩ := load
      intro alone error loads failed
      have loadable := loadWithin_isOk_iff.1 ⟨alone, loads⟩
      rw [loadOn_eq] at failed
      split at failed
      · rename_i met
        cases failed
        have refused : engine.Refused chain name _ := .circular (.here name) met
        rwa [List.append_nil] at refused
      split at failed
      · rename_i full
        cases failed
        apply Refused.tooDeep (.here name)
        rwa [List.append_nil]
      split at failed
      · rename_i unknown
        obtain ⟨source, known, _⟩ := loadable.found name .refl
        cases unknown.symm.trans known
      · rename_i fresh full _ source known
        have room : chain.length < engine.config.maxDepth := Nat.lt_of_not_le full
        rcases bind_error_iff.1 failed with building | ⟨_, _, done⟩
        · rcases atFault_or_asksFor building with ⟨fault, rfl, faulty⟩ | ⟨target, asks, missing⟩
          · exact absurd faulty (not_atFault_of_load loads known)
          · have refers : engine.RefersTo name target := ⟨source, known, asks.mem_quoted⟩
            obtain ⟨inner, inside⟩ := exists_load_target loads refers
            have refused := ih _ (.target fresh room refers) inner error inside missing
            exact refused.behind refers (loadable.acyclic name .refl)
        · cases done

end Engine

/-- A template does not depend on those on whose behalf it is loaded. What is loaded on behalf of a
chain is what loading alone gives, and what any other chain gives that is no longer and holds
neither its name nor one that references in quotes lead to. Where loading alone gives a template,
loading on behalf of a chain gives the same one, or it is refused for the chain: for a circle that
closes in the chain, or beyond the limit. -/
theorem load_independent_of_chain (engine : Engine) (chain : List String) (name : String)
    (template : Template) :
    (engine.loadOn chain name = .ok template →
      engine.load name = .ok template ∧
      ∀ others : List String, others.length ≤ chain.length →
        (∀ other, engine.Reaches name other → other ∉ others) →
          engine.loadOn others name = .ok template) ∧
    (engine.load name = .ok template →
      engine.loadOn chain name = .ok template ∨
        ∃ error, engine.loadOn chain name = .error error ∧ engine.Refused chain name error) := by
  constructor
  · intro ok
    obtain ⟨alone, _, short⟩ := Engine.loadOn_ok_iff.1 ok
    refine ⟨alone, fun others fewer apart => Engine.loadOn_ok_iff.2 ⟨alone, apart, ?_⟩⟩
    intro rest path
    exact Nat.le_trans (Nat.add_le_add_right fewer _) (short rest path)
  · intro alone
    cases loaded : engine.loadOn chain name with
    | error error => exact .inr ⟨error, rfl, Engine.refused_of_load alone loaded⟩
    | ok found =>
        obtain ⟨again, _⟩ := Engine.loadOn_ok_iff.1 loaded
        cases alone.symm.trans again
        exact .inl rfl

/-- An engine that knows a part with a leaf inside it, and lets three templates nest. -/
def partEngine : Engine where
  source
    | "part" => some ⟨[.text "<", .opening "include" "'leaf'", .text ">"]⟩
    | "leaf" => some (.ofText "x")
    | _ => none
  config := { maxDepth := 3 }

/-- The part with the leaf inside it. -/
def partWithLeaf : Template :=
  ⟨"part", [.text "<", .inclusion (.quoted ⟨"leaf", [.text "x"]⟩), .text ">"]⟩

theorem part_reaches {other : String} (reaches : partEngine.Reaches "part" other) :
    other = "part" ∨ other = "leaf" := by
  have part : (⟨[.text "<", .opening "include" "'leaf'", .text ">"]⟩ : Source).quoted =
      ["leaf"] := by
    decide +kernel
  induction reaches with
  | refl => exact .inl rfl
  | tail _ refers ih =>
      obtain ⟨source, known, member⟩ := refers
      rcases ih with rfl | rfl
      · cases known
        rw [part] at member
        exact .inr (List.mem_singleton.1 member)
      · cases known
        cases member

theorem part_independent_of_page :
    (partEngine.loadOn ["page"] "part" = .ok partWithLeaf ∧
      (∀ other, partEngine.Reaches "part" other → other ∉ ["site"]) ∧
      partEngine.loadOn ["site"] "part" = .ok partWithLeaf) ∧
    partEngine.load "part" = .ok partWithLeaf ∧
    (∃ error, partEngine.loadOn ["leaf"] "part" = .error error ∧
      partEngine.Refused ["leaf"] "part" error) ∧
    ∃ error, partEngine.loadOn ["site", "page"] "part" = .error error ∧
      partEngine.Refused ["site", "page"] "part" error := by
  have loaded : partEngine.loadOn ["page"] "part" = .ok partWithLeaf := rfl
  have apart : ∀ other, partEngine.Reaches "part" other → other ∉ ["site"] := by
    intro other reaches
    rcases part_reaches reaches with rfl | rfl <;> decide
  obtain ⟨alone, exchange⟩ := (load_independent_of_chain _ _ _ _).1 loaded
  have circle := (load_independent_of_chain _ ["leaf"] _ _).2 alone
  have deep := (load_independent_of_chain _ ["site", "page"] _ _).2 alone
  refine ⟨⟨loaded, apart, exchange _ (Nat.le_refl _) apart⟩, alone, circle.resolve_left ?_,
    deep.resolve_left ?_⟩
  · intro again
    cases again
  · intro again
    cases again

end Quire
