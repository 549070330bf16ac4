/-
Module: Quire.Proofs.Building
Purpose: What building a template asks of the templates that it refers to in quotes: that they can
  be fetched, and nothing else.
Main exports: Frame.SameOutline, congruence_outline, Source.WellFormed, assemble_isOk_iff,
  assemble_error
-/
import Quire.Proofs.Congruence
import Quire.Proofs.StaticLoading

/-!
The builder puts fetched templates into the tree and never looks inside them. Two ways of fetching
that succeed for the same names therefore let it come equally far, through assemblies of one
outline: the outline of what has been put together decides what the next lexeme does.
-/

namespace Quire

/-! ### Assemblies of one outline -/

/-- A child of a conditional with an empty text in the place of a node. -/
def Child.outline : Child → Child
  | .node _ => .node (.text "")
  | .divider guard => .divider guard

/-- Open tags with the same parameters, both or none of them with anything inside, and with the same
dividers in the same places. -/
inductive Frame.SameOutline : Frame → Frame → Prop where
  | block (name : String) {body body' : List Node} (empty : body = [] ↔ body' = []) :
      SameOutline (.block name body) (.block name body')
  | loop (spec : Loop) {body body' : List Node} (empty : body = [] ↔ body' = []) :
      SameOutline (.loop spec body) (.loop spec body')
  | conditional (condition : Condition) {children children' : List Child}
      (outline : children.map Child.outline = children'.map Child.outline) :
      SameOutline (.conditional condition children) (.conditional condition children')

theorem guards_outline (children : List Child) :
    (Child.branches (children.map Child.outline)).2.map Branch.guard =
      (Child.branches children).2.map Branch.guard := by
  induction children with
  | nil => rfl
  | cons child rest ih =>
      cases child with
      | node node => simpa [Child.outline, Child.branches] using ih
      | divider guard => simpa [Child.outline, Child.branches] using ih

/-- The order of branches is a matter of their guards alone. -/
theorem inOrder_congr : ∀ {branches others : List Branch},
    branches.map Branch.guard = others.map Branch.guard → inOrder branches = inOrder others
  | [], [], _ => rfl
  | [_], [_], _ => rfl
  | first :: second :: rest, first' :: second' :: rest', same => by
      simp only [List.map_cons, List.cons.injEq] at same
      have others : inOrder (second :: rest) = inOrder (second' :: rest') :=
        inOrder_congr (by simp [same.2.1, same.2.2])
      simp [inOrder, same.1, others]
  | [], _ :: _, same => by simp at same
  | _ :: _, [], same => by simp at same
  | [_], _ :: _ :: _, same => by simp at same
  | _ :: _ :: _, [_], same => by simp at same

/-- Whether an open tag may be closed does not depend on the nodes inside it. -/
theorem Frame.SameOutline.close {frame other : Frame} (same : frame.SameOutline other) :
    Matches (fun _ _ => True) frame.close other.close := by
  cases same with
  | block => exact .ok trivial
  | loop => exact .ok trivial
  | @conditional condition children children' outline =>
      have guards : (Child.branches children).2.map Branch.guard =
          (Child.branches children').2.map Branch.guard := by
        rw [← guards_outline children, ← guards_outline children', outline]
      simp only [Frame.close, inOrder_congr guards]
      split
      · exact .ok trivial
      · exact .error _

/-- The builder never looks inside finished nodes, those of fetched templates included. -/
theorem congruence_outline : Congruence (fun _ _ => True) (fun _ _ => True)
    (fun nodes others => nodes = [] ↔ others = []) Frame.SameOutline where
  node _ := trivial
  quoted _ := ⟨trivial, trivial⟩
  nothing := Iff.rfl
  none_iff same := same
  behind _ _ := by simp
  frame
    | .block name _ => .block name Iff.rfl
    | .loop spec _ => .loop spec Iff.rfl
    | .conditional condition _ => .conditional condition rfl
  tag same := by cases same <;> rfl
  empty_iff same := by
    cases same with
    | block _ empty => simpa [Frame.size] using empty
    | loop _ empty => simpa [Frame.size] using empty
    | conditional _ outline =>
        have length := congrArg List.length outline
        simp only [List.length_map] at length
        simp only [Frame.size, length]
  add same _ := by
    cases same with
    | block name _ => exact .block name (by simp)
    | loop spec _ => exact .loop spec (by simp)
    | conditional condition outline =>
        exact .conditional condition (by simp [outline, Child.outline])
  divide same guard := by
    cases same with
    | conditional _ outline => exact .conditional _ (by simp [outline])
  close same := same.close

/-- Two ways of fetching that both give the templates in quotes let building fail with the same
error, or succeed. -/
theorem assemble_isOk_congr {fetch fetch' : String → Except Error Template} (template : String)
    {source : Source} (fetched : ∀ target ∈ source.quoted,
      (∃ inner, fetch target = .ok inner) ∧ ∃ inner, fetch' target = .ok inner) :
    (∃ nodes, assemble fetch template source = .ok nodes) ↔
      ∃ nodes, assemble fetch' template source = .ok nodes := by
  have fetches : ∀ lexeme ∈ source.lexemes, ∀ target, lexeme.quoted? = some target →
      Matches (fun _ _ => True) (fetch target) (fetch' target) := by
    intro lexeme member target quotes
    obtain ⟨⟨inner, found⟩, inner', found'⟩ :=
      fetched target (Source.mem_quoted.2 ⟨lexeme, member, quotes⟩)
    rw [found, found']
    exact .ok trivial
  have folded := congruence_outline.foldlM template fetches congruence_outline.start
  exact (congruence_outline.assemble template folded).isOk_iff

/-! ### What is fetched -/

namespace Assembly

variable {fetch : String → Except Error Template} {template : String}

theorem fetched_of_resolve {α : Type} {target : String} {done : Target → α} {result : α}
    (ok : (do return done (← resolve fetch (.quoted target)) : Except Error α) = .ok result) :
    ∃ inner, fetch target = .ok inner := by
  obtain ⟨_, resolved, _⟩ := bind_ok_iff.1 ok
  obtain ⟨inner, found, _⟩ := bind_ok_iff.1 resolved
  exact ⟨inner, found⟩

theorem fetched_of_openTag {assembly next : Assembly} {params target : String} {tag : Tag}
    (quotes : tag.Quotes params target)
    (ok : openTag fetch template assembly params tag = .ok next) :
    ∃ inner, fetch target = .ok inner := by
  obtain ⟨rfl | rfl, parsed⟩ := quotes
  · simp only [openTag, parsed] at ok
    split at ok
    · exact fetched_of_resolve ok
    · simp [blame] at ok
  · simp only [openTag, parsed] at ok
    exact fetched_of_resolve ok

theorem fetched_of_step {assembly next : Assembly} {lexeme : Lexeme} {target : String}
    (quotes : lexeme.quoted? = some target) (ok : step fetch template assembly lexeme = .ok next) :
    ∃ inner, fetch target = .ok inner := by
  cases lexeme with
  | text text => simp [Lexeme.quoted?] at quotes
  | value path => simp [Lexeme.quoted?] at quotes
  | closing name => simp [Lexeme.quoted?] at quotes
  | opening name params =>
      obtain ⟨tag, known, quotes⟩ := Lexeme.quotes_of_quoted? quotes
      simp only [step, known] at ok
      exact fetched_of_openTag quotes ok

theorem fetched_of_foldlM {lexemes : List Lexeme} {assembly last : Assembly}
    (ok : lexemes.foldlM (step fetch template) assembly = .ok last) {lexeme : Lexeme}
    (member : lexeme ∈ lexemes) {target : String} (quotes : lexeme.quoted? = some target) :
    ∃ inner, fetch target = .ok inner := by
  induction lexemes generalizing assembly with
  | nil => exact nomatch member
  | cons first rest ih =>
      obtain ⟨next, here, others⟩ := bind_ok_iff.1 ok
      rcases List.mem_cons.1 member with rfl | member
      · exact fetched_of_step quotes here
      · exact ih others member

end Assembly

/-- Fetching that succeeds for every name. -/
def assumed (name : String) : Except Error Template :=
  .ok ⟨name, []⟩

/-- A source is well formed on its own: a template of the given name can be built from it when every
template that it refers to in quotes is taken to be there. -/
def Source.WellFormed (source : Source) (name : String) : Prop :=
  ∃ nodes, assemble assumed name source = .ok nodes

/-- A template can be built just where its source is well formed on its own and the templates that
it refers to in quotes can be fetched. -/
theorem assemble_isOk_iff {fetch : String → Except Error Template} {name : String}
    {source : Source} : (∃ nodes, assemble fetch name source = .ok nodes) ↔
      source.WellFormed name ∧ ∀ target ∈ source.quoted, ∃ inner, fetch target = .ok inner := by
  have agree : (∀ target ∈ source.quoted, ∃ inner, fetch target = .ok inner) →
      ((∃ nodes, assemble fetch name source = .ok nodes) ↔ source.WellFormed name) :=
    fun fetched => assemble_isOk_congr name fun target member =>
      ⟨fetched target member, ⟨target, []⟩, rfl⟩
  constructor
  · rintro ⟨nodes, built⟩
    have fetched : ∀ target ∈ source.quoted, ∃ inner, fetch target = .ok inner := by
      intro target member
      obtain ⟨lexeme, among, quotes⟩ := Source.mem_quoted.1 member
      obtain ⟨_, folded, _⟩ := bind_ok_iff.1 built
      exact Assembly.fetched_of_foldlM folded among quotes
    exact ⟨(agree fetched).1 ⟨nodes, built⟩, fetched⟩
  · rintro ⟨wellFormed, fetched⟩
    exact (agree fetched).2 wellFormed

/-! ### Where errors of building come from -/

/-- A fault other than that templates refer to one another in a circle. -/
def Fault.Own (fault : Fault) : Prop :=
  ∀ names, fault ≠ .circular names

theorem own_of_parseGuard {params : String} {fault : Fault}
    (failed : parseGuard params = .error fault) : fault.Own := by
  simp only [parseGuard] at failed
  split at failed
  · simp at failed
  · split at failed
    · simp at failed
    · cases failed
      simp [Fault.Own]

theorem own_of_loop {params : String} {fault : Fault}
    (failed : Loop.parse params = .error fault) : fault.Own := by
  simp only [Loop.parse] at failed
  split at failed
  · cases failed
    simp [Fault.Own]
  · split at failed
    · cases failed
      simp [Fault.Own]
    · simp at failed

theorem own_of_close {frame : Frame} {fault : Fault}
    (failed : frame.close = .error fault) : fault.Own := by
  cases frame with
  | block name body => simp [Frame.close] at failed
  | loop spec body => simp [Frame.close] at failed
  | conditional condition children =>
      simp only [Frame.close] at failed
      split at failed
      · simp at failed
      · cases failed
        simp [Fault.Own]

theorem bind_error_iff {ε α β : Type} {first : Except ε α} {second : α → Except ε β} {error : ε} :
    (first >>= second) = .error error ↔
      first = .error error ∨ ∃ mid, first = .ok mid ∧ second mid = .error error := by
  cases first <;> simp [bind, Except.bind]

namespace Assembly

/-- An error is a fault of the template that is built, or one of fetching a template that it refers
to. -/
def Blamed (fetch : String → Except Error Template) (template : String) (refers : String → Prop)
    (error : Error) : Prop :=
  (∃ fault : Fault, fault.Own ∧ error = .malformed template fault) ∨
    ∃ target, refers target ∧ fetch target = .error error

variable {fetch : String → Except Error Template} {template : String}

theorem blamed_of_own {refers : String → Prop} {α : Type} {result : Except Fault α}
    (own : ∀ fault, result = .error fault → fault.Own) {error : Error}
    (failed : blame template result = .error error) : Blamed fetch template refers error := by
  cases result with
  | ok value => simp [blame] at failed
  | error fault =>
      cases failed
      exact .inl ⟨fault, own fault rfl, rfl⟩

theorem own_of_divide {assembly : Assembly} {params : String} {fault : Fault}
    (failed : assembly.divide params = .error fault) : fault.Own := by
  simp only [divide] at failed
  split at failed
  · rcases bind_error_iff.1 failed with unreadable | ⟨guard, _, done⟩
    · exact own_of_parseGuard unreadable
    · cases done
  · cases failed
    simp [Fault.Own]

theorem own_of_closing {assembly : Assembly} {name : String} {fault : Fault}
    (failed : assembly.close name = .error fault) : fault.Own := by
  simp only [close] at failed
  split at failed
  · cases failed
    simp [Fault.Own]
  · split at failed
    · rcases bind_error_iff.1 failed with open_ | ⟨node, _, done⟩
      · exact own_of_close open_
      · cases done
    · cases failed
      simp [Fault.Own]

theorem missing_of_resolve {α : Type} {reference : Reference} {done : Target → α} {error : Error}
    (failed : (do return done (← resolve fetch reference) : Except Error α) = .error error) :
    ∃ target, reference = .quoted target ∧ fetch target = .error error := by
  cases reference with
  | bare path => exact nomatch failed
  | quoted name =>
      rcases bind_error_iff.1 failed with unresolved | ⟨_, _, done⟩
      · rcases bind_error_iff.1 unresolved with missing | ⟨_, _, done⟩
        · exact ⟨name, rfl, missing⟩
        · exact nomatch done
      · exact nomatch done

theorem blamed_of_openTag {assembly : Assembly} {params : String} {tag : Tag} {error : Error}
    (failed : openTag fetch template assembly params tag = .error error) :
    Blamed fetch template (tag.Quotes params) error := by
  cases tag with
  | block =>
      simp only [openTag] at failed
      refine blamed_of_own ?_ failed
      intro fault here
      split at here
      · cases here
        simp [Fault.Own]
      · split at here
        · cases here
          simp [Fault.Own]
        · simp at here
  | inheritance =>
      simp only [openTag] at failed
      split at failed
      · exact blamed_of_own (by simp [invalid, Fault.Own]) failed
      · rename_i reference parsed
        split at failed
        · obtain ⟨target, rfl, missing⟩ := missing_of_resolve failed
          exact .inr ⟨target, ⟨.inl rfl, parsed⟩, missing⟩
        · exact blamed_of_own (by simp [Fault.Own]) failed
  | inclusion =>
      simp only [openTag] at failed
      split at failed
      · exact blamed_of_own (by simp [invalid, Fault.Own]) failed
      · rename_i reference parsed
        obtain ⟨target, rfl, missing⟩ := missing_of_resolve failed
        exact .inr ⟨target, ⟨.inr rfl, parsed⟩, missing⟩
  | loop =>
      simp only [openTag] at failed
      refine blamed_of_own ?_ failed
      intro fault here
      cases parsed : Loop.parse params with
      | error fault' =>
          rw [parsed] at here
          cases here
          exact own_of_loop parsed
      | ok spec => simp [parsed, Except.map] at here
  | conditional =>
      simp only [openTag] at failed
      refine blamed_of_own ?_ failed
      intro fault here
      split at here
      · cases here
        simp [Fault.Own]
      · simp at here
  | otherwise => exact blamed_of_own (fun _ => own_of_divide) failed

theorem blamed_of_step {assembly : Assembly} {lexeme : Lexeme} {error : Error}
    (failed : step fetch template assembly lexeme = .error error) :
    Blamed fetch template (fun target => lexeme.quoted? = some target) error := by
  cases lexeme with
  | text text => exact nomatch failed
  | value path => exact nomatch failed
  | closing name => exact blamed_of_own (fun _ => own_of_closing) failed
  | opening name params =>
      simp only [step] at failed
      split at failed
      · exact blamed_of_own (by simp [Fault.Own]) failed
      · rename_i tag known
        rcases blamed_of_openTag failed with own | ⟨target, quotes, missing⟩
        · exact .inl own
        · exact .inr ⟨target, Lexeme.quoted?_of_quotes known quotes, missing⟩

theorem blamed_of_foldlM {lexemes : List Lexeme} {assembly : Assembly} {error : Error}
    (failed : lexemes.foldlM (step fetch template) assembly = .error error) :
    Blamed fetch template (fun target => ∃ lexeme ∈ lexemes, lexeme.quoted? = some target)
      error := by
  induction lexemes generalizing assembly with
  | nil => exact nomatch failed
  | cons lexeme rest ih =>
      rcases bind_error_iff.1 failed with here | ⟨next, _, later⟩
      · rcases blamed_of_step here with own | ⟨target, quotes, missing⟩
        · exact .inl own
        · exact .inr ⟨target, ⟨lexeme, List.mem_cons_self, quotes⟩, missing⟩
      · rcases ih later with own | ⟨target, ⟨other, member, quotes⟩, missing⟩
        · exact .inl own
        · exact .inr ⟨target, ⟨other, List.mem_cons_of_mem _ member, quotes⟩, missing⟩

end Assembly

/-- Building a template fails for a fault of its own, or with an error of fetching a template that
it refers to in quotes. -/
theorem assemble_error {fetch : String → Except Error Template} {template : String}
    {source : Source} {error : Error} (failed : assemble fetch template source = .error error) :
    (∃ fault : Fault, fault.Own ∧ error = .malformed template fault) ∨
      ∃ target ∈ source.quoted, fetch target = .error error := by
  rcases bind_error_iff.1 failed with folding | ⟨assembly, _, finishing⟩
  · rcases Assembly.blamed_of_foldlM folding with own | ⟨target, refers, missing⟩
    · exact .inl own
    · exact .inr ⟨target, Source.mem_quoted.2 refers, missing⟩
  · have nowhere : Assembly.Blamed fetch template (fun _ => False) error := by
      refine Assembly.blamed_of_own ?_ finishing
      intro fault here
      simp only [Assembly.finish] at here
      split at here
      · simp at here
      · cases here
        simp [Fault.Own]
    rcases nowhere with own | ⟨_, none, _⟩
    · exact .inl own
    · exact none.elim

end Quire
