/-
Module: Quire.Proofs.Congruence
Purpose: A relation that is kept by all that the builder does to open tags holds of what is built
  from the same lexemes, or building fails with the same error.
Main exports: Lexeme.quoted?, Source.quoted, Matches, Congruence, Assembly.Related,
  Congruence.openTag, Congruence.step, Congruence.foldlM, Congruence.assemble
-/
import Mathlib.Data.List.Forall2
import Quire.Proofs.Steps

/-!
The builder asks little of what it has put together: which tags are open, whether anything stands
before a tag that must come first, and in which order branches are divided. Where related assemblies
give the same answers they go on from every lexeme to related ones. So this needs to be shown of
nodes, rows of nodes and open tags only, and is carried through the builder once, for any relation.
-/

namespace Quire

/-! ### References in quotes -/

/-- A tag with its parameters refers to a template by its name in quotes. -/
def Tag.Quotes (tag : Tag) (params target : String) : Prop :=
  (tag = .inheritance ∨ tag = .inclusion) ∧ Reference.parse? params = some (.quoted target)

/-- The name in quotes by which a lexeme refers to a template. -/
def Lexeme.quoted? : Lexeme → Option String
  | .opening name params =>
      match Tag.named? name with
      | some .inheritance | some .inclusion =>
          match Reference.parse? (Text.trimmed params) with
          | some (.quoted target) => some target
          | _ => none
      | _ => none
  | .text _ | .value _ | .closing _ => none

/-- The names in quotes by which a source refers to templates, in order. -/
def Source.quoted (source : Source) : List String :=
  source.lexemes.filterMap Lexeme.quoted?

theorem Lexeme.quoted?_of_quotes {name params target : String} {tag : Tag}
    (known : Tag.named? name = some tag) (quotes : tag.Quotes (Text.trimmed params) target) :
    (Lexeme.opening name params).quoted? = some target := by
  obtain ⟨rfl | rfl, parsed⟩ := quotes <;> simp [quoted?, known, parsed]

theorem Lexeme.quotes_of_quoted? {name params target : String}
    (quotes : (Lexeme.opening name params).quoted? = some target) :
    ∃ tag, Tag.named? name = some tag ∧ tag.Quotes (Text.trimmed params) target := by
  simp only [quoted?] at quotes
  split at quotes
  · rename_i known
    split at quotes
    · rename_i parsed
      cases quotes
      exact ⟨.inheritance, known, .inl rfl, parsed⟩
    · simp at quotes
  · rename_i known
    split at quotes
    · rename_i parsed
      cases quotes
      exact ⟨.inclusion, known, .inr rfl, parsed⟩
    · simp at quotes
  · simp at quotes

theorem Source.mem_quoted {source : Source} {target : String} :
    target ∈ source.quoted ↔ ∃ lexeme ∈ source.lexemes, lexeme.quoted? = some target :=
  List.mem_filterMap

/-! ### Results that match -/

/-- Two results match: both fail with the same error, or both succeed with related values. -/
inductive Matches {ε α β : Type} (related : α → β → Prop) : Except ε α → Except ε β → Prop where
  | error (error : ε) : Matches related (.error error) (.error error)
  | ok {value : α} {other : β} (same : related value other) :
      Matches related (.ok value) (.ok other)

namespace Matches

variable {ε α β γ δ : Type} {related : α → β → Prop} {later : γ → δ → Prop}
variable {first : Except ε α} {second : Except ε β}

/-- Results have the same image if they fail in the same way, or succeed with values that have. -/
theorem iff_map_eq {f : α → γ} {g : β → γ} :
    Matches (fun value other => f value = g other) first second ↔ first.map f = second.map g := by
  constructor
  · rintro (_ | same)
    · rfl
    · exact congrArg Except.ok same
  · intro same
    cases first with
    | error error =>
        cases second with
        | error error' =>
            cases same
            exact .error error
        | ok other => cases same
    | ok value =>
        cases second with
        | error error => cases same
        | ok other => exact .ok (Except.ok.inj same)

theorem bind (matched : Matches related first second) {next : α → Except ε γ}
    {next' : β → Except ε δ}
    (rest : ∀ {value other}, related value other → Matches later (next value) (next' other)) :
    Matches later (first >>= next) (second >>= next') := by
  cases matched with
  | error error => exact .error error
  | ok same => exact rest same

theorem isOk_iff (matched : Matches related first second) :
    (∃ value, first = .ok value) ↔ ∃ other, second = .ok other := by
  cases matched with
  | error error => simp
  | ok same => simp

/-- Faults of the same template are the same errors. -/
theorem blame {first : Except Fault α} {second : Except Fault β}
    (matched : Matches related first second) (template : String) :
    Matches related (Assembly.blame template first) (Assembly.blame template second) := by
  cases matched with
  | error fault => exact .error _
  | ok same => exact .ok same

end Matches

/-! ### Relations that building keeps -/

/-- Relations of templates, nodes, rows of nodes and open tags that are kept wherever the builder
puts something behind something else, and that do not show in what it asks. -/
structure Congruence (fetched : Template → Template → Prop) (alike : Node → Node → Prop)
    (rows : List Node → List Node → Prop) (frames : Frame → Frame → Prop) : Prop where
  node : ∀ node, alike node node
  quoted : ∀ {template other}, fetched template other →
    alike (.inheritance (.quoted template)) (.inheritance (.quoted other)) ∧
      alike (.inclusion (.quoted template)) (.inclusion (.quoted other))
  nothing : rows [] []
  none_iff : ∀ {nodes others}, rows nodes others → (nodes = [] ↔ others = [])
  behind : ∀ {nodes others node other}, rows nodes others → alike node other →
    rows (nodes ++ [node]) (others ++ [other])
  frame : ∀ frame, frames frame frame
  tag : ∀ {frame other}, frames frame other → frame.tag = other.tag
  empty_iff : ∀ {frame other}, frames frame other → (frame.size = 0 ↔ other.size = 0)
  add : ∀ {frame other node node'}, frames frame other → alike node node' →
    frames (frame.add node) (other.add node')
  divide : ∀ {condition condition' children children'},
    frames (.conditional condition children) (.conditional condition' children') → ∀ guard,
      frames (.conditional condition (children ++ [.divider guard]))
        (.conditional condition' (children' ++ [.divider guard]))
  close : ∀ {frame other}, frames frame other → Matches alike frame.close other.close

/-- Assemblies with the same names taken, and with related tags open and related nodes outside
them. -/
structure Assembly.Related (rows : List Node → List Node → Prop) (frames : Frame → Frame → Prop)
    (assembly other : Assembly) : Prop where
  frames : List.Forall₂ frames assembly.frames other.frames
  roots : rows assembly.roots other.roots
  names : assembly.names = other.names

namespace Congruence

open Assembly (Related)

variable {fetched : Template → Template → Prop} {alike : Node → Node → Prop}
variable {rows : List Node → List Node → Prop} {frames : Frame → Frame → Prop}
variable {assembly other : Assembly}

theorem start (congruence : Congruence fetched alike rows frames) :
    Related rows frames .empty .empty :=
  ⟨.nil, congruence.nothing, rfl⟩

theorem siblings_iff (congruence : Congruence fetched alike rows frames)
    (related : Related rows frames assembly other) :
    assembly.siblings = 0 ↔ other.siblings = 0 := by
  obtain ⟨opened, roots, names⟩ := assembly
  obtain ⟨opened', roots', names'⟩ := other
  obtain ⟨here, sameRoots, _⟩ := related
  cases here with
  | nil => simpa [Assembly.siblings] using congruence.none_iff sameRoots
  | cons first _ => exact congruence.empty_iff first

theorem addNode (congruence : Congruence fetched alike rows frames)
    (related : Related rows frames assembly other) {node node' : Node} (same : alike node node') :
    Related rows frames (assembly.add node) (other.add node') := by
  obtain ⟨opened, roots, names⟩ := assembly
  obtain ⟨opened', roots', names'⟩ := other
  obtain ⟨here, sameRoots, sameNames⟩ := related
  cases here with
  | nil => exact ⟨.nil, congruence.behind sameRoots same, sameNames⟩
  | cons first outer => exact ⟨.cons (congruence.add first same) outer, sameRoots, sameNames⟩

theorem enter (congruence : Congruence fetched alike rows frames)
    (related : Related rows frames assembly other) (frame : Frame) :
    Related rows frames (assembly.enter frame) (other.enter frame) :=
  ⟨.cons (congruence.frame frame) related.frames, related.roots, related.names⟩

theorem divideInto (congruence : Congruence fetched alike rows frames)
    (related : Related rows frames assembly other) (params : String) :
    Matches (Related rows frames) (assembly.divide params) (other.divide params) := by
  obtain ⟨opened, roots, names⟩ := assembly
  obtain ⟨opened', roots', names'⟩ := other
  obtain ⟨here, sameRoots, sameNames⟩ := related
  cases here with
  | nil => exact .error _
  | @cons frame frame' _ _ first outer =>
      have tags := congruence.tag first
      cases frame <;> cases frame' <;> simp only [Frame.tag, reduceCtorEq] at tags
      case block.block | loop.loop => exact .error _
      case conditional.conditional =>
        simp only [Assembly.divide]
        cases parseGuard params with
        | error fault => exact .error fault
        | ok guard => exact .ok ⟨.cons (congruence.divide first guard) outer, sameRoots, sameNames⟩

theorem closeTag (congruence : Congruence fetched alike rows frames)
    (related : Related rows frames assembly other) (name : String) :
    Matches (Related rows frames) (assembly.close name) (other.close name) := by
  obtain ⟨opened, roots, names⟩ := assembly
  obtain ⟨opened', roots', names'⟩ := other
  obtain ⟨here, sameRoots, sameNames⟩ := related
  cases here with
  | nil => exact .error _
  | @cons frame frame' outer outer' first others =>
      have rest : Related rows frames ⟨outer, roots, names⟩ ⟨outer', roots', names'⟩ :=
        ⟨others, sameRoots, sameNames⟩
      simp only [Assembly.close, congruence.tag first]
      split
      · exact (congruence.close first).bind fun same => .ok (congruence.addNode rest same)
      · exact .error _

theorem finish (congruence : Congruence fetched alike rows frames)
    (related : Related rows frames assembly other) :
    Matches rows assembly.finish other.finish := by
  obtain ⟨opened, roots, names⟩ := assembly
  obtain ⟨opened', roots', names'⟩ := other
  obtain ⟨here, sameRoots, _⟩ := related
  cases here with
  | nil => exact .ok sameRoots
  | cons first _ =>
      simp only [Assembly.finish, congruence.tag first]
      exact .error _

section

variable {fetch fetch' : String → Except Error Template} (template : String)

/-- What is added for a reference is alike, if what it refers to in quotes is. -/
theorem refer (congruence : Congruence fetched alike rows frames)
    (related : Related rows frames assembly other) {reference : Reference}
    (fetches : ∀ target, reference = .quoted target →
      Matches fetched (fetch target) (fetch' target))
    {tag : Target → Node} (tags : tag = .inheritance ∨ tag = .inclusion) :
    Matches (Related rows frames)
      (do return assembly.add (tag (← Assembly.resolve fetch reference)))
      (do return other.add (tag (← Assembly.resolve fetch' reference))) := by
  cases reference with
  | bare path => exact .ok (congruence.addNode related (congruence.node _))
  | quoted name =>
      have resolved : Matches
          (fun target target' => alike (.inheritance target) (.inheritance target') ∧
            alike (.inclusion target) (.inclusion target'))
          (Assembly.resolve fetch (.quoted name)) (Assembly.resolve fetch' (.quoted name)) :=
        (fetches name rfl).bind fun same => .ok (congruence.quoted same)
      refine resolved.bind fun same => .ok (congruence.addNode related ?_)
      rcases tags with rfl | rfl
      · exact same.1
      · exact same.2

theorem openTag (congruence : Congruence fetched alike rows frames)
    (related : Related rows frames assembly other) {params : String} {tag : Tag}
    (fetches : ∀ target, tag.Quotes params target →
      Matches fetched (fetch target) (fetch' target)) :
    Matches (Related rows frames) (Assembly.openTag fetch template assembly params tag)
      (Assembly.openTag fetch' template other params tag) := by
  cases tag with
  | block =>
      simp only [Assembly.openTag, related.names]
      split
      · exact .error _
      · rename_i name _
        have entered := congruence.enter related (.block name [])
        split
        · exact .error _
        · exact .ok ⟨entered.frames, entered.roots, rfl⟩
  | inheritance =>
      simp only [Assembly.openTag]
      cases parsed : Reference.parse? params with
      | none => exact .error _
      | some reference =>
          have same := congruence.siblings_iff related
          by_cases first : other.siblings = 0
          · simp only [same.2 first, first, if_true]
            exact congruence.refer related
              (fun target quoted => fetches target ⟨.inl rfl, by rw [parsed, quoted]⟩) (.inl rfl)
          · simp only [mt same.1 first, first, if_false]
            exact .error _
  | inclusion =>
      simp only [Assembly.openTag]
      cases parsed : Reference.parse? params with
      | none => exact .error _
      | some reference =>
          exact congruence.refer related
            (fun target quoted => fetches target ⟨.inr rfl, by rw [parsed, quoted]⟩) (.inr rfl)
  | loop =>
      simp only [Assembly.openTag]
      cases Loop.parse params with
      | error fault => exact .error _
      | ok spec => exact .ok (congruence.enter related (.loop spec []))
  | conditional =>
      simp only [Assembly.openTag]
      cases Condition.parse? params with
      | none => exact .error _
      | some condition => exact .ok (congruence.enter related (.conditional condition []))
  | otherwise => exact (congruence.divideInto related params).blame template

/-- From related assemblies a lexeme leads to related ones, or fails with the same error. -/
theorem step (congruence : Congruence fetched alike rows frames)
    (related : Related rows frames assembly other) {lexeme : Lexeme}
    (fetches : ∀ target, lexeme.quoted? = some target →
      Matches fetched (fetch target) (fetch' target)) :
    Matches (Related rows frames) (Assembly.step fetch template assembly lexeme)
      (Assembly.step fetch' template other lexeme) := by
  cases lexeme with
  | text text => exact .ok (congruence.addNode related (congruence.node _))
  | value path => exact .ok (congruence.addNode related (congruence.node _))
  | closing name => exact (congruence.closeTag related name).blame template
  | opening name params =>
      simp only [Assembly.step]
      cases known : Tag.named? name with
      | none => exact .error _
      | some tag =>
          exact congruence.openTag template related fun target quotes =>
            fetches target (Lexeme.quoted?_of_quotes known quotes)

theorem foldlM (congruence : Congruence fetched alike rows frames) {lexemes : List Lexeme}
    (fetches : ∀ lexeme ∈ lexemes, ∀ target, lexeme.quoted? = some target →
      Matches fetched (fetch target) (fetch' target))
    (related : Related rows frames assembly other) :
    Matches (Related rows frames) (lexemes.foldlM (Assembly.step fetch template) assembly)
      (lexemes.foldlM (Assembly.step fetch' template) other) := by
  induction lexemes generalizing assembly other with
  | nil => exact .ok related
  | cons lexeme rest ih =>
      obtain ⟨here, there⟩ := List.forall_mem_cons.1 fetches
      simp only [List.foldlM_cons]
      exact (congruence.step template related here).bind (ih there)

/-- Once lexemes have led to related assemblies, related nodes are built. -/
theorem assemble (congruence : Congruence fetched alike rows frames) {source other : Source}
    (folded : Matches (Related rows frames)
      (source.lexemes.foldlM (Assembly.step fetch template) .empty)
      (other.lexemes.foldlM (Assembly.step fetch' template) .empty)) :
    Matches rows (Quire.assemble fetch template source) (Quire.assemble fetch' template other) :=
  folded.bind fun related => (congruence.finish related).blame template

end

end Congruence

end Quire
