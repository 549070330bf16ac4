/-
Module: Quire.Proofs.Chunks
Purpose: How text is cut does not matter to building: sources that differ in this alone fail with
  the same error, or are built to nodes that differ in this alone.
Main exports: Chunk, Chunk.merged, Chunk.merged_append, Rechunked, Node.merged, mergedAll,
  mergedAll_mergedAll, Child.branches_merged, congruence_merged, assemble_rechunked,
  Engine.Rechunked, Engine.load_rechunked, Engine.build_rechunked
-/
import Quire.Proofs.Building

/-!
A run of texts may be cut in many ways, and made one it is the same text. Nodes that are built from
such runs are more or fewer, so what is compared is their merged form, in which adjacent texts are
one, at any depth. A row of items determines its merged form together with that of the items that
are put behind it; so the builder, which only ever puts items behind others, goes on from one merged
form to another. It never asks how many items there are in a row but whether there is none, and a
run of texts, empty ones or not, is never cut into none.
-/

namespace Quire

/-! ### Rows with texts in them -/

/-- Items that stand in a row, some of which are texts. -/
class Chunk (α : Type) where
  text : String → α
  text? : α → Option String
  text?_eq_some_iff : ∀ {item : α} {content : String},
    text? item = some content ↔ item = text content

namespace Chunk

variable {α : Type} [Chunk α]

/-- An item in front of others. A text becomes one with a text that comes first among them. -/
def prepend (item : α) : List α → List α
  | [] => [item]
  | next :: rest =>
      match text? item, text? next with
      | some content, some more => text (content ++ more) :: rest
      | _, _ => item :: next :: rest

/-- Items in a row, with adjacent texts made one. -/
def merged (items : List α) : List α :=
  items.foldr prepend []

@[simp] theorem text?_text (content : String) : text? (text content : α) = some content :=
  text?_eq_some_iff.2 rfl

theorem prepend_ne_nil (item : α) (items : List α) : prepend item items ≠ [] := by
  fun_cases prepend item items <;> simp

/-- An item that is no text does not join any other. -/
theorem prepend_of_none {item : α} (other : text? item = none) (items : List α) :
    prepend item items = item :: items := by
  cases items with
  | nil => rfl
  | cons next rest => simp only [prepend, other]

theorem prepend_texts (content more : String) (rest : List α) :
    prepend (text content) (text more :: rest) = text (content ++ more) :: rest := by
  simp only [prepend, text?_text]

/-- Two texts in front of others join them as one text does. -/
theorem prepend_prepend (content more : String) (items : List α) :
    prepend (text content) (prepend (text more) items) =
      prepend (text (content ++ more)) items := by
  cases items with
  | nil => rw [prepend, prepend_texts, prepend]
  | cons next rest =>
      cases reads : text? next with
      | none => simp only [prepend, reads, text?_text]
      | some last =>
          obtain rfl := text?_eq_some_iff.1 reads
          rw [prepend_texts, prepend_texts, prepend_texts, String.append_assoc]

theorem foldr_prepend (item : α) (items rest : List α) :
    (prepend item items).foldr prepend rest = prepend item (items.foldr prepend rest) := by
  cases items with
  | nil => rfl
  | cons next later =>
      cases here : text? item with
      | none => rw [prepend_of_none here, List.foldr_cons]
      | some content =>
          cases there : text? next with
          | none => simp only [prepend, here, there, List.foldr_cons]
          | some more =>
              obtain rfl := text?_eq_some_iff.1 here
              obtain rfl := text?_eq_some_iff.1 there
              rw [prepend_texts, List.foldr_cons, List.foldr_cons, prepend_prepend]

@[simp] theorem merged_cons (item : α) (items : List α) :
    merged (item :: items) = prepend item (merged items) := rfl

theorem foldr_merged (items rest : List α) :
    (merged items).foldr prepend rest = items.foldr prepend rest := by
  induction items with
  | nil => rfl
  | cons item items ih => rw [merged_cons, foldr_prepend, ih, List.foldr_cons]

/-- The merged form of a row is all that matters to what is put behind it. -/
theorem merged_append (items more : List α) :
    merged (items ++ more) = (merged items).foldr prepend (merged more) := by
  rw [foldr_merged, merged, List.foldr_append, merged]

theorem merged_append_congr {items others more more' : List α}
    (same : merged items = merged others) (same' : merged more = merged more') :
    merged (items ++ more) = merged (others ++ more') := by
  rw [merged_append, merged_append, same, same']

theorem merged_eq_nil_iff {items : List α} : merged items = [] ↔ items = [] := by
  cases items with
  | nil => simp [merged]
  | cons item rest => simp [merged, prepend_ne_nil]

/-- A run of texts is one text, unless it is none. -/
theorem merged_texts {contents : List String} (some : contents ≠ []) :
    merged (contents.map (text (α := α))) = [text (String.join contents)] := by
  induction contents with
  | nil => exact absurd rfl some
  | cons content rest ih =>
      rw [List.map_cons, merged_cons, String.join_cons]
      by_cases none : rest = []
      · rw [none, List.map_nil, merged, List.foldr_nil, prepend, String.join_nil,
          String.append_empty]
      · rw [ih none, prepend_texts]

end Chunk

/-! ### Sources that differ in their chunks -/

/-- Lexemes that differ in nothing but how their texts are cut: a run of texts may stand in the
place of another one that says the same. Neither is without any text. -/
inductive Rechunked : List Lexeme → List Lexeme → Prop where
  | nil : Rechunked [] []
  | keep (lexeme : Lexeme) {rest others : List Lexeme} (later : Rechunked rest others) :
      Rechunked (lexeme :: rest) (lexeme :: others)
  | cut {chunks pieces : List String} {rest others : List Lexeme} (some : chunks ≠ [])
      (some' : pieces ≠ []) (same : String.join chunks = String.join pieces)
      (later : Rechunked rest others) :
      Rechunked (chunks.map .text ++ rest) (pieces.map .text ++ others)

/-- Sources that differ in nothing but how their texts are cut. -/
def Source.Rechunked (source other : Source) : Prop :=
  Quire.Rechunked source.lexemes other.lexemes

/-! ### Nodes with adjacent texts made one -/

instance : Chunk Node where
  text := .text
  text?
    | .text content => some content
    | _ => none
  text?_eq_some_iff := by
    intro node content
    cases node <;> simp

instance : Chunk Child where
  text content := .node (.text content)
  text?
    | .node node => Chunk.text? node
    | .divider _ => none
  text?_eq_some_iff := by
    intro child content
    cases child <;> simp [Chunk.text?_eq_some_iff, Chunk.text]

mutual

/-- A node with adjacent texts inside it made one. -/
def Node.merged : Node → Node
  | .text content => .text content
  | .value path => .value path
  | .block name body => .block name (mergedAll body)
  | .inheritance target => .inheritance target.merged
  | .inclusion target => .inclusion target.merged
  | .loop spec body => .loop spec (mergedAll body)
  | .conditional condition body branches =>
      .conditional condition (mergedAll body) (mergedBranches branches)
termination_by structural node => node

def Target.merged : Target → Target
  | .quoted ⟨path, nodes⟩ => .quoted ⟨path, mergedAll nodes⟩
  | .bare path => .bare path
termination_by structural target => target

/-- Nodes with adjacent texts made one, among them and inside them. -/
def mergedAll : List Node → List Node
  | [] => []
  | node :: rest => Chunk.prepend node.merged (mergedAll rest)
termination_by structural nodes => nodes

def mergedBranches : List Branch → List Branch
  | [] => []
  | ⟨guard, body⟩ :: rest => ⟨guard, mergedAll body⟩ :: mergedBranches rest
termination_by structural branches => branches

end

/-- A template with adjacent texts made one. -/
def Template.merged (template : Template) : Template :=
  ⟨template.path, mergedAll template.nodes⟩

theorem mergedAll_eq (nodes : List Node) :
    mergedAll nodes = Chunk.merged (nodes.map Node.merged) := by
  induction nodes with
  | nil => rfl
  | cons node rest ih => rw [mergedAll, ih, List.map_cons, Chunk.merged_cons]

theorem mergedAll_append_congr {nodes others more more' : List Node}
    (same : mergedAll nodes = mergedAll others) (same' : mergedAll more = mergedAll more') :
    mergedAll (nodes ++ more) = mergedAll (others ++ more') := by
  simp only [mergedAll_eq, List.map_append] at same same' ⊢
  exact Chunk.merged_append_congr same same'

theorem mergedAll_eq_nil_iff {nodes : List Node} : mergedAll nodes = [] ↔ nodes = [] := by
  rw [mergedAll_eq, Chunk.merged_eq_nil_iff, List.map_eq_nil_iff]

/-- Runs of texts that say the same have the same merged form. -/
theorem mergedAll_texts {contents : List String} (some : contents ≠ []) :
    mergedAll (contents.map .text) = [.text (String.join contents)] := by
  have same : (contents.map Node.text).map Node.merged = contents.map Chunk.text := by
    simp [Node.merged, Chunk.text]
  rw [mergedAll_eq, same, Chunk.merged_texts some]
  rfl

theorem mergedAll_prepend (node : Node) (nodes : List Node) :
    mergedAll (Chunk.prepend node nodes) = Chunk.prepend node.merged (mergedAll nodes) := by
  cases nodes with
  | nil => rfl
  | cons next rest =>
      cases node with
      | text content =>
          cases next with
          | text more => exact (Chunk.prepend_prepend content more (mergedAll rest)).symm
          | _ => rfl
      | _ => rfl

mutual

/-- What is merged already stays as it is. -/
theorem Node.merged_merged : ∀ node : Node, node.merged.merged = node.merged
  | .text _ | .value _ => rfl
  | .block name body => congrArg (Node.block name) (mergedAll_mergedAll body)
  | .inheritance target => congrArg Node.inheritance target.merged_merged
  | .inclusion target => congrArg Node.inclusion target.merged_merged
  | .loop spec body => congrArg (Node.loop spec) (mergedAll_mergedAll body)
  | .conditional condition body branches => by
      simp only [Node.merged, mergedAll_mergedAll body, mergedBranches_mergedBranches branches]
termination_by structural node => node

theorem Target.merged_merged : ∀ target : Target, target.merged.merged = target.merged
  | .quoted ⟨path, nodes⟩ => by simp only [Target.merged, mergedAll_mergedAll nodes]
  | .bare _ => rfl
termination_by structural target => target

theorem mergedAll_mergedAll : ∀ nodes : List Node, mergedAll (mergedAll nodes) = mergedAll nodes
  | [] => rfl
  | node :: rest => by
      rw [mergedAll, mergedAll_prepend, node.merged_merged, mergedAll_mergedAll rest]
termination_by structural nodes => nodes

theorem mergedBranches_mergedBranches : ∀ branches : List Branch,
    mergedBranches (mergedBranches branches) = mergedBranches branches
  | [] => rfl
  | ⟨guard, body⟩ :: rest => by
      rw [mergedBranches, mergedBranches, mergedAll_mergedAll body,
        mergedBranches_mergedBranches rest]
termination_by structural branches => branches

end

theorem guards_mergedBranches (branches : List Branch) :
    (mergedBranches branches).map Branch.guard = branches.map Branch.guard := by
  induction branches with
  | nil => rfl
  | cons branch rest ih =>
      obtain ⟨guard, body⟩ := branch
      rw [mergedBranches, List.map_cons, ih, List.map_cons]

/-! ### What stands inside open tags -/

def Child.merged : Child → Child
  | .node direct => .node direct.merged
  | .divider guard => .divider guard

/-- What stands directly inside a conditional, with adjacent texts made one. -/
def Child.mergedAll (children : List Child) : List Child :=
  Chunk.merged (children.map merged)

theorem Child.branches_prepend (direct : Node) (children : List Child) :
    branches (Chunk.prepend (.node direct) children) =
      (Chunk.prepend direct (branches children).1, (branches children).2) := by
  cases children with
  | nil => rfl
  | cons child rest =>
      cases child with
      | divider guard =>
          have apart : Chunk.prepend (.node direct) (.divider guard :: rest) =
              .node direct :: .divider guard :: rest := by
            cases reads : Chunk.text? direct <;> simp [Chunk.prepend, Chunk.text?]
          rw [apart]
          rfl
      | node next =>
          cases direct <;> cases next <;> rfl

/-- Dividing children into branches, it does not matter whether texts are made one before or
after. -/
theorem Child.branches_merged (children : List Child) :
    branches (mergedAll children) =
      (Quire.mergedAll (branches children).1, mergedBranches (branches children).2) := by
  induction children with
  | nil => rfl
  | cons child rest ih =>
      cases child with
      | node direct =>
          have first : mergedAll (.node direct :: rest) =
              Chunk.prepend (.node direct.merged) (mergedAll rest) := rfl
          rw [first, branches_prepend, ih]
          rfl
      | divider guard =>
          have apart : Chunk.prepend (.divider guard) (mergedAll rest) =
              .divider guard :: mergedAll rest := Chunk.prepend_of_none rfl _
          have first : mergedAll (.divider guard :: rest) =
              .divider guard :: mergedAll rest := apart
          rw [first, branches, ih]
          rfl

/-- Nodes directly inside a conditional are merged as nodes elsewhere. -/
theorem Child.mergedAll_map_node (nodes : List Node) :
    mergedAll (nodes.map .node) = (Quire.mergedAll nodes).map .node := by
  induction nodes with
  | nil => rfl
  | cons direct rest ih =>
      have first : mergedAll ((direct :: rest).map .node) =
          Chunk.prepend (.node direct.merged) (mergedAll (rest.map .node)) := rfl
      rw [first, ih, Quire.mergedAll]
      generalize Quire.mergedAll rest = nodes
      cases nodes with
      | nil => rfl
      | cons next later => cases direct.merged <;> cases next <;> rfl

theorem Child.mergedAll_append_congr {children others more more' : List Child}
    (same : mergedAll children = mergedAll others) (same' : mergedAll more = mergedAll more') :
    mergedAll (children ++ more) = mergedAll (others ++ more') := by
  simp only [mergedAll, List.map_append] at same same' ⊢
  exact Chunk.merged_append_congr same same'

namespace Frame

def merged : Frame → Frame
  | .block name body => .block name (mergedAll body)
  | .loop spec body => .loop spec (mergedAll body)
  | .conditional condition children => .conditional condition (Child.mergedAll children)

@[simp] theorem tag_merged (frame : Frame) : frame.merged.tag = frame.tag := by
  cases frame <;> rfl

/-- An open tag is closed to the same node, whether texts are made one before or after. -/
theorem close_merged (frame : Frame) : frame.merged.close = frame.close.map Node.merged := by
  cases frame with
  | block name body => rfl
  | loop spec body => rfl
  | conditional condition children =>
      have order := inOrder_congr (guards_mergedBranches (Child.branches children).2)
      simp only [merged, close, Child.branches_merged, order]
      split <;> rfl

theorem close_congr_merged {frame other : Frame} (same : frame.merged = other.merged) :
    Matches (fun node other => node.merged = other.merged) frame.close other.close := by
  rw [Matches.iff_map_eq, ← close_merged, ← close_merged, same]

theorem size_merged_eq_zero_iff (frame : Frame) : frame.merged.size = 0 ↔ frame.size = 0 := by
  cases frame with
  | block name body => simp [merged, size, mergedAll_eq_nil_iff]
  | loop spec body => simp [merged, size, mergedAll_eq_nil_iff]
  | conditional condition children =>
      simp [merged, size, Child.mergedAll, Chunk.merged_eq_nil_iff]

/-- Nodes as the last children of an open tag. -/
def extend (nodes : List Node) : Frame → Frame
  | .block name body => .block name (body ++ nodes)
  | .loop spec body => .loop spec (body ++ nodes)
  | .conditional condition children => .conditional condition (children ++ nodes.map .node)

theorem add_eq_extend (frame : Frame) (node : Node) : frame.add node = frame.extend [node] := by
  cases frame <;> rfl

theorem extend_congr_merged {frame other : Frame} (same : frame.merged = other.merged)
    {nodes nodes' : List Node} (same' : mergedAll nodes = mergedAll nodes') :
    (frame.extend nodes).merged = (other.extend nodes').merged := by
  cases frame <;> cases other <;> simp only [merged, reduceCtorEq] at same
  case block.block =>
    simp only [Frame.block.injEq] at same
    simp only [extend, merged, same.1, mergedAll_append_congr same.2 same']
  case loop.loop =>
    simp only [Frame.loop.injEq] at same
    simp only [extend, merged, same.1, mergedAll_append_congr same.2 same']
  case conditional.conditional =>
    simp only [Frame.conditional.injEq] at same
    have children := Child.mergedAll_map_node nodes
    rw [same', ← Child.mergedAll_map_node] at children
    simp only [extend, merged, same.1, Child.mergedAll_append_congr same.2 children]

end Frame

/-! ### One merged form, one way to go on -/

/-- The builder puts things behind others and asks whether there are any, and neither depends on how
texts are cut. -/
theorem congruence_merged : Congruence (fun template other => template.merged = other.merged)
    (fun node other => node.merged = other.merged)
    (fun nodes others => mergedAll nodes = mergedAll others)
    (fun frame other => frame.merged = other.merged) where
  node _ := rfl
  quoted {template other} same := by
    obtain ⟨path, nodes⟩ := template
    obtain ⟨path', nodes'⟩ := other
    simp only [Template.merged, Template.mk.injEq] at same
    simp only [Node.merged, Target.merged, same, and_self]
  nothing := rfl
  none_iff same := by rw [← mergedAll_eq_nil_iff, same, mergedAll_eq_nil_iff]
  behind same same' := mergedAll_append_congr same (by simp only [mergedAll, same'])
  frame _ := rfl
  tag {frame other} same := by rw [← frame.tag_merged, same, other.tag_merged]
  empty_iff {frame other} same := by
    rw [← frame.size_merged_eq_zero_iff, same, other.size_merged_eq_zero_iff]
  add {frame other _ _} same same' := by
    rw [frame.add_eq_extend, other.add_eq_extend]
    exact Frame.extend_congr_merged same (by simp only [mergedAll, same'])
  divide same guard := by
    simp only [Frame.merged, Frame.conditional.injEq] at same ⊢
    exact ⟨same.1, Child.mergedAll_append_congr same.2 rfl⟩
  close := Frame.close_congr_merged

namespace Assembly

/-- Assemblies of one merged form. -/
abbrev SameMerged : Assembly → Assembly → Prop :=
  Related (fun nodes others => mergedAll nodes = mergedAll others)
    (fun frame other => frame.merged = other.merged)

variable {assembly other : Assembly}

/-- Finished nodes inside the innermost open tag, or at the root. -/
def extend (assembly : Assembly) (nodes : List Node) : Assembly :=
  match assembly.frames with
  | [] => { assembly with roots := assembly.roots ++ nodes }
  | frame :: outer => { assembly with frames := frame.extend nodes :: outer }

theorem add_eq_extend (assembly : Assembly) (node : Node) :
    assembly.add node = assembly.extend [node] := by
  obtain ⟨frames, roots, names⟩ := assembly
  cases frames with
  | nil => rfl
  | cons frame outer => simp only [add, extend, frame.add_eq_extend]

theorem extend_extend (assembly : Assembly) (nodes more : List Node) :
    (assembly.extend nodes).extend more = assembly.extend (nodes ++ more) := by
  obtain ⟨frames, roots, names⟩ := assembly
  cases frames with
  | nil => simp [extend]
  | cons frame outer => cases frame <;> simp [extend, Frame.extend]

theorem extend_nil (assembly : Assembly) : assembly.extend [] = assembly := by
  obtain ⟨frames, roots, names⟩ := assembly
  cases frames with
  | nil => simp [extend]
  | cons frame outer => cases frame <;> simp [extend, Frame.extend]

theorem SameMerged.extend (same : SameMerged assembly other) {nodes nodes' : List Node}
    (same' : mergedAll nodes = mergedAll nodes') :
    SameMerged (assembly.extend nodes) (other.extend nodes') := by
  obtain ⟨frames, roots, names⟩ := assembly
  obtain ⟨frames', roots', names'⟩ := other
  obtain ⟨here, sameRoots, sameNames⟩ := same
  cases here with
  | nil => exact ⟨.nil, mergedAll_append_congr sameRoots same', sameNames⟩
  | cons first outer =>
      exact ⟨.cons (Frame.extend_congr_merged first same') outer, sameRoots, sameNames⟩

/-- What is fetched either way is the same but for its chunks. -/
def FetchRechunked (fetch fetch' : String → Except Error Template) : Prop :=
  ∀ name, Matches (fun template other => template.merged = other.merged) (fetch name) (fetch' name)

section

variable {fetch fetch' : String → Except Error Template} (template : String)

/-- Texts are taken one by one, whatever has been put together. -/
theorem foldlM_texts (assembly : Assembly) (contents : List String) :
    (contents.map Lexeme.text).foldlM (step fetch template) assembly =
      .ok (assembly.extend (contents.map .text)) := by
  induction contents generalizing assembly with
  | nil => rw [List.map_nil, List.foldlM_nil, List.map_nil, extend_nil]; rfl
  | cons content rest ih =>
      simp only [List.map_cons, List.foldlM_cons, step, bind, Except.bind, ih, add_eq_extend,
        extend_extend, List.singleton_append]

/-- From one merged form, lexemes that differ in their chunks alone lead to one merged form. -/
theorem foldlM_rechunked (fetches : FetchRechunked fetch fetch') {lexemes others : List Lexeme}
    (chunks : Rechunked lexemes others) (same : SameMerged assembly other) :
    Matches SameMerged (lexemes.foldlM (step fetch template) assembly)
      (others.foldlM (step fetch' template) other) := by
  induction chunks generalizing assembly other with
  | nil => exact .ok same
  | keep lexeme _ ih =>
      simp only [List.foldlM_cons]
      exact (congruence_merged.step template same fun target _ => fetches target).bind ih
  | cut some some' joined _ ih =>
      simp only [List.foldlM_append, foldlM_texts]
      apply ih
      apply same.extend
      rw [mergedAll_texts some, mergedAll_texts some', joined]

end

end Assembly

/-- Sources that differ in their chunks alone fail to be built with the same error, or are built to
nodes of one merged form. -/
theorem assemble_rechunked {fetch fetch' : String → Except Error Template}
    (fetches : Assembly.FetchRechunked fetch fetch') (template : String) {source other : Source}
    (chunks : source.Rechunked other) :
    Matches (fun nodes others => mergedAll nodes = mergedAll others)
      (assemble fetch template source) (assemble fetch' template other) :=
  congruence_merged.assemble template
    (Assembly.foldlM_rechunked template fetches chunks congruence_merged.start)

/-! ### Engines -/

/-- Engines of the same settings, which know sources of the same names that differ in nothing but
how their texts are cut. -/
structure Engine.Rechunked (engine other : Engine) : Prop where
  config : engine.config = other.config
  openings : engine.openings = other.openings
  sources : ∀ name, Option.Rel Source.Rechunked (engine.source name) (other.source name)

namespace Engine

variable {engine other : Engine}

theorem loadWithin_rechunked (chunks : engine.Rechunked other) (room : Nat) (chain : List String) :
    Assembly.FetchRechunked (engine.loadWithin room chain) (other.loadWithin room chain) := by
  induction room generalizing chain with
  | zero =>
      intro name
      simp only [loadWithin, chunks.config]
      split <;> exact .error _
  | succ room ih =>
      intro name
      have known := chunks.sources name
      simp only [loadWithin]
      split
      · exact .error _
      · generalize engine.source name = source at known ⊢
        generalize other.source name = source' at known ⊢
        cases known with
        | none => exact .error _
        | some chunks =>
            exact (assemble_rechunked (ih (chain ++ [name])) name chunks).bind fun same =>
              .ok (congrArg (Template.mk name) same)

/-- Templates that are loaded have one merged form, or loading them fails with the same error. -/
theorem load_rechunked (chunks : engine.Rechunked other) (name : String) :
    Matches (fun template other => template.merged = other.merged) (engine.load name)
      (other.load name) := by
  simp only [load, chunks.config]
  exact loadWithin_rechunked chunks _ [] name

theorem build_rechunked (chunks : engine.Rechunked other) (name : String) {source source' : Source}
    (same : source.Rechunked source') :
    Matches (fun template other => template.merged = other.merged) (engine.build name source)
      (other.build name source') := by
  have fetches := loadWithin_rechunked chunks (other.config.maxDepth - 1) [name]
  simp only [build, chunks.config]
  exact (assemble_rechunked fetches name same).bind fun same =>
    .ok (congrArg (Template.mk name) same)

end Engine

end Quire
