/-
Module: Quire.Proofs.Branches
Purpose: How the branches of a conditional are told apart: by their conditions as they are written,
  and by the spans of children that lie between the dividers.
Main exports: branchText_trim, else_if_as_if, Span, spansOf, Misplaced, Partition, Chooses,
  conditional_divides
-/
import Mathlib.Data.List.ModifyLast
import Quire.Proofs.Bracketing
import Quire.Proofs.Conditions
import Quire.Rendering

/-!
A divider states its condition as the conditional itself does, behind a word `if` that may be left
out. The children of a conditional are divided in one scan, which knows of every branch only where
it starts and where it ends. The nodes that are built keep the branches apart instead. Both are the
same division, so what the scan says of positions holds of the branches that are rendered.
-/

namespace Quire

/-! ### The condition of a branch -/

section

variable {gap cs : List Char}

/-- The word `if` and the blanks behind it are taken off what a branch states. -/
theorem branchText_trim (blanks : Text.Blanks gap) (some : gap ≠ []) (stated : ¬ Text.Blanks cs) :
    Text.trim ('i' :: 'f' :: (gap ++ cs)) ≠ [] ∧
      branchText (Text.trim ('i' :: 'f' :: (gap ++ cs))) = Text.trim cs := by
  obtain ⟨before, after, leading, trailing, split⟩ := Text.exists_padded cs
  have rest : Text.trim cs ≠ [] := fun empty => stated (Text.trim_eq_nil_iff.1 empty)
  have whole : 'i' :: 'f' :: (gap ++ cs) =
      [] ++ ('i' :: 'f' :: (gap ++ before ++ Text.trim cs)) ++ after := by
    conv_lhs => rw [split]
    simp
  have right : Text.FlushRight ('i' :: 'f' :: (gap ++ before ++ Text.trim cs)) := by
    have last := (Text.flushRight_trim cs).prepend rest ('i' :: 'f' :: (gap ++ before))
    simpa using last
  have left : Text.FlushLeft ('i' :: 'f' :: (gap ++ before ++ Text.trim cs)) := by
    rintro _ ⟨⟩
    rfl
  have trimmed := Text.trim_padded Text.blanks_nil trailing left right
  rw [whole, trimmed]
  refine ⟨List.cons_ne_nil _ _, ?_⟩
  cases gap with
  | nil => exact absurd rfl some
  | cons c gap =>
      obtain ⟨blank, others⟩ := List.forall_mem_cons.1 blanks
      simp only [List.cons_append, branchText, blank, if_true, List.append_assoc]
      rw [Text.trimStart_append others, Text.trimStart_append leading,
        Text.trimStart_of_flushLeft (Text.flushLeft_trim cs)]

/-- Of the word `if` with nothing but blanks behind it there remains the word. -/
theorem trim_if_of_blanks (blanks : Text.Blanks cs) :
    Text.trim ('i' :: 'f' :: cs) = ['i', 'f'] := by
  have left : Text.FlushLeft ['i', 'f'] := by
    rintro _ ⟨⟩
    rfl
  have right : Text.FlushRight ['i', 'f'] := by
    rintro _ ⟨⟩
    rfl
  exact Text.trim_padded Text.blanks_nil blanks left right

end

/-- Parameters that are not blank state a condition, or they have no guard's form. -/
theorem parseGuard_of_ne_nil {params : String} (more : Text.trim params.toList ≠ []) :
    parseGuard params =
      match Condition.parse? (String.ofList (branchText (Text.trim params.toList))) with
      | some condition => .ok (some condition)
      | none => .error (.invalidParams "else if"
          (String.ofList (branchText (Text.trim params.toList)))) := by
  cases chars : Text.trim params.toList with
  | nil => exact absurd chars more
  | cons c cs =>
      cases stated : Condition.parse? (String.ofList (branchText (c :: cs))) <;>
        simp only [parseGuard, chars, stated]

/-- Behind the word `if` a branch states the condition that a conditional states without it. -/
theorem parseGuard_else_if {gap stated : String} (blanks : Text.Blanks gap.toList)
    (apart : gap ≠ "") (filled : ¬ Text.Blanks stated.toList) :
    parseGuard (Text.trimmed ("if" ++ gap ++ stated)) =
      match Condition.parse? (Text.trimmed stated) with
      | some condition => .ok (some condition)
      | none => .error (.invalidParams "else if" (Text.trimmed stated)) := by
  have chars : (Text.trimmed ("if" ++ gap ++ stated)).toList =
      Text.trim ('i' :: 'f' :: (gap.toList ++ stated.toList)) := by
    simp [Text.trimmed]
  obtain ⟨more, text⟩ := branchText_trim blanks (by simpa using apart) filled
  have left : Text.trim (Text.trimmed ("if" ++ gap ++ stated)).toList ≠ [] := by
    rwa [chars, Text.trim_trim]
  have plain : String.ofList (Text.trim stated.toList) = Text.trimmed stated := rfl
  rw [parseGuard_of_ne_nil left, chars, Text.trim_trim, text, plain]

/-- Where no condition follows, the word `if` is itself the condition of a branch. -/
theorem parseGuard_bare_if {gap stated : String} (blanks : Text.Blanks gap.toList)
    (empty : Text.Blanks stated.toList) :
    parseGuard (Text.trimmed ("if" ++ gap ++ stated)) = .ok (some ⟨.path "if", none⟩) := by
  have chars : Text.trimmed ("if" ++ gap ++ stated) = "if" := by
    have trimmed := trim_if_of_blanks (blanks.append empty)
    simp [Text.trimmed, trimmed]
  rw [chars]
  decide +kernel

namespace Assembly

variable {fetch : String → Except Error Template} {template : String}

/-- A conditional is entered exactly if its parameters state a condition. -/
theorem step_if (assembly : Assembly) (stated : String) :
    assembly.step fetch template (.opening "if" stated) =
      match Condition.parse? (Text.trimmed stated) with
      | some condition => .ok (assembly.enter (.conditional condition []))
      | none => .error (.malformed template (.invalidParams "if" (Text.trimmed stated))) := by
  have known : Tag.named? "if" = some .conditional := rfl
  simp only [step, known, openTag]
  cases Condition.parse? (Text.trimmed stated) <;> rfl

/-- A divider directly inside a conditional is taken exactly if its parameters state a guard. -/
theorem step_else {assembly : Assembly} {condition : Condition} {children : List Child}
    {outer : List Frame} (inside : assembly.frames = .conditional condition children :: outer)
    (stated : String) :
    assembly.step fetch template (.opening "else" stated) =
      match parseGuard (Text.trimmed stated) with
      | .ok guard => .ok { assembly with
          frames := .conditional condition (children ++ [.divider guard]) :: outer }
      | .error fault => .error (.malformed template fault) := by
  have known : Tag.named? "else" = some .otherwise := rfl
  simp only [step, known, openTag, divide, inside]
  cases parseGuard (Text.trimmed stated) <;> rfl

end Assembly

/-- A divider that begins with the word `if` and goes on with a condition is taken exactly if a
conditional with this condition would be, and states the same condition. With nothing but blanks
behind the word the two differ: a conditional needs a condition, but a divider takes the word for
the path of a variable. -/
theorem else_if_as_if (fetch : String → Except Error Template) (template : String)
    {assembly : Assembly} (other : Assembly) {condition : Condition} {children : List Child}
    {outer : List Frame} (inside : assembly.frames = .conditional condition children :: outer)
    {gap : String} (blanks : Text.Blanks gap.toList) (apart : gap ≠ "") (stated : String) :
    let branch := assembly.step fetch template (.opening "else" ("if" ++ gap ++ stated))
    let alone := other.step fetch template (.opening "if" stated)
    (¬ Text.Blanks stated.toList →
      (∃ further, alone = .ok (other.enter (.conditional further [])) ∧
        branch = .ok { assembly with
          frames := .conditional condition (children ++ [.divider (some further)]) :: outer }) ∨
      (alone = .error (.malformed template (.invalidParams "if" (Text.trimmed stated))) ∧
        branch = .error
          (.malformed template (.invalidParams "else if" (Text.trimmed stated))))) ∧
    (Text.Blanks stated.toList →
      alone = .error (.malformed template (.invalidParams "if" "")) ∧
        branch = .ok { assembly with
          frames := .conditional condition
            (children ++ [.divider (some ⟨.path "if", none⟩)]) :: outer }) := by
  intro branch alone
  constructor
  · intro filled
    simp only [branch, alone, Assembly.step_if, Assembly.step_else inside,
      parseGuard_else_if blanks apart filled]
    cases Condition.parse? (Text.trimmed stated) with
    | some further => exact .inl ⟨further, rfl, rfl⟩
    | none => exact .inr ⟨rfl, rfl⟩
  · intro empty
    have trimmed : Text.trimmed stated = "" := by
      simp [Text.trimmed, Text.trim_eq_nil_iff.2 empty]
    have unread : Condition.parse? "" = none := rfl
    simp only [branch, alone, Assembly.step_if, Assembly.step_else inside,
      parseGuard_bare_if blanks empty, trimmed, unread, and_self]

/-- An assembly with a conditional open. -/
def openConditional : Assembly := ⟨[.conditional ⟨.path "a", none⟩ []], [], []⟩

/-- An engine's way of fetching templates where there are none. -/
def fetchNothing (name : String) : Except Error Template := .error (.missingTemplate name)

/-- In the condition of this divider the word `if` comes twice, the second time as a variable. -/
theorem else_if_if_as_if :
    openConditional.step fetchNothing "page" (.opening "else" ("if" ++ "\t " ++ " if == 3")) =
      .ok ⟨[.conditional ⟨.path "a", none⟩ [.divider (some
        ⟨.path "if", some (.equal, .number (.ofNat 3))⟩)]], [], []⟩ := by
  have parsed : Condition.parse? (Text.trimmed " if == 3") =
      some ⟨.path "if", some (.equal, .number (.ofNat 3))⟩ := by decide +kernel
  have blanks : Text.Blanks "\t ".toList := by decide
  have inside : openConditional.frames = [.conditional ⟨.path "a", none⟩ []] := rfl
  have same := (else_if_as_if fetchNothing "page" .empty inside blanks (by decide) " if == 3").1
    (by decide)
  simp only [Assembly.step_if, parsed] at same
  obtain ⟨further, entered, taken⟩ | ⟨failed, _⟩ := same
  · cases entered
    exact taken
  · exact nomatch failed

/-- A divider is taken with nothing behind its word `if`, which no conditional would take. -/
theorem bare_else_if_taken :
    (∃ next, openConditional.step fetchNothing "page" (.opening "else" ("if" ++ " " ++ "")) =
      .ok next) ∧
    ¬ ∃ next, openConditional.step fetchNothing "page" (.opening "if" "") = .ok next := by
  have unread : Condition.parse? (Text.trimmed "") = none := rfl
  have blanks : Text.Blanks " ".toList := by decide
  have empty : Text.Blanks "".toList := Text.blanks_nil
  have inside : openConditional.frames = [.conditional ⟨.path "a", none⟩ []] := rfl
  constructor
  · rw [Assembly.step_else inside, parseGuard_bare_if blanks empty]
    exact ⟨_, rfl⟩
  · rintro ⟨next, entered⟩
    rw [Assembly.step_if, unread] at entered
    exact nomatch entered

/-! ### The division of the children

A branch is known by its condition and by the positions between which its children stand. One scan
finds all of them: what is known of the last branch is put right whenever another divider comes.
-/

/-- A branch by the positions of its children: from where it starts up to where it stops. -/
structure Span where
  guard : Option Condition
  start : Nat
  stop : Nat
deriving DecidableEq, Repr

/-- The spans after further children, the next of which stands at the given position. A divider
stops the last span, and behind it starts one that goes on to the end until another divider comes.
None may come after one that has no condition, which is said by `plain`. -/
def scanSpans (length : Nat) (spans : List Span) (plain : Bool) (position : Nat) :
    List Child → Except Fault (List Span)
  | [] => .ok spans
  | .node _ :: rest => scanSpans length spans plain (position + 1) rest
  | .divider guard :: rest =>
      if plain then .error .branchAfterElse
      else
        let stopped := spans.modifyLast fun span => { span with stop := position }
        scanSpans length (stopped ++ [⟨guard, position + 1, length⟩]) guard.isNone (position + 1)
          rest

/-- The spans of a conditional with the given children. -/
def spansOf (condition : Condition) (children : List Child) : Except Fault (List Span) :=
  scanSpans children.length [⟨some condition, 0, children.length⟩] false 0 children

/-- In how many spans a child belongs. -/
def Child.share : Child → Nat
  | .node _ => 1
  | .divider _ => 0

/-- A divider comes after one that has no condition. -/
def Misplaced (children : List Child) : Prop :=
  ∃ before between after guard,
    children = before ++ .divider none :: (between ++ .divider guard :: after)

namespace Span

/-- The child at a position belongs to a span. -/
def covers (span : Span) (position : Nat) : Bool :=
  span.start ≤ position && position < span.stop

/-- The children from the start of a span up to its stop. -/
def slice (span : Span) (children : List Child) : List Child :=
  (children.take span.stop).drop span.start

/-- The nodes among children. -/
def nodesOf (children : List Child) : List Node :=
  children.filterMap fun
    | .node node => some node
    | .divider _ => none

/-- The span as a branch with the nodes in it. -/
def branch (children : List Child) (span : Span) : Branch :=
  ⟨span.guard, nodesOf (span.slice children)⟩

end Span

/-- The spans of a conditional divide its children. -/
structure Partition (condition : Condition) (children : List Child) (spans : List Span) :
    Prop where
  /-- There is a first span, which has the condition of the conditional and starts at the front. -/
  first : ∃ stop rest, spans = ⟨some condition, 0, stop⟩ :: rest
  /-- The last span stops at the end. -/
  last : ∃ early guard start, spans = early ++ [⟨guard, start, children.length⟩]
  /-- Between a span and the next there stands the divider that has the next one's condition. -/
  next : spans.IsChain fun span following =>
    children[span.stop]? = some (.divider following.guard) ∧ following.start = span.stop + 1
  /-- The span stays among the children. -/
  within : ∀ span ∈ spans, span.start ≤ span.stop ∧ span.stop ≤ children.length
  /-- Only the last span may have no condition. -/
  guarded : ∀ span ∈ spans.dropLast, span.guard ≠ none
  /-- A node belongs to exactly one span, and a divider to none. -/
  once : ∀ position child, children[position]? = some child →
    spans.countP (·.covers position) = child.share
  /-- A span holds nodes only. -/
  nodes : ∀ span ∈ spans, span.slice children = (Span.nodesOf (span.slice children)).map .node

/-- Which of the spans is rendered in a context: the first that has no condition or whose condition
holds, and no span if none is like this. -/
inductive Chooses (context : Context) : List Span → Option Span → Prop where
  | here {span : Span} {rest : List Span}
      (holds : ∀ guard, span.guard = some guard → guard.holds context = true) :
      Chooses context (span :: rest) (some span)
  | later {span : Span} {rest : List Span} {chosen : Option Span} {guard : Condition}
      (guarded : span.guard = some guard) (fails : guard.holds context = false)
      (more : Chooses context rest chosen) : Chooses context (span :: rest) chosen
  | none : Chooses context [] none

/-! ### Branches laid out as children -/

namespace Child

/-- A body and further branches as children: each branch behind the divider that starts it. -/
def joined (body : List Node) : List Branch → List Child
  | [] => body.map .node
  | ⟨guard, inner⟩ :: rest => body.map .node ++ .divider guard :: joined inner rest

/-- The branches of children, laid out again, are the children. -/
theorem joined_branches (children : List Child) :
    joined (branches children).1 (branches children).2 = children := by
  induction children with
  | nil => rfl
  | cons child rest ih =>
      cases child with
      | divider guard => simp [branches, joined, ih]
      | node node =>
          cases others : (branches rest).2 with
          | nil => simpa [branches, joined, others] using ih
          | cons branch more =>
              obtain ⟨guard, inner⟩ := branch
              simpa [branches, joined, others] using ih

section

variable (front : List Child) (body : List Node) (next : Option Condition)

/-- What stands in front of a branch: the children before, the body of the branch before and the
divider that starts the branch. -/
def ahead : List Child :=
  front ++ (body.map node ++ [divider next])

theorem length_ahead : (ahead front body next).length = front.length + body.length + 1 := by
  simp [ahead, Nat.add_assoc]

theorem ahead_append_joined (inner : List Node) (rest : List Branch) :
    ahead front body next ++ joined inner rest = front ++ joined body (⟨next, inner⟩ :: rest) := by
  simp [ahead, joined]

end

end Child

namespace Span

/-- The spans of a body and further branches that are laid out from a position on. -/
def laid (start : Nat) (guard : Option Condition) (body : List Node) : List Branch → List Span
  | [] => [⟨guard, start, start + body.length⟩]
  | ⟨next, inner⟩ :: rest =>
      ⟨guard, start, start + body.length⟩ :: laid (start + body.length + 1) next inner rest

end Span

/-! ### The scan finds the branches -/

theorem scanSpans_nodes (length : Nat) (spans : List Span) (plain : Bool) (position : Nat)
    (nodes : List Node) (rest : List Child) :
    scanSpans length spans plain position (nodes.map .node ++ rest) =
      scanSpans length spans plain (position + nodes.length) rest := by
  induction nodes generalizing position with
  | nil => rfl
  | cons node nodes ih =>
      rw [List.map_cons, List.cons_append, scanSpans, ih, List.length_cons]
      congr 1
      omega

/-- From where a span starts the scan finds the span and those behind it, unless their dividers are
out of order. -/
theorem scanSpans_joined (length : Nat) (early : List Span) (guard : Option Condition)
    (body : List Node) (branches : List Branch) (start : Nat)
    (ends : start + (Child.joined body branches).length = length) :
    scanSpans length (early ++ [⟨guard, start, length⟩]) guard.isNone start
        (Child.joined body branches) =
      if inOrder (⟨guard, body⟩ :: branches) then .ok (early ++ Span.laid start guard body branches)
      else .error .branchAfterElse := by
  induction branches generalizing early guard body start with
  | nil =>
      have nodes := scanSpans_nodes length (early ++ [⟨guard, start, length⟩]) guard.isNone start
        body []
      rw [List.append_nil] at nodes
      have stop : start + body.length = length := by simpa [Child.joined] using ends
      simp [Child.joined, nodes, scanSpans, inOrder, Span.laid, stop]
  | cons branch rest ih =>
      obtain ⟨next, inner⟩ := branch
      rw [Child.joined, scanSpans_nodes, scanSpans]
      cases guard with
      | none => simp [inOrder]
      | some condition =>
          have behind : start + body.length + 1 + (Child.joined inner rest).length = length := by
            simp only [Child.joined, List.length_append, List.length_map, List.length_cons] at ends
            omega
          have further := ih (early ++ [⟨some condition, start, start + body.length⟩]) next inner
            (start + body.length + 1) behind
          simp only [List.append_assoc, List.cons_append, List.nil_append] at further
          simp only [Option.isNone_some, Bool.false_eq_true, if_false, List.modifyLast_concat,
            List.append_assoc, List.cons_append, List.nil_append, further, inOrder,
            Option.isSome_some, Bool.true_and, Span.laid]

/-- The scan of the children of a conditional finds the branches that are built from them, and it
fails when those are out of order. -/
theorem spansOf_eq (condition : Condition) (children : List Child) :
    spansOf condition children =
      if inOrder (Child.branches children).2 then
        .ok (Span.laid 0 (some condition) (Child.branches children).1 (Child.branches children).2)
      else .error .branchAfterElse := by
  have scanned := scanSpans_joined children.length [] (some condition)
    (Child.branches children).1 (Child.branches children).2 0
    (by rw [Child.joined_branches, Nat.zero_add])
  rw [Child.joined_branches] at scanned
  have order : inOrder (⟨some condition, (Child.branches children).1⟩ ::
      (Child.branches children).2) = inOrder (Child.branches children).2 := by
    cases (Child.branches children).2 <;> rfl
  rw [order] at scanned
  exact scanned

/-- A span is empty between dividers that stand side by side, and behind one that comes last. -/
example (condition other : Condition) (node : Node) :
    spansOf condition [.node node, .divider (some other), .divider (some other), .node node,
        .divider none] =
      .ok [⟨some condition, 0, 1⟩, ⟨some other, 2, 2⟩, ⟨some other, 3, 4⟩, ⟨none, 5, 5⟩] := rfl

/-! ### What is misplaced -/

theorem misplaced_cons {child : Child} {rest : List Child} :
    Misplaced (child :: rest) ↔
      (child = .divider none ∧ ∃ guard, .divider guard ∈ rest) ∨ Misplaced rest := by
  constructor
  · rintro ⟨before, between, after, guard, split⟩
    cases before with
    | nil =>
        obtain ⟨rfl, rfl⟩ := List.cons.inj split
        exact .inl ⟨rfl, guard, by simp⟩
    | cons head before =>
        obtain ⟨_, rfl⟩ := List.cons.inj split
        exact .inr ⟨before, between, after, guard, rfl⟩
  · rintro (⟨rfl, guard, member⟩ | ⟨before, between, after, guard, rfl⟩)
    · obtain ⟨between, after, rfl⟩ := List.append_of_mem member
      exact ⟨[], between, after, guard, rfl⟩
    · exact ⟨child :: before, between, after, guard, rfl⟩

/-- A child is a divider exactly if its tree is. -/
theorem Child.tag?_tree_eq_otherwise_iff {child : Child} :
    child.tree.tag? = some .otherwise ↔ ∃ guard, child = .divider guard := by
  cases child with
  | node direct => simp [Child.tree, direct.tag?_tree]
  | divider guard => simp [Child.tree, Tree.tag?, Mark.tag]

/-- The branches of children are in order exactly if no divider is misplaced. -/
theorem Child.inOrder_iff_not_misplaced (children : List Child) :
    inOrder (branches children).2 = true ↔ ¬ Misplaced children := by
  rw [Child.inOrder_branches]
  induction children with
  | nil => simp [inOrder_nil, Misplaced]
  | cons child rest ih =>
      rw [List.map_cons, inOrder_cons, ih, misplaced_cons]
      cases child with
      | node direct =>
          have other : ∀ below, direct.tree ≠ .tag (.otherwise none) below := by
            intro below same
            exact direct.tag?_tree (by rw [same]; rfl)
          simp [Child.tree, other]
      | divider guard =>
          have written : (Child.divider guard).tree = .tag (.otherwise guard) [] := rfl
          rw [written]
          cases guard with
          | some condition => simp
          | none =>
              have apart : (∀ child ∈ rest, ∀ guard, child ≠ .divider guard) ↔
                  ∀ guard, .divider guard ∉ rest :=
                ⟨fun other guard member => other _ member guard rfl,
                  fun other child member guard same => other guard (same ▸ member)⟩
              simpa [Child.tag?_tree_eq_otherwise_iff] using fun _ => apart

/-! ### Spans that are laid out divide the children -/

namespace Span

@[simp] theorem nodesOf_map_node (nodes : List Node) : nodesOf (nodes.map .node) = nodes := by
  induction nodes with
  | nil => rfl
  | cons node nodes ih => simp [nodesOf]

/-- The first of the branches that are laid out is the slice of its span. -/
theorem slice_joined (guard : Option Condition) (front : List Child) (body : List Node)
    (branches : List Branch) :
    slice ⟨guard, front.length, front.length + body.length⟩
      (front ++ Child.joined body branches) = body.map .node := by
  obtain ⟨back, whole⟩ : ∃ back, Child.joined body branches = body.map .node ++ back := by
    cases branches with
    | nil => exact ⟨[], (List.append_nil _).symm⟩
    | cons branch rest =>
        obtain ⟨next, inner⟩ := branch
        exact ⟨_, rfl⟩
  simp [slice, whole, List.take_append, List.take_of_length_le]

variable {guard : Option Condition} {body : List Node} {branches : List Branch} {start : Nat}

theorem exists_laid_eq_cons (start : Nat) (guard : Option Condition) (body : List Node)
    (branches : List Branch) :
    ∃ rest, laid start guard body branches = ⟨guard, start, start + body.length⟩ :: rest := by
  cases branches with
  | nil => exact ⟨[], rfl⟩
  | cons branch rest =>
      obtain ⟨next, inner⟩ := branch
      exact ⟨_, rfl⟩

theorem exists_laid_eq_append (start : Nat) (guard : Option Condition) (body : List Node)
    (branches : List Branch) :
    ∃ early last place, laid start guard body branches =
      early ++ [⟨last, place, start + (Child.joined body branches).length⟩] := by
  induction branches generalizing start guard body with
  | nil => exact ⟨[], guard, start, by simp [laid, Child.joined]⟩
  | cons branch rest ih =>
      obtain ⟨next, inner⟩ := branch
      obtain ⟨early, last, place, further⟩ := ih (start + body.length + 1) next inner
      refine ⟨⟨guard, start, start + body.length⟩ :: early, last, place, ?_⟩
      rw [laid, further, Child.joined, List.length_append, List.length_cons, List.length_map,
        List.cons_append]
      congr 4
      omega

/-- Spans stay behind where the first one starts and before where the last one stops. -/
theorem within_laid {span : Span} (member : span ∈ laid start guard body branches) :
    start ≤ span.start ∧ span.start ≤ span.stop ∧
      span.stop ≤ start + (Child.joined body branches).length := by
  induction branches generalizing start guard body with
  | nil =>
      cases List.mem_singleton.1 member
      simp [Child.joined]
  | cons branch rest ih =>
      obtain ⟨next, inner⟩ := branch
      simp only [Child.joined, List.length_append, List.length_map, List.length_cons]
      rcases List.mem_cons.1 member with rfl | member
      · refine ⟨le_rfl, ?_, ?_⟩ <;> dsimp only <;> omega
      · have further := ih member
        omega

/-- Behind a span there stands the divider that starts the next one. -/
theorem isChain_laid (front : List Child) (guard : Option Condition) (body : List Node)
    (branches : List Branch) :
    (laid front.length guard body branches).IsChain fun span following =>
      (front ++ Child.joined body branches)[span.stop]? = some (.divider following.guard) ∧
        following.start = span.stop + 1 := by
  induction branches generalizing front guard body with
  | nil => exact .singleton _
  | cons branch rest ih =>
      obtain ⟨next, inner⟩ := branch
      have further := ih (Child.ahead front body next) next inner
      rw [Child.length_ahead, Child.ahead_append_joined] at further
      obtain ⟨others, first⟩ := exists_laid_eq_cons (front.length + body.length + 1) next inner rest
      rw [laid]
      rw [first] at further ⊢
      refine List.isChain_cons_cons.2 ⟨⟨?_, rfl⟩, further⟩
      simp [Child.joined]

theorem guarded_laid (order : inOrder (⟨guard, body⟩ :: branches) = true) :
    ∀ span ∈ (laid start guard body branches).dropLast, span.guard ≠ none := by
  induction branches generalizing start guard body with
  | nil => simp [laid]
  | cons branch rest ih =>
      obtain ⟨next, inner⟩ := branch
      obtain ⟨here, further⟩ := (Bool.and_eq_true _ _).mp order
      obtain ⟨others, first⟩ := exists_laid_eq_cons (start + body.length + 1) next inner rest
      have later : ∀ span ∈ (laid (start + body.length + 1) next inner rest).dropLast,
          span.guard ≠ none := ih further
      rw [laid, first, List.dropLast_cons_of_ne_nil (List.cons_ne_nil _ _)]
      rw [first] at later
      intro span member
      rcases List.mem_cons.1 member with rfl | member
      · exact Option.isSome_iff_ne_none.1 here
      · exact later span member

theorem countP_laid_of_lt {position : Nat} (before : position < start) :
    (laid start guard body branches).countP (·.covers position) = 0 := by
  refine List.countP_eq_zero.2 fun span member => ?_
  have within := within_laid member
  simp only [covers, Bool.and_eq_true, decide_eq_true_eq]
  omega

/-- Of the children that are laid out a node is in exactly one span, and a divider in none. -/
theorem countP_laid {child : Child} {offset : Nat}
    (here : (Child.joined body branches)[offset]? = some child) :
    (laid start guard body branches).countP (·.covers (start + offset)) = child.share := by
  induction branches generalizing start guard body offset with
  | nil =>
      rw [Child.joined, List.getElem?_map] at here
      obtain ⟨node, found, rfl⟩ := Option.map_eq_some_iff.1 here
      have inside : offset < body.length := (List.getElem?_eq_some_iff.1 found).1
      simp [laid, covers, inside, Child.share]
  | cons branch rest ih =>
      obtain ⟨next, inner⟩ := branch
      rw [Child.joined] at here
      rw [laid, List.countP_cons]
      -- the child is in the first body, or it is the divider behind it, or it comes after that
      rcases Nat.lt_trichotomy offset body.length with inside | rfl | behind
      · rw [List.getElem?_append_left (by simpa using inside), List.getElem?_map] at here
        obtain ⟨node, found, rfl⟩ := Option.map_eq_some_iff.1 here
        rw [countP_laid_of_lt (by omega)]
        simp [covers, inside, Child.share]
      · rw [List.getElem?_append_right (by simp)] at here
        obtain rfl : Child.divider next = child := by simpa using here
        rw [countP_laid_of_lt (by omega)]
        simp [covers, Child.share]
      · obtain ⟨further, rfl⟩ := Nat.exists_eq_add_of_lt behind
        rw [List.getElem?_append_right (by simp; omega)] at here
        have there : (Child.joined inner rest)[further]? = some child := by
          have shifted : body.length + further + 1 - body.length = further + 1 := by omega
          simpa [shifted] using here
        have position : start + (body.length + further + 1) =
            start + body.length + 1 + further := by omega
        rw [position, ih there]
        simp [covers]
        omega

/-- The spans hold the branches that are laid out, and nothing else. -/
theorem branches_laid (front : List Child) (guard : Option Condition) (body : List Node)
    (branches : List Branch) :
    (laid front.length guard body branches).map
        (branch (front ++ Child.joined body branches)) = ⟨guard, body⟩ :: branches ∧
      ∀ span ∈ laid front.length guard body branches,
        span.slice (front ++ Child.joined body branches) =
          (nodesOf (span.slice (front ++ Child.joined body branches))).map .node := by
  induction branches generalizing front guard body with
  | nil =>
      have first := slice_joined guard front body []
      simp [laid, branch, first]
  | cons further rest ih =>
      obtain ⟨next, inner⟩ := further
      have first := slice_joined guard front body (⟨next, inner⟩ :: rest)
      obtain ⟨later, nodes⟩ := ih (Child.ahead front body next) next inner
      rw [Child.length_ahead, Child.ahead_append_joined] at later nodes
      rw [laid, List.map_cons, later]
      constructor
      · rw [branch, first, nodesOf_map_node]
      · refine List.forall_mem_cons.2 ⟨?_, nodes⟩
        rw [first, nodesOf_map_node]

end Span

/-- What the scan of a conditional's children finds divides them. -/
theorem partition_laid (condition : Condition) (body : List Node) {branches : List Branch}
    (order : inOrder branches = true) :
    Partition condition (Child.joined body branches)
      (Span.laid 0 (some condition) body branches) where
  first := by
    obtain ⟨rest, same⟩ := Span.exists_laid_eq_cons 0 (some condition) body branches
    exact ⟨_, rest, same⟩
  last := by
    obtain ⟨early, guard, start, same⟩ :=
      Span.exists_laid_eq_append 0 (some condition) body branches
    exact ⟨early, guard, start, by rwa [Nat.zero_add] at same⟩
  next := Span.isChain_laid [] (some condition) body branches
  within := by
    intro span member
    have within := Span.within_laid member
    omega
  guarded := by
    have whole : inOrder (⟨some condition, body⟩ :: branches) = true := by
      cases branches with
      | nil => rfl
      | cons branch rest => exact order
    exact Span.guarded_laid whole
  once := by
    intro position child here
    have counted : (Span.laid 0 (some condition) body branches).countP
        (·.covers (0 + position)) = child.share := Span.countP_laid here
    rwa [Nat.zero_add] at counted
  nodes := (Span.branches_laid [] (some condition) body branches).2

/-! ### What is rendered -/

/-- Of branches that are spans the chosen one is rendered. -/
theorem exists_chooses (replaced : List Node → Scene → Draft) (scene : Scene)
    (children : List Child) (spans : List Span) :
    ∃ chosen, Chooses scene.context spans chosen ∧
      draftBranches replaced scene (spans.map (Span.branch children)) =
        chosen.elim .empty fun span =>
          draftAll replaced scene (Span.nodesOf (span.slice children)) := by
  induction spans with
  | nil => exact ⟨none, .none, rfl⟩
  | cons span rest ih =>
      obtain ⟨chosen, chooses, drafted⟩ := ih
      rw [List.map_cons, Span.branch, draftBranches]
      cases guarded : span.guard with
      | none =>
          refine ⟨some span, .here (by simp [guarded]), ?_⟩
          simp
      | some guard =>
          by_cases holds : guard.holds scene.context = true
          · exact ⟨some span, .here (by simp [guarded, holds]), by simp [holds]⟩
          · have fails : guard.holds scene.context = false := by simpa using holds
            exact ⟨chosen, .later guarded fails chooses, by simpa [fails] using drafted⟩

/-- A conditional is rendered as its branches are, the first of which has its own condition. -/
theorem draft_conditional (replaced : List Node → Scene → Draft) (scene : Scene)
    (condition : Condition) (body : List Node) (branches : List Branch) :
    (Node.conditional condition body branches).draft replaced scene =
      draftBranches replaced scene (⟨some condition, body⟩ :: branches) := by
  simp [Node.draft, draftBranches]

/-- A conditional is closed exactly if no divider comes after one without a condition. Its children
are then divided by spans, as one scan finds them; and in any scene those of one span are rendered
and nothing else is, or nothing at all where no span is chosen. -/
theorem conditional_divides (fetch : String → Except Error Template) (template : String)
    (condition : Condition) (children : List Child) (outer : List Frame) (roots : List Node)
    (names : List String) :
    let closed := Assembly.step fetch template
      ⟨.conditional condition children :: outer, roots, names⟩ (.closing "if")
    (Misplaced children ∧ spansOf condition children = .error .branchAfterElse ∧
      closed = .error (.malformed template .branchAfterElse)) ∨
    (¬ Misplaced children ∧ ∃ spans node, spansOf condition children = .ok spans ∧
      closed = .ok (Assembly.add ⟨outer, roots, names⟩ node) ∧
      Partition condition children spans ∧
      ∀ replaced scene, ∃ chosen, Chooses scene.context spans chosen ∧
        node.draft replaced scene = chosen.elim .empty fun span =>
          draftAll replaced scene (Span.nodesOf (span.slice children))) := by
  intro closed
  have named : Tag.conditional.name = "if" := rfl
  have joined := Child.joined_branches children
  by_cases order : inOrder (Child.branches children).2 = true
  · right
    refine ⟨(Child.inOrder_iff_not_misplaced children).1 order, _,
      .conditional condition (Child.branches children).1 (Child.branches children).2,
      by rw [spansOf_eq, if_pos order], ?_, ?_, ?_⟩
    · simp only [closed, Assembly.step, Assembly.close, Frame.tag, named, Frame.close, order,
        if_true]
      rfl
    · have divided := partition_laid condition (Child.branches children).1 order
      rwa [joined] at divided
    · intro replaced scene
      have branches := (Span.branches_laid [] (some condition) (Child.branches children).1
        (Child.branches children).2).1
      rw [List.nil_append, joined] at branches
      rw [draft_conditional, ← branches]
      exact exists_chooses replaced scene children _
  · left
    have misplaced : Misplaced children := by
      by_contra other
      exact order ((Child.inOrder_iff_not_misplaced children).2 other)
    refine ⟨misplaced, by rw [spansOf_eq, if_neg order], ?_⟩
    simp only [closed, Assembly.step, Assembly.close, Frame.tag, named, Frame.close, order, if_true]
    rfl

end Quire
