/-
Module: Quire.Proofs.Unfolding
Purpose: What outputs show through cells that do not hold themselves, and what becomes of it when a
  cell is set; and that whatever is done with outputs leaves them canonical.
Main exports: Cells.Holds, Cells.Acyclic, Cells.Acyclic.text_eq_shown, Cells.Unfolds,
  Cells.exists_unfolds, Cells.Unfolds.text_eq_fillIn, Command, Desk, Desk.after,
  outputs_are_sequences
-/
import Mathlib.Data.Finset.Card
import Mathlib.Data.Finset.Range
import Mathlib.Logic.Relation
import Quire.Proofs.OutputLaws

/-!
A client may set any cell to any output, so cells need not hold later cells only. As long as no cell
holds itself, directly or through others, the number of cells below a cell falls from every cell to
those in it. Then looking through the cells comes to an end, and an output can be unfolded: the
cells in it give way to what they hold, and only one of them, whichever it is, is left in its
places. What is unfolded in this way depends on the contents of all cells but this one, which show
up in its places and nowhere else.
-/

namespace Quire

namespace Cells

/-! ### Cells that do not hold themselves -/

/-- A cell stands in the contents of another one. -/
def Holds (cells : Cells) (outer inner : CellId) : Prop :=
  inner ∈ (cells.content outer).cells

/-- No cell holds itself, directly or through other cells. -/
def Acyclic (cells : Cells) : Prop :=
  ∀ id, ¬ Relation.TransGen cells.Holds id id

/-- Cells that hold later cells only do not hold themselves. -/
theorem Rising.acyclic {cells : Cells} (rising : cells.Rising) : cells.Acyclic := by
  have later : ∀ {outer inner : CellId}, Relation.TransGen cells.Holds outer inner →
      outer.index < inner.index := by
    intro outer inner through
    induction through with
    | single holds => exact (rising holds).1
    | tail _ holds ih => exact ih.trans (rising holds).1
  exact fun id through => absurd (later through) (Nat.lt_irrefl _)

open Classical in
/-- The cells below a cell: those that it holds, directly or through other cells. -/
noncomputable def below (cells : Cells) (id : CellId) : Finset Nat :=
  (Finset.range cells.size).filter fun index => Relation.TransGen cells.Holds id ⟨index⟩

theorem mem_below {cells : Cells} {id : CellId} {index : Nat} :
    index ∈ cells.below id ↔ index < cells.size ∧ Relation.TransGen cells.Holds id ⟨index⟩ := by
  simp [below]

/-- Fewer cells are below a cell than below one that holds it. -/
theorem Acyclic.card_below_lt {cells : Cells} (acyclic : cells.Acyclic) {outer inner : CellId}
    (holds : cells.Holds outer inner) (there : inner.index < cells.size) :
    (cells.below inner).card < (cells.below outer).card := by
  apply Finset.card_lt_card
  refine ⟨fun index member => ?_, fun contains => ?_⟩
  · obtain ⟨exist, through⟩ := mem_below.1 member
    exact mem_below.2 ⟨exist, .head holds through⟩
  · have within := contains (mem_below.2 ⟨there, .single holds⟩)
    exact acyclic inner (mem_below.1 within).2

/-- Not all cells are below one of them, for it is not below itself. -/
theorem Acyclic.card_below_lt_size {cells : Cells} (acyclic : cells.Acyclic) {id : CellId}
    (there : id.index < cells.size) : (cells.below id).card < cells.size := by
  rw [← Finset.card_range cells.size]
  apply Finset.card_lt_card
  refine ⟨fun index member => Finset.mem_range.2 (mem_below.1 member).1, fun contains => ?_⟩
  have within := contains (Finset.mem_range.2 there)
  exact acyclic id (mem_below.1 within).2

/-- A bound no smaller than the number of cells makes no difference to the text of a fragment. -/
theorem Acyclic.fragmentText_eq {cells : Cells} (acyclic : cells.Acyclic) {bound : Nat}
    (enough : cells.size ≤ bound) (fragment : Fragment) :
    cells.fragmentText bound fragment = cells.fragmentText cells.size fragment := by
  cases fragment with
  | text text => simp [fragmentText]
  | cell id =>
      by_cases there : id.index < cells.size
      · have below := acyclic.card_below_lt_size there
        exact fragmentText_eq_of_falls acyclic.card_below_lt (below.trans_le enough) below
      · have absent := Nat.le_of_not_lt there
        rw [fragmentText_cell_of_size_le absent, fragmentText_cell_of_size_le absent]

/-- The text of a fragment is a text itself, or what its cell holds. -/
theorem Acyclic.fragmentText_eq_shown {cells : Cells} (acyclic : cells.Acyclic)
    (fragment : Fragment) : cells.fragmentText cells.size fragment = cells.shown fragment := by
  rw [← acyclic.fragmentText_eq (Nat.le_succ cells.size)]
  cases fragment with
  | text text => simp [fragmentText, shown]
  | cell id => rfl

/-- An output shows its texts and what its cells hold, one after another. -/
theorem Acyclic.text_eq_shown {cells : Cells} (acyclic : cells.Acyclic) (output : Output) :
    cells.text output = String.join (output.fragments.map cells.shown) :=
  congrArg String.join
    (List.map_congr_left fun fragment _ => acyclic.fragmentText_eq_shown fragment)

theorem Acyclic.text_cons {cells : Cells} (acyclic : cells.Acyclic) (fragment : Fragment)
    (rest : List Fragment) :
    cells.text ⟨fragment :: rest⟩ = cells.shown fragment ++ cells.text ⟨rest⟩ := by
  simp [acyclic.text_eq_shown]

/-! ### Unfolding -/

/-- The symbols that fragments come to if one looks through all cells but a given one, which is left
standing in its places. -/
inductive Unfolds (cells : Cells) (id : CellId) : List Fragment → List Symbol → Prop where
  | nil : Unfolds cells id [] []
  | text {rest : List Fragment} {symbols : List Symbol} (content : String)
      (others : Unfolds cells id rest symbols) :
      Unfolds cells id (.text content :: rest) (content.toList.map .char ++ symbols)
  | here {rest : List Fragment} {symbols : List Symbol} (others : Unfolds cells id rest symbols) :
      Unfolds cells id (.cell id :: rest) (.cell id :: symbols)
  | through {other : CellId} {rest : List Fragment} {inner symbols : List Symbol}
      (different : other ≠ id) (holds : Unfolds cells id (cells.content other).fragments inner)
      (others : Unfolds cells id rest symbols) :
      Unfolds cells id (.cell other :: rest) (inner ++ symbols)

/-- The text of symbols with a given text in the places of cells. -/
def fillIn (place : String) (symbols : List Symbol) : String :=
  String.join (symbols.map fun
    | .char c => String.singleton c
    | .cell _ => place)

theorem fillIn_append (place : String) (symbols others : List Symbol) :
    fillIn place (symbols ++ others) = fillIn place symbols ++ fillIn place others := by
  simp [fillIn, String.join_append]

theorem fillIn_map_char (place : String) (cs : List Char) :
    fillIn place (cs.map .char) = String.ofList cs := by
  induction cs with
  | nil => rfl
  | cons c rest ih =>
      have first : fillIn place (.char c :: rest.map .char) =
          String.singleton c ++ fillIn place (rest.map .char) := by simp [fillIn]
      rw [List.map_cons, first, ih]
      simp

section

variable {cells : Cells} {id : CellId} {fragments : List Fragment} {symbols : List Symbol}

/-- Fragments unfold if the contents of each cell among them do. -/
theorem exists_unfolds_of_cells (inner : ∀ other ∈ (⟨fragments⟩ : Output).cells,
    ∃ symbols, cells.Unfolds id (cells.content other).fragments symbols) :
    ∃ symbols, cells.Unfolds id fragments symbols := by
  induction fragments with
  | nil => exact ⟨[], .nil⟩
  | cons fragment rest ih =>
      cases fragment with
      | text content =>
          obtain ⟨symbols, others⟩ := ih inner
          exact ⟨_, .text content others⟩
      | cell other =>
          rw [Output.cells_cons_cell, List.forall_mem_cons] at inner
          obtain ⟨⟨middle, holds⟩, later⟩ := inner
          obtain ⟨symbols, others⟩ := ih later
          by_cases same : other = id
          · subst same
            exact ⟨_, .here others⟩
          · exact ⟨_, .through same holds others⟩

/-- Where no cell holds itself every output unfolds. The induction is on the number of cells below a
cell. -/
theorem exists_unfolds (acyclic : cells.Acyclic) (id : CellId) (fragments : List Fragment) :
    ∃ symbols, cells.Unfolds id fragments symbols := by
  have contents : ∀ count other, (cells.below other).card = count →
      ∃ symbols, cells.Unfolds id (cells.content other).fragments symbols := by
    intro count
    induction count using Nat.strong_induction_on with
    | _ count ih =>
        rintro other rfl
        apply exists_unfolds_of_cells
        intro inner holds
        by_cases there : inner.index < cells.size
        · exact ih _ (acyclic.card_below_lt holds there) inner rfl
        · rw [content_of_size_le (Nat.le_of_not_lt there)]
          exact ⟨[], .nil⟩
  exact exists_unfolds_of_cells fun other _ => contents _ other rfl

namespace Unfolds

/-- What is unfolded does not depend on what the cell holds that is left standing. -/
theorem set (unfolds : cells.Unfolds id fragments symbols) (contents : Output) :
    (cells.set id contents).Unfolds id fragments symbols := by
  induction unfolds with
  | nil => exact .nil
  | text content _ ih => exact .text content ih
  | here _ ih => exact .here ih
  | through different _ _ inner others =>
      refine .through different ?_ others
      rwa [content_set_of_ne different]

/-- Fragments show what they unfold to, with the text of the cell in each of its places. -/
theorem text_eq_fillIn (acyclic : cells.Acyclic) (unfolds : cells.Unfolds id fragments symbols) :
    cells.text ⟨fragments⟩ = fillIn (cells.cellText id) symbols := by
  induction unfolds with
  | nil => rfl
  | text content _ ih =>
      rw [acyclic.text_cons, ih, fillIn_append, fillIn_map_char, String.ofList_toList]
      rfl
  | @here rest symbols _ ih =>
      have first : fillIn (cells.cellText id) (.cell id :: symbols) =
          cells.cellText id ++ fillIn (cells.cellText id) symbols := by simp [fillIn]
      rw [acyclic.text_cons, ih, first]
      rfl
  | @through other rest inner symbols _ _ _ holds others =>
      rw [acyclic.text_cons, others, fillIn_append, ← holds]
      rfl

end Unfolds

/-! ### Where a cell shows up -/

/-- An output in which no cell stands shows none. -/
theorem not_reaches {output : Output} (none : output.cells = []) : ¬ cells.Reaches output id := by
  intro reaches
  induction reaches with
  | stands standing => exact nomatch none ▸ standing
  | within _ _ ih => exact ih

theorem reaches_cons {fragment : Fragment} {rest : List Fragment} :
    cells.Reaches ⟨fragment :: rest⟩ id ↔
      cells.Reaches ⟨[fragment]⟩ id ∨ cells.Reaches ⟨rest⟩ id := by
  constructor
  · intro reaches
    induction reaches with
    | stands standing =>
        cases fragment with
        | text content => exact .inr (.stands standing)
        | cell other =>
            rcases List.mem_cons.1 standing with rfl | later
            · exact .inl (.stands List.mem_cons_self)
            · exact .inr (.stands later)
    | within _ holds ih => exact ih.imp (.within · holds) (.within · holds)
  · rintro (first | others)
    · induction first with
      | stands standing =>
          refine .stands ?_
          cases fragment with
          | text content => exact nomatch standing
          | cell other => exact List.mem_cons.2 (.inl (List.mem_singleton.1 standing))
      | within _ holds ih => exact .within ih holds
    · induction others with
      | stands standing =>
          refine .stands ?_
          cases fragment with
          | text content => exact standing
          | cell other => exact List.mem_cons_of_mem _ standing
      | within _ holds ih => exact .within ih holds

theorem reaches_cell {other : CellId} :
    cells.Reaches ⟨[.cell other]⟩ id ↔ id = other ∨ cells.Reaches (cells.content other) id := by
  constructor
  · intro reaches
    induction reaches with
    | stands standing => exact .inl (List.mem_singleton.1 standing)
    | within _ holds ih =>
        rcases ih with rfl | further
        · exact .inr (.stands holds)
        · exact .inr (.within further holds)
  · rintro (rfl | further)
    · exact .stands List.mem_cons_self
    · induction further with
      | stands standing => exact .within (.stands List.mem_cons_self) standing
      | within _ holds ih => exact .within ih holds

/-- The cell that is left standing is among the symbols just if the output shows it, directly or
through other cells. -/
theorem Unfolds.mem_iff_reaches (unfolds : cells.Unfolds id fragments symbols) :
    .cell id ∈ symbols ↔ cells.Reaches ⟨fragments⟩ id := by
  induction unfolds with
  | nil => exact ⟨nofun, fun reaches => absurd reaches (not_reaches rfl)⟩
  | @text rest symbols content _ ih =>
      have none : ¬ cells.Reaches ⟨[.text content]⟩ id := not_reaches rfl
      rw [reaches_cons, ← ih, List.mem_append]
      simp [none]
  | @here rest symbols _ _ =>
      have shows : cells.Reaches ⟨[.cell id]⟩ id := reaches_cell.2 (.inl rfl)
      exact ⟨fun _ => reaches_cons.2 (.inl shows), fun _ => List.mem_cons_self⟩
  | @through other rest inner symbols different _ _ holds others =>
      have different : id ≠ other := Ne.symm different
      have holds : .cell id ∈ inner ↔ cells.Reaches (cells.content other) id := holds
      rw [reaches_cons, reaches_cell, List.mem_append, holds, others]
      simp [different]

/-- No other cell is left. -/
theorem Unfolds.eq_of_mem (unfolds : cells.Unfolds id fragments symbols) {other : CellId}
    (member : .cell other ∈ symbols) : other = id := by
  induction unfolds with
  | nil => exact nomatch member
  | text content _ ih =>
      rcases List.mem_append.1 member with among | later
      · simp at among
      · exact ih later
  | here _ ih =>
      rcases List.mem_cons.1 member with same | later
      · exact Symbol.cell.inj same
      · exact ih later
  | through _ _ _ inner others => exact (List.mem_append.1 member).elim inner others

end

/-- What an output shows, told by the symbols it unfolds to: a cell is left among them if the output
shows it, and setting the cell changes the text in its places and nowhere else. -/
structure SetAccount (cells : Cells) (id : CellId) (output : Output) (symbols : List Symbol) :
    Prop where
  unfolds : cells.Unfolds id output.fragments symbols
  places : ∀ other, .cell other ∈ symbols ↔ other = id ∧ cells.Reaches output id
  before : cells.text output = fillIn (cells.cellText id) symbols
  after : ∀ contents, (cells.set id contents).Acyclic →
    (cells.set id contents).text output = fillIn ((cells.set id contents).text contents) symbols

theorem exists_setAccount {cells : Cells} (acyclic : cells.Acyclic) {id : CellId}
    (there : id.index < cells.size) (output : Output) :
    ∃ symbols, cells.SetAccount id output symbols := by
  obtain ⟨symbols, unfolds⟩ := exists_unfolds acyclic id output.fragments
  refine ⟨symbols, unfolds, fun other => ⟨fun member => ?_, ?_⟩, unfolds.text_eq_fillIn acyclic, ?_⟩
  · cases unfolds.eq_of_mem member
    exact ⟨rfl, unfolds.mem_iff_reaches.1 member⟩
  · rintro ⟨rfl, shows⟩
    exact unfolds.mem_iff_reaches.2 shows
  · intro contents acyclic
    have text := (unfolds.set contents).text_eq_fillIn acyclic
    rwa [cellText, content_set_self there] at text

end Cells

/-! ### Working with outputs -/

/-- What a client does with outputs, which are told apart by their positions among those there are,
and with cells. -/
inductive Command where
  | new
  | ofText (text : String)
  | ofCell (id : CellId)
  | clone (source : Nat)
  | pushText (target : Nat) (text : String)
  | pushCell (target : Nat) (id : CellId)
  /-- An output at the end of another one. -/
  | extend (target source : Nat)
  /-- A further cell that holds an output. -/
  | fresh (source : Nat)
  /-- An output in the place of what a cell holds. -/
  | set (id : CellId) (source : Nat)

/-- The outputs that a client has, and the cells there are. -/
structure Desk where
  outputs : List Output
  cells : Cells

namespace Desk

/-- The output at a position, or the empty one where there is none. -/
def output (desk : Desk) (position : Nat) : Output :=
  desk.outputs.getD position .empty

/-- The desk with one more output. -/
def lay (desk : Desk) (output : Output) : Desk :=
  { desk with outputs := desk.outputs ++ [output] }

/-- The desk with another output at a position. -/
def replace (desk : Desk) (position : Nat) (output : Output) : Desk :=
  { desk with outputs := desk.outputs.set position output }

/-- The desk after a command. -/
def act (desk : Desk) : Command → Desk
  | .new => desk.lay .empty
  | .ofText text => desk.lay (.ofText text)
  | .ofCell id => desk.lay (.ofCell id)
  | .clone source => desk.lay (desk.output source)
  | .pushText target text => desk.replace target ((desk.output target).pushText text)
  | .pushCell target id => desk.replace target ((desk.output target).pushCell id)
  | .extend target source => desk.replace target ((desk.output target).append (desk.output source))
  | .fresh source => { desk with cells := (desk.cells.fresh (desk.output source)).2 }
  | .set id source => { desk with cells := desk.cells.set id (desk.output source) }

/-- The desk after commands, from nothing. -/
def after (commands : List Command) : Desk :=
  commands.foldl act ⟨[], .empty⟩

/-- Every output of the client is canonical. -/
def Canonical (desk : Desk) : Prop :=
  ∀ output ∈ desk.outputs, output.Canonical

variable {desk : Desk}

theorem Canonical.output (canonical : desk.Canonical) (position : Nat) :
    (desk.output position).Canonical := by
  rw [Desk.output, List.getD_eq_getElem?_getD]
  cases found : desk.outputs[position]? with
  | none => exact Output.canonical_empty
  | some output => exact canonical output (List.mem_of_getElem? found)

theorem Canonical.lay (canonical : desk.Canonical) {output : Output} (last : output.Canonical) :
    (desk.lay output).Canonical := by
  intro other member
  rcases List.mem_append.1 member with old | new
  · exact canonical other old
  · exact List.mem_singleton.1 new ▸ last

theorem Canonical.replace (canonical : desk.Canonical) {output : Output} (new : output.Canonical)
    (position : Nat) : (desk.replace position output).Canonical := by
  intro other member
  rcases List.mem_or_eq_of_mem_set member with old | rfl
  · exact canonical other old
  · exact new

/-- No command leaves an output that is not canonical. -/
theorem Canonical.act (canonical : desk.Canonical) (command : Command) :
    (desk.act command).Canonical := by
  cases command with
  | new => exact canonical.lay Output.canonical_empty
  | ofText text => exact canonical.lay (Output.canonical_ofText text)
  | ofCell id => exact canonical.lay (Output.canonical_ofCell id)
  | clone source => exact canonical.lay (canonical.output source)
  | pushText target text =>
      exact canonical.replace ((canonical.output target).append (Output.canonical_ofText text)) _
  | pushCell target id =>
      exact canonical.replace ((canonical.output target).append (Output.canonical_ofCell id)) _
  | extend target source =>
      exact canonical.replace ((canonical.output target).append (canonical.output source)) _
  | fresh source => exact canonical
  | set id source => exact canonical

theorem canonical_after (commands : List Command) : (after commands).Canonical := by
  suffices from_ : ∀ desk : Desk, desk.Canonical → (commands.foldl Desk.act desk).Canonical from
    from_ _ nofun
  induction commands with
  | nil => exact fun _ canonical => canonical
  | cons command rest ih => exact fun desk canonical => ih _ (canonical.act command)

end Desk

/-- Outputs are the sequences of characters and cells. Whatever commands are given, every output is
canonical, and canonical outputs are the same just if they stand for the same sequence; there is
one for each. To append outputs, texts or cells is to concatenate what they stand for, and so it
does not matter how it is bracketed or how texts are cut. As long as no cell holds itself, an output
shows the texts of its fragments, and outputs that are appended show their texts one after another,
whatever the cells hold. To set a cell changes what an output shows in the places of the cell and
nowhere else, and leaves all outputs and all other cells as they are. -/
theorem outputs_are_sequences :
    (∀ commands, ∀ output ∈ (Desk.after commands).outputs, output.Canonical) ∧
    (∀ first second : Output, first.Canonical → second.Canonical →
      (first = second ↔ first.symbols = second.symbols)) ∧
    (∀ symbols, ∃ output : Output, output.Canonical ∧ output.symbols = symbols) ∧
    (∀ first second third : Output,
      (first.append second).append third = first.append (second.append third) ∧
        Output.empty.append first = first ∧ first.append .empty = first ∧
        (first.append second).symbols = first.symbols ++ second.symbols ∧
        (first.append second).cells = first.cells ++ second.cells) ∧
    (∀ (output : Output) (text more : String) (id : CellId),
      (output.pushText text).pushText more = output.pushText (text ++ more) ∧
        (output.pushText text).symbols = output.symbols ++ text.toList.map .char ∧
        (output.pushCell id).symbols = output.symbols ++ [.cell id]) ∧
    (∀ cells : Cells, cells.Acyclic → ∀ first second : Output,
      cells.text first = String.join (first.fragments.map cells.shown) ∧
        cells.text (first.append second) = cells.text first ++ cells.text second) ∧
    (∀ cells : Cells, cells.Acyclic → ∀ id : CellId, id.index < cells.size → ∀ output,
      ∃ symbols, cells.SetAccount id output symbols) ∧
    ∀ (desk : Desk) (id : CellId) (source : Nat),
      (desk.act (.set id source)).outputs = desk.outputs ∧
        ∀ other ≠ id,
          (desk.act (.set id source)).cells.content other = desk.cells.content other := by
  refine ⟨Desk.canonical_after, ?_, ?_, ?_, ?_, ?_, ?_, ?_⟩
  · exact fun first second canonical canonical' =>
      ⟨congrArg Output.symbols, canonical.eq_of_symbols_eq canonical'⟩
  · exact fun symbols => ⟨.ofSymbols symbols, Output.canonical_ofSymbols symbols,
      Output.symbols_ofSymbols symbols⟩
  · exact fun first second third => ⟨Output.append_assoc first second third,
      Output.empty_append first, Output.append_empty first, Output.symbols_append first second,
      Output.cells_join first.fragments second.fragments⟩
  · exact fun output text more id => ⟨Output.pushText_pushText output text more,
      Output.symbols_pushText output text, Output.symbols_pushCell output id⟩
  · exact fun cells acyclic first second => ⟨acyclic.text_eq_shown first,
      cells.text_join first.fragments second.fragments⟩
  · exact fun cells acyclic id there output => Cells.exists_setAccount acyclic there output
  · exact fun desk id source => ⟨rfl, fun other different => Cells.content_set_of_ne different _⟩

/-- Two cells, of which the first holds a text and the second one, which is empty. -/
def nestedCells : Cells := (Cells.empty.allot 2).set ⟨0⟩ ⟨[.text "a", .cell ⟨1⟩]⟩

/-- The first of two nested cells between two texts. -/
def nestedOutput : Output := ⟨[.text "<", .cell ⟨0⟩, .text ">"]⟩

/-- The second of the nested cells shows up in its place within the first one. -/
theorem nested_cells_are_sequences :
    nestedOutput ∈ (Desk.after [.ofText "<", .pushCell 0 ⟨0⟩, .pushText 0 ">"]).outputs ∧
      nestedOutput.Canonical ∧ nestedCells.Acyclic ∧ 1 < nestedCells.size ∧
      ∃ symbols, nestedCells.SetAccount ⟨1⟩ nestedOutput symbols := by
  have member : nestedOutput ∈
      (Desk.after [.ofText "<", .pushCell 0 ⟨0⟩, .pushText 0 ">"]).outputs :=
    List.mem_singleton.2 rfl
  have acyclic : nestedCells.Acyclic :=
    ((Cells.rising_empty.allot 2).set (by decide) (by simp)).acyclic
  obtain ⟨canonical, _, _, _, _, _, account, _⟩ := outputs_are_sequences
  exact ⟨member, canonical _ nestedOutput member, acyclic, by decide,
    account nestedCells acyclic ⟨1⟩ (by decide) nestedOutput⟩

end Quire
