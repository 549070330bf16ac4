/-
Module: Quire.Proofs.CellHeap
Purpose: The laws of the cells: what allotting and filling change, when the cells of an output form
  a forest, and how the text of an output unfolds through them.
Main exports: Cells.held, Cells.Rising, Cells.Reaches, Cells.Forest, Cells.text_eq_shown,
  Cells.Rising.text_bound
-/
import Quire.Output

/-!
Cells that an output shows may show further cells. As long as a cell holds later cells only, looking
through them comes to an end, and the bound that the text of an output is computed with is never
felt. As long as no cell stands in two places, the cells below an output form a forest.
-/

namespace Quire

namespace Output

@[simp] theorem cells_empty : Output.empty.cells = [] := rfl

@[simp] theorem cells_nil : (⟨[]⟩ : Output).cells = [] := rfl

@[simp] theorem cells_cons_text (text : String) (rest : List Fragment) :
    (⟨.text text :: rest⟩ : Output).cells = (⟨rest⟩ : Output).cells := rfl

@[simp] theorem cells_cons_cell (id : CellId) (rest : List Fragment) :
    (⟨.cell id :: rest⟩ : Output).cells = id :: (⟨rest⟩ : Output).cells := rfl

/-- Texts that meet become one, but no cell is lost or moved. -/
theorem cells_join (fragments others : List Fragment) :
    (⟨join fragments others⟩ : Output).cells =
      (⟨fragments⟩ : Output).cells ++ (⟨others⟩ : Output).cells := by
  fun_induction join fragments others with
  | case1 others => rfl
  | case2 first second others => simp
  | case3 fragment rest others _ ih =>
      cases fragment with
      | text text => simpa using ih
      | cell id => simpa using ih

@[simp] theorem cells_ofText (text : String) : (ofText text).cells = [] := by
  unfold ofText
  split <;> rfl

end Output

namespace Cells

/-! ### Allotting and filling -/

/-- The identities of the next cells. -/
def next (cells : Cells) (count : Nat) : List CellId :=
  (List.range' cells.size count).map CellId.mk

@[simp] theorem size_allot (cells : Cells) (count : Nat) :
    (cells.allot count).size = cells.size + count := by
  simp [size, allot]

@[simp] theorem size_set (cells : Cells) (id : CellId) (output : Output) :
    (cells.set id output).size = cells.size := by
  simp [size, set]

@[simp] theorem allot_zero (cells : Cells) : cells.allot 0 = cells := by
  simp [allot]

/-- Cells that are allotted in two goes might be allotted in one. -/
@[simp] theorem allot_allot (cells : Cells) (count more : Nat) :
    (cells.allot count).allot more = cells.allot (count + more) := by
  simp [allot, Array.append_assoc]

theorem content_of_size_le {cells : Cells} {id : CellId} (h : cells.size ≤ id.index) :
    cells.content id = .empty := by
  simp [content, Array.getElem?_eq_none h]

/-- Further cells are empty, as cells that do not exist yet are. -/
@[simp] theorem content_allot (cells : Cells) (count : Nat) (id : CellId) :
    (cells.allot count).content id = cells.content id := by
  by_cases h : id.index < cells.size
  · simp only [content, allot, Array.getElem?_append_left h]
  · rw [content_of_size_le (Nat.le_of_not_lt h)]
    simp only [content, allot]
    rw [Array.getElem?_append_right (Nat.le_of_not_lt h)]
    rw [Array.getElem?_replicate]
    split <;> rfl

/-- A cell that is filled holds what it was filled with. -/
theorem content_set_self {cells : Cells} {id : CellId} (h : id.index < cells.size)
    (output : Output) : (cells.set id output).content id = output := by
  simp [content, set, Array.getElem?_setIfInBounds_self_of_lt h]

/-- Filling a cell leaves all others as they are. -/
theorem content_set_of_ne {cells : Cells} {id other : CellId} (h : other ≠ id) (output : Output) :
    (cells.set id output).content other = cells.content other := by
  have different : id.index ≠ other.index := by
    rintro same
    exact h (by cases id; cases other; simp_all)
  simp [content, set, Array.getElem?_setIfInBounds_ne different]

@[simp] theorem length_next (cells : Cells) (count : Nat) : (cells.next count).length = count := by
  simp [next]

theorem nodup_next (cells : Cells) (count : Nat) : (cells.next count).Nodup := by
  refine List.Pairwise.map _ ?_ List.nodup_range'
  intro first second different same
  exact different (by simpa using same)

/-- The next cells come right after those there are. -/
theorem mem_next {cells : Cells} {count : Nat} {id : CellId} :
    id ∈ cells.next count ↔ cells.size ≤ id.index ∧ id.index < cells.size + count := by
  cases id
  simp [next, List.mem_range'_1]

/-- The next cells are none of those there are. -/
theorem nodup_append_next {cells : Cells} {ids : List CellId} (once : ids.Nodup)
    (old : ∀ id ∈ ids, id.index < cells.size) (count : Nat) : (ids ++ cells.next count).Nodup := by
  refine List.nodup_append.2 ⟨once, cells.nodup_next count, ?_⟩
  rintro id member _ new rfl
  have := old id member
  have := mem_next.1 new
  omega

/-! ### Cells within cells -/

/-- The cells that stand in the contents of cells, place by place. -/
def held (cells : Cells) : List CellId :=
  cells.contents.toList.flatMap Output.cells

theorem mem_held {cells : Cells} {id : CellId} :
    id ∈ cells.held ↔ ∃ outer, id ∈ (cells.content outer).cells := by
  constructor
  · intro member
    obtain ⟨output, inContents, inOutput⟩ := List.mem_flatMap.1 member
    obtain ⟨index, bound, rfl⟩ := List.getElem_of_mem inContents
    refine ⟨⟨index⟩, ?_⟩
    rw [Array.length_toList] at bound
    simpa [content, bound] using inOutput
  · rintro ⟨outer, member⟩
    by_cases h : outer.index < cells.size
    · refine List.mem_flatMap.2 ⟨cells.content outer, ?_, member⟩
      have h : outer.index < cells.contents.size := h
      simp [content, h]
    · rw [content_of_size_le (Nat.le_of_not_lt h)] at member
      simp at member

@[simp] theorem held_allot (cells : Cells) (count : Nat) :
    (cells.allot count).held = cells.held := by
  have none : (List.replicate count Output.empty).flatMap Output.cells = [] := by
    induction count with
    | zero => rfl
    | succ count ih => simp [List.replicate_succ, ih]
  simp [held, allot, none]

/-- Filling an empty cell adds the cells of its new contents to those held. -/
theorem held_set_of_empty {cells : Cells} {id : CellId} (h : id.index < cells.size)
    (vacant : cells.content id = .empty) (output : Output) :
    (cells.set id output).held.Perm (cells.held ++ output.cells) := by
  have h : id.index < cells.contents.size := h
  have inList : id.index < cells.contents.toList.length := by simpa using h
  have vacant : cells.contents.toList[id.index] = .empty := by
    simpa [content, h] using vacant
  have before : cells.held = (cells.contents.toList.take id.index).flatMap Output.cells ++
      (cells.contents.toList.drop (id.index + 1)).flatMap Output.cells := by
    have split := (List.take_append_drop id.index cells.contents.toList).symm
    rw [List.drop_eq_getElem_cons inList, vacant] at split
    rw [held, congrArg (List.flatMap Output.cells) split, List.flatMap_append, List.flatMap_cons]
    rfl
  have after : (cells.set id output).held =
      (cells.contents.toList.take id.index).flatMap Output.cells ++ (output.cells ++
        (cells.contents.toList.drop (id.index + 1)).flatMap Output.cells) := by
    simp [held, set, List.set_eq_take_append_cons_drop, h]
  rw [before, after, List.append_assoc]
  exact List.perm_append_comm.append_left _

/-- Every cell holds later cells only, and only cells that there are. -/
def Rising (cells : Cells) : Prop :=
  ∀ ⦃outer inner : CellId⦄, inner ∈ (cells.content outer).cells →
    outer.index < inner.index ∧ inner.index < cells.size

/-- A cell that an output shows, in itself or in the contents of a cell that it shows. -/
inductive Reaches (cells : Cells) (output : Output) : CellId → Prop where
  | stands {id : CellId} (standing : id ∈ output.cells) : Reaches cells output id
  | within {outer inner : CellId} (reached : Reaches cells output outer)
      (holds : inner ∈ (cells.content outer).cells) : Reaches cells output inner

/-- The cells below an output form a finite forest: the output shows cells that there are, a cell
holds later cells only, and no cell stands in two places. -/
structure Forest (cells : Cells) (output : Output) : Prop where
  inBounds : ∀ id ∈ output.cells, id.index < cells.size
  rising : cells.Rising
  once : (output.cells ++ cells.held).Nodup

/-- A set that has the cells of an output, and with each cell those it holds, has all cells that the
output shows. -/
theorem Reaches.mem_of_closed {cells : Cells} {output : Output} {owned : List CellId}
    (roots : ∀ id ∈ output.cells, id ∈ owned)
    (closed : ∀ outer ∈ owned, ∀ inner ∈ (cells.content outer).cells, inner ∈ owned)
    {id : CellId} (reaches : cells.Reaches output id) : id ∈ owned := by
  induction reaches with
  | stands standing => exact roots _ standing
  | within _ holds ih => exact closed _ ih _ holds

theorem Rising.held_lt_size {cells : Cells} (rising : cells.Rising) {id : CellId}
    (member : id ∈ cells.held) : id.index < cells.size := by
  obtain ⟨outer, holds⟩ := mem_held.1 member
  exact (rising holds).2

theorem rising_empty : Cells.empty.Rising := by
  intro outer inner holds
  rw [content_of_size_le (Nat.zero_le _)] at holds
  simp at holds

theorem Rising.allot {cells : Cells} (rising : cells.Rising) (count : Nat) :
    (cells.allot count).Rising := by
  intro outer inner holds
  rw [content_allot] at holds
  have := rising holds
  simp only [size_allot]
  omega

/-- A cell may be filled with an output that shows later cells. -/
theorem Rising.set {cells : Cells} (rising : cells.Rising) {id : CellId} {output : Output}
    (h : id.index < cells.size)
    (later : ∀ inner ∈ output.cells, id.index < inner.index ∧ inner.index < cells.size) :
    (cells.set id output).Rising := by
  intro outer inner holds
  rw [size_set]
  by_cases same : outer = id
  · subst same
    rw [content_set_self h] at holds
    exact later inner holds
  · rw [content_set_of_ne same] at holds
    exact rising holds

theorem Forest.allot {cells : Cells} {output : Output} (forest : cells.Forest output)
    (count : Nat) : (cells.allot count).Forest output where
  inBounds id member := by
    have := forest.inBounds id member
    simp only [size_allot]
    omega
  rising := forest.rising.allot count
  once := by simpa using forest.once

/-- A forest grows where an empty cell is filled with later cells that stand nowhere yet. -/
theorem Forest.set {cells : Cells} {output contents : Output} (forest : cells.Forest output)
    {id : CellId} (bound : id.index < cells.size) (vacant : cells.content id = .empty)
    (later : ∀ inner ∈ contents.cells, id.index < inner.index ∧ inner.index < cells.size)
    (once : ((output.cells ++ cells.held) ++ contents.cells).Nodup) :
    (cells.set id contents).Forest output where
  inBounds := by simpa using forest.inBounds
  rising := forest.rising.set bound later
  once := by
    have perm := (held_set_of_empty bound vacant contents).append_left output.cells
    rw [← List.append_assoc] at perm
    exact perm.nodup_iff.2 once

/-! ### The text of an output -/

/-- The text of a fragment: a text itself, or what a cell holds. -/
def shown (cells : Cells) : Fragment → String
  | .text text => text
  | .cell id => cells.cellText id

theorem fragmentText_cell_of_size_le {cells : Cells} {id : CellId} (h : cells.size ≤ id.index)
    (bound : Nat) : cells.fragmentText bound (.cell id) = "" := by
  cases bound with
  | zero => rfl
  | succ bound =>
      simp [fragmentText, content_of_size_le h, Output.empty]

/-- Where some measure falls from every cell to the cells in it, a bound above the measure of a cell
makes no difference to its text. -/
theorem fragmentText_eq_of_falls {cells : Cells} {measure : CellId → Nat}
    (falls : ∀ {outer inner : CellId}, inner ∈ (cells.content outer).cells →
      inner.index < cells.size → measure inner < measure outer) :
    ∀ {first second : Nat} {id : CellId}, measure id < first → measure id < second →
      cells.fragmentText first (.cell id) = cells.fragmentText second (.cell id)
  | 0, _, _, enough, _ => absurd enough (Nat.not_lt_zero _)
  | _ + 1, 0, _, _, enough => absurd enough (Nat.not_lt_zero _)
  | first + 1, second + 1, id, enough, enough' => by
      simp only [fragmentText]
      congr 1
      apply List.map_congr_left
      intro fragment member
      cases fragment with
      | text text => simp [fragmentText]
      | cell inner =>
          have holds : inner ∈ (cells.content id).cells :=
            List.mem_filterMap.2 ⟨.cell inner, member, rfl⟩
          by_cases there : inner.index < cells.size
          · have := falls holds there
            exact fragmentText_eq_of_falls falls (by omega) (by omega)
          · have absent := Nat.le_of_not_lt there
            rw [fragmentText_cell_of_size_le absent, fragmentText_cell_of_size_le absent]

/-- Where cells hold later cells only, a bound above the number of cells that come after a cell
makes no difference to its text. -/
theorem Rising.fragmentText_eq {cells : Cells} (rising : cells.Rising) {first second : Nat}
    {id : CellId} (enough : cells.size ≤ id.index + first)
    (enough' : cells.size ≤ id.index + second) :
    cells.fragmentText first (.cell id) = cells.fragmentText second (.cell id) := by
  by_cases there : id.index < cells.size
  · have falls : ∀ {outer inner : CellId}, inner ∈ (cells.content outer).cells →
        inner.index < cells.size →
          cells.size - 1 - inner.index < cells.size - 1 - outer.index := by
      intro outer inner holds there
      have := rising holds
      omega
    exact fragmentText_eq_of_falls falls (by omega) (by omega)
  · have absent := Nat.le_of_not_lt there
    rw [fragmentText_cell_of_size_le absent, fragmentText_cell_of_size_le absent]

/-- No bound that is large enough is felt: looking through the cells of an output comes to an end by
itself. -/
theorem Rising.text_bound {cells : Cells} (rising : cells.Rising) (output : Output) {bound : Nat}
    (enough : cells.size ≤ bound) :
    String.join (output.fragments.map (cells.fragmentText bound)) = cells.text output := by
  unfold text
  congr 1
  apply List.map_congr_left
  intro fragment _
  cases fragment with
  | text text => simp [fragmentText]
  | cell id => exact rising.fragmentText_eq (by omega) (by omega)

/-- An output shows its texts and what its cells hold, one after another. -/
theorem text_eq_shown {cells : Cells} (rising : cells.Rising) (output : Output) :
    cells.text output = String.join (output.fragments.map cells.shown) := by
  rw [← rising.text_bound output (Nat.le_succ cells.size)]
  congr 1
  apply List.map_congr_left
  intro fragment _
  cases fragment with
  | text text => simp [fragmentText, shown]
  | cell id => rfl

@[simp] theorem text_empty (cells : Cells) : cells.text .empty = "" := by
  simp [text, Output.empty]

@[simp] theorem text_ofText (cells : Cells) (text : String) :
    cells.text (Output.ofText text) = text := by
  unfold Output.ofText
  split
  · have : text = "" := by simpa using ‹text.isEmpty = true›
    simp [this]
  · simp [Cells.text, fragmentText]

/-- Outputs that are joined show their texts one after another. -/
theorem text_join (cells : Cells) (fragments others : List Fragment) :
    cells.text ⟨Output.join fragments others⟩ = cells.text ⟨fragments⟩ ++ cells.text ⟨others⟩ := by
  fun_induction Output.join fragments others with
  | case1 others => simp [text]
  | case2 first second others => simp [text, fragmentText, String.append_assoc]
  | case3 fragment rest others _ ih =>
      have ih : String.join (List.map _ (Output.join rest others)) = _ := ih
      simp only [text, List.map_cons, String.join_cons, ih, String.append_assoc]

end Cells

end Quire
