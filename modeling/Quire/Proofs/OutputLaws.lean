/-
Module: Quire.Proofs.OutputLaws
Purpose: Outputs are the sequences of characters and cells: each sequence has one output, and to
  append outputs is to concatenate what they stand for.
Main exports: Symbol, Output.symbols, Output.Canonical, Output.ofSymbols, Output.ofSymbols_symbols,
  Output.append_assoc, Output.symbols_append, Output.Canonical.append
-/
import Mathlib.Data.List.Chain
import Quire.Proofs.CellHeap

/-!
How the text of an output is cut into fragments carries no meaning, and an output that is put
together by appending has no choice in it: its texts are as long as they can be, and none is empty.
Such an output is canonical. It can be put together again from the characters and cells that it
stands for, one after another, so there is just one for each sequence of them.
-/

namespace Quire

namespace Output

/-! ### Joining -/

@[simp] theorem join_nil (fragments : List Fragment) : join fragments [] = fragments := by
  induction fragments with
  | nil => rfl
  | cons fragment rest ih => simp [join, ih]

theorem join_cons {rest : List Fragment} (more : rest ≠ []) (fragment : Fragment)
    (others : List Fragment) : join (fragment :: rest) others = fragment :: join rest others := by
  cases rest with
  | nil => exact absurd rfl more
  | cons => simp [join]

theorem join_ne_nil {fragments : List Fragment} (some : fragments ≠ []) (others : List Fragment) :
    join fragments others ≠ [] := by
  fun_cases join fragments others <;> simp_all

/-- Where three texts meet, it does not matter which two become one first. -/
theorem join_assoc (first second third : List Fragment) :
    join (join first second) third = join first (join second third) := by
  induction first with
  | nil => rfl
  | cons fragment rest ih =>
      by_cases more : rest = []
      · subst more
        match fragment, second with
        | _, [] => rw [join_nil]; rfl
        | .cell _, _ => simp [join]
        | .text _, .cell _ :: _ => simp [join]
        | .text _, .text _ :: _ :: _ => simp [join]
        | .text _, [.text _] => cases third with
            | nil => simp [join]
            | cons fragment rest => cases fragment <;> simp [join, String.append_assoc]
      · rw [join_cons more, join_cons (join_ne_nil more second), join_cons more, ih]

/-! ### Appending -/

theorem append_assoc (first second third : Output) :
    (first.append second).append third = first.append (second.append third) :=
  congrArg Output.mk (join_assoc first.fragments second.fragments third.fragments)

@[simp] theorem empty_append (output : Output) : empty.append output = output := rfl

@[simp] theorem append_empty (output : Output) : output.append empty = output :=
  congrArg Output.mk (join_nil output.fragments)

@[simp] theorem ofText_empty : ofText "" = empty := rfl

theorem ofText_of_ne {text : String} (some : text ≠ "") : ofText text = ⟨[.text text]⟩ := by
  simp [ofText, some]

/-- Texts that are appended are one text. -/
theorem ofText_append (text more : String) :
    (ofText text).append (ofText more) = ofText (text ++ more) := by
  by_cases none : text = ""
  · simp [none]
  · by_cases nothing : more = ""
    · simp [nothing]
    · have some : text ++ more ≠ "" := by simp [none]
      rw [ofText_of_ne none, ofText_of_ne nothing, ofText_of_ne some]
      rfl

/-- To push a text and then another is to push both as one. -/
theorem pushText_pushText (output : Output) (text more : String) :
    (output.pushText text).pushText more = output.pushText (text ++ more) := by
  rw [pushText, pushText, append_assoc, ofText_append, pushText]

/-- Fragments that do not meet as texts are put side by side. -/
theorem join_singleton {fragment : Fragment} {others : List Fragment}
    (apart : ∀ first second rest, fragment = .text first → others ≠ .text second :: rest) :
    join [fragment] others = fragment :: others := by
  match fragment, others with
  | .cell _, _ => simp [join]
  | .text _, [] => simp [join]
  | .text _, .cell _ :: _ => simp [join]
  | .text first, .text second :: rest => exact absurd rfl (apart first second rest rfl)

end Output

/-! ### What an output stands for -/

/-- A character of the text of an output, or a cell in it. -/
inductive Symbol where
  | char (c : Char)
  | cell (id : CellId)
deriving DecidableEq, Repr

/-- The characters of a text, or a cell by itself. -/
def Fragment.symbols : Fragment → List Symbol
  | .text content => content.toList.map .char
  | .cell id => [.cell id]

namespace Output

/-- The characters and cells of an output, in order. -/
def symbols (output : Output) : List Symbol :=
  output.fragments.flatMap Fragment.symbols

@[simp] theorem symbols_empty : empty.symbols = [] := rfl

@[simp] theorem symbols_ofText (text : String) :
    (ofText text).symbols = text.toList.map .char := by
  by_cases none : text = ""
  · simp [none]
  · simp [ofText_of_ne none, symbols, Fragment.symbols]

@[simp] theorem symbols_ofCell (id : CellId) : (ofCell id).symbols = [.cell id] := rfl

/-- What outputs stand for is appended as they are. -/
@[simp] theorem symbols_append (first second : Output) :
    (first.append second).symbols = first.symbols ++ second.symbols := by
  obtain ⟨fragments⟩ := first
  obtain ⟨others⟩ := second
  simp only [append, symbols]
  fun_induction join fragments others with
  | case1 others => rfl
  | case2 first second others => simp [Fragment.symbols]
  | case3 fragment rest others _ ih => simp [ih]

@[simp] theorem symbols_pushText (output : Output) (text : String) :
    (output.pushText text).symbols = output.symbols ++ text.toList.map .char := by
  rw [pushText, symbols_append, symbols_ofText]

@[simp] theorem symbols_pushCell (output : Output) (id : CellId) :
    (output.pushCell id).symbols = output.symbols ++ [.cell id] := by
  rw [pushCell, symbols_append, symbols_ofCell]

end Output

/-! ### Canonical outputs -/

/-- Whether a fragment is a text. -/
def Fragment.isText : Fragment → Bool
  | .text _ => true
  | .cell _ => false

/-- No text in an output is empty, and no two texts are adjacent. -/
structure Output.Canonical (output : Output) : Prop where
  filled : .text "" ∉ output.fragments
  apart : output.fragments.IsChain fun left right => ¬ (left.isText ∧ right.isText)

namespace Output

theorem canonical_empty : empty.Canonical := ⟨by simp [empty], by simp [empty]⟩

theorem canonical_ofText (text : String) : (ofText text).Canonical := by
  by_cases none : text = ""
  · simpa [none] using canonical_empty
  · rw [ofText_of_ne none]
    exact ⟨by simpa using Ne.symm none, by simp⟩

theorem canonical_ofCell (id : CellId) : (ofCell id).Canonical :=
  ⟨by simp [ofCell], by simp [ofCell]⟩

theorem Canonical.tail {fragment : Fragment} {rest : List Fragment}
    (canonical : Canonical ⟨fragment :: rest⟩) : Canonical ⟨rest⟩ :=
  ⟨fun member => canonical.filled (List.mem_cons_of_mem _ member),
    (List.isChain_cons.1 canonical.apart).2⟩

/-- What is joined begins as its first part does. -/
theorem head?_join {fragments : List Fragment} (some : fragments ≠ []) (others : List Fragment) :
    (join fragments others).head?.map Fragment.isText = fragments.head?.map Fragment.isText := by
  fun_cases join fragments others with
  | case1 => exact absurd rfl some
  | case2 => rfl
  | case3 => rfl

/-- Appending keeps outputs canonical: it closes up the one place where texts can meet. -/
theorem Canonical.append {first second : Output} (canonical : first.Canonical)
    (canonical' : second.Canonical) : (first.append second).Canonical := by
  obtain ⟨fragments⟩ := first
  obtain ⟨others⟩ := second
  simp only [Output.append]
  fun_induction join fragments others with
  | case1 others => exact canonical'
  | case2 first second others =>
      have some : first ≠ "" := by simpa using Ne.symm (by simpa using canonical.filled)
      refine ⟨?_, ?_⟩
      · simpa [some] using canonical'.tail.filled
      · exact List.isChain_cons.2 (List.isChain_cons.1 canonical'.apart)
  | case3 fragment rest others separate ih =>
      have inner := ih canonical.tail canonical'
      refine ⟨?_, List.isChain_cons.2 ⟨?_, inner.apart⟩⟩
      · intro member
        rcases List.mem_cons.1 member with here | there
        · exact canonical.filled (here ▸ List.mem_cons_self)
        · exact inner.filled there
      · intro next leads both
        cases rest with
        | nil =>
            cases others with
            | nil => cases leads
            | cons other later =>
                cases leads
                cases fragment with
                | cell id => simp [Fragment.isText] at both
                | text first =>
                    cases next with
                    | cell id => simp [Fragment.isText] at both
                    | text second => exact separate first second later rfl rfl rfl
        | cons second rest =>
            have kind := head?_join (List.cons_ne_nil second rest) others
            simp only [Option.mem_def.1 leads, List.head?_cons, Option.map_some,
              Option.some.injEq] at kind
            have apart := (List.isChain_cons.1 canonical.apart).1 second rfl
            exact apart (kind ▸ both)

/-! ### One output for each sequence of symbols -/

/-- The output of a symbol. -/
def ofSymbol : Symbol → Output
  | .char c => ofText (String.singleton c)
  | .cell id => ofCell id

/-- The output of symbols, appended one after another. -/
def ofSymbols (symbols : List Symbol) : Output :=
  symbols.foldr (fun symbol output => (ofSymbol symbol).append output) empty

@[simp] theorem ofSymbols_cons (symbol : Symbol) (rest : List Symbol) :
    ofSymbols (symbol :: rest) = (ofSymbol symbol).append (ofSymbols rest) := rfl

theorem ofSymbols_append (symbols others : List Symbol) :
    ofSymbols (symbols ++ others) = (ofSymbols symbols).append (ofSymbols others) := by
  induction symbols with
  | nil => rfl
  | cons symbol rest ih => simp [ih, append_assoc]

/-- The characters of a text make up one text again. -/
theorem ofSymbols_map_char (cs : List Char) :
    ofSymbols (cs.map .char) = ofText (String.ofList cs) := by
  induction cs with
  | nil => rfl
  | cons c rest ih =>
      have whole : String.singleton c ++ String.ofList rest = String.ofList (c :: rest) := by simp
      rw [List.map_cons, ofSymbols_cons, ih, ofSymbol, ofText_append, whole]

theorem symbols_ofSymbols (symbols : List Symbol) : (ofSymbols symbols).symbols = symbols := by
  induction symbols with
  | nil => rfl
  | cons symbol rest ih => cases symbol <;> simp [ofSymbol, ih]

theorem canonical_ofSymbols (symbols : List Symbol) : (ofSymbols symbols).Canonical := by
  induction symbols with
  | nil => exact canonical_empty
  | cons symbol rest ih =>
      cases symbol with
      | char c => exact (canonical_ofText _).append ih
      | cell id => exact (canonical_ofCell id).append ih

/-- A fragment at the end of an output. -/
def push (output : Output) : Fragment → Output
  | .text content => output.pushText content
  | .cell id => output.pushCell id

theorem push_eq_append (output : Output) (fragment : Fragment) :
    output.push fragment = output.append (ofSymbols fragment.symbols) := by
  cases fragment with
  | text text => rw [Fragment.symbols, ofSymbols_map_char, String.ofList_toList]; rfl
  | cell id => rfl

/-- A canonical output is its first fragment and the rest, appended. -/
theorem Canonical.cons_eq_append {fragment : Fragment} {rest : List Fragment}
    (canonical : Canonical ⟨fragment :: rest⟩) :
    (⟨fragment :: rest⟩ : Output) = (ofSymbols fragment.symbols).append ⟨rest⟩ := by
  have alone : ofSymbols fragment.symbols = ⟨[fragment]⟩ := by
    rw [← empty_append (ofSymbols fragment.symbols), ← push_eq_append]
    cases fragment with
    | cell id => rfl
    | text text =>
        have some : text ≠ "" := by
          rintro rfl
          exact canonical.filled List.mem_cons_self
        exact ofText_of_ne some
  rw [alone, Output.append, join_singleton]
  rintro first second later rfl rfl
  exact (List.isChain_cons.1 canonical.apart).1 _ rfl ⟨rfl, rfl⟩

/-- To append a canonical output is to push its fragments, one after another. -/
theorem append_eq_foldl_push (output : Output) {other : Output} (canonical : other.Canonical) :
    output.append other = other.fragments.foldl push output := by
  obtain ⟨fragments⟩ := other
  induction fragments generalizing output with
  | nil => exact append_empty output
  | cons fragment rest ih =>
      have rest' := ih (output.push fragment) canonical.tail
      rw [List.foldl_cons, ← rest', push_eq_append, append_assoc, ← canonical.cons_eq_append]

/-- A canonical output is the output of the symbols that it stands for. -/
theorem ofSymbols_symbols {output : Output} (canonical : output.Canonical) :
    ofSymbols output.symbols = output := by
  obtain ⟨fragments⟩ := output
  induction fragments with
  | nil => rfl
  | cons fragment rest ih =>
      have symbols : (⟨fragment :: rest⟩ : Output).symbols =
          fragment.symbols ++ (⟨rest⟩ : Output).symbols := rfl
      rw [symbols, ofSymbols_append, ih canonical.tail, ← canonical.cons_eq_append]

/-- Canonical outputs that stand for the same are the same. -/
theorem Canonical.eq_of_symbols_eq {first second : Output} (canonical : first.Canonical)
    (canonical' : second.Canonical) (same : first.symbols = second.symbols) : first = second := by
  rw [← ofSymbols_symbols canonical, ← ofSymbols_symbols canonical', same]

end Output

end Quire
