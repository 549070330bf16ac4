/-
Module: Quire.Proofs.Steps
Purpose: What a lexeme does to an assembly, and when: the cases in which a step of building
  succeeds.
Main exports: bind_ok_iff, Assembly.Accepts, Assembly.LexemeFits, Assembly.fits_of_step,
  Assembly.step_of_fits
-/
import Quire.Proofs.Markup

/-!
A step of building succeeds in a few ways only. They are told here once, with all that a lexeme must
have for each, so that what is proved of building does not go into the builder again.
-/

namespace Quire

theorem bind_ok_iff {ε α β : Type} {first : Except ε α} {second : α → Except ε β} {result : β} :
    (first >>= second) = .ok result ↔ ∃ mid, first = .ok mid ∧ second mid = .ok result := by
  cases first with
  | error error => simp [bind, Except.bind]
  | ok mid => simp [bind, Except.bind]

/-- What becomes of an assembly by a tag that may stand where it comes. -/
inductive Assembly.Accepts (assembly : Assembly) : Mark → Assembly → Prop where
  | block {name : String} (fresh : name ∉ assembly.names) :
      Accepts assembly (.block name)
        { assembly.enter (.block name []) with names := name :: assembly.names }
  | inheritance {target : Target} (first : assembly.siblings = 0) :
      Accepts assembly (.inheritance target) (assembly.add (.inheritance target))
  | inclusion (target : Target) :
      Accepts assembly (.inclusion target) (assembly.add (.inclusion target))
  | loop (spec : Loop) : Accepts assembly (.loop spec) (assembly.enter (.loop spec []))
  | conditional (condition : Condition) :
      Accepts assembly (.conditional condition) (assembly.enter (.conditional condition []))
  | divider {condition : Condition} {children : List Child} {outer : List Frame}
      (guard : Option Condition)
      (inside : assembly.frames = .conditional condition children :: outer) :
      Accepts assembly (.otherwise guard) { assembly with
        frames := .conditional condition (children ++ [.divider guard]) :: outer }

/-- What becomes of an assembly by a lexeme that may come next. -/
inductive Assembly.LexemeFits (fetch : String → Except Error Template) (assembly : Assembly) :
    Lexeme → Assembly → Prop where
  | text (text : String) : LexemeFits fetch assembly (.text text) (assembly.add (.text text))
  | value (written : String) :
      LexemeFits fetch assembly (.value written) (assembly.add (.value (Text.trimmed written)))
  | opening {mark : Mark} {params : String} {next : Assembly}
      (written : mark.Written fetch (Text.trimmed params)) (accepts : assembly.Accepts mark next) :
      LexemeFits fetch assembly (.opening mark.tag.name params) next
  | closing {frame : Frame} {outer : List Frame} {node : Node}
      (inside : assembly.frames = frame :: outer) (closed : frame.close = .ok node) :
      LexemeFits fetch assembly (.closing frame.tag.name)
        ({ assembly with frames := outer }.add node)

theorem Tag.name_of_named? {name : String} {tag : Tag} (known : Tag.named? name = some tag) :
    tag.name = name := by
  simpa using List.find?_some known

theorem Tag.named?_name (tag : Tag) : Tag.named? tag.name = some tag := by
  cases tag <;> rfl

namespace Assembly

theorem blame_ok_iff {α : Type} {template : String} {result : Except Fault α} {value : α} :
    blame template result = .ok value ↔ result = .ok value := by
  cases result <;> simp [blame]

variable {fetch : String → Except Error Template}

/-- A tag that is taken has parameters that state a mark, and the assembly accepts the mark. -/
theorem accepts_of_openTag {template params : String} {assembly next : Assembly} {tag : Tag}
    (ok : openTag fetch template assembly params tag = .ok next) :
    ∃ mark : Mark, mark.tag = tag ∧ mark.Written fetch params ∧ Accepts assembly mark next := by
  cases tag with
  | block =>
      simp only [openTag, blame_ok_iff] at ok
      split at ok
      · simp [invalid] at ok
      · split at ok
        · simp at ok
        · cases ok
          exact ⟨_, rfl, .block ‹_›, .block ‹_›⟩
  | inheritance =>
      simp only [openTag] at ok
      split at ok
      · simp [invalid, blame] at ok
      · split at ok
        · obtain ⟨target, resolved, done⟩ := bind_ok_iff.1 ok
          cases done
          exact ⟨_, rfl, .inheritance ‹_› resolved, .inheritance ‹_›⟩
        · simp [blame] at ok
  | inclusion =>
      simp only [openTag] at ok
      split at ok
      · simp [invalid, blame] at ok
      · obtain ⟨target, resolved, done⟩ := bind_ok_iff.1 ok
        cases done
        exact ⟨_, rfl, .inclusion ‹_› resolved, .inclusion target⟩
  | loop =>
      simp only [openTag, blame_ok_iff] at ok
      cases parsed : Loop.parse params with
      | error fault => simp [parsed, Except.map] at ok
      | ok spec =>
          simp only [parsed, Except.map] at ok
          cases ok
          exact ⟨_, rfl, .loop parsed, .loop spec⟩
  | conditional =>
      simp only [openTag, blame_ok_iff] at ok
      split at ok
      · simp [invalid] at ok
      · cases ok
        exact ⟨_, rfl, .conditional ‹_›, .conditional _⟩
  | otherwise =>
      simp only [openTag, blame_ok_iff, divide] at ok
      split at ok
      · obtain ⟨guard, parsed, done⟩ := bind_ok_iff.1 ok
        cases done
        exact ⟨_, rfl, .otherwise parsed, .divider guard ‹_›⟩
      · simp at ok

theorem openTag_of_accepts {template params : String} {assembly next : Assembly} {mark : Mark}
    (written : mark.Written fetch params) (accepts : Accepts assembly mark next) :
    openTag fetch template assembly params mark.tag = .ok next := by
  cases accepts with
  | block fresh =>
      cases written with
      | block named => simp [Mark.tag, openTag, named, fresh, blame]
  | inheritance first =>
      cases written with
      | inheritance parsed resolved =>
          simp [Mark.tag, openTag, parsed, first, resolved, bind, Except.bind, pure, Except.pure]
  | inclusion target =>
      cases written with
      | inclusion parsed resolved =>
          simp [Mark.tag, openTag, parsed, resolved, bind, Except.bind, pure, Except.pure]
  | loop spec =>
      cases written with
      | loop parsed => simp [Mark.tag, openTag, parsed, Except.map, blame]
  | conditional condition =>
      cases written with
      | conditional parsed => simp [Mark.tag, openTag, parsed, blame]
  | divider guard inside =>
      cases written with
      | otherwise parsed =>
          simp [Mark.tag, openTag, divide, inside, parsed, blame, bind, Except.bind, pure,
            Except.pure]

/-- A lexeme is taken only if it fits. -/
theorem fits_of_step {template : String} {assembly next : Assembly} {lexeme : Lexeme}
    (ok : step fetch template assembly lexeme = .ok next) :
    LexemeFits fetch assembly lexeme next := by
  cases lexeme with
  | text text =>
      cases ok
      exact .text text
  | value written =>
      cases ok
      exact .value written
  | opening name params =>
      simp only [step] at ok
      split at ok
      · simp [blame] at ok
      · rename_i tag known
        obtain ⟨mark, same, written, accepts⟩ := accepts_of_openTag ok
        rw [← Tag.name_of_named? known, ← same]
        exact .opening written accepts
  | closing name =>
      simp only [step, blame_ok_iff, close] at ok
      split at ok
      · simp at ok
      · split at ok
        · rename_i same
          obtain ⟨node, closed, done⟩ := bind_ok_iff.1 ok
          cases done
          rw [← same]
          exact .closing ‹_› closed
        · simp at ok

/-- A lexeme that fits is taken. -/
theorem step_of_fits {template : String} {assembly next : Assembly} {lexeme : Lexeme}
    (fits : LexemeFits fetch assembly lexeme next) :
    step fetch template assembly lexeme = .ok next := by
  cases fits with
  | text text => rfl
  | value written => rfl
  | opening written accepts =>
      simp only [step, Tag.named?_name]
      exact openTag_of_accepts written accepts
  | closing inside closed =>
      simp [step, close, inside, closed, blame, bind, Except.bind, pure, Except.pure]

end Assembly

end Quire
