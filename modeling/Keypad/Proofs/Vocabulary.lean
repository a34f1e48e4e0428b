import Keypad.Proofs.Keystrokes

/-!
# The vocabulary of the keypad

Whatever keys have written, the lexer knows every character of its canonical form: a number may
have a point too many or a point and nothing else, and nothing but that can go wrong.

A text made of strokes is respelt stroke by stroke. A glyph becomes its spelling, and any other
stroke is a character that begins no glyph; the lexer knows the characters of both.
-/

namespace Keypad

/-- Faults of a decimal point: it is the second of its number, or has no digit. -/
def LexError.IsPoint : LexError → Prop
  | .secondPoint _ | .lonePoint _ => True
  | .unknownCharacter _ _ => False

namespace Lexer

variable {c : Char} {rest text spelling : Text} {position : ℕ} {e : LexError}

theorem isPoint_of_numberAt (failed : numberAt position spelling = .error e) : e.IsPoint := by
  unfold numberAt at failed
  split at failed
  · cases failed
    trivial
  · split at failed
    · cases failed
      trivial
    · cases failed

/-- Where a symbol opens, only a decimal point can be wrong. -/
theorem isPoint_of_symbolAt (opens : opensSymbol c = true)
    (failed : symbolAt position c rest = .error e) : e.IsPoint := by
  unfold symbolAt at failed
  split_ifs at failed with number letter opening closing plus minus slash star
  · exact isPoint_of_numberAt failed
  · simp [opensSymbol] at opens
    simp_all

/-- A text of known characters has tokens, but for its decimal points. -/
theorem isPoint_of_tokensFrom (opens : text.all opensSymbol = true) (skip position : ℕ)
    (failed : tokensFrom skip position text = .error e) : e.IsPoint := by
  induction text generalizing skip position with
  | nil =>
      unfold tokensFrom at failed
      cases failed
  | cons c rest ih =>
      rw [List.all_cons, Bool.and_eq_true] at opens
      have others := ih opens.2
      cases skip with
      | succ skip => exact others skip (position + 1) failed
      | zero =>
          unfold tokensFrom at failed
          split at failed
          · exact others 0 (position + 1) failed
          · cases taken : symbolAt position c rest with
            | error fault =>
                rw [taken] at failed
                cases failed
                exact isPoint_of_symbolAt opens.1 taken
            | ok symbol =>
                rw [taken] at failed
                cases read : tokensFrom (symbol.spelling.length - 1) (position + 1) rest with
                | error fault =>
                    have same : fault = e := by simpa [read, bind, Except.bind] using failed
                    rw [same] at read
                    exact others _ _ read
                | ok tokens => simp [read, bind, Except.bind, pure, Except.pure] at failed

end Lexer

open Lexer

variable {text : Text}

/-- Glyphs are spelt with known characters, and a stroke that is no glyph begins none. -/
theorem all_opensSymbol_respell (h : Keyed text) : (respell text).all opensSymbol = true := by
  have spellings : glyphs.all (·.2.all opensSymbol) = true := by decide
  have functions : ∀ key ∈ Key.functions, key ∈ glyphs.map (·.1) := by decide
  have known : ∀ key ∈ Key.strokes, key ∉ glyphs.map (·.1) → key.all opensSymbol = true := by
    decide
  have heads : ∀ key ∈ Key.strokes, key ∉ glyphs.map (·.1) →
      ∀ entry ∈ glyphs, Text.Apart key entry.1 := by
    decide
  have respelt : ∃ after, Respelt glyphs text after ∧ after.all opensSymbol = true := by
    induction h with
    | nothing => exact ⟨[], .nothing, rfl⟩
    | @stroke key rest mem _ ih =>
        obtain ⟨after, spelt, others⟩ := ih
        by_cases glyph : key ∈ glyphs.map (·.1)
        · obtain ⟨entry, entered, rfl⟩ := List.mem_map.mp glyph
          refine ⟨entry.2 ++ after, .word entered spelt, ?_⟩
          rw [List.all_append, others, List.all_eq_true.mp spellings entry entered]
          rfl
        · have apart := heads key mem glyph
          obtain ⟨c, rfl⟩ := Keyed.eq_singleton mem fun function => glyph (functions key function)
          refine ⟨c :: after, .copied (fun entry entered => ?_) spelt, ?_⟩
          · exact (apart entry entered).not_prefix_append rest
          · have own : opensSymbol c = true := by simpa using known [c] mem glyph
            rw [List.all_cons, own, others]
            rfl
  obtain ⟨after, spelt, all⟩ := respelt
  rwa [respell_of_respelt spelt]

/-- Of the canonical form of a text made of strokes every character is known. -/
theorem all_opensSymbol_canonical (h : Keyed text) :
    (Canonical.ofKeypad text).text.all opensSymbol = true := by
  have closings : (List.replicate (missingClosings (respell text)) ')').all opensSymbol = true :=
    List.all_eq_true.mpr fun c mem => by
      rw [List.eq_of_mem_replicate mem]
      rfl
  change (closeParentheses (respell text)).all opensSymbol = true
  rw [closeParentheses, List.all_append, all_opensSymbol_respell h, closings]
  rfl

namespace Session

variable {c : Calculator}

/-- Whatever is typed in a session of key strokes, with numbers from the memory and from commits,
its canonical form has tokens, or its first fault is a decimal point: the second of a number, or
one without a digit. -/
theorem Pressed.tokensOf_canonical (h : Pressed c) (pending : c.pending = .typed text) :
    (∃ tokens, tokensOf (Canonical.ofKeypad text).text = .ok tokens) ∨
      (∃ position, tokensOf (Canonical.ofKeypad text).text = .error (.secondPoint position)) ∨
      (∃ position, tokensOf (Canonical.ofKeypad text).text = .error (.lonePoint position)) := by
  have keyed := PressedWithin.keyed_of_typed h pending
  cases lexed : tokensOf (Canonical.ofKeypad text).text with
  | ok tokens => exact .inl ⟨tokens, rfl⟩
  | error e =>
      have point := isPoint_of_tokensFrom (all_opensSymbol_canonical keyed) 0 0 lexed
      cases e with
      | secondPoint position => exact .inr (.inl ⟨position, rfl⟩)
      | lonePoint position => exact .inr (.inr ⟨position, rfl⟩)
      | unknownCharacter position character => exact point.elim

/-- Keys that commit a third and type the sine of two points behind it. -/
def thirdSine : List Text := [['1'], ['÷'], ['3'], ['='], "sin".toList, ['.'], ['.']]

/-- The canonical form of what they leave. -/
theorem tokensOf_thirdSine :
    let c := run (.new .degrees 1000) (thirdSine.map .press)
    let canonical := "0.333333333333sin_angle(..)".toList
    c.pending = .typed "0.333333333333sin(..".toList ∧
      ((∃ tokens, tokensOf canonical = .ok tokens) ∨
        (∃ position, tokensOf canonical = .error (.secondPoint position)) ∨
        (∃ position, tokensOf canonical = .error (.lonePoint position))) := by
  intro c canonical
  have pressed : Pressed c := Pressed.run (.start .degrees 1000) thirdSine
  have pending : c.pending = .typed "0.333333333333sin(..".toList := rfl
  have spelt : (Canonical.ofKeypad "0.333333333333sin(..".toList).text = canonical := by
    rfl
  have lexed := pressed.tokensOf_canonical pending
  rw [spelt] at lexed
  exact ⟨pending, lexed⟩

end Session

end Keypad
