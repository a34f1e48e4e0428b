import Keypad.Calculate
import Keypad.Proofs.Lexing
import Keypad.Proofs.Reading
import Keypad.Proofs.Respelling

/-!
# Numbers as expressions

What the display shows of a number is looked at as a keypad text. No glyph stands in it, so it
is its own canonical form. A plain spelling, perhaps behind a minus sign, is an expression for
its number. A spelling with an exponent is not: after its digits stands the letter `e`, which
names Euler's number, and a name cannot follow a number.
-/

namespace Keypad

open Decimal

/-- The characters of written numbers. -/
def IsNumeric (text : Text) : Prop :=
  ∀ c ∈ text, isDigit c = true ∨ c = '.' ∨ c = '-' ∨ c = '+' ∨ c = 'e'

variable {c : Char} {a rest text : Text}

/-- The characters that glyphs of more than one spelling begin with. -/
def glyphHeads : Text := ['s', 'c', 't', 'l', '√', '×', '÷', '%', 'π', '^']

theorem not_mem_glyphHeads
    (h : isDigit c = true ∨ c = '.' ∨ c = '-' ∨ c = '+' ∨ c = 'e') : c ∉ glyphHeads := by
  rcases h with digit | rfl | rfl | rfl | rfl
  · have none : glyphHeads.all (!isDigit ·) = true := by decide
    intro mem
    have other := List.all_eq_true.mp none c mem
    rw [digit] at other
    cases other
  · decide
  · decide
  · decide
  · decide

/-- Every glyph begins with one of them, or is the letter `e`. -/
theorem head_of_glyph {word : Text} (mem : word ∈ glyphs.map (·.1)) :
    ∃ d others, word = d :: others ∧ (d ∈ glyphHeads ∨ d = 'e') := by
  have cut : (glyphs.map (·.1)).all
      (·.head?.any fun d => glyphHeads.contains d || d == 'e') = true := by
    decide
  have begins := List.all_eq_true.mp cut word mem
  obtain ⟨d, head, among⟩ := (Option.any_eq_true _ _).mp begins
  obtain ⟨others, rfl⟩ := List.head?_eq_some_iff.mp head
  exact ⟨d, others, rfl, by simpa using among⟩

/-- A text without glyphs is its own spelling. The letter `e` is a glyph that is spelt as itself. -/
theorem respell_of_isNumeric (h : IsNumeric text) : respell text = text := by
  have copied : Respelt glyphs text text := by
    induction text with
    | nil => exact .nothing
    | cons c rest ih =>
        have own := h c List.mem_cons_self
        have others := ih fun d mem => h d (List.mem_cons_of_mem c mem)
        by_cases e : c = 'e'
        · subst e
          have glyph : (['e'], ['e']) ∈ glyphs := by decide
          have replaced := Respelt.word glyph others
          exact replaced
        · refine .copied (fun entry mem begins => ?_) others
          obtain ⟨d, tail, word, head⟩ := head_of_glyph (List.mem_map_of_mem mem)
          rw [word] at begins
          obtain rfl : d = c := (List.cons_prefix_cons.mp begins).1
          exact head.elim (not_mem_glyphHeads own) e
  exact respell_of_respelt copied

theorem IsNumeric.not_mem {d : Char} (h : IsNumeric text)
    (other : ¬ (isDigit d = true ∨ d = '.' ∨ d = '-' ∨ d = '+' ∨ d = 'e')) : d ∉ text :=
  fun mem => other (h d mem)

/-- A text without a slash divides by nothing. -/
theorem dividesByWrittenZero_of_not_mem (h : '/' ∉ text) : dividesByWrittenZero text = false := by
  induction text with
  | nil => rfl
  | cons c rest ih =>
      have own : (c == '/') = false := by
        rw [beq_eq_false_iff_ne]
        rintro rfl
        exact h List.mem_cons_self
      have others := ih fun mem => h (List.mem_cons_of_mem c mem)
      simp [dividesByWrittenZero, own, others]

/-- A written number is its own canonical form. -/
theorem ofKeypad_of_isNumeric (h : IsNumeric text) : Canonical.ofKeypad text = ⟨text, false⟩ := by
  have opening : text.count '(' = 0 := List.count_eq_zero.mpr (h.not_mem (by decide))
  have closed : closeParentheses text = text := by
    simp [closeParentheses, missingClosings, opening]
  unfold Canonical.ofKeypad
  dsimp only
  rw [respell_of_isNumeric h, closed, dividesByWrittenZero_of_not_mem (h.not_mem (by decide))]

namespace Lexer

/-- A plain spelling is taken whole where no digit or point follows. -/
theorem tokensFrom_number (position : ℕ) (h : isPlain a = true)
    (stops : ∀ c ∈ rest.head?, isNumberChar c = false) :
    tokensFrom 0 position (a ++ rest) =
      (Token.mk (.number a) position :: ·) <$> tokensFrom 0 (position + a.length) rest := by
  exact tokensFrom_symbol (.number a) h stops position

/-- A plain spelling at the end is the only token there. -/
theorem tokensFrom_last (position : ℕ) (h : isPlain a = true) :
    tokensFrom 0 position a = .ok [⟨.number a, position⟩] := by
  have tokens : tokensFrom 0 position (a ++ []) =
      (Token.mk (.number a) position :: ·) <$> tokensFrom 0 (position + a.length) [] :=
    tokensFrom_number position h fun c mem => by cases mem
  rw [List.append_nil] at tokens
  rw [tokens]
  rfl

/-- A sign is an operator by itself. -/
theorem tokensFrom_sign {op : Operator} (position : ℕ) (rest : Text)
    (sign : op = .plus ∧ c = '+' ∨ op = .minus ∧ c = '-') :
    tokensFrom 0 position (c :: rest) =
      (Token.mk (.operator op) position :: ·) <$> tokensFrom 0 (position + 1) rest := by
  rcases sign with ⟨rfl, rfl⟩ | ⟨rfl, rfl⟩
  · exact tokensFrom_symbol (.operator .plus) trivial trivial position
  · exact tokensFrom_symbol (.operator .minus) trivial trivial position

/-- The letter `e` before a sign is a name by itself. -/
theorem tokensFrom_e (position : ℕ) {sign : Char} (rest : Text) (h : isNameChar sign = false) :
    tokensFrom 0 position ('e' :: sign :: rest) =
      (Token.mk (.name ['e']) position :: ·) <$> tokensFrom 0 (position + 1) (sign :: rest) := by
  have ends : (Symbol.name ['e']).Ends (sign :: rest) := by simpa [Symbol.Ends] using h
  exact tokensFrom_symbol (.name ['e']) rfl ends position

end Lexer

open Lexer

/-- The only token of a plain spelling. -/
theorem tokensOf_plain (h : isPlain a = true) : tokensOf a = .ok [⟨.number a, 0⟩] := by
  rw [tokensOf, tokensFrom_last 0 h]

theorem tokensOf_neg_plain (h : isPlain a = true) :
    tokensOf ('-' :: a) = .ok [⟨.operator .minus, 0⟩, ⟨.number a, 1⟩] := by
  rw [tokensOf, tokensFrom_sign 0 a (.inr ⟨rfl, rfl⟩), tokensFrom_last (0 + 1) h]
  rfl

/-- A spelling with an exponent has a name after its first number. -/
theorem tokensFrom_exponent (position : ℕ) (h : isPlain a = true) {b : Text}
    (hb : isPlain b = true) {sign : Char} {op : Operator}
    (signs : op = .plus ∧ sign = '+' ∨ op = .minus ∧ sign = '-') :
    ∃ others, tokensFrom 0 position (a ++ 'e' :: sign :: b) =
      .ok (⟨.number a, position⟩ :: ⟨.name ['e'], position + a.length⟩ :: others) := by
  have stops : ∀ c ∈ ('e' :: sign :: b).head?, isNumberChar c = false := by
    intro c mem
    cases mem
    rfl
  have name : isNameChar sign = false := by
    rcases signs with ⟨_, rfl⟩ | ⟨_, rfl⟩
    · rfl
    · rfl
  refine ⟨[⟨.operator op, position + a.length + 1⟩,
    ⟨.number b, position + a.length + 1 + 1⟩], ?_⟩
  rw [tokensFrom_number position h stops, tokensFrom_e _ _ name, tokensFrom_sign _ _ signs,
    tokensFrom_last _ hb]
  rfl

variable (unit : AngleUnit)

theorem isNumeric_of_isPlain (h : isPlain a = true) : IsNumeric a := by
  intro c mem
  rcases digit_or_point_of_isPlain h mem with digit | point
  · exact .inl digit
  · exact .inr (.inl point)

theorem IsNumeric.cons (h : IsNumeric a)
    (own : isDigit c = true ∨ c = '.' ∨ c = '-' ∨ c = '+' ∨ c = 'e') : IsNumeric (c :: a) := by
  intro d mem
  rcases List.mem_cons.mp mem with rfl | mem
  · exact own
  · exact h d mem

theorem IsNumeric.append {b : Text} (ha : IsNumeric a) (hb : IsNumeric b) :
    IsNumeric (a ++ b) := by
  intro c mem
  rcases List.mem_append.mp mem with left | right
  · exact ha c left
  · exact hb c right

/-- A plain spelling is calculated to its number. -/
theorem calculate_plain (h : isPlain a = true) :
    calculate .standard unit a = .ofNumber (Symbol.valueOf a) := by
  have read : Expr.ofText Limits.standard.reading a = .ok (.number (Symbol.valueOf a)) := by
    rw [Expr.ofText, tokensOf_plain h]
    rfl
  have value : valueOfText .standard unit a = .ok (some (Symbol.valueOf a)) := by
    rw [valueOfText, read]
    rfl
  rw [calculate, ofKeypad_of_isNumeric (isNumeric_of_isPlain h), Canonical.result,
    if_neg Bool.false_ne_true, value]
  rfl

theorem calculate_neg_plain (h : isPlain a = true) :
    calculate .standard unit ('-' :: a) = .ofNumber (-Symbol.valueOf a) := by
  have read : Expr.ofText Limits.standard.reading ('-' :: a) =
      .ok (.unary Operator.minus.symbol (.number (Symbol.valueOf a))) := by
    rw [Expr.ofText, tokensOf_neg_plain h]
    rfl
  have value : valueOfText .standard unit ('-' :: a) = .ok (some (-Symbol.valueOf a)) := by
    rw [valueOfText, read]
    rfl
  have numeric := (isNumeric_of_isPlain h).cons (c := '-') (.inr (.inr (.inl rfl)))
  rw [calculate, ofKeypad_of_isNumeric numeric, Canonical.result, if_neg Bool.false_ne_true, value]
  rfl

/-- No expression goes on with a name after a number. -/
theorem ofText_of_number_name {spelling name : Text} {p q : ℕ} {others : List Token}
    (lexed : tokensOf text = .ok (⟨.number spelling, p⟩ :: ⟨.name name, q⟩ :: others)) :
    ∃ fault, Expr.ofText Limits.standard.reading text = .error (.fault (.grammatical fault)) := by
  rw [Expr.ofText, lexed]
  exact ⟨_, rfl⟩

theorem ofText_of_neg_number_name {spelling name : Text} {o p q : ℕ} {others : List Token}
    (lexed : tokensOf text =
      .ok (⟨.operator .minus, o⟩ :: ⟨.number spelling, p⟩ :: ⟨.name name, q⟩ :: others)) :
    ∃ fault, Expr.ofText Limits.standard.reading text = .error (.fault (.grammatical fault)) := by
  rw [Expr.ofText, lexed]
  exact ⟨_, rfl⟩

/-- A written number that is no expression is of invalid format. -/
theorem calculate_of_refused unit (numeric : IsNumeric text)
    (refused : ∃ fault,
      Expr.ofText Limits.standard.reading text = .error (.fault (.grammatical fault))) :
    calculate .standard unit text = .failure .invalidFormat := by
  obtain ⟨fault, refused⟩ := refused
  have value : valueOfText .standard unit text = .error (.fault (.text (.grammatical fault))) := by
    rw [valueOfText, refused]
  rw [calculate, ofKeypad_of_isNumeric numeric, Canonical.result, if_neg Bool.false_ne_true, value]

/-- A spelling with an exponent is of invalid format, with or without a sign before it. -/
theorem calculate_exponent (h : isPlain a = true) {b : Text} (hb : isPlain b = true) {sign : Char}
    (signs : sign = '+' ∨ sign = '-') :
    calculate .standard unit (a ++ 'e' :: sign :: b) = .failure .invalidFormat ∧
      calculate .standard unit ('-' :: (a ++ 'e' :: sign :: b)) = .failure .invalidFormat := by
  obtain ⟨op, operator⟩ : ∃ op : Operator, op = .plus ∧ sign = '+' ∨ op = .minus ∧ sign = '-' := by
    rcases signs with plus | minus
    · exact ⟨.plus, .inl ⟨rfl, plus⟩⟩
    · exact ⟨.minus, .inr ⟨rfl, minus⟩⟩
  have numeric : IsNumeric (a ++ 'e' :: sign :: b) := by
    refine (isNumeric_of_isPlain h).append (((isNumeric_of_isPlain hb).cons ?_).cons ?_)
    · rcases signs with rfl | rfl <;> simp
    · simp
  constructor
  · obtain ⟨others, lexed⟩ := tokensFrom_exponent 0 h hb operator
    exact calculate_of_refused unit numeric (ofText_of_number_name lexed)
  · obtain ⟨others, tokens⟩ := tokensFrom_exponent (0 + 1) h hb operator
    have lexed : tokensOf ('-' :: (a ++ 'e' :: sign :: b)) =
        .ok (⟨.operator .minus, 0⟩ :: ⟨.number a, 0 + 1⟩ ::
          ⟨.name ['e'], 0 + 1 + a.length⟩ :: others) := by
      rw [tokensOf, tokensFrom_sign 0 _ (.inr ⟨rfl, rfl⟩), tokens]
      rfl
    apply calculate_of_refused unit (numeric.cons (.inr (.inr (.inl rfl))))
    exact ofText_of_neg_number_name lexed

end Keypad
