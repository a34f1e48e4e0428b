import Keypad.Expr.Lexer
import Keypad.Proofs.ReadBack

/-!
# How a text splits into symbols

The lexer takes the longest symbol at each place. Which symbols a text has is said here without
it: `Splits` takes a text apart into blanks and spelt symbols, each of which goes no further than
it has to (`Symbol.Ends`). The lexer finds exactly these (`tokensFrom_iff_splits`), whatever the
place is at which the text begins; and each token says the place at which its symbol is spelt
(`tokensFrom_iff_placed`).

So what is known about a text carries over to a longer one: texts are put together at any place
where every symbol would end anyway (`Splits.append`), and a text has as many parentheses of each
kind as it has symbols for them.
-/

namespace Keypad

open Decimal

variable {c : Char} {a b rest taken left text : Text}

namespace Lexer

/-- A character that opens a symbol. -/
def opensSymbol (c : Char) : Bool :=
  isNumberChar c || isNameStart c || "()+-/*".toList.contains c

/-- No visible character of the ASCII range is a blank. -/
theorem isBlank_of_visible (h : 0x21 ≤ c.toNat) (h' : c.toNat ≤ 0x7e) :
    Text.isBlank c = false := by
  simp only [Text.isBlank, Bool.or_eq_false_iff, Bool.and_eq_false_iff, decide_eq_false_iff_not,
    beq_eq_false_iff_ne]
  omega

theorem toNat_of_isDigit (h : isDigit c = true) : 48 ≤ c.toNat ∧ c.toNat ≤ 57 := by
  simp only [isDigit, Bool.and_eq_true, decide_eq_true_eq] at h
  exact h

theorem toNat_of_isNameStart (h : isNameStart c = true) :
    65 ≤ c.toNat ∧ c.toNat ≤ 90 ∨ c.toNat = 95 ∨ 97 ≤ c.toNat ∧ c.toNat ≤ 122 := by
  simp only [isNameStart, Bool.or_eq_true, Bool.and_eq_true, decide_eq_true_eq, beq_iff_eq] at h
  rcases h with (lower | upper) | rfl
  · exact .inr (.inr lower)
  · exact .inl upper
  · exact .inr (.inl rfl)

theorem isBlank_of_isDigit (h : isDigit c = true) : Text.isBlank c = false := by
  have range := toNat_of_isDigit h
  exact isBlank_of_visible (by omega) (by omega)

theorem isBlank_of_isNameChar (h : isNameChar c = true) : Text.isBlank c = false := by
  rcases Bool.or_eq_true_iff.mp h with letter | digit
  · have range := toNat_of_isNameStart letter
    exact isBlank_of_visible (by omega) (by omega)
  · exact isBlank_of_isDigit digit

/-- What opens a name continues no number. -/
theorem isNumberChar_of_isNameStart (h : isNameStart c = true) : isNumberChar c = false := by
  have range := toNat_of_isNameStart h
  rw [isNumberChar, Bool.or_eq_false_iff, beq_eq_false_iff_ne]
  constructor
  · rw [Bool.eq_false_iff]
    intro digit
    have := toNat_of_isDigit digit
    omega
  · rintro rfl
    revert range
    decide

/-- There is no second point where at most one stands. -/
theorem secondPointIn_eq_none_iff : secondPointIn a = none ↔ a.count '.' ≤ 1 := by
  have parts := List.takeWhile_append_dropWhile (p := (· != '.')) (l := a)
  have before : (a.takeWhile (· != '.')).count '.' = 0 := by
    rw [List.count_eq_zero]
    intro mem
    have := List.mem_takeWhile_imp mem
    simp at this
  rw [← parts, List.count_append, before, Nat.zero_add, parts]
  unfold secondPointIn
  dsimp only
  cases after : a.dropWhile (· != '.') with
  | nil => simp
  | cons point places =>
      obtain rfl : point = '.' := by
        have head := List.head?_dropWhile_not (· != '.') a
        rw [after] at head
        simpa using head
      rw [List.drop_one, List.tail_cons, List.count_cons_self]
      by_cases second : '.' ∈ places
      · have positive := List.count_pos_iff.mpr second
        simp [second]
        omega
      · have zero := List.count_eq_zero.mpr second
        simp [second, zero]

/-- A run of digits and points with a digit in it is a plain spelling unless it has too many
points. -/
theorem isPlain_iff (chars : ∀ c ∈ a, isNumberChar c = true) (nonempty : a ≠ []) :
    isPlain a = true ↔ a.count '.' ≤ 1 ∧ a ≠ ['.'] := by
  have all : a.all (fun c => isDigit c || c == '.') = true := List.all_eq_true.mpr chars
  simp only [isPlain, all, Bool.and_true, Bool.and_eq_true, decide_eq_true_eq]
  constructor
  · rintro ⟨digits, points⟩
    refine ⟨points, ?_⟩
    rintro rfl
    cases digits
  · rintro ⟨points, other⟩
    refine ⟨?_, points⟩
    rw [← Bool.not_eq_false, List.any_eq_false]
    intro none
    -- Without a digit there are points alone, and only one of them.
    have alone : a = List.replicate a.length '.' := List.eq_replicate_of_mem fun c mem => by
      have char := chars c mem
      have noDigit : isDigit c = false := Bool.eq_false_iff.mpr (none c mem)
      simpa [isNumberChar, noDigit] using char
    have size := List.length_pos_iff.mpr nonempty
    rw [alone, List.count_replicate_self] at points
    have one : a.length = 1 := by omega
    rw [one] at alone
    exact other alone

theorem isNumberChar_of_isPlain (h : isPlain a = true) : ∀ c ∈ a, isNumberChar c = true := by
  intro c mem
  rcases digit_or_point_of_isPlain h mem with digit | rfl
  · simp [isNumberChar, digit]
  · rfl

/-- A run of digits and points is a number if it is a plain spelling. -/
theorem numberAt_eq_ok_iff {position : ℕ} {symbol : Symbol}
    (chars : ∀ c ∈ a, isNumberChar c = true) (nonempty : a ≠ []) :
    numberAt position a = .ok symbol ↔ isPlain a = true ∧ symbol = .number a := by
  rw [isPlain_iff chars nonempty, ← secondPointIn_eq_none_iff]
  unfold numberAt
  cases secondPointIn a with
  | some offset => simp
  | none =>
      by_cases point : a = ['.']
      · simp [point]
      · simp only [beq_iff_eq, point, if_false, Except.ok.injEq, ne_eq, not_false_eq_true,
          and_self, true_and]
        exact eq_comm

/-- A plain spelling is one number. -/
theorem numberAt_of_isPlain (position : ℕ) (h : isPlain a = true) :
    numberAt position a = .ok (.number a) := by
  have nonempty : a ≠ [] := by
    rintro rfl
    cases h
  exact (numberAt_eq_ok_iff (isNumberChar_of_isPlain h) nonempty).mpr ⟨h, rfl⟩

end Lexer

open Lexer

/-- A name: a letter or an underscore, and letters, digits and underscores after it. -/
def isName : Text → Bool
  | [] => false
  | c :: rest => isNameStart c && rest.all isNameChar

theorem isNameChar_of_isName (h : isName a = true) : ∀ c ∈ a, isNameChar c = true := by
  cases a with
  | nil => cases h
  | cons c rest =>
      simp only [isName, Bool.and_eq_true, List.all_eq_true] at h
      exact List.forall_mem_cons.mpr ⟨Bool.or_eq_true_iff.mpr (.inl h.1), h.2⟩

namespace Symbol

/-- A number has a plain spelling, and a name that of a name. -/
def IsSpelt : Symbol → Prop
  | .number spelling => isPlain spelling = true
  | .name spelling => isName spelling = true
  | .operator _ | .opening | .closing => True

/-- The symbol cannot go on into what is left of the text. -/
def Ends : Symbol → Text → Prop
  | .number _, left => ∀ c ∈ left.head?, isNumberChar c = false
  | .name _, left => ∀ c ∈ left.head?, isNameChar c = false
  | .operator .times, left => left.head? ≠ some '*'
  | _, _ => True

variable {symbol : Symbol}

/-- Every symbol has a character, and none of its characters is a blank. -/
theorem IsSpelt.not_blank (h : symbol.IsSpelt) :
    symbol.spelling ≠ [] ∧ ∀ c ∈ symbol.spelling, Text.isBlank c = false := by
  cases symbol with
  | number spelling =>
      have nonempty : spelling ≠ [] := by
        rintro rfl
        cases h
      refine ⟨nonempty, fun c mem => ?_⟩
      rcases digit_or_point_of_isPlain h mem with digit | rfl
      · exact isBlank_of_isDigit digit
      · rfl
  | name spelling =>
      have nonempty : spelling ≠ [] := by
        rintro rfl
        cases h
      exact ⟨nonempty, fun c mem => isBlank_of_isNameChar (isNameChar_of_isName h c mem)⟩
  | operator op =>
      have visible : op.symbol.all (!Text.isBlank ·) = true := by cases op <;> rfl
      have nonempty : op.symbol ≠ [] := by cases op <;> exact List.cons_ne_nil _ _
      exact ⟨nonempty, fun c mem => by simpa using List.all_eq_true.mp visible c mem⟩
  | opening | closing => exact ⟨List.cons_ne_nil _ _, List.forall_mem_singleton.mpr rfl⟩

/-- At the end of a text every symbol ends. -/
theorem ends_nil (symbol : Symbol) : symbol.Ends [] := by
  cases symbol with
  | number | name => simp [Ends]
  | operator op => cases op <;> simp [Ends]
  | opening | closing => trivial

/-- A symbol that ends before some text ends before any longer one, if it would also end before what
is added to an empty text. -/
theorem Ends.append (h : symbol.Ends left) (h' : symbol.Ends rest) :
    symbol.Ends (left ++ rest) := by
  cases left with
  | nil => exact h'
  | cons c left =>
      cases symbol with
      | number | name => exact h
      | operator op => cases op <;> exact h
      | opening | closing => trivial

end Symbol

/-- Every symbol ends before the text. -/
def Separates (text : Text) : Prop := ∀ symbol : Symbol, symbol.Ends text

/-- A character that goes on no symbol, at the beginning of a text, ends every symbol. -/
theorem separates_cons (number : isNumberChar c = false) (name : isNameChar c = false)
    (star : c ≠ '*') (rest : Text) : Separates (c :: rest) := by
  intro symbol
  cases symbol with
  | number => simpa [Symbol.Ends] using number
  | name => simpa [Symbol.Ends] using name
  | operator op => cases op <;> simp [Symbol.Ends, star]
  | opening | closing => trivial

/-- The text consists of blanks and of these symbols, none of which could be longer. -/
inductive Splits : Text → List Symbol → Prop where
  | nothing : Splits [] []
  /-- A blank is no part of any symbol. -/
  | blank {c : Char} {rest : Text} {symbols : List Symbol} (blank : Text.isBlank c = true)
      (others : Splits rest symbols) : Splits (c :: rest) symbols
  /-- A symbol stands where it is spelt and cannot go on. -/
  | symbol {symbol : Symbol} {rest : Text} {symbols : List Symbol} (spelt : symbol.IsSpelt)
      (ends : symbol.Ends rest) (others : Splits rest symbols) :
      Splits (symbol.spelling ++ rest) (symbol :: symbols)

/-- The text consists of blanks and of these tokens, each where it says, if its first character
stands at the position. -/
inductive Placed : ℕ → Text → List Token → Prop where
  | nothing (position : ℕ) : Placed position [] []
  /-- A blank takes a place and is no part of any token. -/
  | blank {position : ℕ} {c : Char} {rest : Text} {tokens : List Token}
      (blank : Text.isBlank c = true) (others : Placed (position + 1) rest tokens) :
      Placed position (c :: rest) tokens
  /-- A token stands where its symbol is spelt. -/
  | token {position : ℕ} {symbol : Symbol} {rest : Text} {tokens : List Token}
      (spelt : symbol.IsSpelt) (ends : symbol.Ends rest)
      (others : Placed (position + symbol.spelling.length) rest tokens) :
      Placed position (symbol.spelling ++ rest) (⟨symbol, position⟩ :: tokens)

/-- A text splits into the symbols of its tokens. -/
theorem Placed.splits {position : ℕ} {tokens : List Token} (h : Placed position text tokens) :
    Splits text (tokens.map (·.symbol)) := by
  induction h with
  | nothing => exact .nothing
  | blank blank _ ih => exact .blank blank ih
  | token spelt ends _ ih => exact .symbol spelt ends ih

/-- What a text splits into can be placed anywhere. -/
theorem Splits.exists_placed {symbols : List Symbol} (h : Splits text symbols) (position : ℕ) :
    ∃ tokens, Placed position text tokens ∧ tokens.map (·.symbol) = symbols := by
  induction h generalizing position with
  | nothing => exact ⟨[], .nothing position, rfl⟩
  | blank blank _ ih =>
      obtain ⟨tokens, placed, same⟩ := ih (position + 1)
      exact ⟨tokens, .blank blank placed, same⟩
  | @symbol symbol _ _ spelt ends _ ih =>
      obtain ⟨tokens, placed, same⟩ := ih (position + symbol.spelling.length)
      exact ⟨_, .token spelt ends placed, by rw [List.map_cons, same]⟩

namespace Lexer

/-- The characters of a class that are taken, where those of the class end. -/
theorem takeWhile_eq {p : Char → Bool} (inside : ∀ c ∈ taken, p c = true)
    (ends : ∀ c ∈ left.head?, p c = false) : (taken ++ left).takeWhile p = taken := by
  have stops : left.takeWhile p = [] := by
    cases left with
    | nil => rfl
    | cons d left => exact List.takeWhile_cons_of_neg (by simp [ends d rfl])
  rw [List.takeWhile_append_of_pos inside, stops, List.append_nil]

theorem not_of_mem_head?_dropWhile {p : Char → Bool} :
    ∀ c ∈ (rest.dropWhile p).head?, p c = false := by
  intro c mem
  have head := List.head?_dropWhile_not p rest
  rw [Option.mem_def.mp mem] at head
  simpa using head

variable {position : ℕ} {symbol : Symbol}

/-- The symbol that is taken is spelt there and cannot go on. -/
theorem exists_left_of_symbolAt (taken : symbolAt position c rest = .ok symbol) :
    symbol.IsSpelt ∧ ∃ left, c :: rest = symbol.spelling ++ left ∧ symbol.Ends left := by
  have split (p : Char → Bool) :
      c :: rest = (c :: rest.takeWhile p) ++ rest.dropWhile p := by
    rw [List.cons_append, List.takeWhile_append_dropWhile]
  unfold symbolAt at taken
  split_ifs at taken with number letter opening closing plus minus slash star second
  · have chars : ∀ d ∈ c :: rest.takeWhile isNumberChar, isNumberChar d = true :=
      List.forall_mem_cons.mpr ⟨number, fun d mem => List.mem_takeWhile_imp mem⟩
    obtain ⟨plain, rfl⟩ := (numberAt_eq_ok_iff chars (List.cons_ne_nil _ _)).mp taken
    exact ⟨plain, _, split isNumberChar, not_of_mem_head?_dropWhile⟩
  · have chars : (rest.takeWhile isNameChar).all isNameChar = true :=
      List.all_eq_true.mpr fun d mem => List.mem_takeWhile_imp mem
    cases taken
    refine ⟨?_, _, split isNameChar, not_of_mem_head?_dropWhile⟩
    exact Bool.and_eq_true_iff.mpr ⟨letter, chars⟩
  · cases taken
    exact ⟨trivial, rest, congrArg (· :: rest) (beq_iff_eq.mp opening), trivial⟩
  · cases taken
    exact ⟨trivial, rest, congrArg (· :: rest) (beq_iff_eq.mp closing), trivial⟩
  · cases taken
    exact ⟨trivial, rest, congrArg (· :: rest) (beq_iff_eq.mp plus), trivial⟩
  · cases taken
    exact ⟨trivial, rest, congrArg (· :: rest) (beq_iff_eq.mp minus), trivial⟩
  · cases taken
    exact ⟨trivial, rest, congrArg (· :: rest) (beq_iff_eq.mp slash), trivial⟩
  · -- The second star belongs to the symbol.
    cases taken
    obtain ⟨left, rfl⟩ := List.head?_eq_some_iff.mp (beq_iff_eq.mp second)
    exact ⟨trivial, left, congrArg (· :: '*' :: left) (beq_iff_eq.mp star), trivial⟩
  · cases taken
    exact ⟨trivial, rest, congrArg (· :: rest) (beq_iff_eq.mp star),
      fun next => second (beq_iff_eq.mpr next)⟩

/-- A symbol that is spelt at a place and cannot go on is taken there. -/
theorem symbolAt_of_ends (spelt : symbol.IsSpelt) (whole : c :: rest = symbol.spelling ++ left)
    (ends : symbol.Ends left) : symbolAt position c rest = .ok symbol := by
  obtain ⟨d, taken, spelling⟩ := List.exists_cons_of_ne_nil spelt.not_blank.1
  rw [spelling, List.cons_append] at whole
  cases whole
  cases symbol with
  | number text =>
      change text = c :: taken at spelling
      subst spelling
      have chars := isNumberChar_of_isPlain spelt
      rw [symbolAt, if_pos (chars c List.mem_cons_self),
        takeWhile_eq (fun d mem => chars d (List.mem_cons_of_mem c mem)) ends]
      exact numberAt_of_isPlain position spelt
  | name text =>
      change text = c :: taken at spelling
      subst spelling
      simp only [Symbol.IsSpelt, isName, Bool.and_eq_true, List.all_eq_true] at spelt
      rw [symbolAt, if_neg (by simp [isNumberChar_of_isNameStart spelt.1]), if_pos spelt.1,
        takeWhile_eq spelt.2 ends]
  | operator op =>
      cases op with
      | plus | minus | dividedBy | power =>
          cases spelling
          rfl
      | times =>
          cases spelling
          have single : (left.head? == some '*') = false := beq_eq_false_iff_ne.mpr ends
          change (if left.head? == some '*' then _ else _) = _
          rw [single]
          rfl
  | opening | closing =>
      cases spelling
      rfl

/-- At a character that is no blank, the lexer takes a spelt symbol that ends where it has to. -/
theorem symbolAt_eq_ok_iff : symbolAt position c rest = .ok symbol ↔
    symbol.IsSpelt ∧ ∃ left, c :: rest = symbol.spelling ++ left ∧ symbol.Ends left := by
  refine ⟨exists_left_of_symbolAt, ?_⟩
  rintro ⟨spelt, left, whole, ends⟩
  exact symbolAt_of_ends spelt whole ends

/-- The characters of the symbol just taken are passed over. -/
theorem tokensFrom_append (taken rest : Text) (position : ℕ) :
    tokensFrom taken.length position (taken ++ rest) =
      tokensFrom 0 (position + taken.length) rest := by
  induction taken generalizing position with
  | nil => rfl
  | cons c taken ih =>
      rw [List.length_cons, List.cons_append, tokensFrom, ih, Nat.add_assoc, Nat.add_comm 1]

/-- A symbol that ends is taken, and the rest is read after it. -/
theorem tokensFrom_symbol (symbol : Symbol) (spelt : symbol.IsSpelt) (ends : symbol.Ends rest)
    (position : ℕ) :
    tokensFrom 0 position (symbol.spelling ++ rest) =
      (Token.mk symbol position :: ·) <$>
        tokensFrom 0 (position + symbol.spelling.length) rest := by
  obtain ⟨c, taken, spelling⟩ := List.exists_cons_of_ne_nil spelt.not_blank.1
  have blank : Text.isBlank c = false :=
    spelt.not_blank.2 c (spelling ▸ List.mem_cons_self)
  have found : symbolAt position c (taken ++ rest) = .ok symbol := by
    refine symbolAt_eq_ok_iff.mpr ⟨spelt, rest, ?_, ends⟩
    rw [spelling, List.cons_append]
  have skip : symbol.spelling.length - 1 = taken.length := by
    rw [spelling, List.length_cons, Nat.add_sub_cancel]
  rw [spelling, List.cons_append, tokensFrom, if_neg (by simp [blank]), found]
  change (do
    let others ← tokensFrom (symbol.spelling.length - 1) (position + 1) (taken ++ rest)
    return Token.mk symbol position :: others) = _
  rw [skip, tokensFrom_append, List.length_cons, Nat.add_assoc, Nat.add_comm 1]
  cases tokensFrom 0 (position + (taken.length + 1)) rest <;> rfl

/-- The tokens of a text stand where they say. -/
theorem placed_of_tokensFrom {tokens : List Token}
    (lexed : tokensFrom 0 position text = .ok tokens) : Placed position text tokens := by
  induction sized : text.length using Nat.strongRecOn generalizing position text tokens with
  | ind size ih =>
      cases text with
      | nil =>
          cases lexed
          exact .nothing position
      | cons c rest =>
          by_cases blank : Text.isBlank c = true
          · rw [tokensFrom, if_pos blank] at lexed
            have shorter : rest.length < size := by simp [← sized]
            exact .blank blank (ih _ shorter lexed rfl)
          · cases found : symbolAt position c rest with
            | error e =>
                rw [tokensFrom, if_neg blank, found] at lexed
                cases lexed
            | ok symbol =>
                obtain ⟨spelt, left, whole, ends⟩ := symbolAt_eq_ok_iff.mp found
                have shorter : left.length < size := by
                  have positive := List.length_pos_iff.mpr spelt.not_blank.1
                  rw [← sized, whole, List.length_append]
                  omega
                rw [whole, tokensFrom_symbol symbol spelt ends] at lexed
                rw [whole]
                cases others : tokensFrom 0 (position + symbol.spelling.length) left with
                | error e =>
                    rw [others] at lexed
                    cases lexed
                | ok tokens =>
                    rw [others] at lexed
                    cases lexed
                    exact .token spelt ends (ih _ shorter others rfl)

/-- A text has the tokens that stand in it. -/
theorem tokensFrom_iff_placed {tokens : List Token} :
    tokensFrom 0 position text = .ok tokens ↔ Placed position text tokens := by
  refine ⟨placed_of_tokensFrom, fun placed => ?_⟩
  induction placed with
  | nothing => rfl
  | blank blank _ ih => rw [tokensFrom, if_pos blank, ih]
  | token spelt ends _ ih =>
      rw [tokensFrom_symbol _ spelt ends, ih]
      rfl

/-- The text of tokens splits into their symbols. -/
theorem splits_of_tokensFrom {tokens : List Token}
    (lexed : tokensFrom 0 position text = .ok tokens) : Splits text (tokens.map (·.symbol)) :=
  (placed_of_tokensFrom lexed).splits

/-- A text has the symbols that it splits into, wherever it begins. -/
theorem tokensFrom_iff_splits {symbols : List Symbol} (position : ℕ) :
    (∃ tokens, tokensFrom 0 position text = .ok tokens ∧ tokens.map (·.symbol) = symbols) ↔
      Splits text symbols := by
  simp only [tokensFrom_iff_placed]
  constructor
  · rintro ⟨tokens, placed, rfl⟩
    exact placed.splits
  · exact fun splits => splits.exists_placed position

end Lexer

namespace Splits

variable {symbols others : List Symbol} {symbol : Symbol}

/-- A spelt symbol alone. -/
theorem single (symbol : Symbol) (spelt : symbol.IsSpelt) : Splits symbol.spelling [symbol] := by
  simpa using Splits.symbol spelt symbol.ends_nil .nothing

/-- Two texts one after the other, if every symbol ends between them. -/
theorem append (first : Splits a symbols) (second : Splits b others) (separates : Separates b) :
    Splits (a ++ b) (symbols ++ others) := by
  induction first with
  | nothing => exact second
  | blank blank _ ih => exact .blank blank ih
  | symbol spelt ends _ ih =>
      rw [List.append_assoc, List.cons_append]
      exact .symbol spelt (ends.append (separates _)) ih

/-- A text in parentheses, and anything after it. -/
theorem parenthesised (inner : Splits a symbols) (after : Splits b others) :
    Splits ('(' :: (a ++ ')' :: b)) (.opening :: (symbols ++ .closing :: others)) := by
  have opening : Symbol.opening.IsSpelt := trivial
  have closing : Symbol.closing.IsSpelt := trivial
  have last : Splits (')' :: b) (.closing :: others) := .symbol closing trivial after
  exact .symbol opening trivial (inner.append last (separates_cons rfl rfl (by decide) b))

/-- Only spelt symbols stand in a text. -/
theorem isSpelt (h : Splits text symbols) : ∀ symbol ∈ symbols, symbol.IsSpelt := by
  induction h with
  | nothing => exact List.forall_mem_nil _
  | blank _ _ ih => exact ih
  | symbol spelt _ _ ih => exact List.forall_mem_cons.mpr ⟨spelt, ih⟩

end Splits

/-! ## Tokens in their places -/

/-- A token stands as many characters behind the beginning of the text as it says. -/
theorem Placed.exists_append {position : ℕ} {before after : List Token} {token : Token}
    (h : Placed position text (before ++ token :: after)) :
    ∃ a b, text = a ++ token.symbol.spelling ++ b ∧ token.position = position + a.length ∧
      token.symbol.IsSpelt ∧ token.symbol.Ends b ∧
      Placed (token.position + token.symbol.spelling.length) b after := by
  generalize whole : before ++ token :: after = tokens at h
  induction h generalizing before with
  | nothing => simp at whole
  | @blank position c rest tokens _ _ ih =>
      obtain ⟨a, b, rfl, place, others⟩ := ih whole
      refine ⟨c :: a, b, rfl, ?_, others⟩
      rw [place, List.length_cons, Nat.add_assoc, Nat.add_comm 1]
  | @token position symbol rest tokens spelt ends placed ih =>
      cases before with
      | nil =>
          cases whole
          exact ⟨[], rest, rfl, rfl, spelt, ends, placed⟩
      | cons first before =>
          obtain ⟨a, b, rfl, place, others⟩ := ih (List.cons.inj whole).2
          refine ⟨symbol.spelling ++ a, b, by simp only [List.append_assoc], ?_, others⟩
          rw [place, List.length_append, Nat.add_assoc]

/-- No blank stands before a token at the very beginning. -/
theorem Placed.exists_of_head {position : ℕ} {symbol : Symbol} {after : List Token}
    (h : Placed position text (⟨symbol, position⟩ :: after)) :
    ∃ b, text = symbol.spelling ++ b ∧ symbol.IsSpelt ∧ symbol.Ends b ∧
      Placed (position + symbol.spelling.length) b after := by
  have headed : Placed position text ([] ++ ⟨symbol, position⟩ :: after) := h
  obtain ⟨a, b, rfl, place, others⟩ := headed.exists_append
  have here : position = position + a.length := place
  obtain rfl : a = [] := List.length_eq_zero_iff.mp (by omega)
  exact ⟨b, rfl, others⟩

/-- What stands at the beginning of a text with tokens is a blank or a symbol. -/
theorem Placed.cons_cases {position : ℕ} {tokens : List Token}
    (h : Placed position (c :: text) tokens) :
    Text.isBlank c = true ∨ ∃ symbol taken following after,
      symbol.spelling = c :: taken ∧ text = taken ++ following ∧
        tokens = ⟨symbol, position⟩ :: after ∧ symbol.IsSpelt ∧ symbol.Ends following ∧
        Placed (position + (taken.length + 1)) following after := by
  generalize whole : c :: text = spelt at h
  cases h with
  | nothing => cases whole
  | blank blank _ =>
      cases whole
      exact .inl blank
  | @token _ symbol following after isSpelt ends placed =>
      obtain ⟨d, taken, spelling⟩ := List.exists_cons_of_ne_nil isSpelt.not_blank.1
      rw [spelling, List.cons_append] at whole
      obtain ⟨rfl, rfl⟩ := List.cons.inj whole
      rw [spelling] at placed
      exact .inr ⟨symbol, taken, following, after, spelling, rfl, rfl, isSpelt, ends, placed⟩

/-- Parentheses stand for themselves alone. -/
theorem Symbol.IsSpelt.count_parentheses {symbol : Symbol} (h : symbol.IsSpelt) :
    symbol.spelling.count '(' = [symbol].count .opening ∧
      symbol.spelling.count ')' = [symbol].count .closing := by
  have absent {text : Text} {symbol : Symbol} (opening : '(' ∉ text) (closing : ')' ∉ text)
      (other : symbol ≠ .opening ∧ symbol ≠ .closing) :
      text.count '(' = [symbol].count .opening ∧ text.count ')' = [symbol].count .closing := by
    rw [List.count_eq_zero.mpr opening, List.count_eq_zero.mpr closing]
    simp [other.1, other.2]
  cases symbol with
  | number spelling =>
      have chars := isNumberChar_of_isPlain h
      refine absent (fun mem => ?_) (fun mem => ?_) (by simp)
      · cases chars _ mem
      · cases chars _ mem
  | name spelling =>
      have chars := isNameChar_of_isName h
      refine absent (fun mem => ?_) (fun mem => ?_) (by simp)
      · cases chars _ mem
      · cases chars _ mem
  | operator op => cases op <;> decide
  | opening | closing => decide

/-- A text has as many parentheses as it has symbols for them. -/
theorem Splits.count_parentheses {symbols : List Symbol} (h : Splits text symbols) :
    symbols.count .opening = text.count '(' ∧ symbols.count .closing = text.count ')' := by
  induction h with
  | nothing => exact ⟨rfl, rfl⟩
  | @blank c rest symbols blank _ ih =>
      have opening : c ≠ '(' := by
        rintro rfl
        cases blank
      have closing : c ≠ ')' := by
        rintro rfl
        cases blank
      rw [List.count_cons_of_ne opening, List.count_cons_of_ne closing]
      exact ih
  | @symbol symbol rest symbols spelt _ _ ih =>
      obtain ⟨opening, closing⟩ := spelt.count_parentheses
      rw [← List.singleton_append, List.count_append, List.count_append, List.count_append,
        List.count_append, opening, closing, ih.1, ih.2]
      exact ⟨rfl, rfl⟩

end Keypad
