import Keypad.Proofs.Lexing

/-!
# The scan of a text

The lexer goes over a text once. What it has passed at any time are blanks and the symbols that
stand there, each followed by something that does not go on with it (`Reaches`). If the scan reaches
the end, the text has the tokens that were passed (`placed_iff_reaches`). Otherwise the scan comes
to a place where something is wrong (`Flawed`), and that is the fault of the text: everything before
it was passed (`tokensFrom_eq_error_iff`).

A scan may go on where another has come to. So blanks between two texts keep the tokens of the one
and of the other apart (`Placed.append_blanks`).
-/

namespace Keypad

open Decimal Lexer

variable {c : Char} {a b rest left text : Text} {position stop : ℕ} {tokens others : List Token}
  {symbol : Symbol} {e : LexError}

/-- One character further on, the end of a text is where it was. -/
theorem add_length_cons (position : ℕ) (c : Char) (rest : Text) :
    position + (c :: rest).length = position + 1 + rest.length :=
  Nat.add_right_comm position rest.length 1

/-- From a text whose first character stands at a position, the scan passes blanks and tokens until
it reaches what is left, with its own position. -/
inductive Reaches : ℕ → Text → List Token → ℕ → Text → Prop where
  | here (position : ℕ) (left : Text) : Reaches position left [] position left
  | blank {position stop : ℕ} {c : Char} {rest left : Text} {tokens : List Token}
      (blank : Text.isBlank c = true) (on : Reaches (position + 1) rest tokens stop left) :
      Reaches position (c :: rest) tokens stop left
  /-- A token stands where its symbol is spelt and cannot go on. -/
  | token {position stop : ℕ} {symbol : Symbol} {rest left : Text} {tokens : List Token}
      (spelt : symbol.IsSpelt) (ends : symbol.Ends rest)
      (on : Reaches (position + symbol.spelling.length) rest tokens stop left) :
      Reaches position (symbol.spelling ++ rest) (⟨symbol, position⟩ :: tokens) stop left

/-- The tokens of a text are placed if the scan reaches its end. -/
theorem placed_iff_reaches :
    Placed position text tokens ↔ Reaches position text tokens (position + text.length) [] := by
  constructor
  · intro placed
    induction placed with
    | nothing position => exact .here position []
    | @blank position c rest tokens blank _ ih =>
        rw [add_length_cons]
        exact .blank blank ih
    | @token position symbol rest tokens spelt ends _ ih =>
        refine .token spelt ends ?_
        rwa [List.length_append, ← Nat.add_assoc]
  · generalize position + text.length = stop
    generalize empty : ([] : Text) = left
    intro reaches
    induction reaches with
    | here position left =>
        subst empty
        exact .nothing position
    | blank blank _ ih => exact .blank blank (ih empty)
    | token spelt ends _ ih => exact .token spelt ends (ih empty)

namespace Reaches

/-- One scan may go on where another has come to. -/
theorem trans {last : ℕ} (first : Reaches position text tokens stop left)
    (second : Reaches stop left others last rest) :
    Reaches position text (tokens ++ others) last rest := by
  induction first with
  | here => exact second
  | blank blank _ ih => exact .blank blank (ih second)
  | token spelt ends _ ih => exact .token spelt ends (ih second)

/-- Blanks are passed without a token. -/
theorem blanks (blank : ∀ c ∈ a, Text.isBlank c = true) (position : ℕ) (left : Text) :
    Reaches position (a ++ left) [] (position + a.length) left := by
  induction a generalizing position with
  | nil => exact .here position left
  | cons c a ih =>
      obtain ⟨first, others⟩ := List.forall_mem_cons.mp blank
      rw [add_length_cons]
      exact .blank first (ih others (position + 1))

/-- What ends every symbol may follow the text. -/
theorem append (h : Reaches position text tokens stop left) (separates : Separates b) :
    Reaches position (text ++ b) tokens stop (left ++ b) := by
  induction h with
  | here position left => exact .here position (left ++ b)
  | blank blank _ ih => exact .blank blank ih
  | token spelt ends _ ih =>
      rw [List.append_assoc]
      exact .token spelt (ends.append (separates _)) ih

end Reaches

/-- The token of the same symbol so many places further on. -/
def Token.shifted (places : ℕ) (token : Token) : Token :=
  ⟨token.symbol, token.position + places⟩

/-- A text further on has its tokens further on. -/
theorem Placed.shifted (h : Placed position text tokens) (places : ℕ) :
    Placed (position + places) text (tokens.map (·.shifted places)) := by
  induction h with
  | nothing position => exact .nothing (position + places)
  | @blank position c rest tokens blank _ ih =>
      refine .blank blank ?_
      rwa [Nat.add_right_comm]
  | @token position symbol rest tokens spelt ends _ ih =>
      refine .token spelt ends ?_
      rwa [Nat.add_right_comm]

/-- A blank ends every symbol. -/
theorem separates_blank (blank : Text.isBlank c = true) (rest : Text) : Separates (c :: rest) := by
  have visible {p : Char → Bool} (h : p c = true → Text.isBlank c = false) : p c = false := by
    by_contra other
    rw [h (by simpa using other)] at blank
    cases blank
  have digit : isDigit c = false := visible isBlank_of_isDigit
  refine separates_cons ?_ (visible isBlank_of_isNameChar) ?_ rest
  · rw [isNumberChar, digit, Bool.false_or, beq_eq_false_iff_ne]
    rintro rfl
    cases blank
  · rintro rfl
    cases blank

/-- With a blank at least between two texts, the tokens of the one come before those of the
other. -/
theorem Placed.append_blanks (first : Placed position a tokens) (second : Placed 0 b others)
    {gap : Text} (nonempty : gap ≠ []) (blank : ∀ c ∈ gap, Text.isBlank c = true) :
    Placed position (a ++ gap ++ b)
      (tokens ++ others.map (·.shifted (position + (a ++ gap).length))) := by
  have separates : Separates (gap ++ b) := by
    obtain ⟨c, gap, rfl⟩ := List.exists_cons_of_ne_nil nonempty
    exact separates_blank (blank c List.mem_cons_self) (gap ++ b)
  have further := second.shifted (position + (a ++ gap).length)
  rw [Nat.zero_add, placed_iff_reaches] at further
  have scan := ((placed_iff_reaches.mp first).append separates).trans
    ((Reaches.blanks blank _ b).trans (by
      rwa [Nat.add_assoc, ← List.length_append]))
  rw [placed_iff_reaches]
  rwa [← List.append_assoc, List.nil_append, Nat.add_assoc, ← List.length_append] at scan

/-- What is wrong at the beginning of a text whose first character stands at a position. -/
inductive Flawed : ℕ → Text → LexError → Prop where
  /-- A second point stands in a run of digits. -/
  | secondPoint {position : ℕ} {whole places rest : Text} (whole_digits : IsDigits whole)
      (places_digits : IsDigits places) :
      Flawed position (whole ++ '.' :: (places ++ '.' :: rest))
        (.secondPoint (position + (whole.length + 1 + places.length)))
  /-- A point stands there without a digit. -/
  | lonePoint {position : ℕ} {rest : Text} (ends : ∀ c ∈ rest.head?, isNumberChar c = false) :
      Flawed position ('.' :: rest) (.lonePoint position)
  | unknownCharacter {position : ℕ} {c : Char} {rest : Text} (visible : Text.isBlank c = false)
      (none : ∀ symbol : Symbol, symbol.IsSpelt → symbol.spelling.head? ≠ some c) :
      Flawed position (c :: rest) (.unknownCharacter position c)

namespace Lexer

theorem isNumberChar_of_isDigits (h : IsDigits a) : ∀ c ∈ a, isNumberChar c = true := fun c mem =>
  Bool.or_eq_true_iff.mpr (.inl (h c mem))

/-- Of the digits and points only a point is no digit. -/
theorem isDigit_of_isNumberChar (h : isNumberChar c = true) (other : c ≠ '.') :
    isDigit c = true := by
  rw [isNumberChar, Bool.or_eq_true_iff, beq_iff_eq] at h
  exact h.resolve_right other

/-- What stands before the first point of a run of digits and points are digits. -/
theorem isDigits_takeWhile (chars : ∀ c ∈ a, isNumberChar c = true) :
    IsDigits (a.takeWhile (· != '.')) := by
  intro c mem
  have other := List.mem_takeWhile_imp mem
  exact isDigit_of_isNumberChar (chars c ((List.takeWhile_prefix _).subset mem))
    (bne_iff_ne.mp other)

/-- A text with a point in it, cut at the first one. -/
theorem eq_cut_of_mem (mem : '.' ∈ a) :
    a = a.takeWhile (· != '.') ++ '.' :: (a.dropWhile (· != '.')).drop 1 := by
  have parts := List.takeWhile_append_dropWhile (p := (· != '.')) (l := a)
  cases cut : a.dropWhile (· != '.') with
  | nil =>
      have none := List.dropWhile_eq_nil_iff.mp cut '.' mem
      simp at none
  | cons point after =>
      obtain rfl : point = '.' := by
        have head := List.head?_dropWhile_not (· != '.') a
        rw [cut] at head
        simpa using head
      rwa [cut, eq_comm] at parts

/-- Digits before a point, cut there. -/
theorem cut_of_isDigits (h : IsDigits a) (rest : Text) :
    (a ++ '.' :: rest).takeWhile (· != '.') = a ∧
      ((a ++ '.' :: rest).dropWhile (· != '.')).drop 1 = rest := by
  have other : ∀ c ∈ a, (c != '.') = true := fun c mem =>
    bne_iff_ne.mpr (ne_of_isDigit (h c mem) rfl)
  rw [List.takeWhile_append_of_pos other, List.dropWhile_append_of_pos other]
  simp

/-- The second point comes after the digits that come after the first one. -/
theorem secondPointIn_eq_some_iff (chars : ∀ c ∈ a, isNumberChar c = true) (n : ℕ) :
    secondPointIn a = some n ↔ ∃ whole places rest, IsDigits whole ∧ IsDigits places ∧
      a = whole ++ '.' :: (places ++ '.' :: rest) ∧ n = whole.length + 1 + places.length := by
  unfold secondPointIn
  dsimp only
  constructor
  · intro found
    split at found
    · rename_i second
      rw [List.contains_iff_mem] at second
      have behind : (a.dropWhile (· != '.')).drop 1 ⊆ a :=
        ((List.drop_suffix 1 _).trans (List.dropWhile_suffix _)).subset
      have first := eq_cut_of_mem (behind second)
      rw [eq_cut_of_mem second] at first
      exact ⟨_, _, _, isDigits_takeWhile chars,
        isDigits_takeWhile fun c mem => chars c (behind mem), first,
        (Option.some.inj found).symm⟩
    · cases found
  · rintro ⟨whole, places, rest, whole_digits, places_digits, rfl, rfl⟩
    obtain ⟨before, behind⟩ := cut_of_isDigits whole_digits (places ++ '.' :: rest)
    obtain ⟨between, _⟩ := cut_of_isDigits places_digits rest
    rw [before, behind, between, if_pos (by simp)]

/-- A run of digits and points is no number if it has a second point or is a point alone. -/
theorem numberAt_eq_error_iff : numberAt position a = .error e ↔
    (∃ n, secondPointIn a = some n ∧ e = .secondPoint (position + n)) ∨
      (a = ['.'] ∧ e = .lonePoint position) := by
  unfold numberAt
  cases second : secondPointIn a with
  | some n =>
      have other : a ≠ ['.'] := by
        rintro rfl
        cases second
      simp [other, eq_comm]
  | none =>
      by_cases point : a = ['.']
      · subst point
        simp [eq_comm]
      · simp [point]

/-- A digit or a point begins a run of them. -/
theorem symbolAt_of_isNumberChar (h : isNumberChar c = true) (position : ℕ) (rest : Text) :
    symbolAt position c rest = numberAt position ((c :: rest).takeWhile isNumberChar) := by
  rw [symbolAt, if_pos h, List.takeWhile_cons_of_pos h]

/-- The characters that open a symbol are those with which symbols are spelt. -/
theorem opensSymbol_iff :
    opensSymbol c = true ↔ ∃ symbol : Symbol, symbol.IsSpelt ∧ symbol.spelling.head? = some c := by
  unfold opensSymbol
  simp only [Bool.or_eq_true, or_assoc]
  constructor
  · rintro (number | letter | sign)
    · rcases Bool.or_eq_true_iff.mp number with digit | point
      · have digits : IsDigits [c] := by simpa [IsDigits] using digit
        exact ⟨.number [c], isPlain_digits digits (List.cons_ne_nil c []), rfl⟩
      · obtain rfl := beq_iff_eq.mp point
        exact ⟨.number ".0".toList, rfl, rfl⟩
    · have name : isName [c] = true := by simpa [isName] using letter
      exact ⟨.name [c], name, rfl⟩
    · have listed : c = '(' ∨ c = ')' ∨ c = '+' ∨ c = '-' ∨ c = '/' ∨ c = '*' := by
        simpa using sign
      rcases listed with rfl | rfl | rfl | rfl | rfl | rfl
      · exact ⟨.opening, trivial, rfl⟩
      · exact ⟨.closing, trivial, rfl⟩
      · exact ⟨.operator .plus, trivial, rfl⟩
      · exact ⟨.operator .minus, trivial, rfl⟩
      · exact ⟨.operator .dividedBy, trivial, rfl⟩
      · exact ⟨.operator .times, trivial, rfl⟩
  · rintro ⟨symbol, spelt, head⟩
    cases symbol with
    | number spelling =>
        exact .inl (isNumberChar_of_isPlain spelt c (List.mem_of_mem_head? head))
    | name spelling =>
        obtain ⟨rest, rfl⟩ := List.head?_eq_some_iff.mp head
        exact .inr (.inl (Bool.and_eq_true_iff.mp spelt).1)
    | operator op =>
        cases op <;> cases head <;> exact .inr (.inr rfl)
    | opening | closing =>
        cases head
        exact .inr (.inr rfl)

/-- A character that opens no symbol is unknown. -/
theorem symbolAt_of_not_opensSymbol (closed : ¬ opensSymbol c = true) (position : ℕ)
    (rest : Text) : symbolAt position c rest = .error (.unknownCharacter position c) := by
  simp only [opensSymbol, Bool.or_eq_true, not_or, Bool.not_eq_true] at closed
  obtain ⟨⟨number, letter⟩, sign⟩ := closed
  have apart : c ≠ '(' ∧ c ≠ ')' ∧ c ≠ '+' ∧ c ≠ '-' ∧ c ≠ '/' ∧ c ≠ '*' := by simpa using sign
  simp [symbolAt, number, letter, apart]

/-- The character that is refused is one that opens no symbol, unless it begins a run of digits and
points. -/
theorem symbolAt_eq_error_cases (failed : symbolAt position c rest = .error e) :
    isNumberChar c = true ∨ ¬ opensSymbol c = true := by
  by_cases number : isNumberChar c = true
  · exact .inl number
  · right
    unfold symbolAt at failed
    split_ifs at failed with letter opening closing plus minus slash star second
    simp_all [opensSymbol]

/-- Where no symbol can be taken something is wrong. -/
theorem flawed_of_symbolAt (visible : Text.isBlank c = false)
    (failed : symbolAt position c rest = .error e) : Flawed position (c :: rest) e := by
  rcases symbolAt_eq_error_cases failed with number | closed
  · rw [symbolAt_of_isNumberChar number] at failed
    have chars : ∀ d ∈ (c :: rest).takeWhile isNumberChar, isNumberChar d = true :=
      fun d mem => List.mem_takeWhile_imp mem
    have parts := List.takeWhile_append_dropWhile (p := isNumberChar) (l := c :: rest)
    rcases numberAt_eq_error_iff.mp failed with ⟨n, second, rfl⟩ | ⟨point, rfl⟩
    · obtain ⟨whole, places, others, whole_digits, places_digits, run, rfl⟩ :=
        (secondPointIn_eq_some_iff chars n).mp second
      rw [← parts, run]
      simpa using Flawed.secondPoint whole_digits places_digits
    · rw [← parts, point]
      exact .lonePoint not_of_mem_head?_dropWhile
  · rw [symbolAt_of_not_opensSymbol closed] at failed
    cases failed
    refine .unknownCharacter visible fun symbol spelt head => closed ?_
    exact opensSymbol_iff.mpr ⟨symbol, spelt, head⟩

/-- Where something is wrong no symbol can be taken. -/
theorem symbolAt_of_flawed (flawed : Flawed position (c :: rest) e) :
    symbolAt position c rest = .error e := by
  generalize whole : c :: rest = text at flawed
  cases flawed with
  | @secondPoint integer places others integer_digits places_digits =>
      have run : (c :: rest).takeWhile isNumberChar =
          integer ++ '.' :: (places ++ '.' :: others.takeWhile isNumberChar) := by
        rw [whole, List.takeWhile_append_of_pos (isNumberChar_of_isDigits integer_digits),
          List.takeWhile_cons_of_pos rfl,
          List.takeWhile_append_of_pos (isNumberChar_of_isDigits places_digits),
          List.takeWhile_cons_of_pos rfl]
      have chars : ∀ d ∈ (c :: rest).takeWhile isNumberChar, isNumberChar d = true :=
        fun d mem => List.mem_takeWhile_imp mem
      have number : isNumberChar c = true := by
        by_contra other
        rw [List.takeWhile_cons_of_neg other] at run
        simp at run
      rw [symbolAt_of_isNumberChar number, numberAt_eq_error_iff]
      exact .inl ⟨_, (secondPointIn_eq_some_iff chars _).mpr
        ⟨integer, places, _, integer_digits, places_digits, run, rfl⟩, rfl⟩
  | @lonePoint others ends =>
      cases whole
      rw [symbolAt_of_isNumberChar rfl, numberAt_eq_error_iff, List.takeWhile_cons_of_pos rfl]
      exact .inr ⟨congrArg ('.' :: ·) (takeWhile_eq (List.forall_mem_nil _) ends), rfl⟩
  | unknownCharacter _ none =>
      cases whole
      refine symbolAt_of_not_opensSymbol (fun opens => ?_) position rest
      obtain ⟨symbol, spelt, head⟩ := opensSymbol_iff.mp opens
      exact none symbol spelt head

/-- Nothing is wrong at a blank. -/
theorem isBlank_of_flawed (h : Flawed position (c :: rest) e) : Text.isBlank c = false := by
  generalize whole : c :: rest = text at h
  cases h with
  | @secondPoint integer _ _ integer_digits _ =>
      cases integer with
      | nil =>
          cases whole
          rfl
      | cons d integer =>
          cases whole
          exact isBlank_of_isDigit (integer_digits c List.mem_cons_self)
  | lonePoint =>
      cases whole
      rfl
  | unknownCharacter visible =>
      cases whole
      exact visible

/-- Where something is wrong there are no tokens. -/
theorem tokensFrom_of_flawed (flawed : Flawed position text e) :
    tokensFrom 0 position text = .error e := by
  cases text with
  | nil =>
      generalize empty : ([] : Text) = text at flawed
      cases flawed <;> simp at empty
  | cons c rest =>
      rw [tokensFrom, if_neg (by simp [isBlank_of_flawed flawed]), symbolAt_of_flawed flawed]
      rfl

/-- What the scan has passed is not read again. -/
theorem tokensFrom_of_reaches (h : Reaches position text tokens stop left) :
    tokensFrom 0 position text = (tokens ++ ·) <$> tokensFrom 0 stop left := by
  induction h with
  | here position left => cases tokensFrom 0 position left <;> rfl
  | blank blank _ ih => rw [tokensFrom, if_pos blank, ih]
  | @token position stop symbol rest left tokens spelt ends _ ih =>
      rw [tokensFrom_symbol symbol spelt ends, ih]
      cases tokensFrom 0 stop left <;> rfl

/-- The scan of a text reaches its end or a place where something is wrong. -/
theorem exists_reaches (position : ℕ) (text : Text) : ∃ passed stop left,
    Reaches position text passed stop left ∧ (left = [] ∨ ∃ e, Flawed stop left e) := by
  induction sized : text.length using Nat.strongRecOn generalizing position text with
  | ind size ih =>
      cases text with
      | nil => exact ⟨[], position, [], .here position [], .inl rfl⟩
      | cons c rest =>
          by_cases blank : Text.isBlank c = true
          · have shorter : rest.length < size := by simp [← sized]
            obtain ⟨passed, stop, left, reaches, ended⟩ := ih _ shorter (position + 1) rest rfl
            exact ⟨passed, stop, left, .blank blank reaches, ended⟩
          · cases taken : symbolAt position c rest with
            | error e =>
                have flawed := flawed_of_symbolAt (Bool.not_eq_true _ ▸ blank) taken
                exact ⟨[], position, c :: rest, .here position _, .inr ⟨e, flawed⟩⟩
            | ok symbol =>
                obtain ⟨spelt, after, whole, ends⟩ := symbolAt_eq_ok_iff.mp taken
                have shorter : after.length < size := by
                  have positive := List.length_pos_iff.mpr spelt.not_blank.1
                  rw [← sized, whole, List.length_append]
                  omega
                obtain ⟨passed, stop, left, reaches, ended⟩ :=
                  ih _ shorter (position + symbol.spelling.length) after rfl
                rw [whole]
                exact ⟨_, stop, left, .token spelt ends reaches, ended⟩

/-- A text has no tokens if the scan reaches a place where something is wrong. -/
theorem tokensFrom_eq_error_iff : tokensFrom 0 position text = .error e ↔
    ∃ passed stop left, Reaches position text passed stop left ∧ Flawed stop left e := by
  constructor
  · intro failed
    obtain ⟨passed, stop, left, reaches, ended⟩ := exists_reaches position text
    rw [tokensFrom_of_reaches reaches] at failed
    rcases ended with rfl | ⟨fault, flawed⟩
    · cases failed
    · rw [tokensFrom_of_flawed flawed] at failed
      cases failed
      exact ⟨passed, stop, left, reaches, flawed⟩
  · rintro ⟨passed, stop, left, reaches, flawed⟩
    rw [tokensFrom_of_reaches reaches, tokensFrom_of_flawed flawed]
    rfl

end Lexer

end Keypad
