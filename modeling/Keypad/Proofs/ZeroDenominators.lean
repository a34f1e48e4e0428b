import Keypad.Proofs.Parentheses

/-!
# Denominators that are written as zero

The mark of a canonical text is found by looking at its characters, without a lexer. It agrees with
the tokens: a text is marked exactly if among its tokens a slash stands directly before a number
that is written as zero (`dividesByWrittenZero_iff_tokens`).

Whether such a zero is the whole denominator is decided by the grammar. It is what the slash
divides by, unless a parenthesis or a power follows it: these hold tighter, and then the zero is
called, or is the base of the denominator (`exists_division_of_marked`).
-/

namespace Keypad

open Grammar Lexer Decimal

variable {c : Char} {a b text spelling following : Text}

/-- The digits that numbers are made of come first, and all others far behind. -/
theorem isDigit_or_le_of_isDecimalDigit (h : Text.isDecimalDigit c = true) :
    isDigit c = true ∨ 0x660 ≤ c.toNat := by
  have zeros : ∀ first ∈ Text.digitZeros, first = 0x30 ∨ 0x660 ≤ first := by decide
  obtain ⟨first, mem, range⟩ := List.any_eq_true.mp h
  simp only [Bool.and_eq_true, decide_eq_true_eq] at range
  rcases zeros first mem with rfl | far
  · left
    have low : '0' ≤ c := range.1
    have high : c ≤ '9' := Nat.lt_succ_iff.mp range.2
    simp [isDigit, low, high]
  · exact .inr (far.trans range.1)

theorem isDecimalDigit_of_isDigit (h : isDigit c = true) : Text.isDecimalDigit c = true := by
  have range := toNat_of_isDigit h
  refine List.any_eq_true.mpr ⟨0x30, List.mem_cons_self, ?_⟩
  simp only [Bool.and_eq_true, decide_eq_true_eq]
  omega

/-- No blank is a digit of any script. -/
theorem isDecimalDigit_of_isBlank (h : Text.isBlank c = true) :
    Text.isDecimalDigit c = false := by
  have apart : ∀ first ∈ Text.digitZeros, 0x20 < first ∧
      (first + 9 < 0x85 ∨ 0xa0 < first) ∧ (first + 9 < 0x1680 ∨ 0x1680 < first) ∧
      (first + 9 < 0x2000 ∨ 0x205f < first) ∧ (first + 9 < 0x3000 ∨ 0x3000 < first) := by
    decide
  rw [Bool.eq_false_iff]
  intro digit
  obtain ⟨first, mem, range⟩ := List.any_eq_true.mp digit
  have places := apart first mem
  simp only [Text.isBlank, Bool.or_eq_true, Bool.and_eq_true, decide_eq_true_eq,
    beq_iff_eq] at h
  simp only [Bool.and_eq_true, decide_eq_true_eq] at range
  omega

/-- The characters of symbols are ASCII. -/
theorem Symbol.IsSpelt.toNat_le {symbol : Symbol} (h : symbol.IsSpelt) :
    ∀ c ∈ symbol.spelling, c.toNat ≤ 0x7e := by
  intro c mem
  cases symbol with
  | number spelling =>
      rcases digit_or_point_of_isPlain h mem with digit | rfl
      · have range := toNat_of_isDigit digit
        omega
      · decide
  | name spelling =>
      rcases Bool.or_eq_true_iff.mp (isNameChar_of_isName h c mem) with letter | digit
      · have range := toNat_of_isNameStart letter
        omega
      · have range := toNat_of_isDigit digit
        omega
  | operator op =>
      have all : op.symbol.all (·.toNat ≤ 0x7e) = true := by cases op <;> rfl
      simpa using List.all_eq_true.mp all c mem
  | opening | closing =>
      rw [List.mem_singleton.mp mem]
      decide

/-- The only digits of a text with tokens are those that numbers are made of. -/
theorem Placed.isDigit_of_isDecimalDigit {position : ℕ} {tokens : List Token}
    (h : Placed position (c :: text) tokens) (digit : Text.isDecimalDigit c = true) :
    isDigit c = true := by
  rcases h.cons_cases with blank | ⟨symbol, taken, _, _, spelling, _, _, isSpelt, _⟩
  · rw [isDecimalDigit_of_isBlank blank] at digit
    cases digit
  · have mem : c ∈ symbol.spelling := by
      rw [spelling]
      exact List.mem_cons_self
    have small := isSpelt.toNat_le c mem
    exact (isDigit_or_le_of_isDecimalDigit digit).resolve_right (by omega)

/-- A slash is a symbol by itself. -/
theorem Symbol.IsSpelt.eq_of_mem_slash {symbol : Symbol} (h : symbol.IsSpelt)
    (mem : '/' ∈ symbol.spelling) : symbol = .operator .dividedBy := by
  cases symbol with
  | number spelling => cases isNumberChar_of_isPlain h _ mem
  | name spelling => cases isNameChar_of_isName h _ mem
  | operator op =>
      cases op with
      | dividedBy => rfl
      | plus | minus | times | power => revert mem; decide
  | opening | closing => revert mem; decide

/-- Every slash of a text is a token. -/
theorem Placed.exists_of_slash {position : ℕ} {tokens : List Token}
    (h : Placed position (a ++ '/' :: b) tokens) :
    ∃ before after, tokens = before ++ ⟨.operator .dividedBy, position + a.length⟩ :: after ∧
      Placed (position + a.length + 1) b after := by
  generalize whole : a ++ '/' :: b = spelt at h
  induction h generalizing a with
  | nothing => simp at whole
  | @blank position c rest tokens blank _ ih =>
      cases a with
      | nil =>
          cases whole
          cases blank
      | cons d a =>
          obtain ⟨rfl, rfl⟩ := List.cons.inj whole
          obtain ⟨before, after, rfl, placed⟩ := ih rfl
          have shift : position + 1 + a.length = position + (d :: a).length := by
            rw [List.length_cons]
            omega
          exact ⟨before, after, by rw [shift], shift ▸ placed⟩
  | @token position symbol rest tokens isSpelt _ placed ih =>
      rcases List.append_eq_append_iff.mp whole with ⟨left, spelling, same⟩ | ⟨left, rfl, later⟩
      · cases left with
        | nil =>
            -- The symbol is what stands before the slash.
            rw [List.append_nil] at spelling
            obtain ⟨before, after, rfl, others⟩ := ih (a := []) same
            exact ⟨_ :: before, after, by rw [List.cons_append, spelling]; rfl,
              spelling ▸ others⟩
        | cons d left =>
            obtain ⟨rfl, rfl⟩ := List.cons.inj same
            obtain rfl := isSpelt.eq_of_mem_slash (by simp [spelling])
            have alone : ['/'] = a ++ '/' :: left := spelling
            obtain ⟨rfl, rfl⟩ : a = [] ∧ left = [] := by
              simpa [List.singleton_eq_append_iff] using alone
            exact ⟨[], tokens, rfl, placed⟩
      · obtain ⟨before, after, rfl, others⟩ := ih later.symm
        have shift : position + symbol.spelling.length + left.length =
            position + (symbol.spelling ++ left).length := by
          rw [List.length_append]
          omega
        exact ⟨_ :: before, after, by rw [List.cons_append, ← shift], shift ▸ others⟩

/-- A number is written as zero: a single zero, or zeros with a decimal point behind the first of
them, if then comes an operator or the end of the text, where a final line break does not count. -/
def IsWrittenZero (spelling following : Text) : Prop :=
  spelling = ['0'] ∨
    (∃ count, spelling = '0' :: '.' :: List.replicate count '0') ∧
      (following = [] ∨ following = ['\n'] ∨ ∃ c ∈ following.head?, c ∈ ['+', '-', '*', '/'])

open ZeroDenominator

theorem endsPlaces_iff : endsPlaces text = true ↔
    text = [] ∨ text = ['\n'] ∨ ∃ c ∈ text.head?, c ∈ ['+', '-', '*', '/'] := by
  unfold endsPlaces
  split
  · simp
  · simp
  · rename_i c rest other
    have more : ¬ c :: rest = ['\n'] := fun same =>
      other (List.cons.inj same).1 (List.cons.inj same).2
    simp [isOperatorChar, or_assoc, more]

/-- What the mark looks for. -/
theorem dividesByWrittenZero_iff : dividesByWrittenZero text = true ↔
    ∃ a b, text = a ++ '/' :: '0' :: b ∧ endsZero b = true := by
  induction text with
  | nil => simp [dividesByWrittenZero]
  | cons c rest ih =>
      simp only [dividesByWrittenZero, Bool.or_eq_true, Bool.and_eq_true, beq_iff_eq, ih]
      constructor
      · rintro (⟨⟨rfl, zero⟩, ends⟩ | ⟨a, b, rfl, ends⟩)
        · obtain ⟨b, rfl⟩ := List.head?_eq_some_iff.mp zero
          exact ⟨[], b, rfl, ends⟩
        · exact ⟨c :: a, b, rfl, ends⟩
      · rintro ⟨a, b, whole, ends⟩
        cases a with
        | nil =>
            cases whole
            exact .inl ⟨⟨rfl, rfl⟩, ends⟩
        | cons d a =>
            obtain ⟨rfl, rfl⟩ := List.cons.inj whole
            exact .inr ⟨a, b, rfl, ends⟩

/-- Behind the decimal point of a number the mark asks for zeros to its end, and for what may
follow them. -/
theorem endsPlaces_dropWhile_iff {places : Text} (chars : ∀ c ∈ places, isNumberChar c = true)
    (ends : ∀ c ∈ following.head?, isNumberChar c = false) :
    endsPlaces ((places ++ following).dropWhile (· == '0')) = true ↔
      IsWrittenZero ('0' :: '.' :: places) following := by
  rw [List.dropWhile_append]
  cases left : places.dropWhile (· == '0') with
  | nil =>
      have zeros : places = List.replicate places.length '0' := List.eq_replicate_of_mem
        fun c mem => by simpa using List.dropWhile_eq_nil_iff.mp left c mem
      have stays : following.dropWhile (· == '0') = following := by
        cases following with
        | nil => rfl
        | cons c rest =>
            have stops := ends c rfl
            refine List.dropWhile_cons_of_neg fun zero => ?_
            rw [beq_iff_eq.mp zero] at stops
            cases stops
      have spelt : ∃ count, '0' :: '.' :: places = '0' :: '.' :: List.replicate count '0' :=
        ⟨places.length, by rw [← zeros]⟩
      rw [if_pos List.isEmpty_nil, stays, endsPlaces_iff, IsWrittenZero, and_iff_right spelt]
      exact (or_iff_right (by simp)).symm
  | cons d later =>
      have mem : d ∈ places := (List.dropWhile_suffix _).subset (left ▸ List.mem_cons_self)
      have number := chars d mem
      have other : (d == '0') = false := not_of_mem_head?_dropWhile d (by rw [left]; rfl)
      rw [if_neg (by simp), List.cons_append]
      apply iff_of_false
      · rw [endsPlaces_iff]
        rintro (empty | newline | ⟨_, ⟨⟩, operator⟩)
        · exact List.cons_ne_nil _ _ empty
        · rw [(List.cons.inj newline).1] at number
          cases number
        · have none : ['+', '-', '*', '/'].all (!isNumberChar ·) = true := by decide
          simpa [number] using List.all_eq_true.mp none d operator
      · rintro (single | ⟨⟨count, zeros⟩, -⟩)
        · cases single
        · obtain rfl : places = List.replicate count '0' := by simpa using zeros
          rw [List.eq_of_mem_replicate mem] at other
          cases other

/-- In a text with tokens, the mark asks of what stands behind a zero just that the number is
written as zero. -/
theorem endsZero_iff {position : ℕ} {tokens : List Token} {taken : Text}
    (chars : ∀ c ∈ taken, isNumberChar c = true)
    (ends : ∀ c ∈ following.head?, isNumberChar c = false)
    (placed : Placed position following tokens) :
    endsZero (taken ++ following) = true ↔ IsWrittenZero ('0' :: taken) following := by
  cases taken with
  | nil =>
      refine iff_of_true ?_ (.inl rfl)
      cases following with
      | nil => rfl
      | cons c rest =>
          have stops := ends c rfl
          have point : c ≠ '.' := by
            rintro rfl
            cases stops
          have noDigit : Text.isDecimalDigit c = false := by
            rw [Bool.eq_false_iff]
            intro digit
            simp [isNumberChar, placed.isDigit_of_isDecimalDigit digit] at stops
          simp [endsZero, noDigit]
  | cons c places =>
      have char := chars c List.mem_cons_self
      have others : ∀ d ∈ places, isNumberChar d = true := fun d mem =>
        chars d (List.mem_cons_of_mem _ mem)
      by_cases point : c = '.'
      · subst point
        exact endsPlaces_dropWhile_iff others ends
      · have digit : isDigit c = true := by simpa [isNumberChar, point] using char
        have zero : Text.isDecimalDigit c = true := isDecimalDigit_of_isDigit digit
        apply iff_of_false
        · simp [endsZero, zero]
        · rintro (single | ⟨⟨count, zeros⟩, -⟩)
          · cases single
          · exact point (List.cons.inj (List.cons.inj zeros).2).1

/-- A digit at the beginning of a text opens a number. -/
theorem Placed.exists_of_isDigit {position : ℕ} {tokens : List Token}
    (h : Placed position (c :: b) tokens) (digit : isDigit c = true) :
    ∃ taken following after, b = taken ++ following ∧
      tokens = ⟨.number (c :: taken), position⟩ :: after ∧
      (Symbol.number (c :: taken)).IsSpelt ∧ (Symbol.number (c :: taken)).Ends following ∧
      Placed (position + (taken.length + 1)) following after := by
  rcases h.cons_cases with blank | ⟨symbol, taken, following, after, spelling, same, rfl, others⟩
  · rw [isBlank_of_isDigit digit] at blank
    cases blank
  · obtain rfl : symbol = .number (c :: taken) := by
      have range := toNat_of_isDigit digit
      cases symbol with
      | number text => exact congrArg _ spelling
      | name text =>
          change text = c :: taken at spelling
          subst spelling
          have letter := toNat_of_isNameStart (Bool.and_eq_true_iff.mp others.1).1
          omega
      | operator op => cases op <;> cases spelling <;> cases digit
      | opening | closing =>
          cases spelling
          cases digit
    exact ⟨taken, following, after, same, rfl, others⟩

/-- A marked text has a slash with a number written as zero right behind it. -/
theorem Placed.exists_of_marked {position : ℕ} {tokens : List Token}
    (h : Placed position text tokens) (marked : dividesByWrittenZero text = true) :
    ∃ a spelling following before after, text = a ++ '/' :: (spelling ++ following) ∧
      tokens = before ++ ⟨.operator .dividedBy, position + a.length⟩ ::
        ⟨.number spelling, position + a.length + 1⟩ :: after ∧
      IsWrittenZero spelling following := by
  obtain ⟨a, b, rfl, zero⟩ := dividesByWrittenZero_iff.mp marked
  obtain ⟨before, others, rfl, placed⟩ := h.exists_of_slash
  obtain ⟨taken, following, after, rfl, rfl, plain, ends, rest⟩ := placed.exists_of_isDigit rfl
  have chars : ∀ c ∈ taken, isNumberChar c = true := fun c mem =>
    isNumberChar_of_isPlain plain c (List.mem_cons_of_mem _ mem)
  exact ⟨a, _, following, before, after, rfl, rfl, (endsZero_iff chars ends rest).mp zero⟩

/-- Where a number stands right behind a slash, the text is marked if it is written as zero. -/
theorem Placed.marked_of_tokens {position p : ℕ} {before after : List Token}
    (h : Placed position text
      (before ++ ⟨.operator .dividedBy, p⟩ :: ⟨.number spelling, p + 1⟩ :: after)) :
    ∃ a following, text = a ++ '/' :: (spelling ++ following) ∧ p = position + a.length ∧
      (IsWrittenZero spelling following → dividesByWrittenZero text = true) := by
  obtain ⟨a, b, rfl, place, -, -, behind⟩ := h.exists_append
  obtain ⟨following, rfl, plain, ends, rest⟩ := behind.exists_of_head
  refine ⟨a, following, List.append_assoc _ _ _, place, fun zero => ?_⟩
  obtain ⟨taken, rfl⟩ : ∃ taken, spelling = '0' :: taken := by
    rcases zero with rfl | ⟨⟨count, rfl⟩, -⟩
    · exact ⟨[], rfl⟩
    · exact ⟨_, rfl⟩
  have chars : ∀ c ∈ taken, isNumberChar c = true := fun c mem =>
    isNumberChar_of_isPlain plain c (List.mem_cons_of_mem _ mem)
  refine dividesByWrittenZero_iff.mpr ⟨a, taken ++ following, ?_, ?_⟩
  · exact List.append_assoc _ _ _
  · exact (endsZero_iff chars ends rest).mpr zero

/-- The mark of a text with tokens, said by the tokens: a slash, and directly behind it a number
that is a single zero, or a zero with a decimal point and perhaps more zeros whose end is the end
of the text, up to a final line break, or is followed by an operator directly. -/
theorem dividesByWrittenZero_iff_tokens {tokens : List Token}
    (lexed : tokensOf text = .ok tokens) :
    dividesByWrittenZero text = true ↔
      ∃ before p spelling after,
        tokens = before ++ ⟨.operator .dividedBy, p⟩ :: ⟨.number spelling, p + 1⟩ :: after ∧
        (spelling = ['0'] ∨
          (∃ count, spelling = '0' :: '.' :: List.replicate count '0') ∧
            let following := text.drop (p + 1 + spelling.length)
            following = [] ∨ following = ['\n'] ∨
              ∃ c ∈ following.head?, c ∈ ['+', '-', '*', '/']) := by
  have placed := placed_of_tokensFrom lexed
  have left (a spelling following : Text) :
      (a ++ '/' :: (spelling ++ following)).drop (a.length + 1 + spelling.length) = following := by
    rw [List.append_cons, ← List.append_assoc]
    apply List.drop_left'
    simp only [List.length_append, List.length_cons, List.length_nil]
  constructor
  · intro marked
    obtain ⟨a, spelling, following, before, after, rfl, rfl, zero⟩ :=
      placed.exists_of_marked marked
    refine ⟨before, a.length, spelling, after, by rw [Nat.zero_add], ?_⟩
    rw [left]
    exact zero
  · rintro ⟨before, p, spelling, after, rfl, zero⟩
    obtain ⟨a, following, rfl, place, marked⟩ := placed.marked_of_tokens
    rw [Nat.zero_add] at place
    subst place
    rw [left] at zero
    exact marked zero

/-- A zero with a point is told by what follows it: a minus sign marks the first text, and a blank
leaves the second unmarked. -/
theorem marked_before_minus :
    dividesByWrittenZero "1 /0.0-x".toList = true ∧
      dividesByWrittenZero "1 /0.0 -x".toList = false := by
  have lexedMinus : tokensOf "1 /0.0-x".toList =
      .ok [⟨.number ['1'], 0⟩, ⟨.operator .dividedBy, 2⟩, ⟨.number "0.0".toList, 3⟩,
        ⟨.operator .minus, 6⟩, ⟨.name ['x'], 7⟩] := rfl
  have lexedBlank : tokensOf "1 /0.0 -x".toList =
      .ok [⟨.number ['1'], 0⟩, ⟨.operator .dividedBy, 2⟩, ⟨.number "0.0".toList, 3⟩,
        ⟨.operator .minus, 7⟩, ⟨.name ['x'], 8⟩] := rfl
  constructor
  · exact (dividesByWrittenZero_iff_tokens lexedMinus).mpr
      ⟨[⟨.number ['1'], 0⟩], 2, "0.0".toList, _, rfl,
        .inr ⟨⟨1, rfl⟩, .inr (.inr ⟨'-', rfl, by decide⟩)⟩⟩
  · rw [← Bool.not_eq_true, dividesByWrittenZero_iff_tokens lexedBlank]
    rintro ⟨before, p, spelling, after, whole, zero⟩
    have found : spelling = "0.0".toList ∧ p = 2 := by
      simp [List.cons_eq_append_iff] at whole
      obtain ⟨-, rfl, ⟨rfl, -⟩, -⟩ := whole
      exact ⟨rfl, rfl⟩
    obtain ⟨rfl, rfl⟩ := found
    rcases zero with single | ⟨-, ends⟩
    · cases single
    · simp at ends

/-! ## Denominators in the tree -/

/-- All parts of a tree: those that are evaluated, and the callees with what they are made of. -/
inductive Expr.IsPartOf (part : Expr) : Expr → Prop where
  | whole : IsPartOf part part
  | operand (symbol : Text) {operand : Expr} (inner : IsPartOf part operand) :
      IsPartOf part (.unary symbol operand)
  | left (symbol : Text) {left : Expr} (right : Expr) (inner : IsPartOf part left) :
      IsPartOf part (.binary symbol left right)
  | right (symbol : Text) (left : Expr) {right : Expr} (inner : IsPartOf part right) :
      IsPartOf part (.binary symbol left right)
  | callee {callee : Expr} (argument : Expr) (inner : IsPartOf part callee) :
      IsPartOf part (.call callee argument)
  | argument (callee : Expr) {argument : Expr} (inner : IsPartOf part argument) :
      IsPartOf part (.call callee argument)

/-- What an operand becomes by being called any number of times. -/
inductive Expr.GrowsByCallsInto (operand : Expr) : Expr → Prop where
  | uncalled : GrowsByCallsInto operand operand
  | call {callee : Expr} (argument : Expr) (inner : GrowsByCallsInto operand callee) :
      GrowsByCallsInto operand (.call callee argument)

/-- What an operand becomes before a product goes on: it may be called, and then be raised to a
power. -/
def Expr.GrowsInto (operand e : Expr) : Prop :=
  operand.GrowsByCallsInto e ∨
    ∃ base exponent, operand.GrowsByCallsInto base ∧
      e = .binary Operator.power.symbol base exponent

variable {symbols rest after : List Symbol} {e : Expr} {layer : Layer}

/-- An applied operand is what stands at its beginning, called; what follows the operand, if
anything does, is a parenthesis. -/
theorem Grammar.Derives.exists_callee (h : Derives .applied symbols e) :
    ∃ first others operand, symbols = first ++ others ∧ Derives .primary first operand ∧
      operand.GrowsByCallsInto e ∧ (others = [] ∧ e = operand ∨ others.head? = some .opening) := by
  have called {others more : List Symbol} {alone : Prop}
      (ends : others = [] ∧ alone ∨ others.head? = some .opening) :
      (others ++ .opening :: more).head? = some .opening := by
    rcases ends with ⟨rfl, -⟩ | opens
    · rfl
    · rw [List.head?_append, opens]
      rfl
  generalize same : Layer.applied = layer at h
  induction h with
  | alone primary _ =>
      exact ⟨_, [], _, (List.append_nil _).symm, primary, .uncalled, .inl ⟨rfl, rfl⟩⟩
  | call _ _ ih _ =>
      obtain ⟨first, others, operand, rfl, primary, calls, ends⟩ := ih same
      exact ⟨first, _, operand, List.append_assoc _ _ _, primary, .call _ calls,
        .inr (called ends)⟩
  | emptyCall _ ih =>
      obtain ⟨first, others, operand, rfl, primary, calls, ends⟩ := ih same
      exact ⟨first, _, operand, List.append_assoc _ _ _, primary, .call _ calls,
        .inr (called ends)⟩
  | number | name | group | sign | signs | powerOfSigned | powerOfApplied | power | productOfPower
  | product | sumOfProduct | sum => cases same

/-- A power that begins with a number is what the number grows into, and is the number itself unless
a parenthesis or a power follows. -/
theorem Grammar.Derives.number_growsInto (h : Derives .power (.number spelling :: rest) e) :
    (Expr.number (Symbol.valueOf spelling)).GrowsInto e ∧
      (e = .number (Symbol.valueOf spelling) ∨
        ∃ next ∈ rest.head?, next = .opening ∨ next = .operator .power) := by
  have number {first others : List Symbol} {operand : Expr}
      (primary : Derives .primary first operand)
      (whole : .number spelling :: rest = first ++ others) :
      operand = .number (Symbol.valueOf spelling) ∧ rest = others := by
    cases primary <;> cases whole
    exact ⟨rfl, rfl⟩
  generalize whole : .number spelling :: rest = symbols at h
  cases h with
  | powerOfSigned signed => cases signed <;> cases whole
  | powerOfApplied applied =>
      obtain ⟨first, others, operand, rfl, primary, calls, ends⟩ := applied.exists_callee
      obtain ⟨rfl, rfl⟩ := number primary whole
      refine ⟨.inl calls, ?_⟩
      rcases ends with ⟨-, same⟩ | opens
      · exact .inl same
      · exact .inr ⟨_, opens, .inl rfl⟩
  | @power base after _ _ applied _ =>
      obtain ⟨first, others, operand, rfl, primary, calls, ends⟩ := applied.exists_callee
      rw [List.append_assoc] at whole
      obtain ⟨rfl, rfl⟩ := number primary whole
      refine ⟨.inr ⟨_, _, calls, rfl⟩, .inr ?_⟩
      rcases ends with ⟨rfl, -⟩ | opens
      · exact ⟨_, rfl, .inr rfl⟩
      · refine ⟨.opening, ?_, .inl rfl⟩
        rw [List.head?_append, opens]
        rfl

/-- Two symbols that end a sequence with what follows them stand to one side of any other symbol
than the second, unless the first of them is that symbol. -/
theorem suffix_append_cons {x y z : Symbol} {before : List Symbol}
    (h : x :: y :: after <:+ before ++ z :: rest) (other : z ≠ y) :
    (∃ inside, x :: y :: inside <:+ before ∧ inside <+: after) ∨
      (x = z ∧ y :: after = rest) ∨ x :: y :: after <:+ rest := by
  obtain ⟨first, whole⟩ := h
  rcases List.append_eq_append_iff.mp whole with ⟨left, rfl, same⟩ | ⟨left, rfl, same⟩
  · match left with
    | [] => exact .inr (.inl (List.cons.inj same))
    | [_] =>
        cases same
        exact absurd rfl other
    | _ :: _ :: inside =>
        cases same
        exact .inl ⟨inside, ⟨first, rfl⟩, List.prefix_append _ _⟩
  · rcases List.suffix_cons_iff.mp ⟨left, same.symm⟩ with same | inside
    · exact .inr (.inl (List.cons.inj same))
    · exact .inr (.inr inside)

/-- The tree has a division whose right operand is a power that begins with the number, and whose
other symbols are the next ones. -/
def DividesByNumber (spelling : Text) (after : List Symbol) (e : Expr) : Prop :=
  ∃ l r others, (Expr.binary Operator.dividedBy.symbol l r).IsPartOf e ∧
    Derives .power (.number spelling :: others) r ∧ others <+: after

theorem DividesByNumber.of_isPrefix {within : List Symbol} (h : DividesByNumber spelling within e)
    (begins : within <+: after) : DividesByNumber spelling after e := by
  obtain ⟨l, r, others, part, right, first⟩ := h
  exact ⟨l, r, others, part, right, first.trans begins⟩

theorem DividesByNumber.of_part {inner : Expr} (h : DividesByNumber spelling after inner)
    (parts : ∀ {part : Expr}, part.IsPartOf inner → part.IsPartOf e) :
    DividesByNumber spelling after e := by
  obtain ⟨l, r, others, part, right, first⟩ := h
  exact ⟨l, r, others, parts part, right, first⟩

/-- A slash before a number stands in front of a closing parenthesis with all that is behind it. -/
theorem suffix_append_closing {inside : List Symbol}
    (h : .operator .dividedBy :: .number spelling :: after <:+ inside ++ [.closing]) :
    ∃ within, .operator .dividedBy :: .number spelling :: within <:+ inside ∧
      within <+: after := by
  rcases suffix_append_cons h (by simp) with found | ⟨_, short⟩ | short
  · exact found
  · cases short
  · exact absurd short.length_le (by simp)

/-- A slash before a number makes a division of what the symbols derive. -/
theorem Grammar.Derives.dividesByNumber (h : Derives layer symbols e)
    (ends : .operator .dividedBy :: .number spelling :: after <:+ symbols) :
    DividesByNumber spelling after e := by
  induction h generalizing after with
  | number | name => exact absurd ends.length_le (by simp)
  | alone _ ih | powerOfSigned _ ih | powerOfApplied _ ih | productOfPower _ ih
  | sumOfProduct _ ih => exact ih ends
  | group _ ih =>
      rcases List.suffix_cons_iff.mp ends with same | inside
      · cases same
      · obtain ⟨within, ends, begins⟩ := suffix_append_closing inside
        exact (ih ends).of_isPrefix begins
  | call _ _ ihl ihr =>
      rcases suffix_append_cons ends (by simp) with ⟨within, ends, begins⟩ | ⟨same, _⟩ | inside
      · exact ((ihl ends).of_isPrefix begins).of_part (.callee _)
      · cases same
      · obtain ⟨within, ends, begins⟩ := suffix_append_closing inside
        exact ((ihr ends).of_isPrefix begins).of_part (.argument _)
  | emptyCall _ ih =>
      rcases suffix_append_cons ends (by simp) with ⟨within, ends, begins⟩ | ⟨same, _⟩ | short
      · exact ((ih ends).of_isPrefix begins).of_part (.callee _)
      · cases same
      · exact absurd short.length_le (by simp)
  | sign signs _ ih | signs signs _ ih =>
      rcases List.suffix_cons_iff.mp ends with same | ends
      · cases same
        cases signs
      · exact (ih ends).of_part (.operand _)
  | power _ _ ihl ihr =>
      rcases suffix_append_cons ends (by simp) with ⟨within, ends, begins⟩ | ⟨same, _⟩ | ends
      · exact ((ihl ends).of_isPrefix begins).of_part (.left _ _)
      · cases same
      · exact (ihr ends).of_part (.right _ _)
  | product _ _ right ihl ihr =>
      rcases suffix_append_cons ends (by simp) with ⟨within, ends, begins⟩ | ⟨same, rfl⟩ | ends
      · exact ((ihl ends).of_isPrefix begins).of_part (.left _ _)
      · -- The slash is the operator of this very product.
        cases same
        exact ⟨_, _, after, .whole, right, List.prefix_rfl⟩
      · exact (ihr ends).of_part (.right _ _)
  | sum adds _ _ ihl ihr =>
      rcases suffix_append_cons ends (by simp) with ⟨within, ends, begins⟩ | ⟨same, _⟩ | ends
      · exact ((ihl ends).of_isPrefix begins).of_part (.left _ _)
      · cases same
        simp at adds
      · exact (ihr ends).of_part (.right _ _)

/-- A number that is written as zero is zero. -/
theorem IsWrittenZero.valueOf_eq (h : IsWrittenZero spelling following) :
    Symbol.valueOf spelling = 0 := by
  have coefficient : (ofPlain spelling).coefficient = 0 := by
    rcases h with rfl | ⟨⟨count, rfl⟩, -⟩
    · rfl
    · have zero : IsDigits ['0'] := isDigits_zeros 1
      rw [← List.singleton_append, ofPlain_point zero]
      exact valueOfDigits_zeros (count + 1)
  rw [Symbol.valueOf, toDouble, nearestIndex, if_pos coefficient]
  rfl

/-- In the tree of a marked text something is divided by what a zero grows into. It is the zero
itself unless a parenthesis or a power follows it. -/
theorem exists_division_of_marked (read : Expr.ofText none text = .ok e)
    (marked : dividesByWrittenZero text = true) :
    ∃ before p spelling after l r,
      tokensOf text =
        .ok (before ++ ⟨.operator .dividedBy, p⟩ :: ⟨.number spelling, p + 1⟩ :: after) ∧
      Symbol.valueOf spelling = 0 ∧
      (Expr.binary ['/'] l r).IsPartOf e ∧
      (Expr.number 0).GrowsInto r ∧
      (r = .number 0 ∨
        ∃ next ∈ after.head?, next.symbol = .opening ∨ next.symbol = .operator .power) := by
  obtain ⟨tokens, lexed, derives⟩ := ofText_none_eq_ok_iff.mp read
  obtain ⟨a, spelling, following, before, after, rfl, rfl, zero⟩ :=
    (placed_of_tokensFrom lexed).exists_of_marked marked
  have value := zero.valueOf_eq
  have ends : .operator .dividedBy :: .number spelling :: after.map (·.symbol) <:+
      (before ++ ⟨.operator .dividedBy, 0 + a.length⟩ ::
        ⟨.number spelling, 0 + a.length + 1⟩ :: after).map (·.symbol) := by
    simp
  obtain ⟨l, r, others, part, right, begins⟩ := derives.dividesByNumber ends
  obtain ⟨grows, denominator⟩ := right.number_growsInto
  rw [value] at grows denominator
  refine ⟨before, _, spelling, after, l, r, lexed, value, part, grows, ?_⟩
  refine denominator.imp_right ?_
  rintro ⟨next, first, holds⟩
  -- What follows the zero in the power is what follows it in the text.
  obtain ⟨more, rfl⟩ := List.head?_eq_some_iff.mp first
  obtain ⟨later, whole⟩ := begins
  obtain ⟨token, tokens, rfl, rfl, -⟩ := List.map_eq_cons_iff.mp whole.symm
  exact ⟨token, rfl, holds⟩

/-- A parenthesis that closes behind the zero leaves it the denominator. -/
theorem exists_division_in_parentheses :
    ∃ e l, Expr.ofText none "x-(1 /0)".toList = .ok e ∧
      dividesByWrittenZero "x-(1 /0)".toList = true ∧
      (Expr.binary ['/'] l (.number 0)).IsPartOf e := by
  have read : Expr.ofText none "x-(1 /0)".toList = .ok (.binary ['-'] (.name ['x'])
      (.binary ['/'] (.number (Symbol.valueOf ['1'])) (.number (Symbol.valueOf ['0'])))) :=
    rfl
  have lexed : tokensOf "x-(1 /0)".toList = .ok [⟨.name ['x'], 0⟩, ⟨.operator .minus, 1⟩,
      ⟨.opening, 2⟩, ⟨.number ['1'], 3⟩, ⟨.operator .dividedBy, 5⟩, ⟨.number ['0'], 6⟩,
      ⟨.closing, 7⟩] := rfl
  have marked : dividesByWrittenZero "x-(1 /0)".toList = true := rfl
  obtain ⟨before, p, spelling, after, l, r, same, -, part, -, denominator⟩ :=
    exists_division_of_marked read marked
  have tokens := Except.ok.inj (lexed.symm.trans same)
  obtain rfl : after = [⟨.closing, 7⟩] := by
    simp [List.cons_eq_append_iff] at tokens
    exact tokens.2.2.2
  rcases denominator with rfl | ⟨_, ⟨⟩, opens | raises⟩
  · exact ⟨_, l, read, marked, part⟩
  · cases opens
  · cases raises

/-- A zero that is raised to a power is marked, and no number stands to the right of a slash. -/
theorem marked_power_of_zero :
    ∃ e, Expr.ofText none "1/0**2".toList = .ok e ∧
      dividesByWrittenZero "1/0**2".toList = true ∧
      ∀ l value, ¬ (Expr.binary ['/'] l (.number value)).IsPartOf e := by
  refine ⟨.binary ['/'] (.number (Symbol.valueOf ['1']))
    (.binary ['*', '*'] (.number (Symbol.valueOf ['0'])) (.number (Symbol.valueOf ['2']))),
    rfl, rfl, ?_⟩
  intro l value part
  cases part with
  | left _ _ inner => cases inner
  | right _ _ inner =>
      cases inner with
      | left _ _ inner | right _ _ inner => cases inner

end Keypad
