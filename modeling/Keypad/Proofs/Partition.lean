import Keypad.Proofs.Scanning
import Keypad.Proofs.Sums

/-!
# The tokens of a text as its parts

A text with tokens is made up of them. Their places increase up to the end of the text, their
spellings with blanks alone between them are the text, and the value of a number is the double
nearest to what is spelt (`Partitions`). Each token is the longest that stands at its place: if a
longer symbol did, the lexer would take either of the two from the spelling of the longer one
(`Symbol.Ends.length_le`).

Together with the scan this says which texts have tokens, what these are, and what is wrong with the
other texts (`tokensOf_spec`).
-/

namespace Keypad

open Double Decimal Lexer

variable {a b left text : Text} {position : ℕ} {tokens : List Token} {symbol other : Symbol}

/-- The spellings of tokens, with a gap before each of them. -/
def interleave (gaps : List Text) (tokens : List Token) : Text :=
  (List.zipWith (fun gap token => gap ++ token.symbol.spelling) gaps tokens).flatten

/-- Digits with at most one point among them spell a number. -/
def SpellsNumber (spelling : Text) (x : ℚ) : Prop :=
  ∃ whole places, IsDigits whole ∧ IsDigits places ∧
    (spelling = whole ∧ places = [] ∨ spelling = whole ++ '.' :: places) ∧
    x = valueOfDigits (whole ++ places) / 10 ^ places.length

/-- The double is the one nearest to a number, which no double is closer to unless the number is
beyond the range of the doubles. -/
def IsNearest (v : Float) (x : ℚ) : Prop :=
  v = ofRat x ∧ (v.isFinite = true → ∀ w, |Double.toRat v - x| ≤ |Double.toRat w - x|)

/-- The tokens are those that make up the text. -/
structure Partitions (text : Text) (tokens : List Token) : Prop where
  /-- Their places increase, and the last is before the end of the text. -/
  increasing : (tokens.map (·.position) ++ [text.length]).Pairwise (· < ·)
  /-- Their spellings, with blanks alone between them, are the text. -/
  rebuilt : ∃ gaps last, gaps.length = tokens.length ∧
    (∀ gap ∈ last :: gaps, ∀ c ∈ gap, Text.isBlank c = true) ∧ text = interleave gaps tokens ++ last
  /-- Each is spelt where it says, and no longer symbol is. -/
  longest : ∀ token ∈ tokens, token.symbol.IsSpelt ∧
    token.symbol.spelling <+: text.drop token.position ∧
    ∀ other : Symbol, other.IsSpelt → other.spelling <+: text.drop token.position →
      other.spelling.length ≤ token.symbol.spelling.length
  /-- The value of a number is the double nearest to what it spells. -/
  nearest : ∀ token ∈ tokens, ∀ spelling, token.symbol = .number spelling →
    ∃ x, SpellsNumber spelling x ∧ IsNearest (Symbol.valueOf spelling) x

namespace Symbol

/-- Whether a symbol ends is decided by the next character. -/
theorem Ends.congr (h : symbol.Ends a) (same : a.head? = b.head?) : symbol.Ends b := by
  cases symbol with
  | number | name => simpa only [Ends, same] using h
  | operator op =>
      cases op with
      | times => simpa only [Ends, same] using h
      | _ => trivial
  | opening | closing => trivial

/-- A symbol that ends is the longest that stands there. If a longer one did, the lexer would take
either of them from the spelling of the longer one. -/
theorem Ends.length_le (ends : symbol.Ends left) (spelt : symbol.IsSpelt)
    (spelt_other : other.IsSpelt) (stands : other.spelling <+: symbol.spelling ++ left) :
    other.spelling.length ≤ symbol.spelling.length := by
  by_contra longer
  rw [not_le] at longer
  obtain ⟨more, whole⟩ : symbol.spelling <+: other.spelling :=
    List.prefix_of_prefix_length_le (List.prefix_append _ _) stands longer.le
  rw [← whole, List.prefix_append_right_inj] at stands
  have same : left.head? = more.head? := by
    cases more with
    | nil =>
        rw [List.append_nil] at whole
        rw [whole] at longer
        exact absurd longer (lt_irrefl _)
    | cons d more =>
        obtain ⟨after, rfl⟩ := stands
        rfl
  obtain ⟨c, taken, spelling⟩ := List.exists_cons_of_ne_nil spelt_other.not_blank.1
  have first : symbolAt 0 c taken = .ok other :=
    symbolAt_of_ends spelt_other (by rw [spelling, List.append_nil]) other.ends_nil
  have second : symbolAt 0 c taken = .ok symbol :=
    symbolAt_of_ends spelt (by rw [← spelling, whole]) (ends.congr same)
  rw [first] at second
  cases second
  exact lt_irrefl _ longer

end Symbol

namespace Placed

/-- The places of the tokens and the end of the text increase. -/
theorem increasing (h : Placed position text tokens) :
    (∀ place ∈ tokens.map (·.position) ++ [position + text.length], position ≤ place) ∧
      (tokens.map (·.position) ++ [position + text.length]).Pairwise (· < ·) := by
  induction h with
  | nothing position => simp
  | @blank position c rest tokens _ _ ih =>
      rw [add_length_cons]
      exact ⟨fun place mem => (Nat.le_succ position).trans (ih.1 place mem), ih.2⟩
  | @token position symbol rest tokens spelt _ _ ih =>
      have positive := List.length_pos_iff.mpr spelt.not_blank.1
      have length : position + (symbol.spelling ++ rest).length =
          position + symbol.spelling.length + rest.length := by
        rw [List.length_append, ← Nat.add_assoc]
      have later : ∀ place ∈ tokens.map (·.position) ++
          [position + symbol.spelling.length + rest.length], position < place :=
        fun place mem => (Nat.lt_add_of_pos_right positive).trans_le (ih.1 place mem)
      rw [length, List.map_cons, List.cons_append, List.forall_mem_cons, List.pairwise_cons]
      exact ⟨⟨le_rfl, fun place mem => (later place mem).le⟩, later, ih.2⟩

/-- Between the spellings of the tokens there are blanks alone. -/
theorem rebuilt (h : Placed position text tokens) : ∃ gaps last, gaps.length = tokens.length ∧
    (∀ gap ∈ last :: gaps, ∀ c ∈ gap, Text.isBlank c = true) ∧
      text = interleave gaps tokens ++ last := by
  induction h with
  | nothing => exact ⟨[], [], rfl, by simp, rfl⟩
  | @blank position c rest tokens blank _ ih =>
      obtain ⟨gaps, last, count, blanks, rfl⟩ := ih
      -- The blank belongs to the first gap, which is the last one if there is no token.
      cases gaps with
      | nil =>
          obtain rfl : tokens = [] := List.length_eq_zero_iff.mp count.symm
          refine ⟨[], c :: last, rfl, ?_, rfl⟩
          rw [List.forall_mem_singleton] at blanks ⊢
          exact List.forall_mem_cons.mpr ⟨blank, blanks⟩
      | cons gap gaps =>
          obtain ⟨token, tokens, rfl⟩ : ∃ token others, tokens = token :: others :=
            List.exists_cons_of_length_eq_add_one count.symm
          refine ⟨(c :: gap) :: gaps, last, count, ?_, rfl⟩
          rw [List.forall_mem_cons, List.forall_mem_cons] at blanks ⊢
          exact ⟨blanks.1, List.forall_mem_cons.mpr ⟨blank, blanks.2.1⟩, blanks.2.2⟩
  | @token position symbol rest tokens _ _ _ ih =>
      obtain ⟨gaps, last, count, blanks, rfl⟩ := ih
      refine ⟨[] :: gaps, last, congrArg (· + 1) count, ?_, ?_⟩
      · rw [List.forall_mem_cons] at blanks ⊢
        exact ⟨blanks.1, List.forall_mem_cons.mpr ⟨List.forall_mem_nil _, blanks.2⟩⟩
      · rw [← List.append_assoc]
        rfl

/-- Each token is spelt where it says, and no longer symbol is. -/
theorem longest (h : Placed 0 text tokens) : ∀ token ∈ tokens, token.symbol.IsSpelt ∧
    token.symbol.spelling <+: text.drop token.position ∧
    ∀ other : Symbol, other.IsSpelt → other.spelling <+: text.drop token.position →
      other.spelling.length ≤ token.symbol.spelling.length := by
  intro token mem
  obtain ⟨before, after, rfl⟩ := List.append_of_mem mem
  obtain ⟨a, b, rfl, place, spelt, ends, _⟩ := h.exists_append
  have stands : (a ++ token.symbol.spelling ++ b).drop token.position =
      token.symbol.spelling ++ b := by
    rw [place, Nat.zero_add, List.append_assoc, List.drop_left]
  rw [stands]
  exact ⟨spelt, List.prefix_append _ _, fun other spelt_other => ends.length_le spelt spelt_other⟩

end Placed

/-- A decimal without a sign gives the double nearest to its value. -/
theorem Decimal.toDouble_false (d : Decimal) : d.toDouble false = ofRat d.toRat := by
  have nonneg := Decimal.toRat_nonneg d
  rw [toDouble, ofRat, nearestIndex_eq, abs_of_nonneg nonneg, decide_eq_false nonneg.not_gt]

/-- A plain spelling is one of a number. -/
theorem spellsNumber_ofPlain {spelling : Text} (plain : isPlain spelling = true) :
    SpellsNumber spelling (ofPlain spelling).toRat := by
  have nonempty : spelling ≠ [] := by
    rintro rfl
    cases plain
  have points := ((isPlain_iff (isNumberChar_of_isPlain plain) nonempty).mp plain).1
  have digit : ∀ c ∈ spelling, c ≠ '.' → isDigit c = true := fun c mem other =>
    (digit_or_point_of_isPlain plain mem).resolve_right other
  by_cases point : '.' ∈ spelling
  · obtain ⟨whole, places, rfl⟩ : ∃ whole places, spelling = whole ++ '.' :: places :=
      List.append_of_mem point
    rw [List.count_append, List.count_cons_self] at points
    have none : '.' ∉ whole ++ places := by
      rw [← List.count_eq_zero, List.count_append]
      omega
    have digits : IsDigits (whole ++ places) := fun c mem =>
      digit c (List.perm_middle.mem_iff.mpr (List.mem_cons_of_mem _ mem))
        (ne_of_mem_of_not_mem mem none)
    have whole_digits : IsDigits whole := fun c mem => digits c (List.mem_append_left _ mem)
    have places_digits : IsDigits places := fun c mem => digits c (List.mem_append_right _ mem)
    refine ⟨whole, places, whole_digits, places_digits, .inr rfl, ?_⟩
    rw [ofPlain_point whole_digits, Decimal.toRat, zpow_neg, zpow_natCast, ← div_eq_mul_inv]
  · have digits : IsDigits spelling := fun c mem => digit c mem (ne_of_mem_of_not_mem mem point)
    refine ⟨spelling, [], digits, List.forall_mem_nil _, .inl ⟨rfl, rfl⟩, ?_⟩
    rw [ofPlain_digits digits, Decimal.toRat, List.append_nil]
    simp

/-- The value of a plain spelling is the double nearest to what it spells. -/
theorem isNearest_valueOf (spelling : Text) :
    IsNearest (Symbol.valueOf spelling) (ofPlain spelling).toRat := by
  have value : Symbol.valueOf spelling = ofRat (ofPlain spelling).toRat := toDouble_false _
  refine ⟨value, fun finite w => ?_⟩
  rw [value, isFinite_iff, index_ofRat] at finite
  rw [value]
  exact abs_rounded_sub_le finite w

/-- Tokens that are placed in a text partition it. -/
theorem Placed.partitions (h : Placed 0 text tokens) : Partitions text tokens where
  increasing := by
    have increasing := h.increasing.2
    rwa [Nat.zero_add] at increasing
  rebuilt := h.rebuilt
  longest := h.longest
  nearest token mem spelling number := by
    have spelt := (h.longest token mem).1
    rw [number] at spelt
    exact ⟨_, spellsNumber_ofPlain spelt, isNearest_valueOf spelling⟩

/-- A text has tokens exactly if the scan passes them on its way from the beginning to the end,
which stands at the length of the text. Otherwise it has the fault that the scan comes to. The
tokens partition the text, and those of a second text come after them, as many places further on as
the first text and any blanks in between are long. -/
theorem tokensOf_spec (text : Text) :
    (∀ tokens, tokensOf text = .ok tokens ↔ Reaches 0 text tokens text.length []) ∧
    (∀ e, tokensOf text = .error e ↔
      ∃ passed stop left, Reaches 0 text passed stop left ∧ Flawed stop left e) ∧
    ∀ tokens, tokensOf text = .ok tokens →
      Partitions text tokens ∧
      ∀ gap second others, gap ≠ [] → (∀ c ∈ gap, Text.isBlank c = true) →
        tokensOf second = .ok others →
        tokensOf (text ++ gap ++ second) =
          .ok (tokens ++ others.map (·.shifted (text ++ gap).length)) := by
  refine ⟨fun tokens => ?_, fun e => tokensFrom_eq_error_iff, fun tokens lexed => ?_⟩
  · have ends : tokensOf text = .ok tokens ↔ Reaches 0 text tokens (0 + text.length) [] :=
      tokensFrom_iff_placed.trans placed_iff_reaches
    rwa [Nat.zero_add] at ends
  · have placed := tokensFrom_iff_placed.mp lexed
    refine ⟨placed.partitions, fun gap second others nonempty blank lexed_second => ?_⟩
    have joined := placed.append_blanks (tokensFrom_iff_placed.mp lexed_second) nonempty blank
    rw [Nat.zero_add] at joined
    exact tokensFrom_iff_placed.mpr joined

/-- Two stars make no power if a no-break space stands between them, and the second point of a
number is found behind the tokens before it. -/
theorem tokensOf_stars_apart :
    Partitions "x1 *".toList [⟨.name "x1".toList, 0⟩, ⟨.operator .times, 3⟩] ∧
    tokensOf ("x1 *".toList ++ ['\u00a0'] ++ "*.5".toList) = .ok [⟨.name "x1".toList, 0⟩,
      ⟨.operator .times, 3⟩, ⟨.operator .times, 5⟩, ⟨.number ".5".toList, 6⟩] ∧
    ∃ passed stop left, Reaches 0 "2 3.1.4".toList passed stop left ∧
      Flawed stop left (.secondPoint 5) := by
  have first : tokensOf "x1 *".toList = .ok [⟨.name "x1".toList, 0⟩, ⟨.operator .times, 3⟩] := rfl
  have second : tokensOf "*.5".toList = .ok [⟨.operator .times, 0⟩, ⟨.number ".5".toList, 1⟩] := rfl
  obtain ⟨partitions, apart⟩ := (tokensOf_spec "x1 *".toList).2.2 _ first
  exact ⟨partitions, apart ['\u00a0'] _ _ (List.cons_ne_nil _ _) (List.forall_mem_singleton.mpr rfl)
    second, ((tokensOf_spec "2 3.1.4".toList).2.1 _).mp rfl⟩

end Keypad
