import Keypad.Proofs.Lexing
import Keypad.Proofs.Phases

/-!
# Parentheses

Every expression has as many closing parentheses as opening ones. So a text that becomes an
expression when parentheses are closed at its end becomes one in a single way, and it is enough to
count parentheses to find it (`ofText_closeParentheses_iff`).

What stands in parentheses is read as it would be read alone, whatever stands around it. So trees
can be put together by putting their texts together in parentheses, and the trees that some text
spells are exactly those made of known operators over leaves that are spelt
(`ofText_parenthesised_parts`).
-/

namespace Keypad

open Grammar Reading Lexer

variable {a b text : Text} {e l r : Expr} {symbols : List Symbol} {layer : Layer}

/-- A text spells what its symbols derive. -/
theorem spells_iff : Spells text e ↔ ∃ symbols, Splits text symbols ∧ Derives .sum symbols e := by
  constructor
  · rintro ⟨tokens, lexed, derives⟩
    exact ⟨_, splits_of_tokensFrom lexed, derives⟩
  · rintro ⟨symbols, splits, derives⟩
    obtain ⟨tokens, lexed, rfl⟩ := (tokensFrom_iff_splits 0).mpr splits
    exact ⟨tokens, lexed, derives⟩

/-- Only what a text spells is read from it. -/
theorem spells_of_ofText {room : Room} (read : Expr.ofText room text = .ok e) : Spells text e := by
  rcases ofText_cases room text with ⟨_, deep⟩ | ⟨_, other, spells, same⟩ | ⟨_, _, fault, refused⟩
  · rw [deep] at read
    cases read
  · rw [same] at read
    cases read
    exact spells
  · rw [refused] at read
    cases read

/-- Without a bound all that a text spells is read. -/
theorem ofText_none_eq_ok_iff : Expr.ofText none text = .ok e ↔ Spells text e := by
  refine ⟨spells_of_ofText, fun spells => ?_⟩
  rcases ofText_cases none text with ⟨⟨_, _, _, _, _, _, deep⟩, _⟩ | ⟨_, other, spells', read⟩ |
    ⟨_, none, _⟩
  · cases deep
  · rw [read, spells.unique spells']
  · exact absurd ⟨e, spells⟩ none

/-- What the grammar derives is balanced. -/
theorem Grammar.Derives.count_closing (h : Derives layer symbols e) :
    symbols.count .closing = symbols.count .opening := by
  induction h with
  | number | name => rfl
  | alone _ ih | powerOfSigned _ ih | powerOfApplied _ ih | productOfPower _ ih
  | sumOfProduct _ ih => exact ih
  | group _ ih => simp [ih]
  | call _ _ operand sum => simp [operand, sum]
  | emptyCall _ operand => simp [operand]
  | sign _ _ operand | signs _ _ operand => simpa using operand
  | power _ _ left right | product _ _ _ left right | sum _ _ _ left right => simp [left, right]

/-- A text that spells an expression has as many closing parentheses as opening ones. -/
theorem Spells.count_closing (h : Spells text e) : text.count ')' = text.count '(' := by
  obtain ⟨symbols, splits, derives⟩ := spells_iff.mp h
  rw [← splits.count_parentheses.1, ← splits.count_parentheses.2]
  exact derives.count_closing

/-- Whatever number of closing parentheses makes an expression of a text, it is the number that
the text lacks by the counts of the two kinds. -/
theorem Spells.closings_eq {count : ℕ} (h : Spells (text ++ List.replicate count ')') e) :
    count = missingClosings text := by
  have balanced := h.count_closing
  rw [List.count_append, List.count_append, List.count_replicate_self,
    List.count_replicate, if_neg (by decide)] at balanced
  unfold missingClosings
  omega

/-- To close the open parentheses by their count makes an expression of every text that becomes
one by closing parentheses at its end, and makes the same expression. -/
theorem ofText_closeParentheses_iff (room : Room) (text : Text) (e : Expr) :
    Expr.ofText room (closeParentheses text) = .ok e ↔
      ∃ count, Expr.ofText room (text ++ List.replicate count ')') = .ok e := by
  constructor
  · intro read
    exact ⟨missingClosings text, read⟩
  · rintro ⟨count, read⟩
    rw [closeParentheses, ← (spells_of_ofText read).closings_eq]
    exact read

/-- The text between parentheses. -/
def Text.inParentheses (text : Text) : Text := '(' :: (text ++ [')'])

/-- The symbols between parentheses. -/
def enclosed (symbols : List Symbol) : List Symbol := .opening :: (symbols ++ [.closing])

theorem Splits.inParentheses (inner : Splits a symbols) :
    Splits a.inParentheses (enclosed symbols) :=
  inner.parenthesised .nothing

/-- Anything may follow a text in parentheses. -/
theorem Splits.inParentheses_append {others : List Symbol} (inner : Splits a symbols)
    (after : Splits b others) :
    Splits (a.inParentheses ++ b) (enclosed symbols ++ others) := by
  simpa [Text.inParentheses, enclosed] using inner.parenthesised after

/-- Every symbol ends before a parenthesis. -/
theorem separates_inParentheses (a : Text) : Separates a.inParentheses :=
  separates_cons rfl rfl (by decide) _

/-- An operand that binds as tightly as can be is of every layer that signs have no part in. -/
theorem Grammar.Derives.of_primary (h : Derives .primary symbols e) (unsigned : layer ≠ .signed) :
    Derives layer symbols e := by
  have power : Derives .power symbols e := .powerOfApplied (.alone h)
  cases layer with
  | sum => exact power.sumOfPower
  | product => exact .productOfPower power
  | power => exact power
  | signed => exact absurd rfl unsigned
  | applied => exact .alone h
  | primary => exact h

/-- Between parentheses a sum is such an operand. -/
theorem Grammar.Derives.primary_enclosed (h : Derives .sum symbols e) :
    Derives .primary (enclosed symbols) e :=
  .group h

/-- Parentheses alone change nothing. -/
theorem Spells.inParentheses (h : Spells a e) : Spells a.inParentheses e := by
  obtain ⟨symbols, splits, derives⟩ := spells_iff.mp h
  exact spells_iff.mpr ⟨_, splits.inParentheses, derives.primary_enclosed.of_primary (by simp)⟩

theorem Spells.sign (h : Spells a e) {op : Operator} (signs : op.isSign = true) :
    Spells (op.symbol ++ a.inParentheses) (.unary op.symbol e) := by
  obtain ⟨symbols, splits, derives⟩ := spells_iff.mp h
  have sign : Splits op.symbol [.operator op] := .single (.operator op) trivial
  refine spells_iff.mpr ⟨_, sign.append splits.inParentheses (separates_inParentheses a), ?_⟩
  exact (Derives.powerOfSigned (.sign signs (.alone derives.primary_enclosed))).sumOfPower

theorem Spells.operation (op : Operator) (left : Spells a l) (right : Spells b r) :
    Spells (a.inParentheses ++ op.symbol ++ b.inParentheses) (.binary op.symbol l r) := by
  obtain ⟨before, splitsLeft, derivesLeft⟩ := spells_iff.mp left
  obtain ⟨after, splitsRight, derivesRight⟩ := spells_iff.mp right
  have operator : Splits op.symbol [.operator op] := .single (.operator op) trivial
  have last := operator.append splitsRight.inParentheses (separates_inParentheses b)
  rw [List.append_assoc]
  refine spells_iff.mpr ⟨_, splitsLeft.inParentheses_append last, ?_⟩
  have first : Derives (leftLayer op) (enclosed before) l :=
    derivesLeft.primary_enclosed.of_primary (by cases op <;> simp [leftLayer])
  have second : Derives (rightLayer op) (enclosed after) r :=
    derivesRight.primary_enclosed.of_primary (by cases op <;> simp [rightLayer])
  exact derives_layerAt_of_le (Nat.zero_le _) (Derives.operation op first second)

/-- A parenthesis right after an operand opens its argument. -/
theorem Spells.call (left : Spells a l) (right : Spells b r) :
    Spells (a.inParentheses ++ b.inParentheses) (.call l r) := by
  obtain ⟨before, splitsLeft, callee⟩ := spells_iff.mp left
  obtain ⟨after, splitsRight, argument⟩ := spells_iff.mp right
  refine spells_iff.mpr ⟨_, splitsLeft.inParentheses_append splitsRight.inParentheses, ?_⟩
  exact (Derives.powerOfApplied (.call (.alone callee.primary_enclosed) argument)).sumOfPower

theorem Spells.emptyCall (h : Spells a e) :
    Spells (a.inParentheses ++ ['(', ')']) (.call e .missing) := by
  obtain ⟨symbols, splits, callee⟩ := spells_iff.mp h
  have empty : Splits ['(', ')'] [.opening, .closing] := .parenthesised .nothing .nothing
  refine spells_iff.mpr ⟨_, splits.inParentheses_append empty, ?_⟩
  exact (Derives.powerOfApplied (.emptyCall (.alone callee.primary_enclosed))).sumOfPower

/-- A name right before the parentheses is called. -/
theorem Spells.named (h : Spells a e) {name : Text} (isName : isName name = true) :
    Spells (name ++ a.inParentheses) (.call (.name name) e) := by
  obtain ⟨symbols, splits, argument⟩ := spells_iff.mp h
  have callee : Splits name [.name name] := .single (.name name) isName
  refine spells_iff.mpr ⟨_, callee.append splits.inParentheses (separates_inParentheses a), ?_⟩
  exact (Derives.powerOfApplied (.call (.alone (.name name)) argument)).sumOfPower

/-- A tree of known operators and calls, whose leaves are spelt by some text each. -/
inductive Composed : Expr → Prop where
  | number {value : Float} {text : Text} (read : Expr.ofText none text = .ok (.number value)) :
      Composed (.number value)
  | name {spelling text : Text} (read : Expr.ofText none text = .ok (.name spelling)) :
      Composed (.name spelling)
  | unary {op : Operator} {e : Expr} (signs : op.isSign = true) (operand : Composed e) :
      Composed (.unary op.symbol e)
  | binary (op : Operator) {l r : Expr} (left : Composed l) (right : Composed r) :
      Composed (.binary op.symbol l r)
  | call {callee argument : Expr} (operand : Composed callee) (inner : Composed argument) :
      Composed (.call callee argument)
  | emptyCall {callee : Expr} (operand : Composed callee) : Composed (.call callee .missing)

/-- Some text spells a composed tree: its parts in parentheses. -/
theorem Composed.exists_spells (h : Composed e) : ∃ text, Spells text e := by
  induction h with
  | number read => exact ⟨_, spells_of_ofText read⟩
  | name read => exact ⟨_, spells_of_ofText read⟩
  | unary signs _ ih =>
      obtain ⟨text, spells⟩ := ih
      exact ⟨_, spells.sign signs⟩
  | binary op _ _ ihl ihr =>
      obtain ⟨before, left⟩ := ihl
      obtain ⟨after, right⟩ := ihr
      exact ⟨_, left.operation op right⟩
  | call _ _ ihl ihr =>
      obtain ⟨before, left⟩ := ihl
      obtain ⟨after, right⟩ := ihr
      exact ⟨_, left.call right⟩
  | emptyCall _ ih =>
      obtain ⟨text, spells⟩ := ih
      exact ⟨_, spells.emptyCall⟩

/-- The leaves of what spelt symbols derive are read from their own spellings. -/
theorem Grammar.Derives.composed (h : Derives layer symbols e)
    (spelt : ∀ symbol ∈ symbols, symbol.IsSpelt) : Composed e := by
  induction h with
  | number spelling =>
      have splits : Splits spelling [.number spelling] :=
        .single (.number spelling) (spelt _ List.mem_cons_self)
      have spells := spells_iff.mpr ⟨_, splits, (Derives.number spelling).of_primary (by simp)⟩
      exact .number (ofText_none_eq_ok_iff.mpr spells)
  | name spelling =>
      have splits : Splits spelling [.name spelling] :=
        .single (.name spelling) (spelt _ List.mem_cons_self)
      have spells := spells_iff.mpr ⟨_, splits, (Derives.name spelling).of_primary (by simp)⟩
      exact .name (ofText_none_eq_ok_iff.mpr spells)
  | alone _ ih | powerOfSigned _ ih | powerOfApplied _ ih | productOfPower _ ih
  | sumOfProduct _ ih => exact ih spelt
  | group _ ih => exact ih fun symbol mem => spelt symbol (by simp [mem])
  | call _ _ ihl ihr =>
      exact .call (ihl fun symbol mem => spelt symbol (by simp [mem]))
        (ihr fun symbol mem => spelt symbol (by simp [mem]))
  | emptyCall _ ih => exact .emptyCall (ih fun symbol mem => spelt symbol (by simp [mem]))
  | sign signs _ ih | signs signs _ ih =>
      exact .unary signs (ih fun symbol mem => spelt symbol (by simp [mem]))
  | power _ _ ihl ihr | product _ _ _ ihl ihr | sum _ _ _ ihl ihr =>
      exact .binary _ (ihl fun symbol mem => spelt symbol (by simp [mem]))
        (ihr fun symbol mem => spelt symbol (by simp [mem]))

/-- The trees that are spelt are the composed ones. -/
theorem exists_spells_iff_composed : (∃ text, Spells text e) ↔ Composed e := by
  refine ⟨?_, Composed.exists_spells⟩
  rintro ⟨text, spells⟩
  obtain ⟨symbols, splits, derives⟩ := spells_iff.mp spells
  exact derives.composed splits.isSpelt

/-- Texts in parentheses are read as they are read alone, whatever is put between, before or behind
them; and so the trees that are read from some text are the composed ones. -/
theorem ofText_parenthesised_parts :
    (∀ {a b : Text} {l r : Expr}, Expr.ofText none a = .ok l → Expr.ofText none b = .ok r →
      (∀ op : Operator, Expr.ofText none (a.inParentheses ++ op.symbol ++ b.inParentheses) =
        .ok (.binary op.symbol l r)) ∧
      (∀ op : Operator, op.isSign = true →
        Expr.ofText none (op.symbol ++ a.inParentheses) = .ok (.unary op.symbol l)) ∧
      Expr.ofText none (a.inParentheses ++ b.inParentheses) = .ok (.call l r) ∧
      Expr.ofText none (a.inParentheses ++ ['(', ')']) = .ok (.call l .missing) ∧
      Expr.ofText none a.inParentheses = .ok l ∧
      ∀ name : Text, isName name = true →
        Expr.ofText none (name ++ a.inParentheses) = .ok (.call (.name name) l)) ∧
    ∀ e, Composed e ↔ ∃ text, Expr.ofText none text = .ok e := by
  simp only [ofText_none_eq_ok_iff]
  constructor
  · intro a b l r left right
    exact ⟨fun op => left.operation op right, fun op signs => left.sign signs, left.call right,
      left.emptyCall, left.inParentheses, fun name isName => left.named isName⟩
  · exact fun e => exists_spells_iff_composed.symm

/-- A sum raised to a signed power: neither text could stand there without its parentheses. -/
theorem ofText_sum_to_signed_power :
    let sum : Expr := .binary ['+'] (.number (Symbol.valueOf ['1'])) (.name ['x'])
    let negative : Expr := .unary ['-'] (.number (Symbol.valueOf ['2']))
    Expr.ofText none "1 +x".toList = .ok sum ∧ Expr.ofText none "-2".toList = .ok negative ∧
      Expr.ofText none "(1 +x)**(-2)".toList = .ok (.binary ['*', '*'] sum negative) ∧
      Expr.ofText none "f_1(-2)".toList = .ok (.call (.name "f_1".toList) negative) := by
  intro sum negative
  have readSum : Expr.ofText none "1 +x".toList = .ok sum := rfl
  have readNegative : Expr.ofText none "-2".toList = .ok negative := rfl
  have parts := ofText_parenthesised_parts.1 readSum readNegative
  have call := (ofText_parenthesised_parts.1 readNegative readSum).2.2.2.2.2
  exact ⟨readSum, readNegative, parts.1 .power, call "f_1".toList (by decide)⟩

end Keypad
