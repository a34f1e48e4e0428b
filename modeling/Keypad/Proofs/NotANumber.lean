import Keypad.Proofs.Phases
import Keypad.Proofs.Powers

/-!
# Values that are not numbers

What is not a number, or undefined, is not lost on the way up through an expression: every operator
and every function hands it on. There is one exception, a power with the exponent zero or the base
one, which has a value whatever its other operand is. So where an expression comes to a number,
every part of it that is undefined stands in an operand of such a power (`Expr.Shielded`), and
without a power every such part makes the calculation fail.

That they hand it on is a fact about their guards: no test holds of what is not a number, and what
stands behind the tests hands it on (`Keypad.Proofs.Guards`).
-/

namespace Keypad

open Double

/-- An operator hands on an operand that is not a number, but for a power to zero and one of
one. -/
theorem Operator.operands_of_number {op : Operator} {left right : Float}
    (number : (op.apply left right).isNaN = false) :
    (left.isNaN = true → op = .power ∧ (right == 0) = true) ∧
      (right.isNaN = true → op = .power ∧ (left == 1) = true) := by
  have kept (undefined : left.isNaN = true ∨ right.isNaN = true) :
      op = .power ∧ ((right == 0) = true ∨ (left == 1) = true) := by
    by_contra lost
    rw [op.apply_of_isNaN undefined, if_neg lost] at number
    exact absurd number (by decide)
  constructor
  · intro undefined
    obtain ⟨power, zero | one⟩ := kept (.inl undefined)
    · exact ⟨power, zero⟩
    · rw [eq_nan_of_isNaN undefined] at one
      exact absurd one (by decide)
  · intro undefined
    obtain ⟨power, zero | one⟩ := kept (.inr undefined)
    · rw [eq_nan_of_isNaN undefined] at zero
      exact absurd zero (by decide)
    · exact ⟨power, one⟩

theorem Function.isNaN_apply (f : Function) (unit : AngleUnit) {x : Float}
    (undefined : x.isNaN = true) : (f.apply unit x).isNaN = true := by
  rw [eq_nan_of_isNaN undefined, f.apply_nan]
  rfl

theorem isNaN_unaryValue {symbol : Text} {x y : Float} (known : unaryValue symbol x = .ok y)
    (undefined : x.isNaN = true) : y.isNaN = true := by
  unfold unaryValue at known
  split at known
  · cases known
    exact undefined
  · cases known
    exact isNaN_neg undefined
  · cases known

theorem operands_of_binaryValue {symbol : Text} {x y z : Float}
    (known : binaryValue symbol x y = .ok z) (number : z.isNaN = false) :
    (x.isNaN = true → symbol = Operator.power.symbol ∧ (y == 0) = true) ∧
      (y.isNaN = true → symbol = Operator.power.symbol ∧ (x == 1) = true) := by
  unfold binaryValue at known
  split at known
  · rename_i op found
    cases known
    have operands := Operator.operands_of_number number
    obtain rfl := Operator.ofSymbol?_eq_some_iff.mp found
    exact ⟨fun h => (operands.1 h).imp_left (congrArg Operator.symbol),
      fun h => (operands.2 h).imp_left (congrArg Operator.symbol)⟩
  · cases known

/-- Where an operator has no value: the quotient of two zeros, and a root of a negative number. -/
def Operator.IsOutside : Operator → Float → Float → Prop
  | .dividedBy, left, right => (left == 0) = true ∧ (right == 0) = true
  | .power, left, right => NeedsRoot left right
  | .plus, _, _ | .minus, _, _ | .times, _, _ => False

theorem Operator.apply_of_isOutside {op : Operator} {left right : Float}
    (outside : op.IsOutside left right) : op.apply left right = Arithmetic.nan := by
  cases op with
  | plus | minus | times => exact outside.elim
  | dividedBy =>
      obtain ⟨dividend, divisor⟩ := outside
      have quotient := Guarded.quotient_eq left right
      rw [Guarded.quotient, if_pos divisor, if_pos (by rw [dividend, Bool.true_or])] at quotient
      exact (Except.ok.inj quotient).symm
  | power => exact powerBy_of_root outside

namespace Expr

/-- A value that is not a number, or no value at all. -/
def IsUndefined (value : Option Float) : Prop := (operandValue value).isNaN = true

/-- A part stands in the base of a power to zero, or in the exponent of a power of one. -/
def Shielded (unit : AngleUnit) (e part : Expr) : Prop :=
  ∃ base exponent, e.Evaluated (.binary Operator.power.symbol base exponent) ∧
    ((base.Evaluated part ∧ ∃ y, exponent.eval unit none = .ok (some y) ∧ (y == 0) = true) ∨
      (exponent.Evaluated part ∧ ∃ x, base.eval unit none = .ok (some x) ∧ (x == 1) = true))

variable {unit : AngleUnit} {e inner part : Expr} {v w : Option Float}

/-- What is shielded in a part is shielded in the whole. -/
theorem Shielded.mono (h : Shielded unit inner part)
    (inside : ∀ p, inner.Evaluated p → e.Evaluated p) : Shielded unit e part := by
  obtain ⟨base, exponent, power, shield⟩ := h
  exact ⟨base, exponent, inside _ power, shield⟩

/-- A constant with digits is undefined, and so is a function without an argument. -/
theorem isUndefined_of_isConstantWithDigits {spelling : Text}
    (glued : IsConstantWithDigits spelling) :
    ∃ w, Evaluates unit (.name spelling) w ∧ IsUndefined w :=
  ⟨none, .name ((nameValue_eq_ok_none_iff spelling).mpr glued), rfl⟩

theorem isUndefined_of_emptyCall (f : Function) :
    ∃ w, Evaluates unit (.call (.name f.name) .missing) w ∧ IsUndefined w :=
  ⟨_, .emptyCall f, f.isNaN_apply unit rfl⟩

/-- So are a function and an operator outside of where they have a value. -/
theorem isUndefined_of_call {f : Function} {argument : Expr} (value : Evaluates unit argument w)
    (outside : f.IsOutside unit (operandValue w)) :
    ∃ w, Evaluates unit (.call (.name f.name) argument) w ∧ IsUndefined w := by
  refine ⟨_, .call f value, ?_⟩
  rw [Function.apply_of_isOutside outside]
  rfl

theorem isUndefined_of_binary {op : Operator} {left right : Expr} (first : Evaluates unit left v)
    (second : Evaluates unit right w) (outside : op.IsOutside (operandValue v) (operandValue w)) :
    ∃ w, Evaluates unit (.binary op.symbol left right) w ∧ IsUndefined w := by
  have known := Operator.ofSymbol?_eq_some_iff.mpr (rfl : op.symbol = op.symbol)
  refine ⟨_, .binary first second (by rw [binaryValue, known]), ?_⟩
  rw [Operator.apply_of_isOutside outside]
  rfl

theorem eval_of_evaluates (h : Evaluates unit e v) : e.eval unit none = .ok v :=
  eval_eq_ok_iff.mpr ⟨rfl, h⟩

/-- An operand that is equal to a number is one. -/
theorem exists_of_operandValue_beq {value : Option Float} {x : Float}
    (equal : (operandValue value == x) = true) : ∃ y, value = some y ∧ (y == x) = true := by
  cases value with
  | some y => exact ⟨y, rfl, equal⟩
  | none =>
      have other := (Float.beq_iff_ne_nan_and_eq.mp equal).1
      exact absurd rfl other

/-- The value of an undefined part reaches the whole unless a power shields it. -/
theorem isUndefined_or_shielded (inside : e.Evaluated part) (here : Evaluates unit part w)
    (undefined : IsUndefined w) (whole : Evaluates unit e v) :
    IsUndefined v ∨ Shielded unit e part := by
  induction inside generalizing v with
  | whole e =>
      obtain rfl := here.unique whole
      exact .inl undefined
  | operand _ ih =>
      cases whole with
      | unary value known =>
          rcases ih here value with lost | shield
          · exact .inl (isNaN_unaryValue known lost)
          · exact .inr (shield.mono fun _ => .operand)
  | left inner ih =>
      cases whole with
      | binary first second known =>
          rcases ih here first with lost | shield
          · rw [or_iff_not_imp_left]
            intro number
            obtain ⟨rfl, zero⟩ :=
              (operands_of_binaryValue known (Bool.eq_false_iff.mpr number)).1 lost
            obtain ⟨y, rfl, zero⟩ := exists_of_operandValue_beq zero
            exact ⟨_, _, .whole _, .inl ⟨inner, y, eval_of_evaluates second, zero⟩⟩
          · exact .inr (shield.mono fun _ => .left)
  | right inner ih =>
      cases whole with
      | binary first second known =>
          rcases ih here second with lost | shield
          · rw [or_iff_not_imp_left]
            intro number
            obtain ⟨rfl, one⟩ :=
              (operands_of_binaryValue known (Bool.eq_false_iff.mpr number)).2 lost
            obtain ⟨x, rfl, one⟩ := exists_of_operandValue_beq one
            exact ⟨_, _, .whole _, .inr ⟨inner, x, eval_of_evaluates first, one⟩⟩
          · exact .inr (shield.mono fun _ => .right)
  | argument present _ ih =>
      cases whole with
      | call f value =>
          rcases ih here value with lost | shield
          · exact .inl (f.isNaN_apply unit lost)
          · exact .inr (shield.mono fun _ => .argument present)
      | emptyCall => exact absurd rfl present

theorem exists_failure_of_isUndefined (undefined : IsUndefined v) :
    ∃ kind, Result.ofValue v = .failure kind := by
  cases v with
  | none => exact ⟨.invalidFormat, rfl⟩
  | some x => exact ⟨.invalidInput, if_pos undefined⟩

/-- Where an expression comes to a number, each part of it that is undefined stands in the base of
a power to zero or in the exponent of a power of one. Without a power every undefined part makes
the calculation of the expression fail. -/
theorem undefined_part_spec (unit : AngleUnit) {e part : Expr} (inside : e.Evaluated part)
    {w : Option Float} (here : part.eval unit none = .ok w) (undefined : IsUndefined w) :
    (∀ room x, e.eval unit room = .ok (some x) → x.isNaN = false → Shielded unit e part) ∧
    ((∀ base exponent, ¬ e.Evaluated (.binary Operator.power.symbol base exponent)) →
      (∀ room v, e.eval unit room = .ok v → ∃ kind, Result.ofValue v = .failure kind) ∧
      ∀ (limits : Limits) (c : Canonical), Expr.ofText limits.reading c.text = .ok e →
        ∃ kind, c.result limits unit = .failure kind) := by
  have reaches {room : Room} {v : Option Float} (whole : e.eval unit room = .ok v) :
      IsUndefined v ∨ Shielded unit e part :=
    isUndefined_or_shielded inside (eval_eq_ok_iff.mp here).2 undefined (eval_eq_ok_iff.mp whole).2
  constructor
  · intro room x whole number
    exact (reaches whole).resolve_left (Bool.eq_false_iff.mp number)
  · intro free
    have fails {room : Room} {v : Option Float} (whole : e.eval unit room = .ok v) :
        ∃ kind, Result.ofValue v = .failure kind := by
      rcases reaches whole with lost | ⟨base, exponent, power, _⟩
      · exact exists_failure_of_isUndefined lost
      · exact absurd power (free base exponent)
    refine ⟨fun room v => fails, fun limits c read => ?_⟩
    cases marked : c.dividesByZero with
    | true => exact ⟨.divideByZero, if_pos marked⟩
    | false =>
        rw [result_of_ofText unit marked read]
        cases whole : e.eval unit limits.evaluating with
        | error error => exact ⟨.generic, rfl⟩
        | ok v => exact fails whole

/-- An undefined constant is lost in its power to zero, but not in a sum. -/
theorem undefined_part_of_power_and_sum :
    Shielded .radians (.binary Operator.power.symbol (.name "pi2".toList) (.number 0))
        (.name "pi2".toList) ∧
      ∃ kind, Result.ofValue (some (Arithmetic.nan + 1)) = .failure kind := by
  have here : (name "pi2".toList).eval .radians none = .ok none := rfl
  constructor
  · exact (undefined_part_spec .radians (.left (.whole _)) here rfl).1 none 1 rfl rfl
  · refine ((undefined_part_spec .radians (e := .binary Operator.plus.symbol
      (.name "pi2".toList) (.number 1)) (.left (.whole _)) here rfl).2 ?_).1 none _ rfl
    intro base exponent power
    cases power with
    | left inside => cases inside
    | right inside => cases inside

end Expr

end Keypad
