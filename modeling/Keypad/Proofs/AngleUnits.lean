import Keypad.Proofs.Guards
import Keypad.Proofs.Phases

/-!
# What the angle unit decides

A text is calculated in degrees and once more in radians. The unit decides what the trigonometric
functions make of their arguments, and nothing else: evaluation meets the same fault in either
unit, or none, even where a function of an angle stands above or beside the part at fault
(`Expr.alike_eval`). So an error that is not about a number does not depend on the unit, and
without a trigonometric call nothing does (`calculate?_units`).

The two evaluations go side by side. What one of them makes of an expression differs from what the
other makes of it by numbers at most (`Alike`), and no fault of evaluation depends on a number.
-/

namespace Keypad

/-- Two evaluations end alike: in the same fault, both in the undefined value, or both in a
number. -/
inductive Alike :
    Except (Bounded EvalError) (Option Float) → Except (Bounded EvalError) (Option Float) → Prop
  | fault (e : Bounded EvalError) : Alike (.error e) (.error e)
  | undefined : Alike (.ok none) (.ok none)
  /-- Any two numbers. -/
  | number (x y : Float) : Alike (.ok (some x)) (.ok (some y))

namespace Alike

variable {first second : Except (Bounded EvalError) (Option Float)}

theorem refl (first : Except (Bounded EvalError) (Option Float)) : Alike first first := by
  rcases first with e | _ | x
  · exact .fault e
  · exact .undefined
  · exact .number x x

/-- What follows two evaluations that end alike may not look at their values to fail. -/
theorem bind {f g : Option Float → Except (Bounded EvalError) (Option Float)}
    (h : Alike first second) (next : ∀ x y, Alike (f x) (g y)) :
    Alike (first >>= f) (second >>= g) := by
  cases h with
  | fault e => exact .fault e
  | undefined => exact next none none
  | number x y => exact next (some x) (some y)

/-- There is as much room in one unit as in the other. -/
theorem enter {body later : Room → Except (Bounded EvalError) (Option Float)}
    (h : ∀ room, Alike (body room) (later room)) (room : Room) :
    Alike (room.enter body) (room.enter later) := by
  match room with
  | none => exact h none
  | some 0 => exact .fault .tooDeep
  | some (levels + 1) => exact h (some levels)

end Alike

/-- Whether a sign means anything does not depend on the operand. -/
theorem alike_unaryValue (symbol : Text) (x y : Float) :
    Alike (some <$> Bounded.lift (unaryValue symbol x))
      (some <$> Bounded.lift (unaryValue symbol y)) := by
  unfold unaryValue
  split
  · exact .number x y
  · exact .number (-x) (-y)
  · exact .fault _

/-- Whether an operator means anything does not depend on the operands. -/
theorem alike_binaryValue (symbol : Text) (x y z w : Float) :
    Alike (some <$> Bounded.lift (binaryValue symbol x y))
      (some <$> Bounded.lift (binaryValue symbol z w)) := by
  unfold binaryValue
  split
  · rename_i op _
    exact .number (op.apply x y) (op.apply z w)
  · exact .fault _

/-- An expression is evaluated alike in all units. -/
theorem Expr.alike_eval (unit other : AngleUnit) (room : Room) (e : Expr) :
    Alike (e.eval unit room) (e.eval other room) := by
  induction e generalizing room with
  | number value => exact .refl _
  | name spelling => exact .refl _
  | unary symbol operand ih =>
      apply Alike.enter
      intro inner
      exact (ih inner).bind fun x y => alike_unaryValue symbol (operandValue x) (operandValue y)
  | binary symbol left right ihl ihr =>
      apply Alike.enter
      intro inner
      exact (ihl inner).bind fun x z => (ihr inner).bind fun y w =>
        alike_binaryValue symbol (operandValue x) (operandValue y) (operandValue z) (operandValue w)
  | call callee argument _ ih =>
      by_cases absent : argument = .missing
      · subst absent
        apply Alike.enter
        intro inner
        cases functionOf inner callee with
        | error fault => exact .fault fault
        | ok f => exact .number _ _
      · rw [eval_call absent, eval_call absent]
        apply Alike.enter
        intro inner
        cases functionOf inner callee with
        | error fault => exact .fault fault
        | ok f => exact (ih inner).bind fun x y => .number _ _
  | bare | missing => exact .refl _

/-- A function of an angle. -/
def Function.IsTrigonometric : Function → Prop
  | .sine | .cosine | .tangent => True
  | .decimalLogarithm | .naturalLogarithm | .squareRoot => False

/-- A call of a trigonometric function on an argument. Empty parentheses need not be looked at:
what comes of them is no number in any unit. -/
def Expr.IsTrigonometricCall : Expr → Prop
  | .call callee argument =>
    argument ≠ .missing ∧ ∃ f : Function, f.IsTrigonometric ∧ callee = .name f.name
  | _ => False

/-- The other functions do not look at the unit. -/
theorem Function.apply_eq {f : Function} (h : ¬ f.IsTrigonometric) (unit other : AngleUnit)
    (x : Float) : f.apply unit x = f.apply other x := by
  cases f with
  | sine | cosine | tangent => exact absurd trivial h
  | decimalLogarithm | naturalLogarithm | squareRoot => rfl

/-- Two continuations need to agree only on the value that is passed on. -/
theorem bind_congr_of_ok {ε α β : Type} {first : Except ε α} {f g : α → Except ε β}
    (h : ∀ x, first = .ok x → f x = g x) : first >>= f = first >>= g := by
  cases first with
  | error e => rfl
  | ok x => exact h x rfl

/-- An expression that calls no trigonometric function where it is evaluated has the same value,
or the same fault, in all units. -/
theorem Expr.eval_eq_of_not_trigonometric (unit other : AngleUnit) {e : Expr}
    (h : ∀ part, e.Evaluated part → ¬ part.IsTrigonometricCall) (room : Room) :
    e.eval unit room = e.eval other room := by
  induction e generalizing room with
  | number value => rfl
  | name spelling => rfl
  | unary symbol operand ih =>
      have same := ih (forall_evaluated_unary.mp h).2
      apply congrArg room.enter
      funext inner
      rw [same]
  | binary symbol left right ihl ihr =>
      obtain ⟨_, first, second⟩ := forall_evaluated_binary.mp h
      apply congrArg room.enter
      funext inner
      rw [ihl first, ihr second]
  | call callee argument _ ih =>
      obtain ⟨own, inside⟩ := forall_evaluated_call.mp h
      by_cases absent : argument = .missing
      · rw [absent, eval_call_missing, eval_call_missing]
        apply congrArg room.enter
        funext inner
        apply bind_congr_of_ok
        intro f _
        rw [Function.apply_nan f unit, Function.apply_nan f other]
      · rw [eval_call absent, eval_call absent]
        apply congrArg room.enter
        funext inner
        apply bind_congr_of_ok
        intro f named
        have free : ¬ f.IsTrigonometric := fun angle =>
          own ⟨absent, f, angle, functionOf_eq_ok_iff.mp named⟩
        rw [ih (inside absent)]
        apply bind_congr
        intro value
        rw [Function.apply_eq free unit other]
  | bare | missing => rfl

/-- The errors that are not about a number. -/
def ErrorKind.structural : List ErrorKind := [.divideByZero, .invalidFormat, .generic]

variable {limits : Limits} {c : Canonical}

/-- Before anything is evaluated the unit is not asked for. -/
theorem Canonical.refused_or_read (limits : Limits) (c : Canonical) :
    (∃ kind ∈ ErrorKind.structural, ∀ unit, c.result limits unit = .failure kind) ∨
      c.dividesByZero = false ∧ ∃ e, Expr.ofText limits.reading c.text = .ok e := by
  cases marked : c.dividesByZero with
  | true =>
      refine .inl ⟨.divideByZero, by decide, fun unit => ?_⟩
      rw [Canonical.result, if_pos marked]
  | false =>
      rcases ofText_cases limits.reading c.text with
        ⟨_, stopped⟩ | ⟨_, e, _, read⟩ | ⟨_, _, fault, refused⟩
      · exact .inl ⟨.generic, by decide, fun unit => result_of_stopped unit marked stopped⟩
      · exact .inr ⟨rfl, e, read⟩
      · exact .inl ⟨.invalidFormat, by decide, fun unit => result_of_refused unit marked refused⟩

/-- In two units a canonical form ends in the same error that is not about a number, or it arrives
at a number in both. -/
theorem Canonical.result_units (limits : Limits) (unit other : AngleUnit) (c : Canonical) :
    (∃ kind ∈ ErrorKind.structural,
      c.result limits unit = .failure kind ∧ c.result limits other = .failure kind) ∨
    ∃ x y, c.result limits unit = .ofNumber x ∧ c.result limits other = .ofNumber y := by
  rcases c.refused_or_read limits with ⟨kind, structural, same⟩ | ⟨unmarked, e, read⟩
  · exact .inl ⟨kind, structural, same unit, same other⟩
  · rw [result_of_ofText unit unmarked read, result_of_ofText other unmarked read]
    have alike := e.alike_eval unit other limits.evaluating
    generalize e.eval unit limits.evaluating = first at alike ⊢
    generalize e.eval other limits.evaluating = second at alike ⊢
    cases alike with
    | fault e => exact .inl ⟨.generic, by decide, rfl, rfl⟩
    | undefined => exact .inl ⟨.invalidFormat, by decide, rfl, rfl⟩
    | number x y => exact .inr ⟨x, y, rfl, rfl⟩

/-- A number has no result that is not about numbers. -/
theorem Result.ofNumber_ne_structural {kind : ErrorKind} (structural : kind ∈ ErrorKind.structural)
    (x : Float) : Result.ofNumber x ≠ .failure kind := by
  intro same
  rcases Result.ofNumber_cases x with ⟨_, _, _, r⟩ | ⟨_, _, _, r⟩ | ⟨_, _, _, r⟩
  · cases r.symm.trans same
    exact absurd structural (by decide)
  · cases r.symm.trans same
    exact absurd structural (by decide)
  · cases r.symm.trans same

/-- Without a trigonometric call the result is the same in all units. -/
theorem Canonical.result_eq_of_not_trigonometric (unit other : AngleUnit)
    (h : ∀ e part, Expr.ofText limits.reading c.text = .ok e → e.Evaluated part →
      ¬ part.IsTrigonometricCall) :
    c.result limits unit = c.result limits other := by
  rcases c.refused_or_read limits with ⟨kind, _, same⟩ | ⟨unmarked, e, read⟩
  · rw [same, same]
  · have value := e.eval_eq_of_not_trigonometric unit other (fun part => h e part read)
    rw [result_of_ofText unit unmarked read, result_of_ofText other unmarked read, value]

/-- A calculation in one unit ends in an error that is not about a number exactly if it ends in
that error in the other. If the expression that is read has no trigonometric call that is
evaluated, everything is the same in both. -/
theorem calculate?_units (limits : Limits) (unit other : AngleUnit) (text : Text) :
    (∀ kind ∈ ErrorKind.structural,
      calculate? limits unit text = some (.failure kind) ↔
        calculate? limits other text = some (.failure kind)) ∧
    ((∀ e part, Expr.ofText limits.reading (Canonical.ofKeypad text).text = .ok e →
        e.Evaluated part → ¬ part.IsTrigonometricCall) →
      calculate? limits unit text = calculate? limits other text) := by
  constructor
  · intro kind structural
    rw [calculate?_eq_some_iff, calculate?_eq_some_iff, calculate, calculate]
    rcases (Canonical.ofKeypad text).result_units limits unit other with
      ⟨_, _, first, second⟩ | ⟨x, y, first, second⟩
    · rw [first, second]
    · have number := Result.ofNumber_ne_structural structural
      rw [first, second]
      exact iff_of_false (fun ends => number x ends.2) (fun ends => number y ends.2)
  · intro free
    unfold calculate?
    rw [calculate, calculate, Canonical.result_eq_of_not_trigonometric unit other free]

/-- A power of a root, of which only the mathematics library knows the value. -/
theorem calculate?_root_to_pi :
    calculate? .standard .degrees "√(2)^π".toList =
      calculate? .standard .radians "√(2)^π".toList := by
  let root : Expr := .call (.name "sqrt".toList) (.number (Symbol.valueOf ['2']))
  have canonical : (Canonical.ofKeypad "√(2)^π".toList).text = "sqrt(2)**pi".toList := by decide
  have read : Expr.ofText Limits.standard.reading "sqrt(2)**pi".toList =
      .ok (.binary ['*', '*'] root (.name "pi".toList)) := rfl
  have named : ¬ root.IsTrigonometricCall := by
    rintro ⟨_, f, angle, same⟩
    have spelt := Expr.name.inj same
    cases f with
    | sine | cosine | tangent => exact absurd spelt (by decide)
    | decimalLogarithm | naturalLogarithm | squareRoot => exact angle
  apply (calculate?_units .standard .degrees .radians "√(2)^π".toList).2
  intro e part found
  rw [canonical, read] at found
  cases found
  revert part
  refine Expr.forall_evaluated_binary.mpr
    ⟨id, Expr.forall_evaluated_call.mpr ⟨named, fun _ => ?_⟩, ?_⟩
  · rintro part ⟨⟩
    exact id
  · rintro part ⟨⟩
    exact id

end Keypad
