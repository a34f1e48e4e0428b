import Keypad.Proofs.Evaluation
import Keypad.Proofs.Powers

/-!
# The fault that evaluation reports

`Expr.faults` lists everything that is wrong with an expression in the order in which evaluation
comes to it: operands from left to right before the operator over them, a callee before its
argument. What is wrong is wrong with the tree; the numbers in it have no part in the list.
Evaluation reports the first fault and has a value where there is none (`Expr.reports_eval`).

That the arithmetic adds no fault of its own is seen in `Keypad.Proofs.Guards` and
`Keypad.Proofs.Powers`, where it is made of parts that do fail.
-/

namespace Keypad

namespace Expr

/-- An expression in which everything that is evaluated means something. An argument may be
missing, but nothing else. -/
inductive WellFormed : Expr → Prop where
  | number (value : Float) : WellFormed (.number value)
  | name {spelling : Text}
      (known : spelling ∈ constants.map (·.1) ∨ IsConstantWithDigits spelling) :
      WellFormed (.name spelling)
  | unary {op : Operator} {operand : Expr} (sign : op.isSign = true)
      (inner : WellFormed operand) : WellFormed (.unary op.symbol operand)
  | binary (op : Operator) {left right : Expr} (first : WellFormed left)
      (second : WellFormed right) : WellFormed (.binary op.symbol left right)
  | call (f : Function) {argument : Expr} (inner : WellFormed argument) :
      WellFormed (.call (.name f.name) argument)
  | emptyCall (f : Function) : WellFormed (.call (.name f.name) .missing)

theorem not_wellFormed_missing : ¬ WellFormed .missing := by
  rintro ⟨⟩

/-- The names that mean something by themselves. -/
theorem wellFormed_name_iff {spelling : Text} : WellFormed (.name spelling) ↔
    (spelling = "pi".toList ∨ spelling = "e".toList) ∨
      ∃ digits, digits ≠ [] ∧ (∀ c ∈ digits, Text.isDecimalDigit c = true) ∧
        (spelling = "pi".toList ++ digits ∨ spelling = "e".toList ++ digits) := by
  rw [← mem_constants_iff, ← isConstantWithDigits_iff_append]
  refine ⟨fun wellFormed => ?_, .name⟩
  cases wellFormed with
  | name known => exact known

theorem wellFormed_unary_iff {symbol : Text} {operand : Expr} :
    WellFormed (.unary symbol operand) ↔
      (symbol = "+".toList ∨ symbol = "-".toList) ∧ WellFormed operand := by
  rw [← Operator.exists_sign_iff]
  constructor
  · intro wellFormed
    cases wellFormed with
    | unary sign inner => exact ⟨⟨_, sign, rfl⟩, inner⟩
  · rintro ⟨⟨op, sign, rfl⟩, inner⟩
    exact .unary sign inner

theorem wellFormed_binary_iff {symbol : Text} {left right : Expr} :
    WellFormed (.binary symbol left right) ↔
      symbol ∈ ["+", "-", "*", "/", "**"].map String.toList ∧ WellFormed left ∧
        WellFormed right := by
  rw [← Operator.exists_symbol_iff]
  constructor
  · intro wellFormed
    cases wellFormed with
    | binary op first second => exact ⟨⟨op, rfl⟩, first, second⟩
  · rintro ⟨⟨op, rfl⟩, first, second⟩
    exact .binary op first second

/-- Only a name can be called. -/
theorem wellFormed_call_iff {callee argument : Expr} : WellFormed (.call callee argument) ↔
    (∃ name ∈ ["sin_angle", "cos_angle", "tan_angle", "log10", "ln", "sqrt"].map String.toList,
      callee = .name name) ∧ (argument ≠ .missing → WellFormed argument) := by
  simp only [← Function.exists_name_iff]
  constructor
  · intro wellFormed
    cases wellFormed with
    | call f inner => exact ⟨⟨_, ⟨f, rfl⟩, rfl⟩, fun _ => inner⟩
    | emptyCall f => exact ⟨⟨_, ⟨f, rfl⟩, rfl⟩, fun present => absurd rfl present⟩
  · rintro ⟨⟨_, ⟨f, rfl⟩, rfl⟩, inner⟩
    by_cases absent : argument = .missing
    · rw [absent]
      exact .emptyCall f
    · exact .call f (inner absent)

/-- What is wrong with a name. -/
def nameFaults (spelling : Text) : List EvalError :=
  if (constants.lookup spelling).isSome || isConstantWithDigits spelling then []
  else [.undefinedName spelling]

/-- What is wrong with a sign. -/
def signFaults (symbol : Text) : List EvalError :=
  if ((Operator.ofSymbol? symbol).any Operator.isSign) then [] else [.unknownUnary symbol]

/-- What is wrong with an operator between operands. -/
def operatorFaults (symbol : Text) : List EvalError :=
  if (Operator.ofSymbol? symbol).isSome then [] else [.unknownBinary symbol]

/-- What is wrong with a callee. -/
def calleeFaults : Expr → List EvalError
  | .name spelling =>
    if (Function.ofName? spelling).isSome then [] else [.notFunction (.name spelling)]
  | callee => [.notFunction callee]

/-- Everything that is wrong with an expression, in the order in which evaluation comes to it. -/
def faults : Expr → List EvalError
  | .number _ => []
  | .name spelling => nameFaults spelling
  | .unary symbol operand => operand.faults ++ signFaults symbol
  | .binary symbol left right => left.faults ++ right.faults ++ operatorFaults symbol
  | .call callee argument =>
    calleeFaults callee ++ (if argument.isMissing then [] else argument.faults)
  | .bare => [.bareNode]
  | .missing => [.missingNode]

theorem faults_call {callee argument : Expr} (present : argument ≠ .missing) :
    (call callee argument).faults = calleeFaults callee ++ argument.faults := by
  rw [faults, isMissing_eq_false_iff.mpr present]
  rfl

theorem nameFaults_eq_nil_iff {spelling : Text} :
    nameFaults spelling = [] ↔ WellFormed (.name spelling) := by
  have constant : (constants.lookup spelling).isSome = true ↔ spelling ∈ constants.map (·.1) := by
    rw [← not_iff_not, Bool.not_eq_true, Option.isSome_eq_false_iff, Option.isNone_iff_eq_none]
    simp [List.lookup_eq_none_iff, constants, bne_iff_ne]
  rw [wellFormed_name_iff, ← mem_constants_iff, ← isConstantWithDigits_iff_append, ← constant,
    ← isConstantWithDigits_iff, ← Bool.or_eq_true, nameFaults, ite_eq_left_iff]
  simp only [List.cons_ne_nil, imp_false, not_not]

theorem signFaults_eq_nil_iff {symbol : Text} :
    signFaults symbol = [] ↔ symbol = "+".toList ∨ symbol = "-".toList := by
  rw [← Operator.exists_sign_iff, signFaults, ite_eq_left_iff, Option.any_eq_true]
  simp only [Operator.ofSymbol?_eq_some_iff, List.cons_ne_nil, imp_false, not_not, and_comm]

theorem operatorFaults_eq_nil_iff {symbol : Text} : operatorFaults symbol = [] ↔
    symbol ∈ ["+", "-", "*", "/", "**"].map String.toList := by
  rw [← Operator.exists_symbol_iff, operatorFaults, ite_eq_left_iff, Option.isSome_iff_exists]
  simp only [Operator.ofSymbol?_eq_some_iff, List.cons_ne_nil, imp_false, not_not]

theorem calleeFaults_eq_nil_iff {callee : Expr} : calleeFaults callee = [] ↔
    ∃ name ∈ ["sin_angle", "cos_angle", "tan_angle", "log10", "ln", "sqrt"].map String.toList,
      callee = .name name := by
  simp only [← Function.exists_name_iff]
  cases callee with
  | name spelling =>
      rw [calleeFaults, ite_eq_left_iff, Option.isSome_iff_exists]
      simp only [Function.ofName?_eq_some_iff, List.cons_ne_nil, imp_false, not_not,
        Expr.name.injEq, exists_eq_right']
  | _ => exact iff_of_false (List.cons_ne_nil _ _) (by rintro ⟨_, _, ⟨⟩⟩)

/-- Nothing is wrong with a well-formed expression, and with no other. -/
theorem faults_eq_nil_iff {e : Expr} : e.faults = [] ↔ e.WellFormed := by
  induction e with
  | number value => exact iff_of_true rfl (.number value)
  | name spelling => exact nameFaults_eq_nil_iff
  | unary symbol operand ih =>
      rw [faults, List.append_eq_nil_iff, ih, signFaults_eq_nil_iff, wellFormed_unary_iff,
        and_comm]
  | binary symbol left right ihl ihr =>
      rw [faults, List.append_eq_nil_iff, List.append_eq_nil_iff, ihl, ihr,
        operatorFaults_eq_nil_iff, wellFormed_binary_iff, and_comm]
  | call callee argument _ ih =>
      rw [wellFormed_call_iff, ← calleeFaults_eq_nil_iff]
      by_cases absent : argument = .missing
      · rw [absent]
        simp [faults, isMissing]
      · rw [faults_call absent, List.append_eq_nil_iff, ih, imp_iff_right absent]
  | bare => exact iff_of_false (List.cons_ne_nil _ _) (by rintro ⟨⟩)
  | missing => exact iff_of_false (List.cons_ne_nil _ _) not_wellFormed_missing

/-- A computation that reports the first of some faults, and succeeds if there is none. -/
def Reports {α : Type} (found : List EvalError) (outcome : Except (Bounded EvalError) α) : Prop :=
  match found with
  | [] => ∃ value, outcome = .ok value
  | first :: _ => outcome = .error (.fault first)

namespace Reports

variable {α β : Type} {found later : List EvalError} {outcome : Except (Bounded EvalError) α}

/-- What comes later is reported only if there was nothing to report before. -/
theorem bind {next : α → Except (Bounded EvalError) β} (before : Reports found outcome)
    (after : ∀ value, Reports later (next value)) :
    Reports (found ++ later) (outcome >>= next) := by
  cases found with
  | nil =>
      obtain ⟨value, rfl⟩ := before
      exact after value
  | cons first rest =>
      obtain rfl : outcome = .error (.fault first) := before
      rfl

theorem map (f : α → β) (before : Reports found outcome) : Reports found (f <$> outcome) := by
  cases found with
  | nil =>
      obtain ⟨value, rfl⟩ := before
      exact ⟨f value, rfl⟩
  | cons first rest =>
      obtain rfl : outcome = .error (.fault first) := before
      rfl

/-- What is reported is the first fault, if there is one. -/
theorem eq_error_iff (reported : Reports found outcome) {error : Bounded EvalError} :
    outcome = .error error ↔ ∃ first, found.head? = some first ∧ error = .fault first := by
  cases found with
  | nil =>
      obtain ⟨value, rfl⟩ := reported
      exact iff_of_false (by rintro ⟨⟩) (by rintro ⟨_, ⟨⟩, _⟩)
  | cons first rest =>
      obtain rfl : outcome = .error (.fault first) := reported
      rw [Except.error.injEq, List.head?_cons]
      constructor
      · rintro rfl
        exact ⟨first, rfl, rfl⟩
      · rintro ⟨_, ⟨⟩, rfl⟩
        rfl

end Reports

theorem reports_nameValue (spelling : Text) :
    Reports (nameFaults spelling) (Bounded.lift (nameValue spelling)) := by
  unfold nameFaults nameValue
  cases constants.lookup spelling with
  | some value => exact ⟨some value, rfl⟩
  | none =>
      cases isConstantWithDigits spelling with
      | true => exact ⟨none, rfl⟩
      | false => rfl

theorem reports_unaryValue (symbol : Text) (x : Float) :
    Reports (signFaults symbol) (Bounded.lift (unaryValue symbol x)) := by
  unfold signFaults unaryValue
  cases Operator.ofSymbol? symbol with
  | none => rfl
  | some op =>
      cases op with
      | plus | minus => exact ⟨_, rfl⟩
      | times | dividedBy | power => rfl

theorem reports_binaryValue (symbol : Text) (x y : Float) :
    Reports (operatorFaults symbol) (Bounded.lift (binaryValue symbol x y)) := by
  unfold operatorFaults binaryValue
  cases Operator.ofSymbol? symbol with
  | none => rfl
  | some op => exact ⟨op.apply x y, rfl⟩

theorem reports_functionOf (callee : Expr) :
    Reports (calleeFaults callee) (functionOf none callee) := by
  cases callee with
  | name spelling =>
      unfold calleeFaults functionOf
      dsimp only
      cases Function.ofName? spelling with
      | none => rfl
      | some f => exact ⟨f, rfl⟩
  | _ => rfl

/-- Evaluation reports the first fault of an expression, and there is a value if it has none. -/
theorem reports_eval (unit : AngleUnit) (e : Expr) : Reports e.faults (e.eval unit none) := by
  induction e with
  | number value => exact ⟨some value, rfl⟩
  | name spelling => exact reports_nameValue spelling
  | unary symbol operand ih =>
      exact ih.bind fun value => (reports_unaryValue symbol _).map some
  | binary symbol left right ihl ihr =>
      rw [faults, List.append_assoc]
      exact ihl.bind fun x => ihr.bind fun y => (reports_binaryValue symbol _ _).map some
  | call callee argument _ ih =>
      by_cases absent : argument = .missing
      · subst absent
        rw [faults, isMissing, if_pos rfl, List.append_nil]
        exact (reports_functionOf callee).map fun f => some (f.apply unit Arithmetic.nan)
      · rw [faults_call absent, eval_call absent]
        exact (reports_functionOf callee).bind fun f => ih.map fun value =>
          some (f.apply unit (operandValue value))
  | bare | missing => rfl

/-- Evaluation fails exactly for what is not well formed, with the first thing that is wrong with
it, whatever the numbers in it. No operator and no function adds a refusal of its own, whatever
library it is made of behind its guards; and made of one that keeps to the standard it is the
operator or the function that is evaluated. -/
theorem eval_error_spec (unit : AngleUnit) (e : Expr) :
    ((∃ error, e.eval unit none = .error error) ↔ ¬ e.WellFormed) ∧
    (∀ error, e.eval unit none = .error error ↔
      ∃ first, e.faults.head? = some first ∧ error = .fault first) ∧
    ∀ lib : Library,
      (∀ op : Operator, ∀ left right, ∃ value, op.guarded lib left right = .ok value) ∧
      (∀ f : Function, ∀ x, ∃ value, f.guarded lib unit x = .ok value) ∧
      (IsStandardPower lib.power → ∀ op : Operator, ∀ left right,
        op.guarded lib left right = .ok (op.applyBy lib left right)) ∧
      (lib.HandsOn → ∀ f : Function, ∀ x, f.guarded lib unit x = .ok (f.applyBy lib unit x)) := by
  have reported (error : Bounded EvalError) : e.eval unit none = .error error ↔ _ :=
    (reports_eval unit e).eq_error_iff
  refine ⟨?_, reported, fun lib => ⟨Operator.exists_guarded lib, Function.exists_guarded lib unit,
    Operator.guarded_eq, fun rules f x => f.guarded_eq rules unit x⟩⟩
  simp only [reported, ← faults_eq_nil_iff]
  cases e.faults with
  | nil => simp
  | cons first rest => simp

/-- Of three faults the leftmost is reported. A power of zero that the library refuses has a value
nevertheless, and a cosine has the library's. -/
theorem eval_error_of_three_faults :
    IsStandardPower Library.simplest.power ∧ Library.simplest.HandsOn ∧
      (binary "%".toList (.name "x".toList) (.call (.name "pi".toList) .bare)).eval .degrees none =
        .error (.fault (.undefinedName "x".toList)) ∧
      Operator.power.guarded .simplest 0 (-1) = .ok Arithmetic.infinity ∧
      Function.cosine.guarded .simplest .degrees 0 = .ok 1 := by
  obtain ⟨_, reported, parts⟩ := eval_error_spec .degrees
    (binary "%".toList (.name "x".toList) (.call (.name "pi".toList) .bare))
  obtain ⟨_, _, operators, functions⟩ := parts .simplest
  refine ⟨isStandardPower_exactPower, Library.handsOn_simplest, ?_, ?_, ?_⟩
  · exact (reported _).mpr ⟨_, rfl, rfl⟩
  · exact operators isStandardPower_exactPower .power 0 (-1)
  · exact functions Library.handsOn_simplest .cosine 0

/-- A callee that is no function hides what is wrong with the argument. -/
example : (Expr.call (.name "pi".toList) .bare).eval .degrees none =
    .error (.fault (.notFunction (.name "pi".toList))) := rfl

end Expr

end Keypad
