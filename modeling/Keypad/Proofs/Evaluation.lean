import Mathlib.Data.List.Infix
import Keypad.Expr.Eval

/-!
# What evaluation arrives at

The value of an expression, said without an evaluator: `Evaluates` relates a tree to its value
and knows no order, no faults and no room. The evaluator of `Keypad.Expr.Eval` arrives at a value
exactly if the relation has one and there is room for the parts that are evaluated.

A tree without a value has a part that is at fault by itself: a name or a callee that means
nothing, or a node that is no expression. No number is ever at fault. Callees are not evaluated,
so only what stands elsewhere counts (`Evaluated`).
-/

namespace Keypad

theorem bind_eq_ok {ε α β : Type} {x : Except ε α} {f : α → Except ε β} {b : β} :
    (x >>= f) = .ok b ↔ ∃ a, x = .ok a ∧ f a = .ok b := by
  cases x with
  | error e => simp [bind, Except.bind]
  | ok a => simp [bind, Except.bind]

theorem map_eq_ok {ε α β : Type} {x : Except ε α} {f : α → β} {b : β} :
    f <$> x = .ok b ↔ ∃ a, x = .ok a ∧ f a = b := by
  cases x with
  | error e => simp [Functor.map, Except.map]
  | ok a => simp [Functor.map, Except.map]

theorem Bounded.lift_eq_ok {ε α : Type} {x : Except ε α} {a : α} :
    Bounded.lift x = .ok a ↔ x = .ok a := by
  cases x with
  | error e => simp [Bounded.lift]
  | ok a => simp [Bounded.lift]

/-- What a computation arrives at inside a level it arrives at with room for one more. -/
theorem Room.enter_eq_ok_iff {ε α : Type} {body : Room → Except (Bounded ε) α} {a : α}
    {depth : Nat} {reached : Prop}
    (inside : ∀ inner, body inner = .ok a ↔ inner.admits depth = true ∧ reached) (room : Room) :
    room.enter body = .ok a ↔ room.admits (depth + 1) = true ∧ reached := by
  match room with
  | none => simpa [Room.enter, Room.admits] using inside none
  | some 0 => simp [Room.enter, Room.admits]
  | some (levels + 1) => simpa [Room.enter, Room.admits] using inside (some levels)

theorem Room.admits_max {room : Room} {a b : Nat} :
    room.admits (max a b) = true ↔ room.admits a = true ∧ room.admits b = true := by
  cases room with
  | none => simp [Room.admits]
  | some levels =>
      simp only [Room.admits, decide_eq_true_eq]
      exact Nat.max_le

/-- There is always room for nothing. -/
theorem Room.admits_zero (room : Room) : room.admits 0 = true := by
  cases room with
  | none => rfl
  | some levels => simp [Room.admits]

namespace Expr

/-- An expression has a value; none is the undefined value. A function without an argument is asked
for its value where there is no number. -/
inductive Evaluates (unit : AngleUnit) : Expr → Option Float → Prop where
  | number (value : Float) : Evaluates unit (.number value) (some value)
  | name {spelling : Text} {value : Option Float} (known : nameValue spelling = .ok value) :
      Evaluates unit (.name spelling) value
  | unary {symbol : Text} {operand : Expr} {x : Option Float} {y : Float}
      (inner : Evaluates unit operand x) (known : unaryValue symbol (operandValue x) = .ok y) :
      Evaluates unit (.unary symbol operand) (some y)
  | binary {symbol : Text} {left right : Expr} {x y : Option Float} {z : Float}
      (first : Evaluates unit left x) (second : Evaluates unit right y)
      (known : binaryValue symbol (operandValue x) (operandValue y) = .ok z) :
      Evaluates unit (.binary symbol left right) (some z)
  | call (f : Function) {argument : Expr} {x : Option Float} (inner : Evaluates unit argument x) :
      Evaluates unit (.call (.name f.name) argument) (some (f.apply unit (operandValue x)))
  | emptyCall (f : Function) :
      Evaluates unit (.call (.name f.name) .missing) (some (f.apply unit Arithmetic.nan))

/-- How many levels of nodes are evaluated. -/
def evaluationDepth : Expr → Nat
  | .number _ | .name _ | .bare | .missing => 1
  | .unary _ operand => operand.evaluationDepth + 1
  | .binary _ left right => max left.evaluationDepth right.evaluationDepth + 1
  | .call _ argument => (if argument.isMissing then 0 else argument.evaluationDepth) + 1

variable {unit : AngleUnit} {room : Room} {symbol spelling : Text}
  {e operand left right callee argument : Expr} {v : Option Float}

theorem evaluationDepth_call (present : argument ≠ .missing) :
    (call callee argument).evaluationDepth = argument.evaluationDepth + 1 := by
  rw [evaluationDepth, isMissing_eq_false_iff.mpr present]
  rfl

theorem evaluates_name_iff : Evaluates unit (.name spelling) v ↔ nameValue spelling = .ok v := by
  constructor
  · intro value
    cases value with
    | name known => exact known
  · exact .name

theorem evaluates_unary_iff : Evaluates unit (.unary symbol operand) v ↔
    ∃ x, Evaluates unit operand x ∧ ∃ y, unaryValue symbol (operandValue x) = .ok y ∧
      some y = v := by
  constructor
  · intro value
    cases value with
    | unary inner known => exact ⟨_, inner, _, known, rfl⟩
  · rintro ⟨x, inner, y, known, rfl⟩
    exact .unary inner known

theorem evaluates_binary_iff : Evaluates unit (.binary symbol left right) v ↔
    ∃ x, Evaluates unit left x ∧ ∃ y, Evaluates unit right y ∧
      ∃ z, binaryValue symbol (operandValue x) (operandValue y) = .ok z ∧ some z = v := by
  constructor
  · intro value
    cases value with
    | binary first second known => exact ⟨_, first, _, second, _, known, rfl⟩
  · rintro ⟨x, first, y, second, z, known, rfl⟩
    exact .binary first second known

theorem not_evaluates_missing : ¬ Evaluates unit .missing v := by
  rintro ⟨⟩

theorem evaluates_call_iff (present : argument ≠ .missing) :
    Evaluates unit (.call callee argument) v ↔ ∃ f : Function, callee = .name f.name ∧
      ∃ x, Evaluates unit argument x ∧ some (f.apply unit (operandValue x)) = v := by
  constructor
  · intro value
    cases value with
    | call f inner => exact ⟨f, rfl, _, inner, rfl⟩
    | emptyCall => exact absurd rfl present
  · rintro ⟨f, rfl, x, inner, rfl⟩
    exact .call f inner

theorem evaluates_call_missing_iff : Evaluates unit (.call callee .missing) v ↔
    ∃ f : Function, callee = .name f.name ∧ some (f.apply unit Arithmetic.nan) = v := by
  constructor
  · intro value
    cases value with
    | call _ inner => exact absurd inner not_evaluates_missing
    | emptyCall f => exact ⟨f, rfl, rfl⟩
  · rintro ⟨f, rfl, rfl⟩
    exact .emptyCall f

end Expr

theorem Function.ofName?_eq_some_iff {text : Text} {f : Function} :
    ofName? text = some f ↔ text = f.name := by
  constructor
  · intro found
    have same : f.name = text := by simpa using List.find?_some found
    exact same.symm
  · rintro rfl
    cases f <;> decide

namespace Expr

variable {unit : AngleUnit} {room : Room} {e callee : Expr} {v : Option Float}

/-- A callee is a function if it is the name of one; there is no other way to name it. -/
theorem functionOf_eq_ok_iff {f : Function} :
    functionOf room callee = .ok f ↔ callee = .name f.name := by
  unfold functionOf
  dsimp only
  constructor
  · intro named
    split at named
    · rename_i found
      cases named
      split at found
      · rw [Function.ofName?_eq_some_iff.mp found]
      · cases found
    · split at named <;> cases named
  · rintro rfl
    have found : Function.ofName? f.name = some f := Function.ofName?_eq_some_iff.mpr rfl
    simp only [found]

/-- The evaluator arrives at the value of an expression exactly if there is room for all levels
that are evaluated, and it arrives at no other. -/
theorem eval_eq_ok_iff : eval unit room e = .ok v ↔
    room.admits e.evaluationDepth = true ∧ Evaluates unit e v := by
  induction e generalizing room v with
  | number value =>
      refine Room.enter_eq_ok_iff (fun inner => ?_) room
      rw [Except.ok.injEq]
      constructor
      · rintro rfl
        exact ⟨inner.admits_zero, .number value⟩
      · rintro ⟨_, value⟩
        cases value with
        | number => rfl
  | name spelling =>
      refine Room.enter_eq_ok_iff (fun inner => ?_) room
      rw [Bounded.lift_eq_ok, evaluates_name_iff, and_iff_right inner.admits_zero]
  | unary symbol operand ih =>
      refine Room.enter_eq_ok_iff (fun inner => ?_) room
      simp only [bind_eq_ok, map_eq_ok, Bounded.lift_eq_ok, ih, evaluates_unary_iff, and_assoc,
        exists_and_left]
  | binary symbol left right ihl ihr =>
      refine Room.enter_eq_ok_iff (fun inner => ?_) room
      simp only [bind_eq_ok, map_eq_ok, Bounded.lift_eq_ok, ihl, ihr, Room.admits_max,
        evaluates_binary_iff]
      constructor
      · rintro ⟨x, ⟨first, left⟩, y, ⟨second, right⟩, known⟩
        exact ⟨⟨first, second⟩, x, left, y, right, known⟩
      · rintro ⟨⟨first, second⟩, x, left, y, right, known⟩
        exact ⟨x, ⟨first, left⟩, y, ⟨second, right⟩, known⟩
  | call callee argument _ ih =>
      by_cases absent : argument = .missing
      · subst absent
        rw [eval_call_missing, evaluates_call_missing_iff]
        refine Room.enter_eq_ok_iff (fun inner => ?_) room
        simp only [bind_eq_ok, functionOf_eq_ok_iff, pure, Except.pure, Except.ok.injEq]
        exact (and_iff_right inner.admits_zero).symm
      · rw [eval_call absent, evaluationDepth_call absent, evaluates_call_iff absent]
        refine Room.enter_eq_ok_iff (fun inner => ?_) room
        simp only [bind_eq_ok, functionOf_eq_ok_iff, ih, pure, Except.pure, Except.ok.injEq]
        constructor
        · rintro ⟨f, named, x, ⟨admits, value⟩, same⟩
          exact ⟨admits, f, named, x, value, same⟩
        · rintro ⟨admits, f, named, x, value, same⟩
          exact ⟨f, named, x, ⟨admits, value⟩, same⟩
  | bare | missing =>
      refine Room.enter_eq_ok_iff (fun inner => ?_) room
      refine iff_of_false (by rintro ⟨⟩) ?_
      rintro ⟨_, ⟨⟩⟩

end Expr

/-- The two names that are constants. -/
theorem mem_constants_iff {spelling : Text} :
    spelling ∈ constants.map (·.1) ↔ spelling = "pi".toList ∨ spelling = "e".toList := by
  rw [constants, List.map_cons, List.map_singleton, List.mem_pair]

/-- A constant's name followed by one or more digits. -/
def IsConstantWithDigits (spelling : Text) : Prop :=
  ∃ name digits, name ∈ constants.map (·.1) ∧ digits ≠ [] ∧
    (∀ c ∈ digits, Text.isDecimalDigit c = true) ∧ spelling = name ++ digits

theorem isConstantWithDigits_iff (spelling : Text) :
    isConstantWithDigits spelling = true ↔ IsConstantWithDigits spelling := by
  unfold isConstantWithDigits IsConstantWithDigits
  rw [List.any_eq_true]
  constructor
  · rintro ⟨⟨name, value⟩, mem, glued⟩
    dsimp only at glued
    split at glued
    · rename_i digits found
      obtain ⟨nonempty, all⟩ : digits ≠ [] ∧ ∀ c ∈ digits, Text.isDecimalDigit c = true := by
        simpa using glued
      exact ⟨name, digits, List.mem_map_of_mem mem, nonempty, all,
        (List.isPrefixOf?_eq_some_iff_append_eq.mp found).symm⟩
    · cases glued
  · rintro ⟨name, digits, mem, nonempty, all, rfl⟩
    obtain ⟨entry, listed, rfl⟩ := List.mem_map.mp mem
    have found : List.isPrefixOf? entry.1 (entry.1 ++ digits) = some digits :=
      List.isPrefixOf?_eq_some_iff_append_eq.mpr rfl
    refine ⟨entry, listed, ?_⟩
    simpa [found] using ⟨nonempty, all⟩

theorem isConstantWithDigits_iff_append {spelling : Text} : IsConstantWithDigits spelling ↔
    ∃ digits, digits ≠ [] ∧ (∀ c ∈ digits, Text.isDecimalDigit c = true) ∧
      (spelling = "pi".toList ++ digits ∨ spelling = "e".toList ++ digits) := by
  unfold IsConstantWithDigits
  constructor
  · rintro ⟨name, digits, constant, nonempty, all, rfl⟩
    refine ⟨digits, nonempty, all, ?_⟩
    rcases mem_constants_iff.mp constant with rfl | rfl
    · exact .inl rfl
    · exact .inr rfl
  · rintro ⟨digits, nonempty, all, rfl | rfl⟩
    · exact ⟨_, digits, mem_constants_iff.mpr (.inl rfl), nonempty, all, rfl⟩
    · exact ⟨_, digits, mem_constants_iff.mpr (.inr rfl), nonempty, all, rfl⟩

/-- No constant is another one with digits. -/
theorem IsConstantWithDigits.not_mem {spelling : Text} (h : IsConstantWithDigits spelling) :
    spelling ∉ constants.map (·.1) := by
  have letters : (constants.all fun entry => entry.1.all (!Text.isDecimalDigit ·)) = true := by
    decide
  obtain ⟨name, digits, _, nonempty, all, rfl⟩ := h
  obtain ⟨c, mem⟩ := List.exists_mem_of_ne_nil digits nonempty
  intro constant
  obtain ⟨entry, listed, same⟩ := List.mem_map.mp constant
  have spelt := List.all_eq_true.mp letters entry listed
  have letter := List.all_eq_true.mp spelt c (same ▸ List.mem_append_right name mem)
  rw [all c mem] at letter
  cases letter

/-- A name is a constant, a constant with digits, or undefined. -/
theorem nameValue_cases (spelling : Text) :
    (spelling ∈ constants.map (·.1) ∧ ∃ x, nameValue spelling = .ok (some x)) ∨
    (IsConstantWithDigits spelling ∧ nameValue spelling = .ok none) ∨
    (spelling ∉ constants.map (·.1) ∧ ¬ IsConstantWithDigits spelling ∧
      nameValue spelling = .error (.undefinedName spelling)) := by
  have listed : constants.lookup spelling = none ↔ spelling ∉ constants.map (·.1) := by
    simp [List.lookup_eq_none_iff, constants, bne_iff_ne]
  unfold nameValue
  rw [← isConstantWithDigits_iff]
  cases found : constants.lookup spelling with
  | some x =>
      have constant : spelling ∈ constants.map (·.1) := by
        by_contra other
        rw [listed.mpr other] at found
        cases found
      exact .inl ⟨constant, x, rfl⟩
  | none =>
      by_cases glued : isConstantWithDigits spelling = true
      · exact .inr (.inl ⟨glued, if_pos glued⟩)
      · exact .inr (.inr ⟨listed.mp found, glued, if_neg glued⟩)

theorem exists_nameValue_iff (spelling : Text) :
    (∃ value, nameValue spelling = .ok value) ↔
      spelling ∈ constants.map (·.1) ∨ IsConstantWithDigits spelling := by
  rcases nameValue_cases spelling with ⟨constant, x, known⟩ | ⟨glued, known⟩ | ⟨other, free, fault⟩
  · exact iff_of_true ⟨_, known⟩ (.inl constant)
  · exact iff_of_true ⟨_, known⟩ (.inr glued)
  · simp [fault, other, free]

/-- The undefined value is that of a constant with digits. -/
theorem nameValue_eq_ok_none_iff (spelling : Text) :
    nameValue spelling = .ok none ↔ IsConstantWithDigits spelling := by
  rcases nameValue_cases spelling with ⟨constant, x, known⟩ | ⟨glued, known⟩ | ⟨other, free, fault⟩
  · rw [known]
    exact iff_of_false (by rintro ⟨⟩) fun glued => glued.not_mem constant
  · exact iff_of_true known glued
  · simp [fault, free]

theorem Operator.ofSymbol?_eq_some_iff {text : Text} {op : Operator} :
    ofSymbol? text = some op ↔ text = op.symbol := by
  constructor
  · intro found
    have same : op.symbol = text := by simpa using List.find?_some found
    exact same.symm
  · rintro rfl
    cases op <;> decide

/-- The signs are the operators that may stand before an operand. -/
theorem exists_unaryValue_iff (symbol : Text) (x : Float) :
    (∃ y, unaryValue symbol x = .ok y) ↔
      ∃ op : Operator, op.isSign = true ∧ symbol = op.symbol := by
  unfold unaryValue
  constructor
  · rintro ⟨y, known⟩
    split at known
    · rename_i found
      exact ⟨.plus, rfl, Operator.ofSymbol?_eq_some_iff.mp found⟩
    · rename_i found
      exact ⟨.minus, rfl, Operator.ofSymbol?_eq_some_iff.mp found⟩
    · cases known
  · rintro ⟨op, signs, rfl⟩
    rw [Operator.ofSymbol?_eq_some_iff.mpr rfl]
    cases op with
    | plus | minus => exact ⟨_, rfl⟩
    | times | dividedBy | power => cases signs

theorem exists_binaryValue_iff (symbol : Text) (x y : Float) :
    (∃ z, binaryValue symbol x y = .ok z) ↔ ∃ op : Operator, symbol = op.symbol := by
  unfold binaryValue
  constructor
  · rintro ⟨z, known⟩
    split at known
    · rename_i op found
      exact ⟨op, Operator.ofSymbol?_eq_some_iff.mp found⟩
    · cases known
  · rintro ⟨op, rfl⟩
    rw [Operator.ofSymbol?_eq_some_iff.mpr rfl]
    exact ⟨_, rfl⟩

/-- The five operators as they are spelt. -/
theorem Operator.exists_symbol_iff {symbol : Text} : (∃ op : Operator, symbol = op.symbol) ↔
    symbol ∈ ["+", "-", "*", "/", "**"].map String.toList := by
  constructor
  · rintro ⟨op, rfl⟩
    cases op <;> decide
  · intro listed
    simp only [List.map_cons, List.map_nil, List.mem_cons, List.not_mem_nil, or_false] at listed
    obtain rfl | rfl | rfl | rfl | rfl := listed
    exacts [⟨.plus, rfl⟩, ⟨.minus, rfl⟩, ⟨.times, rfl⟩, ⟨.dividedBy, rfl⟩, ⟨.power, rfl⟩]

/-- The two of them that are signs. -/
theorem Operator.exists_sign_iff {symbol : Text} :
    (∃ op : Operator, op.isSign = true ∧ symbol = op.symbol) ↔
      symbol = "+".toList ∨ symbol = "-".toList := by
  constructor
  · rintro ⟨op, signs, rfl⟩
    cases op with
    | plus => exact .inl rfl
    | minus => exact .inr rfl
    | times | dividedBy | power => cases signs
  · rintro (rfl | rfl)
    · exact ⟨.plus, rfl, rfl⟩
    · exact ⟨.minus, rfl, rfl⟩

/-- The six names that are functions. -/
theorem Function.exists_name_iff {spelling : Text} : (∃ f : Function, spelling = f.name) ↔
    spelling ∈
      ["sin_angle", "cos_angle", "tan_angle", "log10", "ln", "sqrt"].map String.toList := by
  constructor
  · rintro ⟨f, rfl⟩
    cases f <;> decide
  · intro listed
    simp only [List.map_cons, List.map_nil, List.mem_cons, List.not_mem_nil, or_false] at listed
    obtain rfl | rfl | rfl | rfl | rfl | rfl := listed
    exacts [⟨.sine, rfl⟩, ⟨.cosine, rfl⟩, ⟨.tangent, rfl⟩, ⟨.decimalLogarithm, rfl⟩,
      ⟨.naturalLogarithm, rfl⟩, ⟨.squareRoot, rfl⟩]

namespace Expr

/-- The parts of an expression that are evaluated: all but the callees, and arguments that are
missing. -/
inductive Evaluated : Expr → Expr → Prop where
  | whole (e : Expr) : Evaluated e e
  | operand {symbol : Text} {operand part : Expr} (inside : Evaluated operand part) :
      Evaluated (.unary symbol operand) part
  | left {symbol : Text} {left right part : Expr} (inside : Evaluated left part) :
      Evaluated (.binary symbol left right) part
  | right {symbol : Text} {left right part : Expr} (inside : Evaluated right part) :
      Evaluated (.binary symbol left right) part
  | argument {callee argument part : Expr} (present : argument ≠ .missing)
      (inside : Evaluated argument part) : Evaluated (.call callee argument) part

/-- A name that is neither a constant nor a constant with digits. -/
def IsUnknownName : Expr → Prop
  | .name spelling => spelling ∉ constants.map (·.1) ∧ ¬ IsConstantWithDigits spelling
  | _ => False

/-- A call of something that is not the name of a function. -/
def IsUnknownCall : Expr → Prop
  | .call callee _ => ∀ f : Function, callee ≠ .name f.name
  | _ => False

/-- A node that no text produces: an operator where it cannot stand, or no expression. -/
def IsMalformed : Expr → Prop
  | .unary symbol _ => ∀ op : Operator, op.isSign = true → symbol ≠ op.symbol
  | .binary symbol _ _ => ∀ op : Operator, symbol ≠ op.symbol
  | .bare | .missing => True
  | _ => False

/-- A node that is at fault by itself. -/
def IsFaulty (e : Expr) : Prop := e.IsUnknownName ∨ e.IsUnknownCall ∨ e.IsMalformed

section

variable {unit : AngleUnit} {symbol spelling : Text}
  {e operand left right callee argument : Expr} {p : Expr → Prop}

theorem isUnknownName_iff : (name spelling).IsUnknownName ↔
    (spelling ≠ "pi".toList ∧ spelling ≠ "e".toList) ∧
      ∀ digits, digits ≠ [] → (∀ c ∈ digits, Text.isDecimalDigit c = true) →
        spelling ≠ "pi".toList ++ digits ∧ spelling ≠ "e".toList ++ digits := by
  rw [IsUnknownName, mem_constants_iff, isConstantWithDigits_iff_append]
  simp only [not_or, not_exists, not_and, ne_eq]

theorem isUnknownCall_iff : (call callee argument).IsUnknownCall ↔
    ∀ spelling, callee = .name spelling → spelling ∉
      ["sin_angle", "cos_angle", "tan_angle", "log10", "ln", "sqrt"].map String.toList := by
  simp only [IsUnknownCall, ← Function.exists_name_iff, not_exists]
  constructor
  · rintro unknown spelling rfl f rfl
    exact unknown f rfl
  · rintro unknown f rfl
    exact unknown f.name rfl f rfl

theorem forall_evaluated_unary :
    (∀ part, (unary symbol e).Evaluated part → p part) ↔
      p (unary symbol e) ∧ ∀ part, e.Evaluated part → p part := by
  constructor
  · exact fun all => ⟨all _ (.whole _), fun part inside => all part (.operand inside)⟩
  · rintro ⟨self, all⟩ part inside
    cases inside with
    | whole => exact self
    | operand inside => exact all part inside

theorem forall_evaluated_binary :
    (∀ part, (binary symbol left right).Evaluated part → p part) ↔
      p (binary symbol left right) ∧ (∀ part, left.Evaluated part → p part) ∧
        ∀ part, right.Evaluated part → p part := by
  constructor
  · exact fun all => ⟨all _ (.whole _), fun part inside => all part (.left inside),
      fun part inside => all part (.right inside)⟩
  · rintro ⟨self, first, second⟩ part inside
    cases inside with
    | whole => exact self
    | left inside => exact first part inside
    | right inside => exact second part inside

theorem forall_evaluated_call :
    (∀ part, (call callee argument).Evaluated part → p part) ↔
      p (call callee argument) ∧
        (argument ≠ .missing → ∀ part, argument.Evaluated part → p part) := by
  constructor
  · exact fun all => ⟨all _ (.whole _),
      fun present part inside => all part (.argument present inside)⟩
  · rintro ⟨self, all⟩ part inside
    cases inside with
    | whole => exact self
    | argument present inside => exact all present part inside

/-- Where nothing inside is evaluated, only the whole counts. -/
theorem forall_evaluated_leaf (leaf : ∀ part, e.Evaluated part → part = e) :
    (∀ part, e.Evaluated part → p part) ↔ p e := by
  constructor
  · exact fun all => all e (.whole e)
  · intro self part inside
    rw [leaf part inside]
    exact self

theorem exists_evaluates_name_iff :
    (∃ v, Evaluates unit (name spelling) v) ↔ ¬ (name spelling).IsFaulty := by
  simp only [evaluates_name_iff, exists_nameValue_iff, IsFaulty, IsUnknownName, IsUnknownCall,
    IsMalformed, or_false, not_and_or, not_not]

theorem exists_evaluates_unary_iff : (∃ v, Evaluates unit (unary symbol operand) v) ↔
    ¬ (unary symbol operand).IsFaulty ∧ ∃ v, Evaluates unit operand v := by
  have sign : ¬ (unary symbol operand).IsFaulty ↔
      ∃ op : Operator, op.isSign = true ∧ symbol = op.symbol := by
    simp [IsFaulty, IsUnknownName, IsUnknownCall, IsMalformed]
  rw [sign]
  constructor
  · rintro ⟨_, value⟩
    cases value with
    | unary inner known => exact ⟨(exists_unaryValue_iff symbol _).mp ⟨_, known⟩, _, inner⟩
  · rintro ⟨signs, x, inner⟩
    obtain ⟨y, known⟩ := (exists_unaryValue_iff symbol (operandValue x)).mpr signs
    exact ⟨_, .unary inner known⟩

theorem exists_evaluates_binary_iff : (∃ v, Evaluates unit (binary symbol left right) v) ↔
    ¬ (binary symbol left right).IsFaulty ∧ (∃ v, Evaluates unit left v) ∧
      ∃ v, Evaluates unit right v := by
  have operator : ¬ (binary symbol left right).IsFaulty ↔ ∃ op : Operator, symbol = op.symbol := by
    simp [IsFaulty, IsUnknownName, IsUnknownCall, IsMalformed]
  rw [operator]
  constructor
  · rintro ⟨_, value⟩
    cases value with
    | binary first second known =>
        exact ⟨(exists_binaryValue_iff symbol _ _).mp ⟨_, known⟩, ⟨_, first⟩, ⟨_, second⟩⟩
  · rintro ⟨operates, ⟨x, first⟩, ⟨y, second⟩⟩
    obtain ⟨z, known⟩ :=
      (exists_binaryValue_iff symbol (operandValue x) (operandValue y)).mpr operates
    exact ⟨_, .binary first second known⟩

theorem exists_evaluates_call_iff : (∃ v, Evaluates unit (call callee argument) v) ↔
    ¬ (call callee argument).IsFaulty ∧
      (argument ≠ .missing → ∃ v, Evaluates unit argument v) := by
  have function : ¬ (call callee argument).IsFaulty ↔ ∃ f : Function, callee = name f.name := by
    simp [IsFaulty, IsUnknownName, IsUnknownCall, IsMalformed]
  rw [function]
  constructor
  · rintro ⟨_, value⟩
    cases value with
    | call f inner => exact ⟨⟨f, rfl⟩, fun _ => ⟨_, inner⟩⟩
    | emptyCall f => exact ⟨⟨f, rfl⟩, fun present => absurd rfl present⟩
  · rintro ⟨⟨f, rfl⟩, value⟩
    by_cases absent : argument = .missing
    · rw [absent]
      exact ⟨_, .emptyCall f⟩
    · obtain ⟨x, inner⟩ := value absent
      exact ⟨_, .call f inner⟩

/-- An expression has a value exactly if none of its evaluated parts is at fault. -/
theorem exists_evaluates_iff (unit : AngleUnit) (e : Expr) :
    (∃ v, Evaluates unit e v) ↔ ∀ part, e.Evaluated part → ¬ part.IsFaulty := by
  induction e with
  | number value =>
      rw [forall_evaluated_leaf (by rintro part ⟨⟩; rfl)]
      refine iff_of_true ⟨_, .number value⟩ ?_
      simp [IsFaulty, IsUnknownName, IsUnknownCall, IsMalformed]
  | name spelling =>
      rw [forall_evaluated_leaf (by rintro part ⟨⟩; rfl), exists_evaluates_name_iff]
  | unary symbol operand ih =>
      rw [forall_evaluated_unary, ← ih, exists_evaluates_unary_iff]
  | binary symbol left right ihl ihr =>
      rw [forall_evaluated_binary, ← ihl, ← ihr, exists_evaluates_binary_iff]
  | call callee argument _ ih =>
      rw [forall_evaluated_call, ← ih, exists_evaluates_call_iff]
  | bare | missing =>
      rw [forall_evaluated_leaf (by rintro part ⟨⟩; rfl)]
      refine iff_of_false (by rintro ⟨_, ⟨⟩⟩) (not_not.mpr ?_)
      exact .inr (.inr trivial)

/-- The undefined value is that of a constant with digits standing alone. -/
theorem evaluates_none_iff :
    Evaluates unit e none ↔ ∃ spelling, e = name spelling ∧ IsConstantWithDigits spelling := by
  constructor
  · intro value
    cases value with
    | name known => exact ⟨_, rfl, (nameValue_eq_ok_none_iff _).mp known⟩
  · rintro ⟨spelling, rfl, glued⟩
    exact .name ((nameValue_eq_ok_none_iff spelling).mpr glued)

/-- An expression has one value at most. -/
theorem Evaluates.unique {v w : Option Float} (first : Evaluates unit e v)
    (second : Evaluates unit e w) : v = w := by
  have reached : eval unit none e = .ok v := eval_eq_ok_iff.mpr ⟨rfl, first⟩
  have again : eval unit none e = .ok w := eval_eq_ok_iff.mpr ⟨rfl, second⟩
  exact Except.ok.inj (reached.symm.trans again)

theorem Evaluates.iff_eq {v : Option Float} (h : Evaluates unit e v) (w : Option Float) :
    Evaluates unit e w ↔ w = v := by
  constructor
  · exact fun h' => h'.unique h
  · rintro rfl
    exact h

/-- Where there is a value, nothing that is evaluated is unknown. -/
theorem Evaluates.not_unknown {v : Option Float} (h : Evaluates unit e v) (part : Expr)
    (inside : e.Evaluated part) : ¬ (part.IsUnknownName ∨ part.IsUnknownCall) := by
  intro unknown
  exact (exists_evaluates_iff unit e).mp ⟨v, h⟩ part inside (unknown.imp_right .inl)

end

end Expr

end Keypad
