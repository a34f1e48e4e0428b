import Keypad.Calculate
import Keypad.Proofs.Bits
import Keypad.Proofs.Derivation
import Keypad.Proofs.Evaluation

/-!
# The phases of a calculation

A calculation goes through its phases in order: the text is marked if it divides by a zero that is
written out, it is read, the expression is evaluated, and the value is looked at. The first phase
that has something to object decides how the calculation ends. What each of them objects to is
said here without the program: by the grammar (`Spells`), by the parts of the expression that are
at fault (`Expr.exists_evaluates_iff`), and by the kind of number that the value is.

Room is a phase of its own in two places. Reading runs out of it at the first beginning of the
text that leaves too much open (`Reading.Exceeds`), even if a later token could not be read at
all; evaluating runs out of it by the depth of the expression.
-/

namespace Keypad

open Grammar

namespace Reading

/-- A beginning of the tokens can be read and leaves more open than there is room for. -/
def Exceeds (room : Room) (s : State) (tokens : List Token) : Prop :=
  ∃ first last, first <+: tokens ∧ run none s first = .ok last ∧
    room.admits (levelsOf last.frames) = false

variable {room : Room} {s next : State} {token : Token} {tokens rest : List Token}

theorem exceeds_nil_iff :
    Exceeds room s [] ↔ room.admits (levelsOf s.frames) = false := by
  constructor
  · rintro ⟨first, last, beginning, ran, deep⟩
    cases List.prefix_nil.mp beginning
    cases ran
    exact deep
  · exact fun deep => ⟨[], s, List.prefix_rfl, rfl, deep⟩

/-- What exceeds after a token exceeded before it, or does so from what the token leaves. -/
theorem exceeds_cons_iff (fits : room.admits (levelsOf s.frames) = true) :
    Exceeds room s (token :: rest) ↔
      ∃ next, s.step token = .ok next ∧ Exceeds room next rest := by
  constructor
  · rintro ⟨first, last, beginning, ran, deep⟩
    cases first with
    | nil =>
        cases ran
        rw [fits] at deep
        cases deep
    | cons head first =>
        obtain ⟨rfl, below⟩ := List.cons_prefix_cons.mp beginning
        cases taken : s.step head with
        | error e =>
            rw [run_cons_error taken] at ran
            cases ran
        | ok next =>
            rw [run_cons taken] at ran
            exact ⟨next, rfl, first, last, below, ran, deep⟩
  · rintro ⟨next, taken, first, last, beginning, ran, deep⟩
    refine ⟨token :: first, last, List.cons_prefix_cons.mpr ⟨rfl, beginning⟩, ?_, deep⟩
    rw [run_cons taken, ran]

/-- A run with room stops where it runs out of it, and is like a run without a bound if it never
does. -/
theorem run_cases (tokens : List Token) (fits : room.admits (levelsOf s.frames) = true) :
    (Exceeds room s tokens ∧ run room s tokens = .error .tooDeep) ∨
      (¬ Exceeds room s tokens ∧ run room s tokens = run none s tokens) := by
  induction tokens generalizing s with
  | nil =>
      refine .inr ⟨?_, rfl⟩
      simp [exceeds_nil_iff, fits]
  | cons token rest ih =>
      rw [exceeds_cons_iff fits]
      cases taken : s.step token with
      | error e =>
          refine .inr ⟨by rintro ⟨next, ⟨⟩, _⟩, ?_⟩
          rw [run_cons_error taken, run_cons_error taken]
      | ok next =>
          have bounded : run room s (token :: rest) =
              if room.admits (levelsOf next.frames) then run room next rest
              else .error .tooDeep := by
            rw [run, taken]
          simp only [Except.ok.injEq, exists_eq_left', bounded, run_cons taken]
          by_cases fits : room.admits (levelsOf next.frames) = true
          · rw [if_pos fits]
            exact ih fits
          · rw [if_neg fits]
            refine .inl ⟨⟨[], next, List.nil_prefix, rfl, ?_⟩, rfl⟩
            exact Bool.eq_false_iff.mpr fits

end Reading

/-- A text spells an expression: it has tokens, and the grammar derives the expression from
them. -/
def Spells (text : Text) (e : Expr) : Prop :=
  ∃ tokens, tokensOf text = .ok tokens ∧ Derives .sum (tokens.map (·.symbol)) e

/-- There is no room for reading a text. -/
def ReadsTooDeep (room : Room) (text : Text) : Prop :=
  ∃ tokens, tokensOf text = .ok tokens ∧ Reading.Exceeds room Reading.start tokens

variable {text : Text} {e : Expr}

/-- A text spells one expression at most. -/
theorem Spells.unique {other : Expr} (first : Spells text e) (second : Spells text other) :
    e = other := by
  obtain ⟨tokens, lexed, derives⟩ := first
  obtain ⟨same, lexed', derives'⟩ := second
  rw [lexed] at lexed'
  cases lexed'
  exact derives_unique derives derives'

theorem Spells.iff_eq (h : Spells text e) (other : Expr) : Spells text other ↔ other = e := by
  constructor
  · exact fun h' => h'.unique h
  · rintro rfl
    exact h

/-- How the reading of a text ends. -/
theorem ofText_cases (room : Room) (text : Text) :
    (ReadsTooDeep room text ∧ Expr.ofText room text = .error .tooDeep) ∨
    (¬ ReadsTooDeep room text ∧ ∃ e, Spells text e ∧ Expr.ofText room text = .ok e) ∨
    (¬ ReadsTooDeep room text ∧ (¬ ∃ e, Spells text e) ∧
      ∃ fault, Expr.ofText room text = .error (.fault fault)) := by
  unfold ReadsTooDeep Spells Expr.ofText
  cases lexed : tokensOf text with
  | error fault =>
      refine .inr (.inr ⟨?_, ?_, _, rfl⟩)
      · rintro ⟨_, ⟨⟩, _⟩
      · rintro ⟨_, _, ⟨⟩, _⟩
  | ok tokens =>
      simp only [Except.ok.injEq, exists_eq_left']
      have fits : room.admits (Reading.levelsOf Reading.start.frames) = true := room.admits_zero
      rcases Reading.run_cases tokens fits with ⟨exceeds, ran⟩ | ⟨fine, ran⟩
      · exact .inl ⟨exceeds, by rw [Expr.ofTokens, ran]⟩
      · have same :
            Expr.ofTokens room tokens text.length = Expr.ofTokens none tokens text.length := by
          rw [Expr.ofTokens, Expr.ofTokens, ran]
        rw [same]
        by_cases derives : ∃ e, Derives .sum (tokens.map (·.symbol)) e
        · obtain ⟨e, derives⟩ := derives
          refine .inr (.inl ⟨fine, e, derives, ?_⟩)
          rw [(ofTokens_eq_ok_iff _).mpr derives]
        · obtain ⟨fault, refused⟩ :
              ∃ fault, Expr.ofTokens none tokens text.length = .error (.fault fault) :=
            ofTokens_eq_error derives
          refine .inr (.inr ⟨fine, derives, .grammatical fault, ?_⟩)
          rw [refused]

/-- No derived tree has a malformed part. -/
theorem Grammar.Derives.not_isMalformed {layer : Layer} {symbols : List Symbol}
    (h : Derives layer symbols e) : ∀ part, e.Evaluated part → ¬ part.IsMalformed := by
  induction h with
  | number spelling =>
      rintro part ⟨⟩
      exact id
  | name spelling =>
      rintro part ⟨⟩
      exact id
  | group _ ih | alone _ ih | powerOfSigned _ ih | powerOfApplied _ ih | productOfPower _ ih
  | sumOfProduct _ ih => exact ih
  | call _ _ _ ih => exact Expr.forall_evaluated_call.mpr ⟨id, fun _ => ih⟩
  | emptyCall _ _ =>
      exact Expr.forall_evaluated_call.mpr ⟨id, fun present => absurd rfl present⟩
  | sign signs _ ih | signs signs _ ih =>
      exact Expr.forall_evaluated_unary.mpr ⟨fun malformed => malformed _ signs rfl, ih⟩
  | power _ _ ihl ihr | product _ _ _ ihl ihr | sum _ _ _ ihl ihr =>
      exact Expr.forall_evaluated_binary.mpr ⟨fun malformed => malformed _ rfl, ihl, ihr⟩

/-- A text that is too deep for a calculator with these limits. -/
inductive TooDeep (limits : Limits) (text : Text) : Prop where
  | reading (deep : ReadsTooDeep limits.reading text)
  | evaluating {e : Expr} (spells : Spells text e)
      (deep : limits.evaluating.admits e.evaluationDepth = false)

/-- Without a bound nothing is too deep. -/
theorem not_tooDeep_unbounded (text : Text) : ¬ TooDeep .unbounded text := by
  rintro (⟨_, _, _, _, _, _, deep⟩ | ⟨_, deep⟩) <;> cases deep

variable {limits : Limits} {c : Canonical}

theorem Spells.not_tooDeep (h : Spells text e) (fine : ¬ ReadsTooDeep limits.reading text)
    (admits : limits.evaluating.admits e.evaluationDepth = true) : ¬ TooDeep limits text := by
  rintro (deep | ⟨spells, deep⟩)
  · exact fine deep
  · rw [← h.unique spells, admits] at deep
    cases deep

section Reading

variable (unit : AngleUnit) (unmarked : c.dividesByZero = false)

include unmarked

theorem result_of_stopped (stopped : Expr.ofText limits.reading c.text = .error .tooDeep) :
    c.result limits unit = .failure .generic := by
  rw [Canonical.result, if_neg (by simp [unmarked]), valueOfText, stopped]

theorem result_of_refused {fault : TextError}
    (refused : Expr.ofText limits.reading c.text = .error (.fault fault)) :
    c.result limits unit = .failure .invalidFormat := by
  rw [Canonical.result, if_neg (by simp [unmarked]), valueOfText, refused]

variable (read : Expr.ofText limits.reading c.text = .ok e)

include read

/-- What is read decides by how it is evaluated. -/
theorem result_of_ofText :
    c.result limits unit =
      match e.eval unit limits.evaluating with
      | .ok value => .ofValue value
      | .error _ => .failure .generic := by
  unfold Canonical.result valueOfText
  rw [if_neg (by simp [unmarked]), read]
  dsimp only
  rcases e.eval unit limits.evaluating with (_ | _) | _ <;> rfl

/-- It makes no difference whether evaluation meets a fault or runs out of room. -/
theorem result_of_no_value (none : ∀ v, e.eval unit limits.evaluating ≠ .ok v) :
    c.result limits unit = .failure .generic := by
  rw [result_of_ofText unit unmarked read]
  cases reached : e.eval unit limits.evaluating with
  | ok v => exact absurd reached (none v)
  | error fault => rfl

end Reading

/-- What a text spells has a value, or a part of it is unknown. -/
theorem Spells.value_or_unknown (h : Spells text e) (unit : AngleUnit) :
    (∃ v, e.Evaluates unit v) ∨
      ∃ part, e.Evaluated part ∧ (part.IsUnknownName ∨ part.IsUnknownCall) := by
  obtain ⟨tokens, _, derives⟩ := h
  by_cases value : ∃ v, e.Evaluates unit v
  · exact .inl value
  · rw [Expr.exists_evaluates_iff] at value
    simp only [not_forall, not_not] at value
    obtain ⟨part, inside, name | call | malformed⟩ := value
    · exact .inr ⟨part, inside, .inl name⟩
    · exact .inr ⟨part, inside, .inr call⟩
    · exact absurd malformed (derives.not_isMalformed part inside)

/-- The phases of a calculation: one of five things holds, and it decides. -/
theorem result_cases (limits : Limits) (unit : AngleUnit) (c : Canonical) :
    -- A denominator is a zero that is written out.
    (c.dividesByZero = true ∧ c.result limits unit = .failure .divideByZero) ∨
    c.dividesByZero = false ∧
      -- There is no room for the text.
      (TooDeep limits c.text ∧ c.result limits unit = .failure .generic ∨
      ¬ TooDeep limits c.text ∧
        -- It is no expression.
        ((¬ ∃ e, Spells c.text e) ∧ c.result limits unit = .failure .invalidFormat ∨
        ∃ e, Spells c.text e ∧
          -- A part that is evaluated is unknown, or there is a value.
          ((∃ part, e.Evaluated part ∧ (part.IsUnknownName ∨ part.IsUnknownCall)) ∧
              c.result limits unit = .failure .generic ∨
            ∃ v, e.Evaluates unit v ∧ c.result limits unit = .ofValue v))) := by
  cases unmarked : c.dividesByZero with
  | true => exact .inl ⟨rfl, by rw [Canonical.result, if_pos unmarked]⟩
  | false =>
      refine .inr ⟨rfl, ?_⟩
      rcases ofText_cases limits.reading c.text with
        ⟨deep, stopped⟩ | ⟨fine, e, spells, read⟩ | ⟨fine, none, fault, refused⟩
      · exact .inl ⟨.reading deep, result_of_stopped unit unmarked stopped⟩
      · cases admits : limits.evaluating.admits e.evaluationDepth with
        | false =>
            refine .inl ⟨.evaluating spells admits, result_of_no_value unit unmarked read ?_⟩
            intro v reached
            rw [(Expr.eval_eq_ok_iff.mp reached).1] at admits
            cases admits
        | true =>
            refine .inr ⟨spells.not_tooDeep fine admits, .inr ⟨e, spells, ?_⟩⟩
            rcases spells.value_or_unknown unit with ⟨v, value⟩ | ⟨part, inside, unknown⟩
            · refine .inr ⟨v, value, ?_⟩
              rw [result_of_ofText unit unmarked read, Expr.eval_eq_ok_iff.mpr ⟨admits, value⟩]
            · refine .inl ⟨⟨part, inside, unknown⟩, result_of_no_value unit unmarked read ?_⟩
              intro v reached
              exact (Expr.eval_eq_ok_iff.mp reached).2.not_unknown part inside unknown
      · refine .inr ⟨?_, .inl ⟨none, result_of_refused unit unmarked refused⟩⟩
        rintro (deep | ⟨spells, _⟩)
        · exact fine deep
        · exact none ⟨_, spells⟩

/-- A number is one of three things, and its result says which. -/
theorem Result.ofNumber_cases (v : Float) :
    (v.isNaN = true ∧ ¬ v.isInf = true ∧ ¬ v.isFinite = true ∧
      Result.ofNumber v = .failure .invalidInput) ∨
    (¬ v.isNaN = true ∧ v.isInf = true ∧ ¬ v.isFinite = true ∧
      Result.ofNumber v = .failure .overflow) ∨
    (¬ v.isNaN = true ∧ ¬ v.isInf = true ∧ v.isFinite = true ∧
      Result.ofNumber v = .success v) := by
  unfold Result.ofNumber
  by_cases number : v.isNaN = true
  · rw [if_pos number]
    rw [Double.isNaN_iff] at number
    rw [Double.isNaN_iff, Double.isInf_iff, Double.isFinite_iff]
    exact .inl ⟨number, by omega, by omega, rfl⟩
  · rw [if_neg number]
    by_cases bounded : v.isInf = true
    · rw [if_pos bounded]
      rw [Double.isInf_iff] at bounded
      rw [Double.isNaN_iff, Double.isInf_iff, Double.isFinite_iff]
      exact .inr (.inl ⟨by omega, bounded, by omega, rfl⟩)
    · rw [if_neg bounded]
      refine .inr (.inr ⟨number, bounded, ?_, rfl⟩)
      rw [Double.isNaN_iff] at number
      rw [Double.isInf_iff] at bounded
      rw [Double.isFinite_iff]
      omega

/-- A result that is a number is finite. -/
theorem Result.isFinite_of_ofNumber {v w : Float} (h : Result.ofNumber v = .success w) :
    w.isFinite = true := by
  rcases Result.ofNumber_cases v with ⟨_, _, _, kind⟩ | ⟨_, _, _, kind⟩ | ⟨_, _, finite, kind⟩
  · rw [kind] at h
    cases h
  · rw [kind] at h
    cases h
  · rw [kind] at h
    cases h
    exact finite

theorem Result.ofNumber_of_isFinite {v : Float} (finite : v.isFinite = true) :
    Result.ofNumber v = .success v := by
  rcases Result.ofNumber_cases v with ⟨_, _, other, _⟩ | ⟨_, _, other, _⟩ | ⟨_, _, _, kind⟩
  · exact absurd finite other
  · exact absurd finite other
  · exact kind

/-- A calculation that succeeds has arrived at a finite number. -/
theorem isFinite_of_calculate {unit : AngleUnit} {v : Float}
    (h : calculate limits unit text = .success v) : v.isFinite = true := by
  rcases result_cases limits unit (Canonical.ofKeypad text) with
    ⟨_, r⟩ | ⟨_, ⟨_, r⟩ | ⟨_, ⟨_, r⟩ | ⟨e, _, ⟨_, r⟩ | ⟨value, _, r⟩⟩⟩⟩ <;> rw [calculate, r] at h
  · cases h
  · cases h
  · cases h
  · cases h
  · cases value with
    | none => cases h
    | some x => exact Result.isFinite_of_ofNumber h

/-- A text whose value is undefined spells a constant with digits, in parentheses or not. -/
theorem spells_value_none_iff (unit : AngleUnit) (text : Text) :
    (∃ name, Spells text (.name name) ∧ IsConstantWithDigits name) ↔
      ∃ e, Spells text e ∧ e.Evaluates unit none := by
  constructor
  · rintro ⟨name, spells, glued⟩
    exact ⟨_, spells, Expr.evaluates_none_iff.mpr ⟨name, rfl, glued⟩⟩
  · rintro ⟨e, spells, value⟩
    obtain ⟨name, rfl, glued⟩ := Expr.evaluates_none_iff.mp value
    exact ⟨name, spells, glued⟩

/-- There is a result exactly if there is anything to calculate. -/
theorem calculate?_eq_some_iff {unit : AngleUnit} {r : Result} :
    calculate? limits unit text = some r ↔ text ≠ [] ∧ calculate limits unit text = r := by
  unfold calculate?
  by_cases empty : text = []
  · simp [empty]
  · simp [empty]

/-- Every text that is not empty has exactly one result, and the first phase that objects decides
which. A zero denominator that is written out comes first. Then a text that spells nothing, or
nothing but a constant with digits, has an invalid format. Then a part of the expression that is
unknown, if it is evaluated, gives the generic error, and so does a text that is too deep. All that
is left is decided by the kind of number that the value is: no operation on numbers is ever at
fault. -/
theorem calculate_spec (limits : Limits) (unit : AngleUnit) {text : Text} (nonempty : text ≠ []) :
    let c := Canonical.ofKeypad text
    ∃ r, calculate? limits unit text = some r ∧
      (r = .failure .divideByZero ↔ c.dividesByZero = true) ∧
      (r = .failure .invalidFormat ↔ c.dividesByZero = false ∧ ¬ TooDeep limits c.text ∧
        ((¬ ∃ e, Spells c.text e) ∨
          ∃ name, Spells c.text (.name name) ∧ IsConstantWithDigits name)) ∧
      (r = .failure .generic ↔ c.dividesByZero = false ∧
        (TooDeep limits c.text ∨ ∃ e part, Spells c.text e ∧ e.Evaluated part ∧
          (part.IsUnknownName ∨ part.IsUnknownCall))) ∧
      (r = .failure .invalidInput ↔ c.dividesByZero = false ∧ ¬ TooDeep limits c.text ∧
        ∃ e v, Spells c.text e ∧ e.Evaluates unit (some v) ∧ v.isNaN = true) ∧
      (r = .failure .overflow ↔ c.dividesByZero = false ∧ ¬ TooDeep limits c.text ∧
        ∃ e v, Spells c.text e ∧ e.Evaluates unit (some v) ∧ v.isInf = true) ∧
      ∀ v, r = .success v ↔ c.dividesByZero = false ∧ ¬ TooDeep limits c.text ∧
        ∃ e, Spells c.text e ∧ e.Evaluates unit (some v) ∧ v.isFinite = true := by
  intro c
  refine ⟨c.result limits unit, calculate?_eq_some_iff.mpr ⟨nonempty, rfl⟩, ?_⟩
  rw [spells_value_none_iff unit]
  rcases result_cases limits unit c with ⟨marked, r⟩ | ⟨unmarked, ⟨deep, r⟩ | ⟨shallow,
    ⟨none, r⟩ | ⟨e, spells, ⟨⟨part, inside, unknown⟩, r⟩ | ⟨v, value, r⟩⟩⟩⟩
  · simp [r, marked]
  · simp [r, unmarked, deep]
  · rw [not_exists] at none
    simp [r, unmarked, shallow, none]
  · have valueless (w : Option Float) : ¬ e.Evaluates unit w :=
      fun value => value.not_unknown part inside unknown
    have faulty : ∃ part, e.Evaluated part ∧ (part.IsUnknownName ∨ part.IsUnknownCall) :=
      ⟨part, inside, unknown⟩
    simp [r, unmarked, shallow, spells.iff_eq, valueless, faulty]
  · have flawless : ¬ ∃ part, e.Evaluated part ∧ (part.IsUnknownName ∨ part.IsUnknownCall) := by
      rintro ⟨part, inside, unknown⟩
      exact value.not_unknown part inside unknown
    cases v with
    | none => simp [r, unmarked, shallow, spells.iff_eq, value.iff_eq, flawless, Result.ofValue]
    | some x =>
        rw [r, Result.ofValue]
        rcases Result.ofNumber_cases x with
          ⟨nan, inf, finite, kind⟩ | ⟨nan, inf, finite, kind⟩ | ⟨nan, inf, finite, kind⟩
        · simp [kind, unmarked, shallow, spells.iff_eq, value.iff_eq, flawless, nan, inf, finite,
            -Float.isNaN_eq_decide_eq_nan]
        · simp [kind, unmarked, shallow, spells.iff_eq, value.iff_eq, flawless, nan, inf, finite,
            -Float.isNaN_eq_decide_eq_nan]
        · have itself (w : Float) : x = w ↔ w = x ∧ w.isFinite = true :=
            ⟨by rintro rfl; exact ⟨rfl, finite⟩, fun same => same.1.symm⟩
          simp [kind, unmarked, shallow, spells.iff_eq, value.iff_eq, flawless, nan, inf, itself,
            -Float.isNaN_eq_decide_eq_nan]

/-- One text for each of the three errors that come before there is a value. -/
theorem calculate_of_three_faults :
    calculate? .standard .radians "1÷0".toList = some (.failure .divideByZero) ∧
      calculate? .unbounded .radians "π2".toList = some (.failure .invalidFormat) ∧
      calculate? .standard .radians "sinh(1)".toList = some (.failure .generic) := by
  refine ⟨?_, ?_, ?_⟩
  · obtain ⟨r, shown, divides, _⟩ :=
      calculate_spec .standard .radians (by decide : "1÷0".toList ≠ [])
    rw [shown, divides.mpr rfl]
  · obtain ⟨r, shown, _, format, _⟩ :=
      calculate_spec .unbounded .radians (by decide : "π2".toList ≠ [])
    have canonical : (Canonical.ofKeypad "π2".toList).text = "pi2".toList := rfl
    have spells : Spells "pi2".toList (.name "pi2".toList) :=
      ⟨[⟨.name "pi2".toList, 0⟩], rfl,
        .sumOfPower (.powerOfApplied (.alone (.name _)))⟩
    have glued : IsConstantWithDigits "pi2".toList := isConstantWithDigits_iff_append.mpr
      ⟨['2'], List.cons_ne_nil _ _, List.forall_mem_singleton.mpr rfl, .inl rfl⟩
    rw [shown, format.mpr ⟨rfl, not_tooDeep_unbounded _, .inr ⟨_, ?_, glued⟩⟩]
    rw [canonical]
    exact spells
  · obtain ⟨r, shown, _, _, generic, _⟩ :=
      calculate_spec .standard .radians (by decide : "sinh(1)".toList ≠ [])
    have canonical : (Canonical.ofKeypad "sinh(1)".toList).text = "sinh(1)".toList := by
      rfl
    have one : Derives .sum [.number ['1']] (.number (Symbol.valueOf ['1'])) :=
      .sumOfPower (.powerOfApplied (.alone (.number ['1'])))
    let e : Expr := .call (.name "sinh".toList) (.number (Symbol.valueOf ['1']))
    have spells : Spells "sinh(1)".toList e :=
      ⟨[⟨.name "sinh".toList, 0⟩, ⟨.opening, 4⟩, ⟨.number ['1'], 5⟩, ⟨.closing, 6⟩],
        rfl, .sumOfPower (.powerOfApplied (.call (.alone (.name _)) one))⟩
    have unknown : e.IsUnknownCall := by
      rw [Expr.isUnknownCall_iff]
      rintro spelling ⟨⟩
      decide
    rw [shown, generic.mpr ⟨rfl, .inr ⟨_, _, ?_, .whole _, .inr unknown⟩⟩]
    rw [canonical]
    exact spells

end Keypad
