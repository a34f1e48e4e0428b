import Keypad.Proofs.Parentheses

/-!
# Where reading stops

A sequence of symbols is viable if some expression begins with it. The reader takes tokens as long
as they are viable and refuses the first that no expression could have in its place; and if it
takes all of them and they are no expression yet, it is the end of the text that is refused
(`ofText_refused_at`).

That a beginning is viable takes an expression that goes on from it: whatever is open, an operand
is put where one is awaited, and closing parentheses do the rest (`Reading.completable`). That it
is not viable takes nothing but the step that was refused, for a run never comes back to it.
-/

namespace Keypad

open Grammar

/-- Some expression begins with these symbols. -/
def Viable (symbols : List Symbol) : Prop := ∃ rest e, Derives .sum (symbols ++ rest) e

/-- What begins a viable sequence is viable. -/
theorem Viable.of_isPrefix {first symbols : List Symbol} (h : Viable symbols)
    (begins : first <+: symbols) : Viable first := by
  obtain ⟨between, rfl⟩ := begins
  obtain ⟨rest, e, derives⟩ := h
  exact ⟨between ++ rest, e, by rwa [← List.append_assoc]⟩

/-- The token that a fault is about; the end of the text is none. -/
def GrammarError.token? : GrammarError → Option Token
  | .endOfExpression | .unclosed _ => none
  | .notOperand found | .notClosing found | .leftover found => some found
  | .signedBase position => some ⟨.operator .power, position⟩

namespace Reading

variable {frames outer : List Frame} {value : Expr} {s next : State} {token : Token}
  {tokens : List Token} {position : ℕ} {fault : GrammarError}

/-- Some tokens lead from the state to an expression. -/
def Completable (s : State) : Prop :=
  ∃ tokens last e, run none s tokens = .ok last ∧ last.finish 0 = .ok e

/-- What a token leads to can be gone on from if what it leads to can. -/
theorem Completable.of_step (h : Completable next) (taken : s.step token = .ok next) :
    Completable s := by
  obtain ⟨tokens, last, e, ran, finished⟩ := h
  exact ⟨token :: tokens, last, e, by rw [run_cons taken, ran], finished⟩

theorem length_reduce_le (binding : ℕ) (frames : List Frame) (value : Expr) :
    (reduce binding frames value).1.length ≤ frames.length := by
  induction frames generalizing value with
  | nil => exact Nat.le_refl _
  | cons frame frames ih =>
      cases frame with
      | sign op => exact Nat.le_succ_of_le (ih _)
      | group | argument => exact Nat.le_refl _
      | operation left op =>
          simp only [reduce]
          split
          · exact Nat.le_succ_of_le (ih _)
          · exact Nat.le_refl _

/-- After an operand, closing parentheses lead to an expression. -/
theorem completable_after (frames : List Frame) (value : Expr) :
    Completable ⟨frames, .after value⟩ := by
  -- A parenthesis closes all frames up to the one that it opened, so the induction is on how many
  -- are open.
  induction size : frames.length using Nat.strongRecOn generalizing frames value with
  | ind size ih =>
      subst size
      have stops := stops_reduce 0 frames value
      have shorter := length_reduce_le 0 frames value
      match reduced : reduce 0 frames value with
      | ([], e) =>
          exact ⟨[], _, e, rfl, by simp [State.finish, reduced]⟩
      | (.group :: outer, e) =>
          rw [reduced] at shorter
          have closed : State.step ⟨frames, .after value⟩ ⟨.closing, 0⟩ = .ok ⟨outer, .after e⟩ :=
            step_closing rfl reduced (.inl ⟨rfl, rfl⟩)
          exact (ih _ shorter outer e rfl).of_step closed
      | (.argument callee :: outer, e) =>
          rw [reduced] at shorter
          have closed : State.step ⟨frames, .after value⟩ ⟨.closing, 0⟩ =
              .ok ⟨outer, .after (.call callee e)⟩ :=
            step_closing rfl reduced (.inr ⟨callee, rfl, rfl⟩)
          exact (ih _ shorter outer _ rfl).of_step closed
      | (.sign op :: outer, e) =>
          rw [reduced] at stops
          exact stops.elim
      | (.operation left op :: outer, e) =>
          rw [reduced] at stops
          exact absurd stops (Nat.not_lt_zero _)

/-- Every state can be gone on from. Where an operand is awaited, any number will do. -/
theorem completable (s : State) : Completable s := by
  obtain ⟨frames, stage⟩ := s
  cases stage with
  | before =>
      have operand : State.step ⟨frames, .before⟩ ⟨.number ['0'], 0⟩ =
          .ok ⟨frames, .after (.number (Symbol.valueOf ['0']))⟩ := rfl
      exact (completable_after _ _).of_step operand
  | opened callee =>
      have empty : State.step ⟨frames, .opened callee⟩ ⟨.closing, 0⟩ =
          .ok ⟨frames, .after (.call callee .missing)⟩ := rfl
      exact (completable_after _ _).of_step empty
  | after value => exact completable_after frames value

/-- What has been read is viable. -/
theorem viable_of_run (ran : run none start tokens = .ok s) :
    Viable (tokens.map (·.symbol)) := by
  obtain ⟨rest, last, e, ranRest, finished⟩ := completable s
  have read : Expr.ofTokens none (tokens ++ rest) 0 = .ok e := by
    simp [Expr.ofTokens, run_append ran, ranRest, finished]
  refine ⟨rest.map (·.symbol), e, ?_⟩
  rw [← List.map_append]
  exact (ofTokens_eq_ok_iff 0).mp read

/-- A run that is refused stops at the first step that is. -/
theorem exists_refused_step {bounded : Bounded GrammarError}
    (refused : run none s tokens = .error bounded) :
    ∃ before token after middle fault, tokens = before ++ token :: after ∧
      run none s before = .ok middle ∧ middle.step token = .error fault ∧
      bounded = .fault fault := by
  induction tokens generalizing s with
  | nil => cases refused
  | cons token rest ih =>
      cases taken : s.step token with
      | error fault =>
          rw [run_cons_error taken] at refused
          cases refused
          exact ⟨[], token, rest, s, fault, rfl, rfl, taken, rfl⟩
      | ok next =>
          rw [run_cons taken] at refused
          obtain ⟨before, last, after, middle, fault, rfl, ran, stopped, same⟩ := ih refused
          refine ⟨token :: before, last, after, middle, fault, rfl, ?_, stopped, same⟩
          rw [run_cons taken, ran]

/-- A refused token is not viable after what has been read. -/
theorem not_viable_of_step_error (ran : run none start tokens = .ok s)
    (refused : s.step token = .error fault) :
    ¬ Viable ((tokens ++ [token]).map (·.symbol)) := by
  rintro ⟨symbols, e, derives⟩
  let rest : List Token := symbols.map (⟨·, 0⟩)
  have whole : (tokens ++ token :: rest).map (·.symbol) =
      (tokens ++ [token]).map (·.symbol) ++ symbols := by
    simp [rest, Function.comp_def]
  rw [← whole] at derives
  have read : Expr.ofTokens none (tokens ++ token :: rest) 0 = .ok e :=
    (ofTokens_eq_ok_iff 0).mpr derives
  rw [Expr.ofTokens, run_append ran, run_cons_error refused] at read
  cases read

theorem token?_of_takeOperand {frames : List Frame}
    (refused : takeOperand frames token = .error fault) : fault.token? = some token := by
  unfold takeOperand at refused
  split at refused
  · cases refused
  · cases refused
  · cases refused
  · split at refused
    · cases refused
    · cases refused
      rfl
  · cases refused
    rfl

/-- An operator is refused if it is a power whose base has a sign. -/
theorem token?_of_takeOperator {frames : List Frame} {value : Expr} {op : Operator}
    (refused : takeOperator frames value op position = .error fault) :
    fault.token? = some ⟨.operator op, position⟩ := by
  unfold takeOperator at refused
  split at refused
  · rename_i signed
    cases refused
    simp only [Bool.and_eq_true, decide_eq_true_eq] at signed
    rw [signed.1]
    rfl
  · cases refused

theorem token?_of_takeClosing {frames : List Frame} {value : Expr}
    (refused : takeClosing frames value token = .error fault) : fault.token? = some token := by
  unfold takeClosing at refused
  split at refused
  · cases refused
  · cases refused
  · cases refused
    rfl

/-- A step that is refused is refused for its token. -/
theorem token?_of_step (refused : s.step token = .error fault) : fault.token? = some token := by
  obtain ⟨frames, stage⟩ := s
  obtain ⟨symbol, position⟩ := token
  cases stage with
  | before => exact token?_of_takeOperand refused
  | opened callee =>
      cases symbol with
      | closing => cases refused
      | number | name | operator | opening => exact token?_of_takeOperand refused
  | after value =>
      cases symbol with
      | opening => cases refused
      | operator op => exact token?_of_takeOperator refused
      | closing => exact token?_of_takeClosing refused
      | number | name =>
          simp only [State.step, refuse] at refused
          cases refused
          split <;> rfl

/-- What is not finished is refused for the end of the text. -/
theorem fault_of_finish (refused : s.finish position = .error fault) :
    fault = .endOfExpression ∨ fault = .unclosed position := by
  unfold State.finish at refused
  split at refused
  · cases refused
    exact .inl rfl
  · cases refused
    exact .inl rfl
  · split at refused
    · cases refused
    · cases refused
      exact .inr rfl

end Reading

open Reading

/-- Of the beginnings of a sequence, the viable ones are those up to the first symbol that is not
viable after the ones before it. -/
theorem viable_iff_isPrefix {before after : List Token}
    (viable : Viable (before.map (·.symbol)))
    (stops : ∀ token ∈ after.head?, ¬ Viable ((before ++ [token]).map (·.symbol)))
    {first : List Token} (begins : first <+: before ++ after) :
    Viable (first.map (·.symbol)) ↔ first <+: before := by
  constructor
  · intro goesOn
    rcases List.prefix_or_prefix_of_prefix begins (List.prefix_append before after)
      with within | ⟨beyond, rfl⟩
    · exact within
    · cases beyond with
      | nil => simp
      | cons token beyond =>
          obtain ⟨later, rfl⟩ := (List.prefix_append_right_inj before).mp begins
          have next : before ++ [token] <+: before ++ token :: beyond := by simp
          exact absurd (goesOn.of_isPrefix (next.map _)) (stops token rfl)
  · exact fun within => viable.of_isPrefix (within.map _)

/-- Tokens that make up no expression are refused at the first that is not viable, or at the end if
all of them are. -/
theorem ofTokens_refused_at {tokens : List Token} (position : ℕ)
    (underived : ¬ ∃ e, Derives .sum (tokens.map (·.symbol)) e) :
    ∃ fault before after, Expr.ofTokens none tokens position = .error (.fault fault) ∧
      tokens = before ++ after ∧ fault.token? = after.head? ∧
      Viable (before.map (·.symbol)) ∧
      (∀ token ∈ after.head?, ¬ Viable ((before ++ [token]).map (·.symbol))) ∧
      (after = [] → fault = .endOfExpression ∨ fault = .unclosed position) := by
  cases ran : run none start tokens with
  | error bounded =>
      obtain ⟨before, token, after, middle, fault, rfl, ranBefore, refused, rfl⟩ :=
        exists_refused_step ran
      refine ⟨fault, before, token :: after, ?_, rfl, token?_of_step refused,
        viable_of_run ranBefore, ?_, fun empty => by cases empty⟩
      · rw [Expr.ofTokens, ran]
      · rintro _ ⟨⟩
        exact not_viable_of_step_error ranBefore refused
  | ok s =>
      cases finished : s.finish position with
      | ok e =>
          have read : Expr.ofTokens none tokens position = .ok e := by
            simp [Expr.ofTokens, ran, finished]
          exact absurd ⟨e, (ofTokens_eq_ok_iff position).mp read⟩ underived
      | error fault =>
          have ends := fault_of_finish finished
          refine ⟨fault, tokens, [], ?_, (List.append_nil tokens).symm, ?_, viable_of_run ran, ?_,
            fun _ => ends⟩
          · simp [Expr.ofTokens, ran, finished]
          · obtain rfl | rfl := ends <;> rfl
          · rintro token ⟨⟩

/-- A text with tokens that is no expression is refused at the first token that no expression could
have there: exactly the beginnings before it are viable. If all beginnings are, then it is refused
at its end. -/
theorem ofText_refused_at {text : Text} {tokens : List Token} (lexed : tokensOf text = .ok tokens)
    (unread : ∀ e, Expr.ofText none text ≠ .ok e) :
    ∃ fault before after,
      Expr.ofText none text = .error (.fault (.grammatical fault)) ∧
      tokens = before ++ after ∧ fault.token? = after.head? ∧
      (∀ first, first <+: tokens → (Viable (first.map (·.symbol)) ↔ first <+: before)) ∧
      (after = [] → fault = .endOfExpression ∨ fault = .unclosed text.length) := by
  have underived : ¬ ∃ e, Derives .sum (tokens.map (·.symbol)) e := by
    rintro ⟨e, derives⟩
    exact unread e (ofText_none_eq_ok_iff.mpr ⟨tokens, lexed, derives⟩)
  obtain ⟨fault, before, after, refused, rfl, blamed, viable, stops, ends⟩ :=
    ofTokens_refused_at text.length underived
  refine ⟨fault, before, after, ?_, rfl, blamed, ?_, ends⟩
  · simp only [Expr.ofText, lexed, refused]
  · exact fun first begins => viable_iff_isPrefix viable stops begins

/-- In the first text the power is refused, since its base has a sign; the second text could go on
everywhere, but ends inside a parenthesis. -/
theorem ofText_refused_at_power :
    Expr.ofText none "2*(-3**x".toList = .error (.fault (.grammatical (.signedBase 5))) ∧
      Viable [.number ['2'], .operator .times, .opening, .operator .minus, .number ['3']] ∧
      ¬ Viable [.number ['2'], .operator .times, .opening, .operator .minus, .number ['3'],
        .operator .power] ∧
      Expr.ofText none "2(-x".toList = .error (.fault (.grammatical (.unclosed 4))) ∧
      Viable [.number ['2'], .opening, .operator .minus, .name ['x']] := by
  have lexedPower : tokensOf "2*(-3**x".toList = .ok [⟨.number ['2'], 0⟩, ⟨.operator .times, 1⟩,
      ⟨.opening, 2⟩, ⟨.operator .minus, 3⟩, ⟨.number ['3'], 4⟩, ⟨.operator .power, 5⟩,
      ⟨.name ['x'], 7⟩] := rfl
  have lexedOpen : tokensOf "2(-x".toList =
      .ok [⟨.number ['2'], 0⟩, ⟨.opening, 1⟩, ⟨.operator .minus, 2⟩, ⟨.name ['x'], 3⟩] := rfl
  have refusedPower : Expr.ofText none "2*(-3**x".toList =
      .error (.fault (.grammatical (.signedBase 5))) := rfl
  have refusedOpen : Expr.ofText none "2(-x".toList =
      .error (.fault (.grammatical (.unclosed 4))) := rfl
  obtain ⟨fault, before, after, refused, whole, blamed, viable, -⟩ :=
    ofText_refused_at lexedPower fun e read => by cases refusedPower.symm.trans read
  cases refusedPower.symm.trans refused
  obtain ⟨rest, rfl⟩ := List.head?_eq_some_iff.mp blamed.symm
  obtain ⟨rfl, rfl⟩ : before = [⟨.number ['2'], 0⟩, ⟨.operator .times, 1⟩, ⟨.opening, 2⟩,
      ⟨.operator .minus, 3⟩, ⟨.number ['3'], 4⟩] ∧ rest = [⟨.name ['x'], 7⟩] := by
    simpa [List.cons_eq_append_iff] using whole
  refine ⟨refusedPower, (viable _ (List.take_prefix 5 _)).mpr List.prefix_rfl,
    fun goesOn => absurd ((viable _ (List.take_prefix 6 _)).mp goesOn) (by decide),
    refusedOpen, ?_⟩
  obtain ⟨fault, before, after, refused, whole, blamed, viable, -⟩ :=
    ofText_refused_at lexedOpen fun e read => by cases refusedOpen.symm.trans read
  cases refusedOpen.symm.trans refused
  obtain rfl : after = [] := List.head?_eq_none_iff.mp blamed.symm
  rw [List.append_nil] at whole
  exact (viable _ List.prefix_rfl).mpr (whole ▸ List.prefix_rfl)

end Keypad
