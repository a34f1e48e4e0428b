import Keypad.Proofs.Reading

/-!
# What is read derives

The other direction: whatever the reader accepts, the grammar derives, so the two agree on every
sequence of symbols. A stack of frames is a promise about the symbols that opened it (`Opened`):
each frame has its left part behind it, and fits into the frames outside it. The promise holds
at the start, every token keeps it (`Reads.step`), and at the end it is a derivation.

The headline is `ofText_eq_ok_iff_derives`.
-/

namespace Keypad

namespace Reading

open Grammar

/-- The symbols that have opened a stack of frames. -/
inductive Opened : List Frame → List Symbol → Prop where
  | nothing : Opened [] []
  /-- A sign opens a frame anywhere. -/
  | sign {frames : List Frame} {before : List Symbol} {op : Operator}
      (outer : Opened frames before) (signs : op.isSign = true) :
      Opened (.sign op :: frames) (before ++ [.operator op])
  | group {frames : List Frame} {before : List Symbol} (outer : Opened frames before) :
      Opened (.group :: frames) (before ++ [.opening])
  /-- An argument stands behind its callee. -/
  | argument {frames : List Frame} {before symbols : List Symbol} {callee : Expr}
      (outer : Opened frames before) (operand : Derives .applied symbols callee) :
      Opened (.argument callee :: frames) (before ++ symbols ++ [.opening])
  /-- An operator stands behind its left operand, and holds tighter than what is open. -/
  | operation {frames : List Frame} {before symbols : List Symbol} {left : Expr} {op : Operator}
      (outer : Opened frames before) (stops : Stops op.binding frames)
      (operand : Derives (leftLayer op) symbols left) :
      Opened (.operation left op :: frames) (before ++ symbols ++ [.operator op])

/-- The symbols derive what the innermost frame waits for. -/
def Fits : List Frame → List Symbol → Expr → Prop
  | .sign _ :: _, symbols, e => Derives .applied symbols e ∨ Derives .signed symbols e
  | .operation _ op :: _, symbols, e => Derives (rightLayer op) symbols e
  | _, symbols, e => Derives .sum symbols e

/-- The layer of what is finished when an operator that binds so comes. -/
def layerAt (binding : Nat) : Layer := if binding ≤ 50 then .sum else .product

/-- A power is of every layer that an operator below it looks for. -/
theorem derives_layerAt {binding : Nat} {symbols : List Symbol} {e : Expr}
    (h : Derives .power symbols e) : Derives (layerAt binding) symbols e := by
  unfold layerAt
  split
  · exact h.sumOfPower
  · exact .productOfPower h

/-- So is a finished operation that an operator below it takes up. -/
theorem derives_layerAt_of_le {binding : Nat} {op : Operator}
    (takes : binding ≤ op.rightBinding) {symbols : List Symbol} {e : Expr}
    (h : Derives (layerOf op) symbols e) : Derives (layerAt binding) symbols e := by
  cases op with
  | plus | minus =>
      have small : binding ≤ 50 := takes
      rw [layerAt, if_pos small]
      exact h
  | times | dividedBy =>
      unfold layerAt
      split
      · exact .sumOfProduct h
      · exact h
  | power => exact derives_layerAt h

/-- An operand without a sign fits everywhere. -/
theorem fits_of_applied {frames : List Frame} {symbols : List Symbol} {e : Expr}
    (h : Derives .applied symbols e) : Fits frames symbols e := by
  have power : Derives .power symbols e := .powerOfApplied h
  match frames with
  | .sign _ :: _ => exact .inl h
  | .operation _ .plus :: _ | .operation _ .minus :: _ => exact .productOfPower power
  | .operation _ .times :: _ | .operation _ .dividedBy :: _ | .operation _ .power :: _ =>
      exact power
  | [] | .group :: _ | .argument _ :: _ => exact power.sumOfPower

/-- So does one with a sign. -/
theorem fits_of_signed {frames : List Frame} {symbols : List Symbol} {e : Expr}
    (h : Derives .signed symbols e) : Fits frames symbols e := by
  have power : Derives .power symbols e := .powerOfSigned h
  match frames with
  | .sign _ :: _ => exact .inr h
  | .operation _ .plus :: _ | .operation _ .minus :: _ => exact .productOfPower power
  | .operation _ .times :: _ | .operation _ .dividedBy :: _ | .operation _ .power :: _ =>
      exact power
  | [] | .group :: _ | .argument _ :: _ => exact power.sumOfPower

/-- A finished operation is a right operand of any operator that holds more loosely. -/
theorem derives_rightLayer {op outer : Operator} (loose : outer.rightBinding < op.binding)
    {symbols : List Symbol} {e : Expr} (h : Derives (layerOf op) symbols e) :
    Derives (rightLayer outer) symbols e := by
  match op, outer with
  | .plus, outer | .minus, outer => exact absurd loose (by cases outer <;> decide)
  | .times, .plus | .times, .minus | .dividedBy, .plus | .dividedBy, .minus => exact h
  | .times, .times | .times, .dividedBy | .times, .power => exact absurd loose (by decide)
  | .dividedBy, .times | .dividedBy, .dividedBy | .dividedBy, .power =>
      exact absurd loose (by decide)
  | .power, .plus | .power, .minus => exact .productOfPower h
  | .power, .times | .power, .dividedBy | .power, .power => exact h

/-- A finished operation fits into the frames that its operator was stopped by. -/
theorem fits_of_stops {frames : List Frame} {symbols : List Symbol} {e : Expr} {op : Operator}
    (stops : Stops op.binding frames) (h : Derives (layerOf op) symbols e) :
    Fits frames symbols e := by
  have sum : Derives .sum symbols e := by
    cases op with
    | plus | minus => exact h
    | times | dividedBy => exact .sumOfProduct h
    | power => exact h.sumOfPower
  match frames, stops with
  | [], _ | .group :: _, _ | .argument _ :: _, _ => exact sum
  | .operation _ _ :: _, stops => exact derives_rightLayer stops h

/-- Reducing a stack keeps its promise, and leaves an operand of the layer that is asked for. -/
theorem Opened.reduce {frames : List Frame} {before symbols : List Symbol} {e : Expr}
    (opened : Opened frames before) (binding : Nat) (fits : Fits frames symbols e)
    (finished : Derives (layerAt binding) symbols e) :
    ∃ outside inside,
      Opened (Reading.reduce binding frames e).1 outside ∧
        Fits (Reading.reduce binding frames e).1 inside (Reading.reduce binding frames e).2 ∧
        Derives (layerAt binding) inside (Reading.reduce binding frames e).2 ∧
        outside ++ inside = before ++ symbols := by
  induction opened generalizing symbols e with
  | nothing => exact ⟨[], symbols, .nothing, fits, finished, rfl⟩
  | group outer _ => exact ⟨_, symbols, .group outer, fits, finished, rfl⟩
  | argument outer operand _ =>
      exact ⟨_, symbols, .argument outer operand, fits, finished, rfl⟩
  | @sign frames before op outer signs ih =>
      have signed : Derives .signed (.operator op :: symbols) (.unary op.symbol e) :=
        fits.elim (.sign signs) (.signs signs)
      obtain ⟨outside, inside, opened, fits, finished, same⟩ :=
        ih (fits_of_signed signed) (derives_layerAt (.powerOfSigned signed))
      refine ⟨outside, inside, opened, fits, finished, ?_⟩
      simpa using same
  | @operation frames before left l op outer stops operand ih =>
      by_cases takes : binding ≤ op.rightBinding
      · have joined := Derives.operation op operand fits
        obtain ⟨outside, inside, opened, fits, finished, same⟩ :=
          ih (fits_of_stops stops joined) (derives_layerAt_of_le takes joined)
        refine ⟨outside, inside, ?_⟩
        simp only [Reading.reduce, takes, if_true]
        exact ⟨opened, fits, finished, by simpa using same⟩
      · refine ⟨before ++ left ++ [.operator op], symbols, ?_⟩
        simp only [Reading.reduce, takes, if_false]
        exact ⟨.operation outer stops operand, fits, finished, trivial⟩

/-- The symbols read so far are those of a state. -/
def Reads (s : State) (symbols : List Symbol) : Prop :=
  match s.stage with
  | .before => Opened s.frames symbols
  | .opened callee => Opened (.argument callee :: s.frames) symbols
  | .after value => ∃ before operand,
      Opened s.frames before ∧ Derives .applied operand value ∧ symbols = before ++ operand

/-- Nothing has been read at the start. -/
theorem reads_start : Reads start [] := .nothing

/-- The frames that are open when an operand comes have been opened by what was read. -/
theorem Awaits.opened {s : State} {frames : List Frame} (waiting : Awaits s frames)
    {symbols : List Symbol} (h : Reads s symbols) : Opened frames symbols := by
  cases waiting with
  | operand => exact h
  | argument => exact h

/-- Taking an operand reads its token. -/
theorem reads_takeOperand {frames : List Frame} {symbols : List Symbol} {token : Token}
    {next : State} (opened : Opened frames symbols)
    (taken : takeOperand frames token = .ok next) : Reads next (symbols ++ [token.symbol]) := by
  unfold takeOperand at taken
  split at taken
  · rename_i spelling found
    cases taken
    exact ⟨symbols, _, opened, .alone (.number spelling), by rw [found]⟩
  · rename_i spelling found
    cases taken
    exact ⟨symbols, _, opened, .alone (.name spelling), by rw [found]⟩
  · rename_i found
    cases taken
    exact found ▸ opened.group
  · rename_i op found
    split at taken
    · rename_i signs
      cases taken
      exact found ▸ opened.sign signs
    · cases taken
  · cases taken

/-- Taking an operator finishes the left operand that the grammar asks for. -/
theorem reads_takeOperator {frames : List Frame} {before operand : List Symbol} {value : Expr}
    {op : Operator} {position : Nat} {next : State} (opened : Opened frames before)
    (applied : Derives .applied operand value)
    (taken : takeOperator frames value op position = .ok next) :
    Reads next (before ++ operand ++ [.operator op]) := by
  unfold takeOperator at taken
  split at taken
  · cases taken
  · rename_i accepted
    cases taken
    by_cases power : op = .power
    · -- Without a sign in the way nothing is finished, so the base is the operand itself.
      subst power
      have unsigned : isSigned frames = false := by simpa using accepted
      have stops : Stops Operator.power.binding frames := by
        match frames, unsigned with
        | [], _ | .group :: _, _ | .argument _ :: _, _ => trivial
        | .operation _ op :: _, _ => cases op <;> exact Nat.lt_of_sub_pos (by decide)
      rw [reduce_of_stops stops]
      exact opened.operation stops applied
    · obtain ⟨outside, inside, opened, -, finished, same⟩ :=
        opened.reduce op.binding (fits_of_applied applied)
          (derives_layerAt (.powerOfApplied applied))
      have left : Derives (leftLayer op) inside (reduce op.binding frames value).2 := by
        cases op with
        | plus | minus | times | dividedBy => exact finished
        | power => exact absurd rfl power
      rw [← same]
      exact opened.operation (stops_reduce _ _ _) left

/-- Taking a closing parenthesis finishes the sum inside it. -/
theorem reads_takeClosing {frames : List Frame} {before operand : List Symbol} {value : Expr}
    {token : Token} {next : State} (opened : Opened frames before)
    (applied : Derives .applied operand value)
    (taken : takeClosing frames value token = .ok next) :
    Reads next (before ++ operand ++ [.closing]) := by
  obtain ⟨outside, inside, opened, -, sum, same⟩ :=
    opened.reduce 0 (fits_of_applied applied)
      (derives_layerAt (.powerOfApplied applied))
  rw [← same]
  unfold takeClosing at taken
  split at taken
  · rename_i outer e reduced
    cases taken
    rw [reduced] at opened sum
    cases opened with
    | group outer => exact ⟨_, _, outer, .alone (.group sum), by simp⟩
  · rename_i callee outer e reduced
    cases taken
    rw [reduced] at opened sum
    cases opened with
    | argument outer operand => exact ⟨_, _, outer, .call operand sum, by simp⟩
  · cases taken

/-- Every token keeps the promise of the frames. -/
theorem Reads.step {s next : State} {symbols : List Symbol} {token : Token} (h : Reads s symbols)
    (taken : s.step token = .ok next) : Reads next (symbols ++ [token.symbol]) := by
  obtain ⟨frames, stage⟩ := s
  cases stage with
  | before => exact reads_takeOperand (Awaits.operand frames |>.opened h) taken
  | opened callee =>
      have opened : Opened (.argument callee :: frames) symbols := h
      by_cases closes : token.symbol = .closing
      · simp only [State.step, closes] at taken
        cases taken
        cases opened with
        | argument outer operand =>
            exact ⟨_, _, outer, .emptyCall operand, by simp [closes]⟩
      · rw [(Awaits.argument frames callee).step closes] at taken
        exact reads_takeOperand opened taken
  | after value =>
      obtain ⟨before, operand, opened, applied, rfl⟩ := h
      cases found : token.symbol with
      | opening =>
          simp only [State.step, found] at taken
          cases taken
          exact opened.argument applied
      | operator op =>
          simp only [State.step, found] at taken
          exact reads_takeOperator opened applied taken
      | closing =>
          simp only [State.step, found] at taken
          exact reads_takeClosing opened applied taken
      | number | name => simp [State.step, found] at taken

/-- A run reads the symbols of its tokens. -/
theorem Reads.run {room : Room} {s last : State} {symbols : List Symbol} {tokens : List Token}
    (h : Reads s symbols) (ran : Reading.run room s tokens = .ok last) :
    Reads last (symbols ++ tokens.map (·.symbol)) := by
  induction tokens generalizing s symbols with
  | nil =>
      cases ran
      simpa using h
  | cons token rest ih =>
      cases taken : s.step token with
      | error e => simp [Reading.run, taken] at ran
      | ok next =>
          simp only [Reading.run, taken] at ran
          split at ran
          · simpa using ih (h.step taken) ran
          · cases ran

/-- What is finished at the end is a sum. -/
theorem Reads.finish {s : State} {symbols : List Symbol} {position : Nat} {e : Expr}
    (h : Reads s symbols) (finished : s.finish position = .ok e) : Derives .sum symbols e := by
  obtain ⟨frames, stage⟩ := s
  cases stage with
  | before | opened => cases finished
  | after value =>
      obtain ⟨before, operand, opened, applied, rfl⟩ := h
      obtain ⟨outside, inside, opened, -, sum, same⟩ :=
        opened.reduce 0 (fits_of_applied applied)
          (derives_layerAt (.powerOfApplied applied))
      simp only [State.finish] at finished
      split at finished
      · rename_i e reduced
        cases finished
        rw [reduced] at opened sum
        cases opened
        rw [← same]
        exact sum
      · cases finished

end Reading

open Grammar Reading

/-- Without a bound, tokens make up an expression exactly if their symbols derive it. -/
theorem ofTokens_eq_ok_iff {tokens : List Token} (position : Nat) {e : Expr} :
    Expr.ofTokens none tokens position = .ok e ↔ Derives .sum (tokens.map (·.symbol)) e := by
  constructor
  · intro h
    unfold Expr.ofTokens at h
    split at h
    · cases h
    · rename_i s ran
      split at h
      · cases h
      · rename_i e finished
        cases h
        simpa using (reads_start.run ran).finish finished
  · intro derived
    obtain ⟨after, value, ran, yields⟩ :=
      readable_of_derives derived start [] tokens (.operand []) trivial rfl
    have reduced : reduce 0 after value = ([], e) := yields 0 (Nat.zero_le _)
    simp [Expr.ofTokens, ran, State.finish, reduced]

/-- Without a bound, tokens that make up no expression are refused for a fault of their own. -/
theorem ofTokens_eq_error {tokens : List Token} {position : Nat}
    (h : ¬ ∃ e, Derives .sum (tokens.map (·.symbol)) e) :
    ∃ fault, Expr.ofTokens none tokens position = .error (.fault fault) := by
  cases found : Expr.ofTokens none tokens position with
  | ok e => exact absurd ⟨e, (ofTokens_eq_ok_iff position).mp found⟩ h
  | error bounded =>
      unfold Expr.ofTokens at found
      split at found
      · rename_i fault ran
        cases found
        obtain ⟨e, rfl⟩ := exists_fault_of_run ran
        exact ⟨e, rfl⟩
      · split at found
        · cases found
          exact ⟨_, rfl⟩
        · cases found

/-- The grammar is unambiguous: it derives at most one expression from a sequence. -/
theorem derives_unique {symbols : List Symbol} {e other : Expr} (h : Derives .sum symbols e)
    (h' : Derives .sum symbols other) : e = other := by
  let tokens : List Token := symbols.map (⟨·, 0⟩)
  have same : tokens.map (·.symbol) = symbols := by simp [tokens, Function.comp_def]
  have first : Expr.ofTokens none tokens 0 = .ok e := (ofTokens_eq_ok_iff 0).mpr (same ▸ h)
  have second : Expr.ofTokens none tokens 0 = .ok other :=
    (ofTokens_eq_ok_iff 0).mpr (same ▸ h')
  rw [first] at second
  cases second
  rfl

/-- An operand may stand after these symbols: they end in an operator or an opening
parenthesis, or there are none. -/
def EndsOpen (symbols : List Symbol) : Prop :=
  ∀ last ∈ symbols.getLast?, (∃ op, last = .operator op) ∨ last = .opening

/-- After an operator or an opening parenthesis an operand is awaited. -/
theorem exists_awaits_of_step {s next : State} {token : Token} (taken : s.step token = .ok next)
    (h : (∃ op, token.symbol = .operator op) ∨ token.symbol = .opening) :
    ∃ frames, Awaits next frames := by
  have operand {frames : List Frame} (taken : takeOperand frames token = .ok next) :
      ∃ frames, Awaits next frames := by
    obtain ⟨op, found⟩ | found := h
    · simp only [takeOperand, found] at taken
      split at taken
      · cases taken
        exact ⟨_, .operand _⟩
      · cases taken
    · simp only [takeOperand, found] at taken
      cases taken
      exact ⟨_, .operand _⟩
  obtain ⟨frames, stage⟩ := s
  cases stage with
  | before => exact operand taken
  | opened callee =>
      rw [(Awaits.argument frames callee).step (by obtain ⟨op, h⟩ | h := h <;> simp [h])] at taken
      exact operand taken
  | after value =>
      obtain ⟨op, found⟩ | found := h
      · simp only [State.step, found, takeOperator] at taken
        split at taken
        · cases taken
        · cases taken
          exact ⟨_, .operand _⟩
      · simp only [State.step, found] at taken
        cases taken
        exact ⟨_, .argument _ _⟩

/-- A run over symbols that end open ends in a state that awaits an operand. -/
theorem exists_awaits_of_run {tokens : List Token} {s : State} (ran : run none start tokens = .ok s)
    (h : EndsOpen (tokens.map (·.symbol))) : ∃ frames, Awaits s frames := by
  obtain rfl | ⟨first, token, rfl⟩ := tokens.eq_nil_or_concat
  · cases ran
    exact ⟨[], .operand []⟩
  · cases before : run none start first with
    | error fault =>
        rw [List.concat_eq_append, run_append_error before] at ran
        cases ran
    | ok middle =>
        rw [List.concat_eq_append, run_append before] at ran
        cases taken : middle.step token with
        | error e => simp [run, taken] at ran
        | ok next =>
            rw [run_cons taken] at ran
            cases ran
            exact exists_awaits_of_step taken (h token.symbol (by simp))

/-- A power whose base has a sign is refused wherever it stands. -/
theorem ofTokens_of_signed_base {tokens : List Token} {position : Nat}
    {before base after : List Symbol} {b : Expr}
    (symbols : tokens.map (·.symbol) = before ++ base ++ .operator .power :: after)
    (awaited : EndsOpen before) (signed : Derives .signed base b) :
    ∃ fault, Expr.ofTokens none tokens position = .error (.fault fault) := by
  obtain ⟨first, rest, rfl, hfirst, hrest⟩ := List.map_eq_append_iff.mp symbols
  obtain ⟨outside, inside, rfl, houtside, hinside⟩ := List.map_eq_append_iff.mp hfirst
  obtain ⟨token, last, rfl, found, -⟩ := List.map_eq_cons_iff.mp hrest
  suffices ∃ fault, run none start (outside ++ inside ++ token :: last) = .error fault by
    obtain ⟨fault, refused⟩ := this
    obtain ⟨e, rfl⟩ := exists_fault_of_run refused
    exact ⟨e, by rw [Expr.ofTokens, refused]⟩
  rw [List.append_assoc]
  cases ran : run none start outside with
  | error fault => exact ⟨fault, run_append_error ran _⟩
  | ok s =>
      obtain ⟨frames, waiting⟩ := exists_awaits_of_run ran (houtside ▸ awaited)
      obtain ⟨stack, value, ranBase, isSigned, -⟩ :=
        readable_of_derives signed s frames inside waiting trivial hinside
      refine ⟨.fault (.signedBase token.position), ?_⟩
      rw [run_append ran, run_append ranBase]
      exact run_cons_error (by simp [State.step, found, takeOperator, isSigned])

/-- A text with tokens is an expression exactly if the grammar derives it, and the tree is that
of the derivation; every other text with tokens is refused by the reader. So the base of a power
never has a sign of its own, while its exponent may. -/
theorem ofText_eq_ok_iff_derives {text : Text} {tokens : List Token}
    (lexed : tokensOf text = .ok tokens) :
    (∀ e, Expr.ofText none text = .ok e ↔ Derives .sum (tokens.map (·.symbol)) e) ∧
    ((¬ ∃ e, Derives .sum (tokens.map (·.symbol)) e) →
      ∃ fault, Expr.ofText none text = .error (.fault (.grammatical fault))) ∧
    (∀ before base after b,
      tokens.map (·.symbol) = before ++ base ++ .operator .power :: after →
      EndsOpen before → Derives .signed base b →
      ∃ fault, Expr.ofText none text = .error (.fault (.grammatical fault))) ∧
    (∀ base exponent b e,
      tokens.map (·.symbol) = base ++ .operator .power :: exponent →
      Derives .applied base b → Derives .signed exponent e →
      Expr.ofText none text = .ok (.binary Operator.power.symbol b e)) := by
  have accepts (e : Expr) :
      Expr.ofText none text = .ok e ↔ Derives .sum (tokens.map (·.symbol)) e := by
    rw [← ofTokens_eq_ok_iff text.length]
    simp only [Expr.ofText, lexed]
    cases Expr.ofTokens none tokens text.length with
    | ok e => simp
    | error bounded => cases bounded <;> simp
  have refuses (h : ∃ fault, Expr.ofTokens none tokens text.length = .error (.fault fault)) :
      ∃ fault, Expr.ofText none text = .error (.fault (.grammatical fault)) := by
    obtain ⟨fault, refused⟩ := h
    exact ⟨fault, by simp [Expr.ofText, lexed, refused]⟩
  refine ⟨accepts, fun none => refuses (ofTokens_eq_error none), ?_, ?_⟩
  · intro before base after b symbols awaited signed
    exact refuses (ofTokens_of_signed_base symbols awaited signed)
  · intro base exponent b e symbols applied signed
    rw [accepts, symbols]
    exact (Derives.power applied (.powerOfSigned signed)).sumOfPower

/-- A signed exponent is read, and a signed base is not. -/
theorem ofText_of_signed_exponent :
    let two := Symbol.valueOf ['2']
    Expr.ofText none "2**-2".toList =
        .ok (.binary Operator.power.symbol (.number two)
          (.unary Operator.minus.symbol (.number two))) ∧
      ∃ fault, Expr.ofText none "-2**2".toList = .error (.fault (.grammatical fault)) := by
  have two : Derives .applied [.number ['2']] (.number (Symbol.valueOf ['2'])) :=
    .alone (.number ['2'])
  have minusTwo : Derives .signed [.operator .minus, .number ['2']]
      (.unary Operator.minus.symbol (.number (Symbol.valueOf ['2']))) :=
    .sign rfl two
  have signedExponent : tokensOf "2**-2".toList = .ok [⟨.number ['2'], 0⟩,
      ⟨.operator .power, 1⟩, ⟨.operator .minus, 3⟩, ⟨.number ['2'], 4⟩] := rfl
  have signedBase : tokensOf "-2**2".toList = .ok [⟨.operator .minus, 0⟩,
      ⟨.number ['2'], 1⟩, ⟨.operator .power, 2⟩, ⟨.number ['2'], 4⟩] := rfl
  constructor
  · exact (ofText_eq_ok_iff_derives signedExponent).2.2.2
      [.number ['2']] [.operator .minus, .number ['2']] _ _ rfl two minusTwo
  · exact (ofText_eq_ok_iff_derives signedBase).2.2.1
      [] [.operator .minus, .number ['2']] [.number ['2']] _ rfl (by simp [EndsOpen]) minusTwo

end Keypad
