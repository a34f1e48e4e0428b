import Keypad.Proofs.Grammar

/-!
# Reading what the grammar derives

The reader of `Keypad.Expr.OfTokens` knows no layers: it compares how tightly operators hold
their operands and keeps what is open on a stack. This file shows that it accepts what the
grammar derives, with the tree that the grammar gives.

A derived sequence may be read anywhere an operand may stand, as long as the frames around it
do not hold tighter than its layer (`Admits`). What is left on the stack afterwards may still be
open, but from the outside it cannot be told apart from the finished operand (`Yields`).
-/

namespace Keypad

namespace Reading

open Grammar

/-- The innermost frame leaves an operand alone when the next operator binds so. -/
def Stops (binding : Nat) : List Frame → Prop
  | .sign _ :: _ => False
  | .operation _ op :: _ => op.rightBinding < binding
  | _ => True

theorem reduce_of_stops {binding : Nat} {frames : List Frame} (h : Stops binding frames)
    (value : Expr) : reduce binding frames value = (frames, value) := by
  match frames, h with
  | [], _ | .group :: _, _ | .argument _ :: _, _ => rfl
  | .operation left op :: frames, h =>
    have loose : ¬ binding ≤ op.rightBinding := Nat.not_le.mpr h
    simp [reduce, loose]

/-- No sign is left open. -/
theorem isSigned_of_stops {binding : Nat} {frames : List Frame} (h : Stops binding frames) :
    isSigned frames = false := by
  match frames, h with
  | [], _ | .group :: _, _ | .argument _ :: _, _ | .operation _ _ :: _, _ => rfl

/-- What stops at an operator stops at any tighter one. -/
theorem Stops.mono {loose tight : Nat} {frames : List Frame} (h : Stops loose frames)
    (le : loose ≤ tight) : Stops tight frames := by
  match frames, h with
  | [], _ | .group :: _, _ | .argument _ :: _, _ => trivial
  | .operation _ _ :: _, h => exact Nat.lt_of_lt_of_le h le

/-- A stack is reduced until it stops. -/
theorem stops_reduce (binding : Nat) (frames : List Frame) (value : Expr) :
    Stops binding (reduce binding frames value).1 := by
  induction frames generalizing value with
  | nil => trivial
  | cons frame frames ih =>
      cases frame with
      | sign op => exact ih _
      | group => trivial
      | argument callee => trivial
      | operation left op =>
          by_cases takes : binding ≤ op.rightBinding
          · simpa [reduce, takes] using ih _
          · simpa [reduce, takes, Stops] using Nat.lt_of_not_le takes

/-- The state waits for an operand, and `frames` are open when it comes. -/
inductive Awaits : State → List Frame → Prop where
  | operand (frames : List Frame) : Awaits ⟨frames, .before⟩ frames
  /-- An argument may come. -/
  | argument (frames : List Frame) (callee : Expr) :
      Awaits ⟨frames, .opened callee⟩ (.argument callee :: frames)

/-- A waiting state takes every token but a closing parenthesis as an operand. -/
theorem Awaits.step {s : State} {frames : List Frame} (waiting : Awaits s frames) {token : Token}
    (h : token.symbol ≠ .closing) : s.step token = takeOperand frames token := by
  cases waiting with
  | operand => rfl
  | argument frames callee =>
      cases found : token.symbol with
      | closing => exact absurd found h
      | _ => simp [State.step, found]

theorem run_cons {s next : State} {token : Token} {rest : List Token}
    (h : s.step token = .ok next) : run none s (token :: rest) = run none next rest := by
  simp [run, h, Room.admits]

theorem run_cons_error {room : Room} {s : State} {token : Token} {rest : List Token}
    {e : GrammarError} (h : s.step token = .error e) :
    run room s (token :: rest) = .error (.fault e) := by
  simp [run, h]

/-- A run takes tokens one part after the other. -/
theorem run_append {s next : State} {first : List Token} (h : run none s first = .ok next)
    (rest : List Token) : run none s (first ++ rest) = run none next rest := by
  induction first generalizing s with
  | nil =>
      cases h
      rfl
  | cons token tokens ih =>
      cases taken : s.step token with
      | error e => simp [run, taken] at h
      | ok s =>
          rw [run_cons taken] at h
          rw [List.cons_append, run_cons taken, ih h]

/-- What does not get past its first part is refused. -/
theorem run_append_error {s : State} {first : List Token} {fault : Bounded GrammarError}
    (h : run none s first = .error fault) (rest : List Token) :
    run none s (first ++ rest) = .error fault := by
  induction first generalizing s with
  | nil => cases h
  | cons token tokens ih =>
      cases taken : s.step token with
      | error e => simpa [run, taken] using h
      | ok s =>
          rw [run_cons taken] at h
          rw [List.cons_append, run_cons taken, ih h]

/-- Without a bound nothing is too deep. -/
theorem exists_fault_of_run {s : State} {tokens : List Token} {fault : Bounded GrammarError}
    (h : run none s tokens = .error fault) : ∃ e, fault = .fault e := by
  induction tokens generalizing s with
  | nil => cases h
  | cons token tokens ih =>
      cases taken : s.step token with
      | error e =>
          simp only [run, taken] at h
          exact ⟨e, by cases h; rfl⟩
      | ok s =>
          rw [run_cons taken] at h
          exact ih h

/-- Where a sequence of a layer may be read. -/
def Admits : Layer → List Frame → Prop
  | .sum, frames => Stops 50 frames
  | .product, frames => Stops 60 frames
  | .power, frames => Stops 70 frames
  | .signed, _ | .applied, _ | .primary, _ => True

/-- What a sequence of a layer leaves behind. Any operator that binds no tighter than the layer
finds the finished operand; a sign that is still open can be seen. -/
def Yields (layer : Layer) (frames : List Frame) (e : Expr) (after : List Frame)
    (value : Expr) : Prop :=
  match layer with
  | .sum => ∀ binding ≤ 50, reduce binding after value = reduce binding frames e
  | .product => ∀ binding ≤ 60, reduce binding after value = reduce binding frames e
  | .power => ∀ binding ≤ 69, reduce binding after value = reduce binding frames e
  | .signed =>
    isSigned after = true ∧ ∀ binding, reduce binding after value = reduce binding frames e
  | .applied | .primary => after = frames ∧ value = e

/-- A state that waits for a sequence of a layer reads it. -/
def Readable (layer : Layer) (symbols : List Symbol) (e : Expr) : Prop :=
  ∀ (s : State) (frames : List Frame) (tokens : List Token),
    Awaits s frames → Admits layer frames → tokens.map (·.symbol) = symbols →
      ∃ after value, run none s tokens = .ok ⟨after, .after value⟩ ∧
        Yields layer frames e after value

/-- An operator after an operand waits with everything that holds at least as tightly. -/
theorem step_operator {after frames : List Frame} {value left : Expr} {op : Operator}
    {token : Token} (found : token.symbol = .operator op)
    (unsigned : op = .power → isSigned after = false)
    (reduced : reduce op.binding after value = (frames, left)) :
    State.step ⟨after, .after value⟩ token = .ok ⟨.operation left op :: frames, .before⟩ := by
  have accepted : (op = .power && isSigned after) = false := by
    by_cases power : op = .power
    · simp [unsigned power]
    · simp [power]
  simp [State.step, found, takeOperator, accepted, reduced]

/-- A closing parenthesis takes its place behind a complete operand, whichever kind of
parenthesis was opened. -/
theorem step_closing {after frames : List Frame} {value e result : Expr} {token : Token}
    {frame : Frame} (found : token.symbol = .closing)
    (reduced : reduce 0 after value = (frame :: frames, e))
    (closes : frame = .group ∧ result = e ∨
      ∃ callee, frame = .argument callee ∧ result = .call callee e) :
    State.step ⟨after, .after value⟩ token = .ok ⟨frames, .after result⟩ := by
  obtain ⟨rfl, rfl⟩ | ⟨callee, rfl, rfl⟩ := closes <;>
    simp [State.step, found, takeClosing, reduced]

/-- Wherever a whole sum may be read, the layers inside it may be read as well. -/
theorem Admits.left {op : Operator} {frames : List Frame} (h : Admits (layerOf op) frames) :
    Admits (leftLayer op) frames ∧ Stops op.binding frames := by
  cases op with
  | plus | minus | times | dividedBy => exact ⟨h, h⟩
  | power => exact ⟨trivial, h⟩

/-- The finished left operand is what the operator itself finds. -/
theorem Yields.left {op : Operator} {frames after : List Frame} {e value : Expr}
    (h : Yields (leftLayer op) frames e after value) (stops : Stops op.binding frames) :
    (op = .power → isSigned after = false) ∧ reduce op.binding after value = (frames, e) := by
  cases op with
  | plus | minus | times | dividedBy =>
      refine ⟨by simp, ?_⟩
      rw [← reduce_of_stops stops e]
      exact h _ (Nat.le_refl _)
  | power =>
      obtain ⟨rfl, rfl⟩ := h
      exact ⟨fun _ => isSigned_of_stops stops, reduce_of_stops stops _⟩

/-- An operation is read from its left operand, the operator and its right operand. -/
theorem readable_operation (op : Operator) {before after : List Symbol} {l r : Expr}
    (left : Readable (leftLayer op) before l) (right : Readable (rightLayer op) after r) :
    Readable (layerOf op) (before ++ .operator op :: after) (.binary op.symbol l r) := by
  intro s frames tokens waiting admits symbols
  obtain ⟨first, rest, rfl, hfirst, hrest⟩ := List.map_eq_append_iff.mp symbols
  obtain ⟨token, last, rfl, htoken, hlast⟩ := List.map_eq_cons_iff.mp hrest
  obtain ⟨admitsLeft, stops⟩ := admits.left
  obtain ⟨open₁, value₁, ran₁, yields₁⟩ := left s frames first waiting admitsLeft hfirst
  obtain ⟨unsigned, reduced⟩ := yields₁.left stops
  have admitsRight : Admits (rightLayer op) (.operation l op :: frames) := by
    cases op <;> simp [Admits, rightLayer, Stops, Operator.rightBinding, Operator.binding]
  obtain ⟨open₂, value₂, ran₂, yields₂⟩ :=
    right _ _ last (.operand (.operation l op :: frames)) admitsRight hlast
  refine ⟨open₂, value₂, ?_, ?_⟩
  · rw [run_append ran₁, run_cons (step_operator htoken unsigned reduced), ran₂]
  · -- What binds no tighter than the operator finds both operands joined.
    have joined : ∀ binding ≤ op.rightBinding,
        reduce binding (.operation l op :: frames) r =
          reduce binding frames (.binary op.symbol l r) := by
      intro binding le
      simp [reduce, le]
    cases op with
    | plus | minus =>
        intro binding le
        rw [yields₂ binding (Nat.le_trans le (by decide)), joined binding le]
    | times | dividedBy =>
        intro binding le
        rw [yields₂ binding (Nat.le_trans le (by decide)), joined binding le]
    | power =>
        intro binding le
        rw [yields₂ binding le, joined binding le]

/-- A number or a name is read wherever an operand may stand. -/
theorem readable_of_takeOperand {symbol : Symbol} {e : Expr}
    (taken : ∀ (frames : List Frame) (token : Token), token.symbol = symbol →
      takeOperand frames token = .ok ⟨frames, .after e⟩)
    (operand : symbol ≠ .closing) : Readable .primary [symbol] e := by
  intro s frames tokens waiting _ symbols
  obtain ⟨token, rfl, found⟩ := List.map_eq_singleton_iff.mp symbols
  refine ⟨frames, e, ?_, rfl, rfl⟩
  have step := waiting.step (found ▸ operand)
  rw [taken frames token found] at step
  rw [run_cons step, run]

/-- A sum between parentheses is read inside the frame that its parenthesis opens. -/
theorem run_closing {inner : List Symbol} {e result : Expr} (sum : Readable .sum inner e)
    {s : State} {frame : Frame} {frames : List Frame} (waiting : Awaits s (frame :: frames))
    (closes : frame = .group ∧ result = e ∨
      ∃ callee, frame = .argument callee ∧ result = .call callee e)
    {tokens : List Token} (symbols : tokens.map (·.symbol) = inner ++ [.closing]) :
    run none s tokens = .ok ⟨frames, .after result⟩ := by
  obtain ⟨first, rest, rfl, hfirst, hrest⟩ := List.map_eq_append_iff.mp symbols
  obtain ⟨token, rfl, found⟩ := List.map_eq_singleton_iff.mp hrest
  have encloses (binding : Nat) : Stops binding (frame :: frames) := by
    obtain ⟨rfl, -⟩ | ⟨callee, rfl, -⟩ := closes <;> trivial
  obtain ⟨after, value, ran, yields⟩ := sum s _ first waiting (encloses 50) hfirst
  have reduced : reduce 0 after value = (frame :: frames, e) := by
    rw [yields 0 (Nat.zero_le _), reduce_of_stops (encloses 0)]
  rw [run_append ran, run_cons (step_closing found reduced closes), run]

/-- A sign waits for its operand in a frame of its own. -/
theorem readable_sign {op : Operator} {symbols : List Symbol} {e : Expr} {layer : Layer}
    (signs : op.isSign = true) (operand : Readable layer symbols e)
    (unbound : layer = .applied ∨ layer = .signed) :
    Readable .signed (.operator op :: symbols) (.unary op.symbol e) := by
  intro s frames tokens waiting _ hsymbols
  obtain ⟨token, rest, rfl, found, hrest⟩ := List.map_eq_cons_iff.mp hsymbols
  have step : s.step token = .ok ⟨.sign op :: frames, .before⟩ := by
    rw [waiting.step (by simp [found])]
    simp [takeOperand, found, signs]
  have admits : Admits layer (.sign op :: frames) := by
    obtain rfl | rfl := unbound <;> trivial
  obtain ⟨after, value, ran, yields⟩ :=
    operand _ _ rest (.operand (.sign op :: frames)) admits hrest
  refine ⟨after, value, by rw [run_cons step, ran], ?_⟩
  obtain rfl | rfl := unbound
  · obtain ⟨rfl, rfl⟩ := yields
    exact ⟨rfl, fun binding => rfl⟩
  · exact ⟨yields.1, fun binding => (yields.2 binding).trans rfl⟩

/-- A sum between parentheses is an operand. -/
theorem readable_group {inner : List Symbol} {e : Expr} (sum : Readable .sum inner e) :
    Readable .primary (.opening :: (inner ++ [.closing])) e := by
  intro s frames tokens waiting _ symbols
  obtain ⟨token, rest, rfl, found, hrest⟩ := List.map_eq_cons_iff.mp symbols
  have step : s.step token = .ok ⟨.group :: frames, .before⟩ := by
    rw [waiting.step (by simp [found])]
    simp [takeOperand, found]
  refine ⟨frames, _, ?_, rfl, rfl⟩
  rw [run_cons step, run_closing sum (.operand _) (.inl ⟨rfl, rfl⟩) hrest]

/-- A parenthesis right after an operand opens its argument. -/
theorem readable_call {symbols inner : List Symbol} {callee e : Expr}
    (operand : Readable .applied symbols callee) (sum : Readable .sum inner e) :
    Readable .applied (symbols ++ .opening :: (inner ++ [.closing])) (.call callee e) := by
  intro s frames tokens waiting _ hsymbols
  obtain ⟨first, rest, rfl, hfirst, hrest⟩ := List.map_eq_append_iff.mp hsymbols
  obtain ⟨token, last, rfl, found, hlast⟩ := List.map_eq_cons_iff.mp hrest
  obtain ⟨_, _, ran, rfl, rfl⟩ := operand s frames first waiting trivial hfirst
  refine ⟨_, _, ?_, rfl, rfl⟩
  rw [run_append ran, run_cons (by simp [State.step, found]; rfl),
    run_closing sum (.argument _ _) (.inr ⟨_, rfl, rfl⟩) hlast]

theorem readable_emptyCall {symbols : List Symbol} {callee : Expr}
    (operand : Readable .applied symbols callee) :
    Readable .applied (symbols ++ [.opening, .closing]) (.call callee .missing) := by
  intro s frames tokens waiting _ hsymbols
  obtain ⟨first, rest, rfl, hfirst, hrest⟩ := List.map_eq_append_iff.mp hsymbols
  obtain ⟨token, last, rfl, found, hlast⟩ := List.map_eq_cons_iff.mp hrest
  obtain ⟨closing, rfl, closes⟩ := List.map_eq_singleton_iff.mp hlast
  obtain ⟨_, _, ran, rfl, rfl⟩ := operand s frames first waiting trivial hfirst
  refine ⟨_, _, ?_, rfl, rfl⟩
  rw [run_append ran, run_cons (by simp [State.step, found]; rfl),
    run_cons (by simp [State.step, closes]; rfl), run]

/-- What is read as one layer is read as a wider one that may stand in fewer places and is asked
for less afterwards. -/
theorem Readable.widen {inner outer : Layer} {symbols : List Symbol} {e : Expr}
    (h : Readable inner symbols e) (admits : ∀ frames, Admits outer frames → Admits inner frames)
    (yields : ∀ frames after value,
      Yields inner frames e after value → Yields outer frames e after value) :
    Readable outer symbols e := by
  intro s frames tokens waiting admitted hsymbols
  obtain ⟨after, value, ran, left⟩ := h s frames tokens waiting (admits frames admitted) hsymbols
  exact ⟨after, value, ran, yields frames after value left⟩

/-- Whatever the grammar derives is read, with the tree of the derivation. -/
theorem readable_of_derives {layer : Layer} {symbols : List Symbol} {e : Expr}
    (h : Derives layer symbols e) : Readable layer symbols e := by
  induction h with
  | number spelling =>
      exact readable_of_takeOperand (fun _ _ found => by simp [takeOperand, found]) (by simp)
  | name spelling =>
      exact readable_of_takeOperand (fun _ _ found => by simp [takeOperand, found]) (by simp)
  | group _ sum => exact readable_group sum
  | alone _ operand => exact operand
  | call _ _ operand sum => exact readable_call operand sum
  | emptyCall _ operand => exact readable_emptyCall operand
  | sign signs _ operand => exact readable_sign signs operand (.inl rfl)
  | signs signs _ operand => exact readable_sign signs operand (.inr rfl)
  | powerOfSigned _ operand =>
      exact operand.widen (fun _ _ => trivial) fun _ _ _ left binding _ => left.2 binding
  | powerOfApplied _ operand =>
      refine operand.widen (fun _ _ => trivial) ?_
      rintro _ _ _ ⟨rfl, rfl⟩ binding _
      rfl
  | power _ _ left right => exact readable_operation .power left right
  | productOfPower _ power =>
      exact power.widen (fun _ admitted => admitted.mono (by decide))
        fun _ _ _ left binding le => left binding (Nat.le_trans le (by decide))
  | product scales _ _ left right =>
      obtain rfl | rfl := scales
      · exact readable_operation .times left right
      · exact readable_operation .dividedBy left right
  | sumOfProduct _ product =>
      exact product.widen (fun _ admitted => admitted.mono (by decide))
        fun _ _ _ left binding le => left binding (Nat.le_trans le (by decide))
  | sum adds _ _ left right =>
      obtain rfl | rfl := adds
      · exact readable_operation .plus left right
      · exact readable_operation .minus left right

end Reading

end Keypad
