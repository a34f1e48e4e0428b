import Keypad.Proofs.Descent
import Keypad.Proofs.Reading

/-!
# The two readers agree

Reading by descent and reading with a stack come to the same: the same expression, or the same
fault at the same token. While the one descends, the other stands in the state that the open calls
describe, each by the frame it would have pushed. When a call has read an expression, the stack may
still hold parts of it. But what comes then leaves that expression alone (`Entry.Leaves`), so the
stack goes on as it would with the whole expression (`Expects.congr`).

What the stack comes to is fixed before the descent begins. Every call finds the stack in a state
from which it comes to that result, and leaves it in such a state, or is refused with it
(`readsFrom_expression`).
-/

namespace Keypad

namespace Descent

open Reading

variable {entries : List Entry} {entry : Entry} {tokens : List Token} {token : Token}
  {length place binding : Nat} {frames after : List Frame} {frame : Frame} {value e result : Expr}
  {state nextState : State} {s : Cursor} {error : GrammarError}
  {expected : Except GrammarError Expr}

/-- What the reader with a stack makes of entries from a state on. If they break off before the end
of the text, that is nothing. -/
def resultFrom (state : State) : List Entry → Option (Except GrammarError Expr)
  | [] => none
  | .endOfText length :: _ => some (state.finish length)
  | .token token :: rest =>
    match state.step token with
    | .error error => some (.error error)
    | .ok nextState => resultFrom nextState rest

theorem resultFrom_of_run {last : State} (ran : run none state tokens = .ok last) :
    resultFrom state (entriesOf tokens length) = some (last.finish length) := by
  induction tokens generalizing state with
  | nil =>
      cases ran
      rfl
  | cons token tokens ih =>
      cases taken : state.step token with
      | error fault => simp [run, taken] at ran
      | ok nextState =>
          rw [run_cons taken] at ran
          simpa only [entriesOf, List.map_cons, List.cons_append, resultFrom, taken] using ih ran

theorem resultFrom_of_run_error (ran : run none state tokens = .error (.fault error)) :
    resultFrom state (entriesOf tokens length) = some (.error error) := by
  induction tokens generalizing state with
  | nil => cases ran
  | cons token tokens ih =>
      cases taken : state.step token with
      | error fault =>
          rw [run_cons_error taken] at ran
          cases ran
          simp only [entriesOf, List.map_cons, List.cons_append, resultFrom, taken]
      | ok nextState =>
          rw [run_cons taken] at ran
          simpa only [entriesOf, List.map_cons, List.cons_append, resultFrom, taken] using ih ran

/-- From the start and to the end of a text, it is what the tokens make up. -/
theorem exists_resultFrom_start (tokens : List Token) (length : Nat) :
    ∃ expected, resultFrom start (entriesOf tokens length) = some expected ∧
      Expr.ofTokens none tokens length = expected.mapError .fault := by
  cases ran : run none start tokens with
  | error bounded =>
      obtain ⟨fault, rfl⟩ := exists_fault_of_run ran
      exact ⟨_, resultFrom_of_run_error ran, by rw [Expr.ofTokens, ran]; rfl⟩
  | ok last =>
      refine ⟨_, resultFrom_of_run ran, ?_⟩
      simp only [Expr.ofTokens, ran]
      cases last.finish length <;> rfl

/-- Before the entry at a place, the stack is in a state from which it comes to what is expected. -/
def Expects (entries : List Entry) (expected : Except GrammarError Expr) (state : State)
    (place : Nat) : Prop :=
  resultFrom state (entries.drop place) = some expected

/-- The fault is the one that is expected. -/
def Rejected (expected : Except GrammarError Expr) (fault : Fault) : Prop :=
  ∃ error, fault = .grammar error ∧ expected = .error error

theorem drop_of_found (found : entries[place]? = some entry) :
    entries.drop place = entry :: entries.drop (place + 1) := by
  obtain ⟨within, rfl⟩ := List.getElem?_eq_some_iff.mp found
  exact List.drop_eq_getElem_cons within

/-- The entry takes no part of an expression before it whose operators all bind tighter than
`binding`: it opens no argument, and it is no operator that binds tighter, too. -/
def Entry.Leaves (entry : Entry) (binding : Nat) : Prop :=
  entry.symbol? ≠ some .opening ∧
    ∀ op, entry.symbol? = some (.operator op) → op.binding ≤ binding

theorem Entry.Leaves.not_power (h : entry.Leaves binding) (loose : binding < 70) :
    entry.symbol? ≠ some (.operator .power) :=
  fun power => Nat.not_le_of_lt loose (h.2 .power power)

namespace Expects

theorem step (h : Expects entries expected state place)
    (found : entries[place]? = some (.token token)) (taken : state.step token = .ok nextState) :
    Expects entries expected nextState (place + 1) := by
  simpa only [Expects, drop_of_found found, resultFrom, taken] using h

theorem rejected (h : Expects entries expected state place)
    (found : entries[place]? = some (.token token)) (refused : state.step token = .error error) :
    Rejected expected (.grammar error) := by
  simp only [Expects, drop_of_found found, resultFrom, refused] at h
  exact ⟨error, rfl, (Option.some.inj h).symm⟩

theorem finish (h : Expects entries expected state place)
    (found : entries[place]? = some (.endOfText length)) : expected = state.finish length := by
  simp only [Expects, drop_of_found found, resultFrom] at h
  exact (Option.some.inj h).symm

/-- If the next entry leaves an expression alone, the frames of that expression are closed by
whatever it is, and the stack goes on as it would with the whole expression. -/
theorem congr (h : Expects entries expected ⟨after, .after value⟩ place)
    (found : entries[place]? = some entry) (leaves : entry.Leaves binding)
    (power : entry.symbol? ≠ some (.operator .power))
    (same : ∀ loose ≤ binding, reduce loose after value = reduce loose frames e) :
    Expects entries expected ⟨frames, .after e⟩ place := by
  have whole : reduce 0 after value = reduce 0 frames e := same 0 (Nat.zero_le _)
  cases entry with
  | endOfText length =>
      simpa only [Expects, drop_of_found found, resultFrom, State.finish, whole] using h
  | token token =>
      have step : State.step ⟨after, .after value⟩ token = State.step ⟨frames, .after e⟩ token := by
        obtain ⟨symbol, position⟩ := token
        cases symbol with
        | opening => exact absurd rfl leaves.1
        | number | name => simp only [State.step, refuse, whole]
        | closing => simp only [State.step, takeClosing, whole]
        | operator op =>
            have other : op ≠ .power := fun same => power (same ▸ rfl)
            simp only [State.step, takeOperator, same _ (leaves.2 op rfl), other, decide_false,
              Bool.false_and]
      simpa only [Expects, drop_of_found found, resultFrom, step] using h

/-- Unless a parenthesis is closed right behind the one that opens it, an argument is awaited. -/
theorem argument {callee : Expr} (h : Expects entries expected ⟨frames, .opened callee⟩ place)
    (found : entries[place]? = some entry) (other : entry.symbol? ≠ some .closing) :
    Expects entries expected ⟨.argument callee :: frames, .before⟩ place := by
  cases entry with
  | endOfText length =>
      simpa only [Expects, drop_of_found found, resultFrom, State.finish] using h
  | token token =>
      have step := (Awaits.argument frames callee).step fun closes => other (congrArg some closes)
      rw [Expects, drop_of_found found, resultFrom, step] at h
      rw [Expects, drop_of_found found, resultFrom]
      exact h

end Expects

/-- Every operator that an expression takes finds its left operand finished in the frames. -/
def Suits (binding : Nat) (frames : List Frame) : Prop :=
  ∀ op : Operator, binding < op.binding → Stops op.binding frames

theorem suits_nothing (binding : Nat) : Suits binding [] := fun _ _ => trivial

theorem suits_group (binding : Nat) (frames : List Frame) : Suits binding (.group :: frames) :=
  fun _ _ => trivial

theorem suits_argument (binding : Nat) (callee : Expr) (frames : List Frame) :
    Suits binding (.argument callee :: frames) :=
  fun _ _ => trivial

theorem suits_sign (op : Operator) (frames : List Frame) :
    Suits signBinding (.sign op :: frames) := by
  intro tight holds
  cases tight <;> exact absurd holds (by decide)

theorem suits_operation (left : Expr) (op : Operator) (frames : List Frame) :
    Suits op.rightBinding (.operation left op :: frames) :=
  fun _ holds => holds

/-- An expression has been read: the stack comes to what is expected with that expression before
the next entry, and the next entry leaves the expression alone. -/
structure HasRead (entries : List Entry) (expected : Except GrammarError Expr) (binding : Nat)
    (frames : List Frame) (e : Expr) (last : Cursor) : Prop where
  expects : Expects entries expected ⟨frames, .after e⟩ last.place
  next : ∃ entry, entries[last.place]? = some entry ∧ entry.Leaves binding

/-- From a place on, `inner` reads what the stack reads: if the stack comes to what is expected
before an expression, it does so behind it, and if the expression is refused, that is what was
expected. -/
def ReadsFrom (entries : List Entry) (expected : Except GrammarError Expr)
    (inner : Nat → Walk Expr) (place : Nat) : Prop :=
  ∀ binding frames s, InRange entries s → place ≤ s.place → Suits binding frames →
    Expects entries expected ⟨frames, .before⟩ s.place →
    Ends (inner binding) s (HasRead entries expected binding frames)
      (fun fault _ => Rejected expected fault)

section Calls

variable {inner : Nat → Walk Expr} {fuel : Nat}

theorem ReadsFrom.mono {later : Nat} (reads : ReadsFrom entries expected inner place)
    (le : place ≤ later) : ReadsFrom entries expected inner later :=
  fun binding frames s h behind => reads binding frames s h (Nat.le_trans le behind)

/-- A closing parenthesis closes the frame that its opening one has pushed. Any other token is
refused by the stack too, for no operator and no argument can stand there. -/
theorem close_expects {last : Cursor} (read : HasRead entries expected 0 (frame :: frames) e last)
    (closes : frame = .group ∧ result = e ∨
      ∃ callee, frame = .argument callee ∧ result = .call callee e) :
    Ends (close entries) last
      (fun _ t => Expects entries expected ⟨frames, .after result⟩ t.place)
      (fun fault _ => Rejected expected fault) := by
  have whole : reduce 0 (frame :: frames) e = (frame :: frames, e) := by
    obtain ⟨rfl, -⟩ | ⟨callee, rfl, -⟩ := closes <;> rfl
  obtain ⟨entry, found, argument, operators⟩ := read.next
  cases entry with
  | endOfText length =>
      have refused := read.expects.finish found
      simp only [State.finish, whole] at refused
      exact .refused (close_end found) ⟨_, rfl, refused⟩
  | token token =>
      by_cases closing : token.symbol = .closing
      · refine .done (close_closing found closing) (read.expects.step found ?_)
        exact step_closing closing whole closes
      · refine .refused (close_token found closing) (read.expects.rejected found ?_)
        obtain ⟨symbol, position⟩ := token
        cases symbol with
        | closing => exact absurd rfl closing
        | opening => exact absurd rfl argument
        | operator op =>
            have none : op.binding ≤ 0 := operators op rfl
            exact absurd none (by cases op <;> decide)
        | number | name => simp only [State.step, refuse, whole]

/-- The stack takes the first token of an operand, too. For a sign it keeps a frame open, and of
all that leaves the operand alone only a power could tell that from the signed operand. -/
theorem operand_expects (reads : ReadsFrom entries expected inner (s.place + 1))
    (taken : InRange entries s.look.next) (found : entries[s.place]? = some (.token token))
    (expects : Expects entries expected ⟨frames, .before⟩ s.place) :
    Ends (operand inner entries (.token token)) s.look.next
      (fun e last => Expects entries expected ⟨frames, .after e⟩ last.place)
      (fun fault _ => Rejected expected fault) := by
  have behind (binding : Nat) (frames : List Frame) :=
    reads binding frames s.look.next taken (Nat.le_refl _)
  obtain ⟨symbol, position⟩ := token
  cases symbol with
  | number | name => exact .pure (expects.step found rfl)
  | closing => exact .throw (expects.rejected found rfl)
  | opening =>
      have opened : Expects entries expected ⟨.group :: frames, .before⟩ (s.place + 1) :=
        expects.step found rfl
      refine (behind 0 _ (suits_group 0 frames) opened).bind fun e t read => ?_
      exact (close_expects read (.inl ⟨rfl, rfl⟩)).bind fun _ last closed => .pure closed
  | operator op =>
      dsimp only [operand]
      split
      · rename_i signs
        have signed : Expects entries expected ⟨.sign op :: frames, .before⟩ (s.place + 1) :=
          expects.step found (by simp only [State.step, takeOperand, signs, if_true])
        refine (behind signBinding _ (suits_sign op frames) signed).bind fun e t read => ?_
        obtain ⟨next, foundNext, leaves⟩ := read.next
        refine .bind_of_ok (current_eq foundNext) ?_
        split
        · rename_i power
          obtain ⟨position, rfl⟩ := Entry.eq_of_symbol? power
          exact .throw (read.expects.rejected foundNext rfl)
        · rename_i other
          exact .pure (read.expects.congr foundNext leaves other fun _ _ => rfl)
      · rename_i other
        refine .throw (expects.rejected found ?_)
        simp only [State.step, takeOperand, if_neg other]

/-- Behind a round of the loop the stack holds the larger expression, or the round was the last and
the expression has been read. -/
def GoesOn (entries : List Entry) (expected : Except GrammarError Expr) (binding : Nat)
    (frames : List Frame) (left : Expr) : Option Expr → Cursor → Prop
  | some larger, last => Expects entries expected ⟨frames, .after larger⟩ last.place
  | none, last => HasRead entries expected binding frames left last

/-- A round of the loop takes what the stack takes next. -/
theorem extension_expects (terminated : Terminated entries)
    (reads : ReadsFrom entries expected inner (s.place + 1)) (h : InRange entries s)
    (suits : Suits binding frames) {left : Expr}
    (expects : Expects entries expected ⟨frames, .after left⟩ s.place) :
    Ends (extension inner entries binding left) s (GoesOn entries expected binding frames left)
      (fun fault _ => Rejected expected fault) := by
  obtain ⟨next, found⟩ := h.exists_entry
  refine .bind_of_ok (current_eq found) ?_
  have stays (leaves : next.Leaves binding) :
      GoesOn entries expected binding frames left none s.look := ⟨expects, next, found, leaves⟩
  cases next with
  | endOfText => exact .pure (stays ⟨by rintro ⟨⟩, by rintro _ ⟨⟩⟩)
  | token next =>
      obtain ⟨symbol, position⟩ := next
      have taken : InRange entries s.look.look.next := h.look.look.next terminated found
      cases symbol with
      | number | name | closing => exact .pure (stays ⟨by rintro ⟨⟩, by rintro _ ⟨⟩⟩)
      | operator op =>
          dsimp only [Entry.symbol?]
          split
          · rename_i loose
            exact .pure (stays ⟨by rintro ⟨⟩, by rintro _ ⟨⟩; exact loose⟩)
          · rename_i tight
            have stops : Stops op.binding frames := suits op (Nat.lt_of_not_le tight)
            have operated := expects.step found
              (step_operator rfl (fun _ => isSigned_of_stops stops) (reduce_of_stops stops left))
            refine .bind_of_ok (advance_token found) ?_
            refine (reads op.rightBinding _ _ taken (Nat.le_refl _) (suits_operation left op frames)
              operated).bind fun right last read => ?_
            obtain ⟨next, foundNext, leaves⟩ := read.next
            have power := leaves.not_power (by cases op <;> decide)
            refine .pure (read.expects.congr foundNext leaves power fun loose holds => ?_)
            rw [reduce, if_pos holds]
      | opening =>
          have opened : Expects entries expected ⟨frames, .opened left⟩ (s.place + 1) :=
            expects.step found rfl
          refine .bind_of_ok (advance_token found) ?_
          refine taken.bind_current fun inside foundInside => ?_
          split
          · rename_i closes
            obtain ⟨position, rfl⟩ := Entry.eq_of_symbol? closes
            refine .bind_of_ok (close_closing foundInside rfl) ?_
            exact .pure (opened.step foundInside rfl)
          · rename_i other
            refine (reads 0 _ _ taken.look (Nat.le_refl _) (suits_argument 0 left frames)
              (opened.argument foundInside other)).bind fun argument t read => ?_
            refine (close_expects read (.inr ⟨left, rfl, rfl⟩)).bind fun _ last closed => ?_
            exact .pure closed

theorem extended_expects (terminated : Terminated entries)
    (ends : EndsFrom entries inner (s.place + 1))
    (reads : ReadsFrom entries expected inner (s.place + 1)) (h : InRange entries s)
    (enough : entries.length ≤ s.place + fuel) (suits : Suits binding frames) {left : Expr}
    (expects : Expects entries expected ⟨frames, .after left⟩ s.place) :
    Ends (extended inner entries binding fuel left) s (HasRead entries expected binding frames)
      (fun fault _ => Rejected expected fault) := by
  induction fuel generalizing s left with
  | zero => exact absurd h.place (Nat.not_lt_of_le enough)
  | succ fuel ih =>
      have round := (extension_expects terminated reads h suits expects).also
        (ends_extension terminated ends h binding left)
      refine round.bind fun larger t reached => ?_
      obtain ⟨moved, goesOn⟩ := reached
      cases larger with
      | none => exact .pure goesOn
      | some larger =>
          have further : s.place + 1 ≤ t.place := moved.place
          exact ih (ends.mono (Nat.le_succ_of_le further)) (reads.mono (Nat.le_succ_of_le further))
            moved.inRange (by omega) goesOn

/-- Expressions are read or refused as the stack reads or refuses them. -/
theorem readsFrom_expression (terminated : Terminated entries)
    (enough : entries.length ≤ place + fuel) :
    ReadsFrom entries expected (expression entries fuel) place := by
  induction fuel generalizing place with
  | zero =>
      intro binding frames s h behind
      exact absurd h.place (Nat.not_lt_of_le (Nat.le_trans enough behind))
  | succ fuel ih =>
      intro binding frames s h behind suits expects
      have rest : entries.length ≤ s.place + 1 + fuel := by omega
      have ends : EndsFrom entries (expression entries fuel) (s.place + 1) :=
        endsFrom_expression terminated rest
      have reads : ReadsFrom entries expected (expression entries fuel) (s.place + 1) := ih rest
      obtain ⟨entry, found⟩ := h.exists_entry
      cases entry with
      | endOfText length =>
          refine .bind_of_ok (advance_end found) ?_
          exact .refused rfl ⟨_, rfl, expects.finish found⟩
      | token first =>
          have taken : InRange entries s.look.next := h.look.next terminated found
          refine .bind_of_ok (advance_token found) ?_
          have begins := (operand_expects reads taken found expects).also
            (ends_operand terminated ends taken first)
          refine begins.bind fun left t reached => ?_
          obtain ⟨moved, within⟩ := reached
          have further : s.place + 1 ≤ t.place := moved.place
          have enough : entries.length ≤ t.place + fuel := by omega
          exact extended_expects terminated (ends.mono (Nat.le_succ_of_le further))
            (reads.mono (Nat.le_succ_of_le further)) moved.inRange enough suits within

/-- The two readers read the same. -/
theorem parse_expects (terminated : Terminated entries) (enough : entries.length ≤ fuel)
    (begins : resultFrom start entries = some expected) :
    Ends (parse entries fuel) .start (fun e _ => expected = .ok e)
      (fun fault _ => Rejected expected fault) := by
  have reads : ReadsFrom entries expected (expression entries fuel) 0 :=
    readsFrom_expression terminated (Nat.le_add_left_of_le enough)
  refine (reads 0 [] .start (.start terminated) (Nat.le_refl 0) (suits_nothing 0) begins).bind
    fun e t read => ?_
  obtain ⟨entry, found, argument, operators⟩ := read.next
  refine .bind_of_ok (current_eq found) ?_
  cases entry with
  | endOfText length => exact .pure (read.expects.finish found)
  | token token =>
      refine .throw (read.expects.rejected found ?_)
      obtain ⟨symbol, position⟩ := token
      cases symbol with
      | opening => exact absurd rfl argument
      | operator op =>
          have none : op.binding ≤ 0 := operators op rfl
          exact absurd none (by cases op <;> decide)
      | closing | number | name => rfl

end Calls

/-- The cursor stays in range, and reading comes to an end. Whenever an expression has been read, in
whatever call, only entries have been looked at, the cursor stands at one, and it has left at least
one token behind; so has every round of the loop that goes on. All entries together are read as one
expression, or refused because they are none, and for no other reason: they are read as with a
stack. As much fuel as there are entries is enough. -/
theorem descent_spec (tokens : List Token) (length : Nat) :
    let entries := entriesOf tokens length
    (∀ fuel binding s, InRange entries s → entries.length ≤ s.place + fuel →
      Ends (expression entries fuel binding) s (fun _ => Moved entries 1 s) (Refused entries)) ∧
    (∀ fuel binding left s, InRange entries s → entries.length ≤ s.place + 1 + fuel →
      Ends (extension (expression entries fuel) entries binding left) s
        (fun larger => Moved entries (if larger.isSome then 1 else 0) s) (Refused entries)) ∧
    ∀ fuel, entries.length ≤ fuel →
      Ends (parse entries fuel) .start (fun _ => InRange entries) (Refused entries) ∧
      Ends (parse entries fuel) .start (fun e _ => Expr.ofTokens none tokens length = .ok e)
        (fun fault _ => ∃ error, fault = .grammar error ∧
          Expr.ofTokens none tokens length = .error (.fault error)) := by
  have terminated := terminated_entriesOf tokens length
  refine ⟨?_, ?_, fun fuel enough => ⟨ends_parse terminated enough, ?_⟩⟩
  · intro fuel binding s h enough
    exact endsFrom_expression terminated enough binding s h (Nat.le_refl _)
  · intro fuel binding left s h enough
    exact ends_extension terminated (endsFrom_expression terminated enough) h binding left
  · obtain ⟨expected, begins, same⟩ := exists_resultFrom_start tokens length
    rw [same]
    cases parse_expects terminated enough begins with
    | done walks holds => exact .done walks (by rw [holds]; rfl)
    | refused walks holds =>
        obtain ⟨error, rfl, refused⟩ := holds
        exact .refused walks ⟨error, rfl, by rw [refused]; rfl⟩

/-- The tokens of a product with a signed factor in parentheses. -/
def product : List Token :=
  [⟨.number ['2'], 0⟩, ⟨.operator .times, 1⟩, ⟨.opening, 2⟩, ⟨.operator .minus, 3⟩,
    ⟨.number ['3'], 4⟩, ⟨.closing, 5⟩]

/-- In `2*(-3)` the loop behind the first number goes on once, with all that follows; the factor in
parentheses is read by a call of its own. -/
theorem descent_through_product :
    let entries := entriesOf product 6
    let two := Expr.number (Symbol.valueOf ['2'])
    let minusThree := Expr.unary ['-'] (.number (Symbol.valueOf ['3']))
    let whole := Expr.binary ['*'] two minusThree
    tokensOf "2*(-3)".toList = .ok product ∧
      (∃ last, expression entries 5 60 ⟨2, []⟩ = some (.ok minusThree, last) ∧
        Moved entries 1 ⟨2, []⟩ last) ∧
      (∃ last, extension (expression entries 5) entries 0 two ⟨1, []⟩ =
          some (.ok (some whole), last) ∧ Moved entries 1 ⟨1, []⟩ last) ∧
      ∃ last, parse entries 7 .start = some (.ok whole, last) ∧ InRange entries last ∧
        Expr.ofTokens none product 6 = .ok whole := by
  intro entries two minusThree whole
  obtain ⟨calls, rounds, reads⟩ := descent_spec product 6
  have inRange (place : Nat) (within : place < 7) : InRange entries ⟨place, []⟩ :=
    ⟨within, List.forall_mem_nil _⟩
  obtain ⟨ends, agrees⟩ := reads 7 (Nat.le_refl 7)
  refine ⟨rfl, ⟨_, rfl, ?_⟩, ⟨_, rfl, ?_⟩, ⟨_, rfl, ?_, ?_⟩⟩
  · exact (calls 5 60 ⟨2, []⟩ (inRange 2 (by decide)) (by decide)).of_walks rfl
  · exact (rounds 5 0 two ⟨1, []⟩ (inRange 1 (by decide)) (by decide)).of_walks rfl
  · exact ends.of_walks rfl
  · exact agrees.of_walks rfl

end Descent

end Keypad
