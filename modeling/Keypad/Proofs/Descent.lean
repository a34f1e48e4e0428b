import Keypad.Expr.OfTokens

/-!
# Reading by descent

The reader of `Keypad.Expr.OfTokens` keeps what is open on a stack. Here an expression is read the
other usual way, by functions that call one another and share a cursor into a list of entries: the
tokens, and behind them one entry for the end of the text. Which operators a call takes is decided
by how tightly they bind.

The definitions take nothing for granted. To look at a place outside the list is a fault of its own.
How deep calls may nest and how many rounds a loop may take is bounded by some fuel, and a walk that
runs out of it comes to nothing. This file shows that neither happens, by the way the cursor moves.
It never gets behind the last entry, because it stays where it is at the end of the text. Whatever
is read takes at least one token, because no operand begins at the end of the text; and so does each
operator or argument that a loop takes. So as much fuel as there are entries is always enough
(`endsFrom_expression`).

That the two readers read the same is seen in `Keypad.Proofs.TwoReaders`.
-/

namespace Keypad

/-- How tightly a sign holds its operand. -/
def signBinding : Nat := 70

namespace Descent

/-- What stands at a place of the list that is read. -/
inductive Entry where
  | token (token : Token)
  /-- The end of a text of the given length. -/
  | endOfText (length : Nat)

namespace Entry

/-- The symbol that stands there, unless it is the end. -/
def symbol? : Entry → Option Symbol
  | token t => some t.symbol
  | endOfText _ => none

/-- How many characters of the text stand before it. -/
def position : Entry → Nat
  | token t => t.position
  | endOfText length => length

/-- Where a symbol stands, there is a token. -/
theorem eq_of_symbol? {entry : Entry} {symbol : Symbol} (h : entry.symbol? = some symbol) :
    ∃ position, entry = token ⟨symbol, position⟩ := by
  cases entry with
  | token t =>
      obtain rfl : t.symbol = symbol := Option.some.inj h
      exact ⟨t.position, rfl⟩
  | endOfText => cases h

end Entry

/-- The tokens of a text, and then its end. -/
def entriesOf (tokens : List Token) (length : Nat) : List Entry :=
  tokens.map .token ++ [.endOfText length]

/-- Where a walk through a list of entries has come to. -/
structure Cursor where
  place : Nat
  /-- The places that have been looked at, the last first. -/
  looked : List Nat

namespace Cursor

/-- Before the first entry. -/
def start : Cursor := ⟨0, []⟩

/-- The place of the next entry is looked at. -/
def look (s : Cursor) : Cursor := { s with looked := s.place :: s.looked }

/-- The next entry is left behind. -/
def next (s : Cursor) : Cursor := { s with place := s.place + 1 }

end Cursor

/-- Why a walk stops. -/
inductive Fault where
  | grammar (error : GrammarError)
  /-- There is no entry at the place looked at. -/
  | outOfRange (place : Nat)

/-- A computation that moves a cursor and may be refused. One that runs out of fuel is `none`. -/
abbrev Walk := ExceptT Fault (StateT Cursor Option)

/-- There is no fuel left. -/
def outOfFuel {α : Type} : Walk α := fun _ => none

/-- Look at the next entry. -/
def current (entries : List Entry) : Walk Entry := do
  let s ← get
  set s.look
  match entries[s.place]? with
  | some entry => return entry
  | none => throw (.outOfRange s.place)

/-- Take the next entry. The end of the text is not left behind. -/
def advance (entries : List Entry) : Walk Entry := do
  let entry ← current entries
  match entry with
  | .token _ => modify Cursor.next
  | .endOfText _ => pure ()
  return entry

/-- Take a closing parenthesis. -/
def close (entries : List Entry) : Walk Unit := do
  match ← current entries with
  | .token t =>
    if t.symbol = .closing then
      let _ ← advance entries
    else throw (.grammar (.notClosing t))
  | .endOfText length => throw (.grammar (.unclosed length))

/-- Read the operand that begins with an entry already taken. Expressions inside it are read by
`inner`, which is told how tightly their operators have to bind. -/
def operand (inner : Nat → Walk Expr) (entries : List Entry) : Entry → Walk Expr
  | .endOfText _ => throw (.grammar .endOfExpression)
  | .token t =>
    match t.symbol with
    | .number spelling => return .number (Symbol.valueOf spelling)
    | .name spelling => return .name spelling
    | .opening => do
      let e ← inner 0
      close entries
      return e
    | .operator op =>
      if op.isSign then do
        let e ← inner signBinding
        let next ← current entries
        if next.symbol? = some (.operator .power) then
          throw (.grammar (.signedBase next.position))
        else return .unary op.symbol e
      else throw (.grammar (.notOperand t))
    | .closing => throw (.grammar (.notOperand t))

/-- One round of the loop behind an operand: go on with an argument, or with an operator that binds
tighter than `binding` and its right operand. -/
def extension (inner : Nat → Walk Expr) (entries : List Entry) (binding : Nat) (left : Expr) :
    Walk (Option Expr) := do
  let next ← current entries
  match next.symbol? with
  | some .opening =>
    let _ ← advance entries
    let inside ← current entries
    if inside.symbol? = some .closing then
      close entries
      return some (.call left .missing)
    else
      let argument ← inner 0
      close entries
      return some (.call left argument)
  | some (.operator op) =>
    if op.binding ≤ binding then return none
    else
      let _ ← advance entries
      let right ← inner op.rightBinding
      return some (.binary op.symbol left right)
  | _ => return none

/-- The loop behind an operand. -/
def extended (inner : Nat → Walk Expr) (entries : List Entry) (binding : Nat) :
    Nat → Expr → Walk Expr
  | 0, _ => outOfFuel
  | fuel + 1, left => do
    match ← extension inner entries binding left with
    | some larger => extended inner entries binding fuel larger
    | none => return left

/-- Read an expression whose operators all bind tighter than `binding`. -/
def expression (entries : List Entry) : (fuel binding : Nat) → Walk Expr
  | 0, _ => outOfFuel
  | fuel + 1, binding => do
    let first ← advance entries
    let left ← operand (expression entries fuel) entries first
    extended (expression entries fuel) entries binding fuel left

/-- Read all entries as one expression. -/
def parse (entries : List Entry) (fuel : Nat) : Walk Expr := do
  let e ← expression entries fuel 0
  match ← current entries with
  | .token t => throw (.grammar (.leftover t))
  | .endOfText _ => return e

/-- From a cursor a walk comes to an end. What it gives and where the cursor then stands is as
`done` says; if it is refused, the fault and the place are as `refused` says. -/
inductive Ends {α : Type} (walk : Walk α) (s : Cursor) (done : α → Cursor → Prop)
    (refused : Fault → Cursor → Prop) : Prop where
  | done {result : α} {last : Cursor} (walks : walk s = some (.ok result, last))
      (holds : done result last)
  | refused {fault : Fault} {last : Cursor} (walks : walk s = some (.error fault, last))
      (holds : refused fault last)

section Walks

variable {α β : Type} {walk : Walk α} {next : α → Walk β} {s t : Cursor} {a : α} {fault : Fault}
  {done : α → Cursor → Prop} {after : β → Cursor → Prop} {refused : Fault → Cursor → Prop}

theorem bind_of_ok (walks : walk s = some (.ok a, t)) : (walk >>= next) s = next a t := by
  change (walk s).bind _ = next a t
  rw [walks]
  rfl

theorem bind_of_error (walks : walk s = some (.error fault, t)) :
    (walk >>= next) s = some (.error fault, t) := by
  change (walk s).bind _ = _
  rw [walks]
  rfl

namespace Ends

theorem pure (holds : done a s) : Ends (pure a) s done refused := .done rfl holds

theorem throw (holds : refused fault s) : Ends (throw fault : Walk α) s done refused :=
  .refused rfl holds

/-- What follows a walk whose result is known. -/
theorem bind_of_ok (walks : walk s = some (.ok a, t)) (on : Ends (next a) t after refused) :
    Ends (walk >>= next) s after refused := by
  cases on with
  | done onward holds => exact .done ((Descent.bind_of_ok walks).trans onward) holds
  | refused onward holds => exact .refused ((Descent.bind_of_ok walks).trans onward) holds

/-- One walk after another: what is refused in the first is refused. -/
theorem bind (first : Ends walk s done refused)
    (on : ∀ a t, done a t → Ends (next a) t after refused) :
    Ends (walk >>= next) s after refused := by
  cases first with
  | done walks holds => exact .bind_of_ok walks (on _ _ holds)
  | refused walks holds => exact .refused (bind_of_error walks) holds

theorem mono {weaker : α → Cursor → Prop} (h : Ends walk s done refused)
    (implies : ∀ a t, done a t → weaker a t) : Ends walk s weaker refused := by
  cases h with
  | done walks holds => exact .done walks (implies _ _ holds)
  | refused walks holds => exact .refused walks holds

/-- What holds of the result of a walk holds of the one it gives. -/
theorem of_walks (h : Ends walk s done refused) (walks : walk s = some (.ok a, t)) : done a t := by
  cases h with
  | done again holds =>
      cases walks.symm.trans again
      exact holds
  | refused again => cases walks.symm.trans again

/-- What is known of a result by other means holds as well. -/
theorem also {known : α → Cursor → Prop} {fails : Fault → Cursor → Prop}
    (h : Ends walk s done refused) (other : Ends walk s known fails) :
    Ends walk s (fun a t => known a t ∧ done a t) refused := by
  cases h with
  | done walks holds => exact .done walks ⟨other.of_walks walks, holds⟩
  | refused walks holds => exact .refused walks holds

end Ends

end Walks

variable {tokens : List Token} {token : Token} {length place : Nat} {entries : List Entry}
  {entry : Entry} {s last : Cursor}

theorem length_entriesOf (tokens : List Token) (length : Nat) :
    (entriesOf tokens length).length = tokens.length + 1 := by
  simp [entriesOf]

/-- The entries before the last are the tokens. -/
theorem getElem?_entriesOf_token_iff :
    (entriesOf tokens length)[place]? = some (.token token) ↔ tokens[place]? = some token := by
  by_cases within : place < tokens.length
  · simp [entriesOf, List.getElem?_append_left, within]
  · have beyond : tokens.length ≤ place := Nat.le_of_not_lt within
    simp [entriesOf, List.getElem?_append_right, beyond, List.getElem?_singleton]

theorem current_eq (found : entries[s.place]? = some entry) :
    current entries s = some (.ok entry, s.look) := by
  change (match entries[s.place]? with
    | some entry => (Pure.pure entry : Walk Entry)
    | none => throw (Fault.outOfRange s.place)) s.look = _
  rw [found]
  rfl

theorem advance_token (found : entries[s.place]? = some (.token token)) :
    advance entries s = some (.ok (.token token), s.look.next) :=
  bind_of_ok (current_eq found)

theorem advance_end (found : entries[s.place]? = some (.endOfText length)) :
    advance entries s = some (.ok (.endOfText length), s.look) :=
  bind_of_ok (current_eq found)

theorem close_closing (found : entries[s.place]? = some (.token token))
    (closes : token.symbol = .closing) :
    close entries s = some (.ok (), s.look.look.next) := by
  rw [close, bind_of_ok (current_eq found)]
  simp only [if_pos closes]
  exact bind_of_ok (advance_token found)

theorem close_token (found : entries[s.place]? = some (.token token))
    (other : token.symbol ≠ .closing) :
    close entries s = some (.error (.grammar (.notClosing token)), s.look) := by
  rw [close, bind_of_ok (current_eq found)]
  simp only [if_neg other]
  rfl

theorem close_end (found : entries[s.place]? = some (.endOfText length)) :
    close entries s = some (.error (.grammar (.unclosed length)), s.look) := by
  rw [close, bind_of_ok (current_eq found)]
  rfl

/-- The cursor stands at an entry, and nothing but entries has been looked at. -/
structure InRange (entries : List Entry) (s : Cursor) : Prop where
  place : s.place < entries.length
  looked : ∀ place ∈ s.looked, place < entries.length

/-- Since `s` the cursor has left at least `gain` entries behind, and it is in range. -/
structure Moved (entries : List Entry) (gain : Nat) (s last : Cursor) : Prop where
  inRange : InRange entries last
  place : s.place + gain ≤ last.place

/-- The tokens make no expression, and the cursor is in range. -/
structure Refused (entries : List Entry) (fault : Fault) (last : Cursor) : Prop where
  inRange : InRange entries last
  grammar : ∃ error, fault = .grammar error

/-- The list does not break off: there is an entry in it, and behind every token another one. -/
structure Terminated (entries : List Entry) : Prop where
  nonempty : 0 < entries.length
  behind {place : Nat} {token : Token} (found : entries[place]? = some (.token token)) :
    place + 1 < entries.length

theorem terminated_entriesOf (tokens : List Token) (length : Nat) :
    Terminated (entriesOf tokens length) where
  nonempty := by simp [length_entriesOf]
  behind {place token} found := by
    obtain ⟨within, -⟩ := List.getElem?_eq_some_iff.mp (getElem?_entriesOf_token_iff.mp found)
    simpa [length_entriesOf] using within

namespace InRange

theorem start (terminated : Terminated entries) : InRange entries .start where
  place := terminated.nonempty
  looked := List.forall_mem_nil _

theorem look (h : InRange entries s) : InRange entries s.look where
  place := h.place
  looked := List.forall_mem_cons.mpr ⟨h.place, h.looked⟩

theorem next (h : InRange entries s) (terminated : Terminated entries)
    (found : entries[s.place]? = some (.token token)) : InRange entries s.next where
  place := terminated.behind found
  looked := h.looked

theorem refused (h : InRange entries s) (error : GrammarError) :
    Refused entries (.grammar error) s := ⟨h, error, rfl⟩

/-- In range there is something to look at. -/
theorem exists_entry (h : InRange entries s) : ∃ entry, entries[s.place]? = some entry :=
  ⟨_, List.getElem?_eq_getElem h.place⟩

/-- So to look at it succeeds. -/
theorem bind_current {α : Type} {walk : Entry → Walk α} {done : α → Cursor → Prop}
    {refused : Fault → Cursor → Prop} (h : InRange entries s)
    (on : ∀ entry, entries[s.place]? = some entry → Ends (walk entry) s.look done refused) :
    Ends (current entries >>= walk) s done refused := by
  obtain ⟨entry, found⟩ := h.exists_entry
  exact .bind_of_ok (current_eq found) (on entry found)

end InRange

theorem Moved.mono {more less : Nat} (h : Moved entries more s last) (le : less ≤ more) :
    Moved entries less s last where
  inRange := h.inRange
  place := Nat.le_trans (Nat.add_le_add_left le s.place) h.place

theorem Moved.trans {first second : Nat} {t : Cursor} (h : Moved entries first s t)
    (on : Moved entries second t last) : Moved entries (first + second) s last where
  inRange := on.inRange
  place := by
    have before := h.place
    have after := on.place
    omega

/-- Expressions that begin at a place, or behind it, are read or refused by `inner`. -/
def EndsFrom (entries : List Entry) (inner : Nat → Walk Expr) (place : Nat) : Prop :=
  ∀ binding s, InRange entries s → place ≤ s.place →
    Ends (inner binding) s (fun _ => Moved entries 1 s) (Refused entries)

section Calls

variable {inner : Nat → Walk Expr} {fuel : Nat} (terminated : Terminated entries)

theorem EndsFrom.mono {later : Nat} (ends : EndsFrom entries inner place) (le : place ≤ later) :
    EndsFrom entries inner later :=
  fun binding s h behind => ends binding s h (Nat.le_trans le behind)

include terminated

theorem ends_close (h : InRange entries s) :
    Ends (close entries) s (fun _ => Moved entries 1 s) (Refused entries) := by
  obtain ⟨entry, found⟩ := h.exists_entry
  cases entry with
  | token t =>
      by_cases closes : t.symbol = .closing
      · exact .done (close_closing found closes) ⟨h.look.look.next terminated found, Nat.le_refl _⟩
      · exact .refused (close_token found closes) (h.look.refused _)
  | endOfText => exact .refused (close_end found) (h.look.refused _)

/-- An operand is read or refused if the expressions in it are. -/
theorem ends_operand (ends : EndsFrom entries inner s.place) (h : InRange entries s)
    (first : Token) :
    Ends (operand inner entries (.token first)) s (fun _ => Moved entries 0 s)
      (Refused entries) := by
  have here (binding : Nat) := ends binding s h (Nat.le_refl _)
  obtain ⟨symbol, position⟩ := first
  cases symbol with
  | number | name => exact .pure ⟨h, Nat.le_refl _⟩
  | closing => exact .throw (h.refused _)
  | opening =>
      refine (here 0).bind fun e t read => ?_
      refine (ends_close terminated read.inRange).bind fun _ last closed => ?_
      exact .pure ((read.trans closed).mono (Nat.zero_le _))
  | operator op =>
      dsimp only [operand]
      split
      · refine (here signBinding).bind fun e t read => ?_
        refine read.inRange.bind_current fun next found => ?_
        split
        · exact .throw (read.inRange.look.refused _)
        · exact .pure ⟨read.inRange.look, (read.mono (Nat.zero_le _)).place⟩
      · exact .throw (h.refused _)

/-- A round of the loop that goes on takes at least one token. -/
theorem ends_extension (ends : EndsFrom entries inner (s.place + 1)) (h : InRange entries s)
    (binding : Nat) (left : Expr) :
    Ends (extension inner entries binding left) s
      (fun larger => Moved entries (if larger.isSome then 1 else 0) s) (Refused entries) := by
  have stays : Moved entries 0 s s.look := ⟨h.look, Nat.le_refl _⟩
  refine h.bind_current fun next found => ?_
  cases next with
  | endOfText => exact .pure stays
  | token next =>
      obtain ⟨symbol, position⟩ := next
      have taken : Moved entries 1 s s.look.look.next :=
        ⟨h.look.look.next terminated found, Nat.le_refl _⟩
      have behind (binding : Nat) (t : Cursor) (moved : Moved entries 1 s t) :=
        ends binding t moved.inRange moved.place
      cases symbol with
      | number | name | closing => exact .pure stays
      | operator op =>
          dsimp only [Entry.symbol?]
          split
          · exact .pure stays
          · refine .bind_of_ok (advance_token found) ?_
            refine (behind op.rightBinding _ taken).bind fun right last read => ?_
            exact .pure ((taken.trans read).mono (Nat.le_add_left 1 1))
      | opening =>
          refine .bind_of_ok (advance_token found) ?_
          refine taken.inRange.bind_current fun inside _ => ?_
          have inside : Moved entries 1 s s.look.look.next.look := ⟨taken.inRange.look, taken.place⟩
          split
          · refine (ends_close terminated inside.inRange).bind fun _ last closed => ?_
            exact .pure ((inside.trans closed).mono (Nat.le_add_left 1 1))
          · refine (behind 0 _ inside).bind fun argument t read => ?_
            refine (ends_close terminated read.inRange).bind fun _ last closed => ?_
            exact .pure (((inside.trans read).trans closed).mono (Nat.le_add_left 1 2))

/-- There are no more rounds than entries, for each of them takes a token. -/
theorem ends_extended (ends : EndsFrom entries inner (s.place + 1)) (h : InRange entries s)
    (enough : entries.length ≤ s.place + fuel) (binding : Nat) (left : Expr) :
    Ends (extended inner entries binding fuel left) s (fun _ => Moved entries 0 s)
      (Refused entries) := by
  induction fuel generalizing s left with
  | zero => exact absurd h.place (Nat.not_lt_of_le enough)
  | succ fuel ih =>
      refine (ends_extension terminated ends h binding left).bind fun larger t moved => ?_
      cases larger with
      | none => exact .pure moved
      | some larger =>
          -- The round has taken a token, so one less fuel is enough for what is behind it.
          have further : s.place + 1 ≤ t.place := moved.place
          have rest := ih (ends.mono (Nat.le_succ_of_le further)) moved.inRange (by omega) larger
          exact rest.mono fun _ last on => (moved.trans on).mono (Nat.zero_le _)

/-- Expressions are read or refused wherever they begin, and take at least one token, since no
operand begins at the end of the text. Calls are not nested deeper than there are entries. -/
theorem endsFrom_expression (enough : entries.length ≤ place + fuel) :
    EndsFrom entries (expression entries fuel) place := by
  induction fuel generalizing place with
  | zero =>
      intro binding s h behind
      exact absurd h.place (Nat.not_lt_of_le (Nat.le_trans enough behind))
  | succ fuel ih =>
      intro binding s h behind
      -- Every call inside this one begins behind its first token.
      have inner : EndsFrom entries (expression entries fuel) (s.place + 1) := ih (by omega)
      obtain ⟨entry, found⟩ := h.exists_entry
      cases entry with
      | endOfText =>
          refine .bind_of_ok (advance_end found) ?_
          exact .refused rfl (h.look.refused _)
      | token first =>
          have taken : Moved entries 1 s s.look.next :=
            ⟨h.look.next terminated found, Nat.le_refl _⟩
          refine .bind_of_ok (advance_token found) ?_
          refine (ends_operand terminated inner taken.inRange first).bind fun left t read => ?_
          have before := taken.trans read
          have further : s.place + 1 ≤ t.place := before.place
          have enough : entries.length ≤ t.place + fuel := by omega
          have later := inner.mono (Nat.le_succ_of_le further)
          have rest := ends_extended terminated later read.inRange enough binding left
          exact rest.mono fun _ last on => before.trans on

/-- All entries are read as one expression, or refused. -/
theorem ends_parse (enough : entries.length ≤ fuel) :
    Ends (parse entries fuel) .start (fun _ => InRange entries) (Refused entries) := by
  have ends : EndsFrom entries (expression entries fuel) 0 :=
    endsFrom_expression terminated (Nat.le_add_left_of_le enough)
  refine (ends 0 .start (.start terminated) (Nat.le_refl 0)).bind fun e t read => ?_
  refine read.inRange.bind_current fun entry found => ?_
  cases entry with
  | token => exact .throw (read.inRange.look.refused _)
  | endOfText => exact .pure read.inRange.look

end Calls

end Descent

end Keypad
