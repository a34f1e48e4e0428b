import Keypad.Proofs.Commits
import Keypad.Proofs.NumberTokens
import Keypad.Proofs.Preview

/-!
# Key strokes

When a session does nothing but press keys, its texts are made of strokes: a digit, a point, a
constant, a parenthesis, an operator, or the name of a function with the parenthesis that it opens
(`Keyed`). Numbers come to a text whole, from the memory or from a commit, but they are written
with such characters too.

All that an action can make of a text is listed once (`Edit`), and every invariant of the pending
text is an induction over it (`PressedWithin.text_induction`). The first is that a text is made of
strokes. As no stroke ends in a letter of a function's name, it can be told from the end of a text
which stroke was the last, and to take it back is to undo it (`Pressed.backspace_undoes`).
-/

namespace Keypad

open Double Decimal Calculator

/-- What the keys write, each in one stroke. -/
def Key.strokes : List Text := digits ++ constants ++ parentheses ++ operators ++ functions

namespace Action

/-- An action that a key has: it inserts nothing but what the keys write. -/
def IsKey : Action → Prop
  | .input text => text ∈ Key.digits ++ Key.constants ++ Key.parentheses
  | .operator op => op ∈ Key.operators ++ Key.functions
  | _ => True

variable {label text op : Text} {action : Action}

theorem mem_of_lookup {α : Type} {key : Text} {value : α} {entries : List (Text × α)}
    (found : entries.lookup key = some value) : (key, value) ∈ entries := by
  obtain ⟨before, after, rfl, _⟩ := List.lookup_eq_some_iff.mp found
  exact List.mem_append_right before List.mem_cons_self

/-- The action of a label is the action of a key. -/
theorem isKey_of_ofLabel (found : ofLabel label = .ok action) : action.IsKey := by
  have constants : ∀ entry ∈ Key.constantLabels, (Action.input entry.2).IsKey := by
    unfold IsKey
    decide
  have operators : ∀ entry ∈ Key.operatorLabels ++ Key.functionLabels,
      (Action.operator entry.2).IsKey := by
    unfold IsKey
    decide
  have commands : ∀ entry ∈ Key.commandLabels, entry.2.IsKey := by
    simp [Key.commandLabels, IsKey]
  unfold ofLabel at found
  dsimp only at found
  split at found
  · rename_i input
    simp only [Bool.or_eq_true, List.contains_iff_mem] at input
    cases found
    rcases input with digit | parenthesis
    · exact List.mem_append_left _ (List.mem_append_left _ digit)
    · exact List.mem_append_right _ parenthesis
  · split at found
    · rename_i entry
      cases found
      exact constants _ (mem_of_lookup entry)
    · split at found
      · rename_i entry
        cases found
        exact operators _ (List.mem_append_left _ (mem_of_lookup entry))
      · split at found
        · rename_i entry
          cases found
          exact operators _ (List.mem_append_right _ (mem_of_lookup entry))
        · split at found
          · rename_i entry
            cases found
            exact commands _ (mem_of_lookup entry)
          · cases found

theorem IsKey.mem_of_input (h : (Action.input text).IsKey) : text ∈ Key.strokes :=
  List.mem_append_left _ (List.mem_append_left _ h)

theorem IsKey.mem_of_operator (h : (Action.operator op).IsKey) : op ∈ Key.strokes := by
  change op ∈ Key.operators ++ Key.functions at h
  unfold Key.strokes
  rw [List.append_assoc]
  exact List.mem_append_right _ h

end Action

/-- A text made of strokes. -/
inductive Keyed : Text → Prop where
  | nothing : Keyed []
  | stroke {key rest : Text} (mem : key ∈ Key.strokes) (others : Keyed rest) : Keyed (key ++ rest)

namespace Keyed

variable {a b key text : Text}

theorem single (mem : key ∈ Key.strokes) : Keyed key := by
  rw [← List.append_nil key]
  exact .stroke mem .nothing

theorem append (ha : Keyed a) (hb : Keyed b) : Keyed (a ++ b) := by
  induction ha with
  | nothing => exact hb
  | stroke mem _ ih =>
      rw [List.append_assoc]
      exact .stroke mem ih

/-- A text is empty or has a last stroke. -/
theorem eq_nil_or_append (h : Keyed text) :
    text = [] ∨ ∃ before key, Keyed before ∧ key ∈ Key.strokes ∧ text = before ++ key := by
  induction h with
  | nothing => exact .inl rfl
  | @stroke key rest mem others ih =>
      rcases ih with rfl | ⟨before, last, start, mem', rfl⟩
      · exact .inr ⟨[], key, .nothing, mem, by simp⟩
      · exact .inr ⟨key ++ before, last, .stroke mem start, mem', by simp⟩

theorem stroke_ne_nil (mem : key ∈ Key.strokes) : key ≠ [] := by
  revert key
  decide

/-- A text ends as one of the strokes ends. -/
theorem exists_getLast? {c : Char} (h : Keyed text) (last : text.getLast? = some c) :
    ∃ key ∈ Key.strokes, key.getLast? = some c := by
  rcases h.eq_nil_or_append with rfl | ⟨before, key, _, mem, rfl⟩
  · cases last
  · rw [List.getLast?_append_of_ne_nil _ (stroke_ne_nil mem)] at last
    exact ⟨key, mem, last⟩

theorem mem_strokes_of_isDigit {c : Char} (h : isDigit c = true) : [c] ∈ Key.strokes := by
  obtain ⟨least, most⟩ := Lexer.toNat_of_isDigit h
  have code := Char.ofNat_toNat c
  generalize c.toNat = n at least most code
  subst code
  interval_cases n
  all_goals decide

/-- Every character of a written number is a stroke. -/
theorem of_isNumeric (h : IsNumeric text) : Keyed text := by
  induction text with
  | nil => exact .nothing
  | cons c rest ih =>
      have others := ih fun d mem => h d (List.mem_cons_of_mem c mem)
      have mem : [c] ∈ Key.strokes := by
        rcases h c List.mem_cons_self with digit | rfl | rfl | rfl | rfl
        · exact mem_strokes_of_isDigit digit
        all_goals decide
      exact .stroke mem others

end Keyed

namespace Keyed

variable {key text : Text}

/-- No stroke ends as the name of a function does, so a text does not end in a name. -/
theorem eq_of_function_suffix {word : Text} (h : Keyed text) (mem : key ∈ Key.strokes)
    (function : word ∈ Key.functions) (ends : word <:+ text ++ key) : word = key := by
  have inside : ∀ word ∈ Key.functions, ∀ key ∈ Key.strokes, word <:+ key → word = key := by
    decide
  have around : ∀ word ∈ Key.functions, ∀ key ∈ Key.strokes, key <:+ word → word ≠ key →
      key = ['('] := by
    decide
  have names : ∀ word ∈ Key.functions, ∃ name d, word = name ++ [d] ++ ['('] ∧
      ∀ key ∈ Key.strokes, key.getLast? ≠ some d := by
    intro word mem
    refine ⟨word.dropLast.dropLast, word.dropLast.getLastD '(', ?_⟩
    revert word
    decide
  by_contra other
  rcases List.suffix_or_suffix_of_suffix ends (List.suffix_append text key) with le | le
  · exact other (inside word function key mem le)
  · obtain rfl := around word function key mem le other
    obtain ⟨name, d, rfl, last⟩ := names word function
    obtain ⟨front, whole⟩ := ends
    rw [← List.append_assoc, List.append_left_inj] at whole
    obtain ⟨stroke, written, same⟩ := h.exists_getLast? (c := d) (by simp [← whole])
    exact last stroke written same

/-- A stroke is the name of a function, or one character. -/
theorem eq_singleton (mem : key ∈ Key.strokes) (other : key ∉ Key.functions) : ∃ c, key = [c] := by
  have all : ∀ key ∈ Key.strokes, key ∉ Key.functions → key.length = 1 := by decide
  exact List.length_eq_one_iff.mp (all key mem other)

/-- To take back the last stroke leaves what was written before. -/
theorem withoutLast_append (h : Keyed text) (mem : key ∈ Key.strokes) :
    withoutLast (text ++ key) = text := by
  unfold withoutLast
  split
  · rename_i word found
    have ends : word <:+ text ++ key :=
      List.isSuffixOf_iff_suffix.mp (by simpa using List.find?_some found)
    rw [h.eq_of_function_suffix mem (List.mem_of_find?_eq_some found) ends]
    simp
  · rename_i none
    have other : key ∉ Key.functions := by
      intro function
      refine List.find?_eq_none.mp none key function ?_
      exact List.isSuffixOf_iff_suffix.mpr (List.suffix_append text key)
    obtain ⟨c, rfl⟩ := eq_singleton mem other
    exact List.dropLast_concat

protected theorem withoutLast (h : Keyed text) : Keyed (withoutLast text) := by
  rcases h.eq_nil_or_append with rfl | ⟨before, key, start, mem, rfl⟩
  · exact .nothing
  · rw [start.withoutLast_append mem]
    exact start

/-- Of an operator between operands the whole stroke is one character. -/
theorem dropLast (h : Keyed text) (binary : endsInBinary text = true) : Keyed text.dropLast := by
  have all : ∀ key ∈ Key.strokes, endsInBinary key = true → key ∉ Key.functions := by decide
  rcases h.eq_nil_or_append with rfl | ⟨before, key, start, mem, rfl⟩
  · exact .nothing
  · have last : (before ++ key).getLast? = key.getLast? :=
      List.getLast?_append_of_ne_nil _ (stroke_ne_nil mem)
    have own : endsInBinary key = true := by
      rwa [endsInBinary, last] at binary
    obtain ⟨c, rfl⟩ := eq_singleton mem (all key mem own)
    rw [List.dropLast_concat]
    exact start

protected theorem withOperator {op : Text} (h : Keyed text) (mem : op ∈ Key.strokes) :
    Keyed (withOperator text op) := by
  unfold Calculator.withOperator
  split
  · exact .nothing
  · split
    · rename_i replaces
      rw [Bool.and_eq_true] at replaces
      exact (h.dropLast replaces.1).append (.single mem)
    · exact h.append (.single mem)

protected theorem withSmartParenthesis (h : Keyed text) : Keyed (withSmartParenthesis text) := by
  unfold Calculator.withSmartParenthesis
  dsimp only
  split
  · exact h.append (.single (by decide))
  · exact h.append (.single (by decide))

protected theorem withSignToggled (h : Keyed text) : Keyed (withSignToggled text) := by
  unfold Calculator.withSignToggled
  split
  · rename_i rest
    have minus : ∀ key ∈ Key.strokes, key.head? = some '-' → key = ['-'] := by decide
    generalize whole : '-' :: rest = start at h
    cases h with
    | nothing => cases whole
    | @stroke key others mem written =>
        obtain ⟨d, tail, rfl⟩ := List.exists_cons_of_ne_nil (stroke_ne_nil mem)
        obtain ⟨rfl, same⟩ := List.cons.inj whole
        cases minus _ mem rfl
        rw [same]
        exact written
  · have minus : ['-'] ∈ Key.strokes := by decide
    exact .stroke minus h

end Keyed

/-- A number on the display: perhaps a minus sign, then a digit, then what numbers are written
with. -/
structure IsShown (text : Text) : Prop where
  numeric : IsNumeric text
  /-- A digit stands at the beginning or behind a minus sign. -/
  opens : ∃ d rest, isDigit d = true ∧ (text = d :: rest ∨ text = '-' :: d :: rest)

theorem isNumeric_write {digits : Text} (h : IsDigits digits) (nonempty : digits ≠ [])
    (lead : ℤ) : IsNumeric (NumberStyle.display.write digits lead) := by
  unfold NumberStyle.write
  split
  · exact isNumeric_of_isPlain
      (NumberStyle.plain_spec NumberStyle.isNeutral_display h nonempty lead).1
  · obtain ⟨mantissa, mark, size, whole, plain, _, marks, power, _⟩ :=
      NumberStyle.display.scientific_eq nonempty h lead
    rw [whole]
    refine (isNumeric_of_isPlain plain).append (((isNumeric_of_isPlain power).cons ?_).cons ?_)
    · rcases marks with rfl | rfl <;> simp
    · simp

theorem isShown_numberText {v : Float} (finite : v.isFinite = true) : IsShown (numberText v) := by
  rw [isFinite_iff] at finite
  unfold numberText
  dsimp only
  split
  · exact ⟨isNumeric_of_isPlain rfl, '0', [], rfl, .inl rfl⟩
  · rename_i nonzero
    have digits := isDigits_digits (shortest (index v))
    have nonempty := digits_ne_nil (coefficient_shortest_ne_zero nonzero finite.le)
    have numeric := isNumeric_write digits nonempty (shortest (index v)).lead
    obtain ⟨d, rest, begins, digit⟩ := NumberStyle.write_eq_cons .display nonempty digits
      (shortest (index v)).lead
    split
    · exact ⟨numeric.cons (by simp), d, rest, digit, .inr (congrArg _ begins)⟩
    · exact ⟨numeric, d, rest, digit, .inl begins⟩

theorem isShown_resultText {v : Float} (finite : v.isFinite = true) : IsShown (resultText v) := by
  rcases resultText_cases ((isFinite_iff v).mp finite) with zero | ⟨w, shown, _, _, bounded⟩
  · rw [zero]
    exact ⟨isNumeric_of_isPlain rfl, '0', [], rfl, .inl rfl⟩
  · rw [shown]
    exact isShown_numberText ((isFinite_iff w).mpr bounded)

/-- All that an action can make of the pending text. -/
inductive Edit (text : Text) : Action → Text → Prop where
  | kept (action : Action) : Edit text action text
  | emptied (action : Action) : Edit text action []
  | inserted (key : Text) : Edit text (.input key) (text ++ key)
  | operated (op : Text) : Edit text (.operator op) (withOperator text op)
  | parenthesised : Edit text .smartParenthesis (withSmartParenthesis text)
  | undone : Edit text .backspace (withoutLast text)
  | toggled : Edit text .toggleSign (withSignToggled text)
  | recalled {number : Text} (shown : IsShown number) : Edit text .memoryRecall (text ++ number)
  /-- A number takes the place of the text. -/
  | entered {number : Text} (shown : IsShown number) : Edit text .equals number

variable {c : Calculator} {text after : Text} {action : Action}

/-- A handler edits the pending text. -/
theorem edit_handle (c : Calculator) (action : Action) :
    Edit c.pending.text action (c.handle action).after.pending.text := by
  cases action with
  | input key => exact .inserted key
  | operator op => exact .operated op
  | smartParenthesis => exact .parenthesised
  | clear => exact .emptied _
  | backspace => exact .undone
  | toggleSign => exact .toggled
  | toggleAngle | memoryClear => exact .kept _
  | memoryAdd | memorySubtract =>
      unfold Calculator.handle Calculator.updateMemory
      dsimp only
      split <;> exact .kept _
  | memoryRecall =>
      unfold Calculator.handle numberText?
      dsimp only
      split
      · rename_i number shown
        split at shown
        · rename_i finite
          cases shown
          exact .recalled (isShown_numberText finite)
        · cases shown
      · exact .kept _
  | equals =>
      change Edit _ _ c.commit.after.pending.text
      obtain ⟨_, same⟩ | ⟨_, kind, failed⟩ | ⟨_, _, _, _, early⟩ |
        ⟨text, value, commits, _, entered⟩ := c.commit_cases
      · rw [same]
        exact .kept _
      · rw [failed]
        exact .emptied _
      · rw [early]
        exact .kept _
      · rw [entered]
        exact .entered (isShown_resultText (isFinite_of_resultOf commits.2.2))

/-- What keys make of a text that is made of strokes is made of strokes. -/
theorem Edit.keyed (edit : Edit text action after) (key : action.IsKey) (h : Keyed text) :
    Keyed after := by
  cases edit with
  | kept => exact h
  | emptied => exact .nothing
  | inserted => exact h.append (.single key.mem_of_input)
  | operated => exact h.withOperator key.mem_of_operator
  | parenthesised => exact h.withSmartParenthesis
  | undone => exact h.withoutLast
  | toggled => exact h.withSignToggled
  | recalled shown => exact h.append (.of_isNumeric shown.numeric)
  | entered shown => exact .of_isNumeric shown.numeric

namespace Session

/-- The calculators that a session can lead to in which nothing is done but press keys, and those
only where they are allowed. A session of this kind may press keys with any label, those of no key
included. -/
inductive PressedWithin (allowed : Calculator → Text → Prop) : Calculator → Prop where
  | start (unit : AngleUnit) (clock : Int) : PressedWithin allowed (.new unit clock)
  | press {c : Calculator} (before : PressedWithin allowed c) (label : Text)
      (fits : allowed c label) : PressedWithin allowed (attempt c (.press label)).after
  | wait {c : Calculator} (before : PressedWithin allowed c) (clock : Int) :
      PressedWithin allowed { c with clock := clock }

/-- The calculators that any keys can lead to. -/
abbrev Pressed : Calculator → Prop := PressedWithin fun _ _ => True

variable {allowed : Calculator → Text → Prop} {label : Text}

theorem PressedWithin.reachable (h : PressedWithin allowed c) : Reachable c := by
  induction h with
  | start unit clock => exact .start unit clock
  | press _ label _ ih => exact ih.step (.press label)
  | wait _ clock ih => exact ih.wait clock

/-- A session within narrower limits is one within wider ones. -/
theorem PressedWithin.mono {wider : Calculator → Text → Prop} (h : PressedWithin allowed c)
    (within : ∀ c label, allowed c label → wider c label) : PressedWithin wider c := by
  induction h with
  | start unit clock => exact .start unit clock
  | press _ label fits ih => exact ih.press label (within _ _ fits)
  | wait _ clock ih => exact ih.wait clock

/-- To press more keys, one after the other. -/
theorem Pressed.run (h : Pressed c) (labels : List Text) : Pressed (run c (labels.map .press)) := by
  induction labels generalizing c with
  | nil => exact h
  | cons label rest ih => exact ih (.press h label trivial)

theorem pending_press (acts : Action.ofLabel label = .ok action) :
    (attempt c (.press label)).after.pending = (c.handle action).after.pending := by
  rw [attempt_of_action (action?_press acts)]
  obtain ⟨preview, same⟩ := c.after_perform action
  rw [same]

/-- A key edits the pending text. -/
theorem edit_press (acts : Action.ofLabel label = .ok action) :
    Edit c.pending.text action (attempt c (.press label)).after.pending.text := by
  rw [pending_press acts]
  exact edit_handle c action

theorem attempt_press_of_unknown {e : KeyError} (unknown : Action.ofLabel label = .error e) :
    attempt c (.press label) = ⟨c, some (.unknown e)⟩ := by
  have none : (Step.press label).action? = .error e := by
    change some <$> Action.ofLabel label = _
    rw [unknown]
    rfl
  unfold attempt
  rw [none]

/-- What holds of the empty text, and of whatever an allowed key makes of a text of which it holds,
holds of every pending text. -/
theorem PressedWithin.text_induction {P : Text → Prop} (h : PressedWithin allowed c)
    (empty : P [])
    (edits : ∀ {c label action after}, allowed c label → Action.ofLabel label = .ok action →
      Edit c.pending.text action after → P c.pending.text → P after) : P c.pending.text := by
  induction h with
  | start unit clock => exact empty
  | @press c _ label fits ih =>
      cases acts : Action.ofLabel label with
      | error e =>
          rw [attempt_press_of_unknown acts]
          exact ih
      | ok action => exact edits fits acts (edit_press acts) ih
  | wait _ _ ih => exact ih

/-- The pending text is made of strokes. -/
theorem PressedWithin.keyed (h : PressedWithin allowed c) : Keyed c.pending.text :=
  h.text_induction .nothing fun _ acts edit keyed => edit.keyed (Action.isKey_of_ofLabel acts) keyed

theorem PressedWithin.keyed_of_typed (h : PressedWithin allowed c)
    (pending : c.pending = .typed text) : Keyed text := by
  have keyed := h.keyed
  rwa [pending] at keyed

end Session

namespace Calculator

/-- Whether an action adds a stroke to a text and does nothing else to it: an operator must be
accepted, and must not take the place of another. -/
def AddsStroke (text : Text) : Action → Prop
  | .input _ | .smartParenthesis => True
  | .operator op => (text = [] → op ∈ starters) ∧
      ¬ (endsInBinary text = true ∧ op ∈ Key.binaryOperators)
  | _ => False

variable {key : Text}

theorem withOperator_of_addsStroke {op : Text} (adds : AddsStroke text (.operator op)) :
    withOperator text op = text ++ op := by
  obtain ⟨accepted, appended⟩ := adds
  unfold withOperator
  rw [if_neg, if_neg]
  · simpa using appended
  · simpa using accepted

theorem isPrefix_withoutLast (text : Text) : withoutLast text <+: text := by
  unfold withoutLast
  split
  · exact List.take_prefix _ _
  · exact List.dropLast_prefix _

theorem exists_withSmartParenthesis (text : Text) :
    ∃ key ∈ Key.parentheses, withSmartParenthesis text = text ++ key := by
  unfold withSmartParenthesis
  dsimp only
  split
  · exact ⟨_, by decide, rfl⟩
  · exact ⟨_, by decide, rfl⟩

/-- What an action does that adds a stroke. -/
theorem handle_of_addsStroke (isKey : action.IsKey) (pending : c.pending = .typed text)
    (adds : AddsStroke text action) :
    ∃ key ∈ Key.strokes, c.handle action = ⟨c.type (text ++ key), none⟩ := by
  have typed : c.pending.text = text := by rw [pending]; rfl
  cases action with
  | input key =>
      refine ⟨key, isKey.mem_of_input, ?_⟩
      rw [← typed]
      rfl
  | operator op =>
      refine ⟨op, isKey.mem_of_operator, ?_⟩
      rw [← withOperator_of_addsStroke adds, ← typed]
      rfl
  | smartParenthesis =>
      obtain ⟨key, mem, added⟩ := exists_withSmartParenthesis text
      have stroke : (Action.input key).IsKey := List.mem_append_right _ mem
      refine ⟨key, stroke.mem_of_input, ?_⟩
      rw [← added, ← typed]
      rfl
  | _ => exact adds.elim

/-- To type a stroke and to take it back is to type the text before. -/
theorem perform_backspace (h : Keyed text) (mem : key ∈ Key.strokes) :
    (c.type (text ++ key)).refresh.perform .backspace = ⟨(c.type text).refresh, none⟩ := by
  have handled : (c.type (text ++ key)).refresh.handle .backspace =
      ⟨(c.type (text ++ key)).refresh.type (withoutLast (text ++ key)), none⟩ := rfl
  rw [h.withoutLast_append mem] at handled
  have performed := perform_of_handle handled
  exact performed

/-- A calculator whose preview is fresh is as if its text had just been typed. -/
theorem refresh_type (pending : c.pending = .typed text) (fresh : c.preview = c.currentPreview) :
    (c.type text).refresh = c := by
  have typed : c.type text = c := by
    unfold type
    rw [← pending]
  rw [typed, refresh, ← fresh]

end Calculator

namespace Session

variable {label back : Text}

/-- A key that adds a stroke to the expression adds nothing else, and backspace undoes it: the
calculator is what it was before, with its preview, its angle unit, its memory and its history. -/
theorem Pressed.backspace_undoes (h : Pressed c) (pending : c.pending = .typed text)
    (acts : Action.ofLabel label = .ok action) (adds : AddsStroke text action)
    (deletes : Action.ofLabel back = .ok .backspace) :
    (∃ key, key ≠ [] ∧ (attempt c (.press label)).fault.isNone ∧
      (attempt c (.press label)).after.pending = .typed (text ++ key)) ∧
    (attempt (attempt c (.press label)).after (.press back)).fault.isNone ∧
    (attempt (attempt c (.press label)).after (.press back)).after = c := by
  have keyed := PressedWithin.keyed_of_typed h pending
  obtain ⟨key, mem, handled⟩ :=
    handle_of_addsStroke (Action.isKey_of_ofLabel acts) pending adds
  have fresh := (PressedWithin.reachable h).preview_eq
  rw [attempt_of_action (action?_press acts), perform_of_handle handled]
  rw [attempt_of_action (action?_press deletes), perform_backspace keyed mem,
    refresh_type pending fresh]
  exact ⟨⟨key, Keyed.stroke_ne_nil mem, rfl, rfl⟩, rfl, rfl⟩

/-- A root is opened behind a minus sign and taken back with both its characters. -/
theorem backspace_undoes_root :
    let c := (attempt (.new .degrees 1000) (.press ['-'])).after
    (attempt c (.press ['√'])).after.pending = .typed "-√(".toList ∧
      (attempt (attempt c (.press ['√'])).after (.press "DEL".toList)).after = c := by
  intro c
  have pressed : Pressed c := .press (.start .degrees 1000) ['-'] trivial
  have pending : c.pending = .typed ['-'] := rfl
  have acts : Action.ofLabel ['√'] = .ok (.operator "√(".toList) := rfl
  have adds : AddsStroke ['-'] (.operator "√(".toList) :=
    ⟨fun empty => absurd empty (by decide), by decide⟩
  have deletes : Action.ofLabel "DEL".toList = .ok .backspace := rfl
  exact ⟨rfl, (pressed.backspace_undoes pending acts adds deletes).2.2⟩

end Session

end Keypad
