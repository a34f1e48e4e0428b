import Keypad.Proofs.Comparisons
import Keypad.Proofs.Openings

/-!
# Toggling the sign

The sign key looks at nothing but the first character: a minus sign at the beginning is taken away,
and one is put there otherwise. So to press it twice changes nothing unless the text begins with two
minus signs, of which the first press takes one and the second the other.

A second minus sign comes to stand behind the first in one way only, when a negative number is
recalled onto a minus sign that stands alone, as long as no other operator is pressed there either
(`Overtakes`).
-/

namespace Keypad

open Calculator Decimal Double

variable {a b op text after : Text} {c : Calculator} {action : Action} {label : Text}

/-- Whether a text begins with two minus signs. -/
def DoubleSigned (text : Text) : Prop := ['-', '-'] <+: text

instance (text : Text) : Decidable (DoubleSigned text) :=
  inferInstanceAs (Decidable (['-', '-'] <+: text))

theorem doubleSigned_cons_iff {d : Char} {rest : Text} :
    DoubleSigned (d :: rest) ↔ d = '-' ∧ ['-'] <+: rest := by
  unfold DoubleSigned
  rw [List.cons_prefix_cons, eq_comm]

theorem minus_prefix_cons_iff {d : Char} {rest : Text} : ['-'] <+: d :: rest ↔ d = '-' := by
  rw [List.cons_prefix_cons, eq_comm, and_iff_left List.nil_prefix]

theorem withSignToggled_cons_of_ne {d : Char} {rest : Text} (other : d ≠ '-') :
    withSignToggled (d :: rest) = '-' :: d :: rest := by
  unfold withSignToggled
  split
  · rename_i same
    cases same
    exact absurd rfl other
  · rfl

/-- Two presses of the sign key cancel out unless the text begins with two minus signs. -/
theorem withSignToggled_withSignToggled_iff :
    withSignToggled (withSignToggled text) = text ↔ ¬ DoubleSigned text := by
  match text with
  | [] => exact iff_of_true rfl (by decide)
  | d :: rest =>
      rw [doubleSigned_cons_iff]
      by_cases minus : d = '-'
      · obtain rfl := minus
        change withSignToggled rest = '-' :: rest ↔ _
        cases rest with
        | nil => exact iff_of_true rfl (by decide)
        | cons e rest =>
            rw [minus_prefix_cons_iff]
            by_cases second : e = '-'
            · obtain rfl := second
              refine iff_of_false (fun same => ?_) (by simp)
              change rest = _ at same
              exact absurd (congrArg List.length same) (by simp; omega)
            · exact iff_of_true (withSignToggled_cons_of_ne second) (by simp [second])
      · rw [withSignToggled_cons_of_ne minus]
        exact iff_of_true rfl (by simp [minus])

/-- Where two texts meet there is no pair of minus signs unless both of them are there. -/
theorem not_doubleSigned_append (ha : ¬ DoubleSigned a) (hb : ¬ DoubleSigned b)
    (meets : a = ['-'] → ¬ ['-'] <+: b) : ¬ DoubleSigned (a ++ b) := by
  match a with
  | [] => exact hb
  | [d] =>
      rw [List.singleton_append, doubleSigned_cons_iff]
      rintro ⟨rfl, minus⟩
      exact meets rfl minus
  | d :: e :: rest =>
      rw [List.cons_append, doubleSigned_cons_iff, List.cons_append]
      rintro ⟨rfl, minus⟩
      refine ha (doubleSigned_cons_iff.mpr ⟨rfl, ?_⟩)
      obtain ⟨rfl, _⟩ := List.cons_prefix_cons.mp minus
      exact List.cons_prefix_cons.mpr ⟨rfl, List.nil_prefix⟩

theorem not_doubleSigned_of_begins (h : ¬ DoubleSigned text) (begins : a <+: text) :
    ¬ DoubleSigned a :=
  fun double => h (double.trans begins)

theorem IsShown.not_doubleSigned (h : IsShown text) : ¬ DoubleSigned text := by
  obtain ⟨d, rest, digit, begins⟩ := h.opens
  have other : d ≠ '-' := by
    rintro rfl
    cases digit
  rcases begins with rfl | rfl
  · rw [doubleSigned_cons_iff]
    exact fun double => other double.1
  · rw [doubleSigned_cons_iff, minus_prefix_cons_iff]
    exact fun double => other double.2

theorem not_doubleSigned_withSignToggled (h : ¬ DoubleSigned text) :
    ¬ DoubleSigned (withSignToggled text) := by
  match text with
  | [] => decide
  | d :: rest =>
      by_cases minus : d = '-'
      · obtain rfl := minus
        intro double
        have first : ['-'] <+: rest := List.IsPrefix.trans (by decide) double
        exact h (doubleSigned_cons_iff.mpr ⟨rfl, first⟩)
      · rw [withSignToggled_cons_of_ne minus, doubleSigned_cons_iff, minus_prefix_cons_iff]
        exact fun double => minus double.2

theorem not_doubleSigned_withOperator (opened : WellOpened text) (h : ¬ DoubleSigned text)
    (mem : op ∈ Key.strokes) : ¬ DoubleSigned (withOperator text op) := by
  have single : ∀ op ∈ Key.strokes, ¬ DoubleSigned op := by decide
  have minus : ∀ op ∈ Key.strokes, ['-'] <+: op → op ∈ Key.binaryOperators := by decide
  unfold withOperator
  split
  · decide
  · split
    · rename_i replaces
      rw [Bool.and_eq_true] at replaces
      obtain ⟨front, d, rfl, binary⟩ := exists_of_endsInBinary replaces.1
      rw [List.dropLast_concat]
      refine not_doubleSigned_append (not_doubleSigned_of_begins h (List.prefix_append front [d]))
        (single op mem) ?_
      -- Behind a minus sign the operator that is replaced would be a minus sign too.
      rintro rfl
      have alone : ∀ op ∈ Key.binaryOperators, ¬ DoubleSigned ('-' :: op) →
          ¬ WellOpened ('-' :: op) := by decide
      exact absurd opened (alone [d] binary h)
    · rename_i appends
      refine not_doubleSigned_append h (single op mem) ?_
      rintro rfl begins
      apply appends
      rw [List.contains_iff_mem.mpr (minus op mem begins)]
      rfl

/-- No key but the one for recalling brings two minus signs to the beginning. -/
theorem Edit.not_doubleSigned (edit : Edit text action after) (key : action.IsKey)
    (other : action ≠ .memoryRecall) (opened : WellOpened text) (h : ¬ DoubleSigned text) :
    ¬ DoubleSigned after := by
  cases edit with
  | kept => exact h
  | emptied => decide
  | inserted =>
      have harmless : ∀ key ∈ Key.digits ++ Key.constants ++ Key.parentheses,
          ¬ ['-'] <+: key := by
        decide
      exact not_doubleSigned_append h
        (fun double => harmless _ key (List.IsPrefix.trans (by decide) double))
        fun _ => harmless _ key
  | operated op => exact not_doubleSigned_withOperator opened h key.mem_of_operator
  | parenthesised =>
      have harmless : ∀ key ∈ Key.parentheses, ¬ ['-'] <+: key := by decide
      obtain ⟨key, mem, added⟩ := exists_withSmartParenthesis text
      rw [added]
      exact not_doubleSigned_append h
        (fun double => harmless key mem (List.IsPrefix.trans (by decide) double))
        fun _ => harmless key mem
  | undone => exact not_doubleSigned_of_begins h (isPrefix_withoutLast text)
  | toggled => exact not_doubleSigned_withSignToggled h
  | recalled => exact absurd rfl other
  | entered shown => exact shown.not_doubleSigned

/-- The text of a number begins with a minus sign if the number is below zero. -/
theorem minus_prefix_numberText_iff {v : Float} (finite : v.isFinite = true) :
    ['-'] <+: numberText v ↔ v < 0 := by
  have size := (isFinite_iff v).mp finite
  rw [lt_zero_iff]
  unfold numberText
  dsimp only
  split
  · rename_i zero
    exact iff_of_false (by decide) fun below => below.2.1 zero
  · rename_i nonzero
    obtain ⟨d, rest, begins, digit⟩ := NumberStyle.write_eq_cons .display
      (digits_ne_nil (coefficient_shortest_ne_zero nonzero size.le))
      (isDigits_digits (shortest (index v))) (shortest (index v)).lead
    have written : (shortest (index v)).write NumberStyle.display = d :: rest := begins
    rw [written]
    cases isNegative v with
    | true => exact iff_of_true ⟨d :: rest, rfl⟩ ⟨rfl, nonzero, size.le⟩
    | false =>
        refine iff_of_false (fun minus => ?_) fun below => Bool.false_ne_true below.1
        obtain rfl := minus_prefix_cons_iff.mp minus
        cases digit

namespace Session

/-- Whether a key recalls a number below zero onto a minus sign that stands alone. -/
def RecallsBelowZero (c : Calculator) (label : Text) : Prop :=
  c.pending.text = ['-'] ∧ Action.ofLabel label = .ok .memoryRecall ∧
    c.memory.isFinite = true ∧ c.memory < 0

theorem text_recall_of_isFinite (finite : c.memory.isFinite = true) :
    (c.handle .memoryRecall).after.pending.text = c.pending.text ++ numberText c.memory := by
  unfold Calculator.handle numberText?
  dsimp only
  rw [if_pos finite]
  rfl

/-- A number that has no text is not recalled. -/
theorem text_recall_of_not_isFinite (infinite : ¬ c.memory.isFinite = true) :
    (c.handle .memoryRecall).after.pending.text = c.pending.text := by
  unfold Calculator.handle numberText?
  dsimp only
  rw [if_neg infinite]

/-- Without such a key, and without an operator that overtakes a minus sign, no text begins with two
of them. -/
theorem PressedWithin.not_doubleSigned
    (h : PressedWithin (fun c label => ¬ Overtakes c label ∧ ¬ RecallsBelowZero c label) c) :
    ¬ DoubleSigned c.pending.text := by
  induction h with
  | start unit clock => exact (by decide : ¬ DoubleSigned [])
  | wait _ _ ih => exact ih
  | @press c before label fits ih =>
      have opened := (before.mono fun c label fits => fits.1).wellOpened
      cases acts : Action.ofLabel label with
      | error e =>
          rw [attempt_press_of_unknown acts]
          exact ih
      | ok action =>
          by_cases recalls : action = .memoryRecall
          · obtain rfl := recalls
            rw [pending_press acts]
            by_cases finite : c.memory.isFinite = true
            · rw [text_recall_of_isFinite finite]
              refine not_doubleSigned_append ih (isShown_numberText finite).not_doubleSigned ?_
              intro alone minus
              exact fits.2 ⟨alone, acts, finite, (minus_prefix_numberText_iff finite).mp minus⟩
            · rwa [text_recall_of_not_isFinite finite]
          · have key := Action.isKey_of_ofLabel acts
            exact (edit_press acts).not_doubleSigned key recalls opened ih

/-- Such a key always brings a second minus sign. -/
theorem doubleSigned_of_recallsBelowZero (h : RecallsBelowZero c label) :
    DoubleSigned (attempt c (.press label)).after.pending.text := by
  obtain ⟨alone, acts, finite, below⟩ := h
  rw [pending_press acts, text_recall_of_isFinite finite, alone, List.singleton_append,
    doubleSigned_cons_iff]
  exact ⟨rfl, (minus_prefix_numberText_iff finite).mpr below⟩

/-- The sign key types the text with its sign toggled. -/
theorem attempt_toggle {toggle : Text} (toggles : Action.ofLabel toggle = .ok .toggleSign)
    (pending : c.pending = .typed text) :
    attempt c (.press toggle) = ⟨(c.type (withSignToggled text)).refresh, none⟩ := by
  have handled : c.handle .toggleSign = ⟨c.type (withSignToggled text), none⟩ := by
    rw [Calculator.handle, pending]
    rfl
  rw [attempt_of_action (action?_press toggles), perform_of_handle handled]
  rfl

section Twice

variable {toggle : Text} (toggles : Action.ofLabel toggle = .ok .toggleSign)

include toggles

theorem attempt_toggle_twice (pending : c.pending = .typed text) :
    attempt (attempt c (.press toggle)).after (.press toggle) =
      ⟨(c.type (withSignToggled (withSignToggled text))).refresh, none⟩ := by
  rw [attempt_toggle toggles pending]
  exact attempt_toggle toggles rfl

/-- To press the sign key twice leaves a typed expression and its preview as they were, with all
else in the calculator, unless the text begins with two minus signs. None does in a session in which
no number below zero is recalled onto a lone minus sign and no operator is pressed there that needs
an operand; every such recall makes one. -/
theorem toggle_twice_spec (pressed : Pressed c) (pending : c.pending = .typed text) :
    ((attempt (attempt c (.press toggle)).after (.press toggle)).after = c ↔
      ¬ DoubleSigned text) ∧
    ((attempt (attempt c (.press toggle)).after (.press toggle)).after.pending = c.pending ↔
      ¬ DoubleSigned text) ∧
    (PressedWithin (fun c label => ¬ Overtakes c label ∧ ¬ RecallsBelowZero c label) c →
      ¬ DoubleSigned text) ∧
    ∀ label, RecallsBelowZero c label →
      DoubleSigned (attempt c (.press label)).after.pending.text := by
  have fresh := (PressedWithin.reachable pressed).preview_eq
  have same : (attempt (attempt c (.press toggle)).after (.press toggle)).after.pending =
      c.pending ↔ ¬ DoubleSigned text := by
    rw [attempt_toggle_twice toggles pending, ← withSignToggled_withSignToggled_iff, pending]
    exact iff_of_eq (Pending.typed.injEq _ _)
  refine ⟨⟨fun restored => same.mp (congrArg _ restored), fun single => ?_⟩, same, fun within => ?_,
    fun label => doubleSigned_of_recallsBelowZero⟩
  · rw [attempt_toggle_twice toggles pending, withSignToggled_withSignToggled_iff.mpr single]
    exact refresh_type pending fresh
  · have single := within.not_doubleSigned
    rwa [pending] at single

end Twice

/-- The sign of a sum is put there and taken away again. -/
theorem toggle_twice_sum :
    let c := run (.new .degrees 1000) [.press ['5'], .press ['+'], .press ['2']]
    (attempt (attempt c (.press "+/-".toList)).after (.press "+/-".toList)).after = c ∧
      c.pending = .typed "5+2".toList ∧ c.preview = some ['7'] := by
  intro c
  have pressed : Pressed c := Pressed.run (.start .degrees 1000) [['5'], ['+'], ['2']]
  have pending : c.pending = .typed "5+2".toList := rfl
  have toggles : Action.ofLabel "+/-".toList = .ok .toggleSign := rfl
  exact ⟨(toggle_twice_spec toggles pressed pending).1.mpr (by decide), pending, rfl⟩

/-- Of two minus signs the second is lost as well. -/
theorem toggle_twice_below_zero :
    let c := run (.new .degrees 1000) [.press ['5'], .press "+/-".toList, .press "M+".toList,
      .press ['C'], .press ['-'], .press "MR".toList]
    Pressed c ∧ c.pending = .typed "--5".toList ∧
      (attempt (attempt c (.press "+/-".toList)).after (.press "+/-".toList)).after.pending =
        .typed ['5'] :=
  ⟨Pressed.run (.start .degrees 1000)
    [['5'], "+/-".toList, "M+".toList, ['C'], ['-'], "MR".toList], rfl, rfl⟩

end Session

end Keypad
