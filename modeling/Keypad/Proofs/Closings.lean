import Keypad.Proofs.Accumulation
import Keypad.Proofs.Idempotence

/-!
# Closing parentheses by hand

The canonical form of a text closes the parentheses that are open, so it makes no difference to
close some of them by hand (`ofKeypad_append_closings`). They are counted in the text with its
glyphs replaced, but that is the same as to count them on the display, since every glyph is spelt
with the parentheses that it has.

On a calculator, then, the key that closes a parenthesis changes the text on the display and
nothing else. The preview stays, the current value stays, and a commit enters the same result at
the same time, or ends in the same error (`Session.closed_by_hand`).
-/

namespace Keypad

variable {table : Spellings} {text after : Text} {count : ℕ}

/-- Replacing words keeps the number of a character if their spellings do. -/
theorem Respelt.count_eq {c : Char}
    (same : ∀ entry ∈ table, entry.2.count c = entry.1.count c) (h : Respelt table text after) :
    after.count c = text.count c := by
  induction h with
  | nothing => rfl
  | word mem _ ih => rw [List.count_append, List.count_append, same _ mem, ih]
  | copied _ _ ih => rw [List.count_cons, List.count_cons, ih]

/-- What a text lacks can be counted on the display. -/
theorem missingClosings_respell (text : Text) :
    missingClosings (respell text) = missingClosings text := by
  have openings : ∀ entry ∈ glyphs, entry.2.count '(' = entry.1.count '(' := by decide
  have closings : ∀ entry ∈ glyphs, entry.2.count ')' = entry.1.count ')' := by decide
  unfold missingClosings
  rw [(respelt_respell text).count_eq openings, (respelt_respell text).count_eq closings]

/-- Parentheses that are closed by hand need not be closed again. -/
theorem closeParentheses_append_closings (few : count ≤ missingClosings text) :
    closeParentheses (text ++ List.replicate count ')') = closeParentheses text := by
  rw [closeParentheses, missingClosings_append_closings, List.append_assoc,
    List.replicate_append_replicate, Nat.add_sub_cancel' few]
  rfl

/-- Closing parentheses by hand changes nothing, as long as there are any to close. -/
theorem ofKeypad_append_closings (few : count ≤ missingClosings text) :
    Canonical.ofKeypad (text ++ List.replicate count ')') = Canonical.ofKeypad text := by
  rw [← missingClosings_respell] at few
  unfold Canonical.ofKeypad
  rw [respell_append_closings, closeParentheses_append_closings few]

/-- Whether an action closes a parenthesis behind a text. -/
def Action.Closes (text : Text) (action : Action) : Prop :=
  action = .input [')'] ∨
    action = .smartParenthesis ∧ Calculator.withSmartParenthesis text = text ++ [')']

namespace Calculator

variable {c : Calculator} {action : Action} {a b : Text}

theorem handle_of_closes (pending : c.pending = .typed text) (closes : action.Closes text) :
    c.handle action = ⟨c.type (text ++ [')']), none⟩ := by
  rcases closes with rfl | ⟨rfl, closes⟩
  · simp only [handle, pending, Pending.text]
  · simp only [handle, pending, Pending.text, closes]

/-- No trigger of a preview has a closing parenthesis in it. -/
theorem asksForPreview_append_closing : AsksForPreview (text ++ [')']) ↔ AsksForPreview text := by
  have none : ∀ trigger ∈ previewTriggers, ')' ∉ trigger := by decide
  refine exists_congr fun trigger => and_congr_right fun mem => ?_
  rw [List.infix_concat_iff, List.suffix_concat_iff]
  constructor
  · rintro ((rfl | ⟨before, rfl, _⟩) | inside)
    · exact List.nil_infix
    · exact absurd (by simp) (none _ mem)
    · exact inside
  · exact .inr

/-- The text with a parenthesis closed has the same result. -/
theorem resultOf_append_closing (unclosed : 0 < missingClosings text) :
    c.resultOf (text ++ [')']) = c.resultOf text := by
  have same : Canonical.ofKeypad (text ++ List.replicate 1 ')') = Canonical.ofKeypad text :=
    ofKeypad_append_closings unclosed
  exact congrArg (Canonical.result .standard c.unit) same

/-- The preview that belongs to the text with a parenthesis closed is the one on show. -/
theorem refresh_append_closing (pending : c.pending = .typed text)
    (unclosed : 0 < missingClosings text) (fresh : c.preview = c.currentPreview) :
    (c.type (text ++ [')'])).refresh = c.type (text ++ [')']) := by
  have preview : (c.type (text ++ [')'])).currentPreview = c.currentPreview := by
    by_cases asks : AsksForPreview text
    · rw [currentPreview_of_asks pending asks,
        currentPreview_of_asks rfl (asksForPreview_append_closing.mpr asks)]
      exact congrArg Result.text? (resultOf_append_closing unclosed)
    · have quiet : ¬ AsksForPreview c.pending.text := by rwa [pending]
      have silent : ¬ AsksForPreview (c.type (text ++ [')'])).pending.text :=
        mt asksForPreview_append_closing.mp asks
      rw [currentPreview_of_not_asks quiet, currentPreview_of_not_asks silent]
  rw [refresh, preview, ← fresh]
  rfl

theorem currentValue_type (pending : c.pending = .typed a) (nonempty : a ≠ []) (other : b ≠ [])
    (same : c.resultOf b = c.resultOf a) : (c.type b).currentValue = c.currentValue := by
  rw [currentValue_of_typed pending nonempty, currentValue_of_typed rfl other, ← same]
  rfl

/-- Texts with the same result are committed alike: each faults if the other does, and if none does
then they leave the same expression, and the same entry but for the text of it. -/
theorem commit_type (pending : c.pending = .typed a) (nonempty : a ≠ []) (other : b ≠ [])
    (same : c.resultOf b = c.resultOf a) :
    (c.type b).commit.fault = c.commit.fault ∧
      (c.commit.fault = none → (c.type b).commit.after.pending = c.commit.after.pending) ∧
      ∃ entries, c.commit.after.history = c.history ++ entries ∧
        (c.type b).commit.after.history =
          c.history ++ entries.map fun entry => { entry with expression := b } := by
  cases outcome : c.resultOf a with
  | failure kind =>
      have failed := commit_of_failure (c := c.type b) rfl other (same.trans outcome)
      rw [failed, commit_of_failure pending nonempty outcome]
      exact ⟨rfl, fun _ => rfl, [], (List.append_nil _).symm, (List.append_nil _).symm⟩
  | success value =>
      have entered := commit_of_success (c := c.type b) rfl other (same.trans outcome)
      have clock : (c.type b).clock = c.clock := rfl
      rw [entered, commit_of_success pending nonempty outcome, clock]
      by_cases early : c.clock < 0
      · rw [if_pos early, if_pos early]
        refine ⟨rfl, ?_, [], (List.append_nil _).symm, (List.append_nil _).symm⟩
        rintro ⟨⟩
      · rw [if_neg early, if_neg early]
        exact ⟨rfl, fun _ => rfl, [_], rfl, rfl⟩

end Calculator

namespace Session

open Calculator

variable {c : Calculator} {step : Step} {action : Action}

/-- In the states of a session, to close a parenthesis changes the text alone. -/
theorem Reachable.attempt_of_closes (h : Reachable c) (pending : c.pending = .typed text)
    (unclosed : 0 < missingClosings text) (acts : step.action? = .ok (some action))
    (closes : action.Closes text) : attempt c step = ⟨c.type (text ++ [')']), none⟩ := by
  rw [attempt_of_action acts, perform_of_handle (handle_of_closes pending closes),
    refresh_append_closing pending unclosed h.preview_eq]
  rfl

/-- To close parentheses by hand changes nothing about a canonical text, if no more are closed than
are open. So a key that closes one changes nothing but the text on the display, not even the
preview. The current value is the same as before, and so is what the memory keys make of it; and a
commit faults if it would have before, and otherwise leaves the same expression, and the same entry
but for the text of it. -/
theorem closed_by_hand :
    (∀ text count, text.count ')' + count ≤ text.count '(' →
      Canonical.ofKeypad (text ++ List.replicate count ')') = Canonical.ofKeypad text) ∧
    ∀ {c : Calculator} {text : Text} {step : Step} {action : Action}, Reachable c →
      c.pending = .typed text → text.count ')' < text.count '(' →
      step.action? = .ok (some action) → action.Closes text →
      let closed := c.type (text ++ [')'])
      attempt c step = ⟨closed, none⟩ ∧
      closed.currentValue = c.currentValue ∧
      (∀ key keyed change, key.action? = .ok (some keyed) → keyed.memoryChange? = some change →
        (attempt closed key).after.memory = (attempt c key).after.memory) ∧
      ∀ equals, equals.action? = .ok (some .equals) →
        (attempt closed equals).fault = (attempt c equals).fault ∧
        ((attempt c equals).fault = none →
          (attempt closed equals).after.pending = (attempt c equals).after.pending) ∧
        ∃ entries, (attempt c equals).after.history = c.history ++ entries ∧
          (attempt closed equals).after.history = c.history ++
            entries.map fun entry => { entry with expression := text ++ [')'] } := by
  constructor
  · intro text count few
    refine ofKeypad_append_closings ?_
    unfold missingClosings
    omega
  · intro c text step action reachable pending unclosed acts closes closed
    have unclosed : 0 < missingClosings text := Nat.sub_pos_of_lt unclosed
    have attempted := reachable.attempt_of_closes pending unclosed acts closes
    have reachable' : Reachable closed := by
      have next := reachable.step step
      rwa [attempted] at next
    have nonempty : text ≠ [] := by
      rintro rfl
      cases unclosed
    have other : text ++ [')'] ≠ [] := by simp
    have same := resultOf_append_closing (c := c) unclosed
    have value : closed.currentValue = c.currentValue :=
      currentValue_type pending nonempty other same
    refine ⟨attempted, value, ?_, ?_⟩
    · intro key keyed change acts changes
      rw [reachable.attempt_of_memoryChange? acts changes,
        reachable'.attempt_of_memoryChange? acts changes, value]
      rfl
    · intro equals commits
      obtain ⟨fault, left, entries, entered, entered'⟩ :=
        commit_type pending nonempty other same
      obtain ⟨_, here⟩ := c.after_perform .equals
      obtain ⟨_, there⟩ := closed.after_perform .equals
      rw [attempt_of_action commits, attempt_of_action commits, perform_fault, perform_fault,
        here, there]
      exact ⟨congrArg (Option.map Fault.action) fault,
        fun quiet => left (Option.map_eq_none_iff.mp quiet), entries, entered, entered'⟩

/-- The product in parentheses is entered with the same result and at the same time, whether its
parenthesis is closed by hand or not. -/
theorem closed_by_hand_in_product :
    let c := previewing "2×(3+4".toList
    (attempt c (.press "( )".toList)).after = c.type "2×(3+4)".toList ∧
      c.preview = some "14".toList ∧
      (attempt c (.press ['='])).after.history = [⟨"2×(3+4".toList, "14".toList, 5⟩] ∧
      (attempt (c.type "2×(3+4)".toList) (.press ['='])).after.history =
        [⟨"2×(3+4)".toList, "14".toList, 5⟩] := by
  intro c
  have reachable : Reachable c := .step (.start .degrees 5) (.act "input".toList _)
  have pending : c.pending = .typed "2×(3+4".toList := rfl
  have acts : (Step.press "( )".toList).action? = .ok (some .smartParenthesis) := rfl
  have commits : (Step.press ['=']).action? = .ok (some .equals) := rfl
  have entered : (attempt c (.press ['='])).after.history =
      [⟨"2×(3+4".toList, "14".toList, 5⟩] := rfl
  have empty : c.history = [] := rfl
  obtain ⟨attempted, _, _, committed⟩ :=
    closed_by_hand.2 reachable pending (by decide) acts (.inr ⟨rfl, by decide⟩)
  obtain ⟨_, _, entries, before, after⟩ := committed _ commits
  rw [empty, List.nil_append] at before after
  rw [← before, entered] at after
  exact ⟨congrArg Outcome.after attempted, rfl, entered, after⟩

end Session

end Keypad
