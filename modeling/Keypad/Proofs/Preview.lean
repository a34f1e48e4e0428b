import Keypad.Proofs.Session

/-!
# Previews

The preview on show was worked out at some earlier moment, and a commit works its result out
anew. The two never disagree: in every state of a session the preview is the one that belongs to
the pending expression in the angle unit in force (`Reachable.preview_eq`). An action that raises
skips the preview, but then it also leaves alone everything that the preview depends on.

So a preview on show is a promise. A commit enters exactly what it shows, and where an
expression asks for a preview and has none, a commit ends in an error.
-/

namespace Keypad

theorem Text.occurs_iff_isInfix (word text : Text) : occurs word text = true ↔ word <:+: text := by
  induction text with
  | nil => simp [occurs]
  | cons c rest ih =>
      rw [occurs, Bool.or_eq_true, ih, List.isPrefixOf_iff_prefix, List.infix_cons_iff]

namespace Calculator

/-- Whether an operator or a function that asks for a preview stands in a text. -/
def AsksForPreview (text : Text) : Prop := ∃ trigger ∈ previewTriggers, trigger <:+: text

theorem wantsPreview_iff (text : Text) : wantsPreview text = true ↔ AsksForPreview text := by
  simp only [wantsPreview, AsksForPreview, List.any_eq_true, Text.occurs_iff_isInfix]

/-- A text asks for a preview if one of these characters or names stands in it. -/
theorem asksForPreview_iff (text : Text) : AsksForPreview text ↔
    (∃ c ∈ "+-×÷%^√".toList, c ∈ text) ∨
      ∃ name ∈ ["sin", "cos", "tan", "log", "ln"].map String.toList, name <:+: text := by
  have listed : previewTriggers.Perm ("+-×÷%^√".toList.map ([·]) ++
      ["sin", "cos", "tan", "log", "ln"].map String.toList) := by decide
  unfold AsksForPreview
  simp only [listed.mem_iff, List.mem_append, or_and_right, exists_or]
  simp only [List.mem_map (f := fun c => [c]), exists_exists_and_eq_and, List.singleton_infix_iff]

/-- Where nothing is typed, nothing asks. -/
theorem not_asksForPreview_nil : ¬ AsksForPreview [] := by
  rw [← wantsPreview_iff]
  decide

variable {c : Calculator} {text shown : Text} {kind : ErrorKind}

theorem currentPreview_of_not_asks (quiet : ¬ AsksForPreview c.pending.text) :
    c.currentPreview = none :=
  if_neg (mt (wantsPreview_iff _).mp quiet)

theorem currentPreview_of_asks (pending : c.pending = .typed text) (asks : AsksForPreview text) :
    c.currentPreview = (c.resultOf text).text? := by
  unfold currentPreview
  rw [pending]
  exact if_pos ((wantsPreview_iff text).mpr asks)

theorem currentPreview_of_failed (pending : c.pending = .failed kind) :
    c.currentPreview = none := by
  apply currentPreview_of_not_asks
  rw [pending]
  exact not_asksForPreview_nil

/-- A preview is the result of what is typed. -/
theorem exists_commits_of_currentPreview (some : c.currentPreview = some shown) :
    ∃ text value, c.Commits text value ∧ shown = resultText value := by
  cases pending : c.pending with
  | failed kind =>
      rw [currentPreview_of_failed pending] at some
      cases some
  | typed text =>
      by_cases asks : AsksForPreview text
      · rw [currentPreview_of_asks pending asks] at some
        have nonempty : text ≠ [] := by
          rintro rfl
          exact not_asksForPreview_nil asks
        cases outcome : c.resultOf text with
        | failure kind =>
            rw [outcome] at some
            cases some
        | success value =>
            rw [outcome] at some
            cases some
            exact ⟨text, value, ⟨pending, nonempty, outcome⟩, rfl⟩
      · rw [currentPreview_of_not_asks (by rwa [pending])] at some
        cases some

/-- The preview depends on the pending expression and the angle unit alone. -/
theorem currentPreview_congr {d : Calculator} (pending : d.pending = c.pending)
    (unit : d.unit = c.unit) : d.currentPreview = c.currentPreview := by
  unfold currentPreview resultOf
  rw [pending, unit]

/-- An action leaves the preview that belongs to what it leaves. -/
theorem Sound.preview_perform (sound : c.Sound) (fresh : c.preview = c.currentPreview)
    (action : Action) :
    (c.perform action).after.preview = (c.perform action).after.currentPreview := by
  cases raised : (c.perform action).fault with
  | none =>
      have handled : (c.handle action).fault = none := by rw [← perform_fault, raised]
      unfold Calculator.perform
      dsimp only
      rw [handled]
      rfl
  | some fault =>
      have same := (sound.perform_spec action).2 (by rw [raised]; rfl)
      rw [same.preview, fresh, currentPreview_congr same.pending same.unit]

end Calculator

namespace Session

open Calculator

variable {c : Calculator}

/-- The preview on show belongs to the pending expression and the angle unit in force, whatever
came before. -/
theorem Reachable.preview_eq (h : Reachable c) : c.preview = c.currentPreview := by
  induction h with
  | start unit clock => rfl
  | step before step ih =>
      unfold attempt
      split
      · exact ih
      · exact ih
      · exact before.sound.preview_perform ih _
  | wait before clock ih => exact ih

/-- There is a preview exactly for a typed expression that asks for one and has a result, and it
is this result. A commit keeps what the preview promised: with a preview on show it enters the
expression with just that result, and without one it ends in an error if the expression asks for
one. -/
theorem Reachable.preview_spec (h : Reachable c) :
    (∀ kind, c.pending = .failed kind → c.preview = none) ∧
    (∀ text, c.pending = .typed text → text = [] ∨ ¬ AsksForPreview text → c.preview = none) ∧
    (∀ text, c.pending = .typed text → AsksForPreview text →
      (∀ value, calculate .standard c.unit text = .success value →
        c.preview = some (resultText value)) ∧
      (∀ kind, calculate .standard c.unit text = .failure kind → c.preview = none)) ∧
    (0 ≤ c.clock → ∀ step, step.action? = .ok (some .equals) →
      (∀ shown, c.preview = some shown →
        ∃ text, c.pending = .typed text ∧ text ≠ [] ∧ (attempt c step).fault.isNone ∧
          (attempt c step).after.pending = .typed shown ∧
          (attempt c step).after.history = c.history ++ [⟨text, shown, c.clock.toNat⟩]) ∧
      (∀ text, c.pending = .typed text → AsksForPreview text → c.preview = none →
        (attempt c step).fault.isNone ∧ (∃ kind, (attempt c step).after.pending = .failed kind) ∧
          (attempt c step).after.history = c.history)) := by
  rw [h.preview_eq]
  refine ⟨fun kind => currentPreview_of_failed, ?_, ?_, ?_⟩
  · intro text pending quiet
    apply currentPreview_of_not_asks
    rw [pending]
    rcases quiet with rfl | quiet
    · exact not_asksForPreview_nil
    · exact quiet
  · intro text pending asks
    rw [currentPreview_of_asks pending asks, resultOf]
    refine ⟨fun value success => ?_, fun kind failure => ?_⟩
    · rw [success]
      rfl
    · rw [failure]
      rfl
  · intro late step commits
    rw [attempt_of_action commits]
    constructor
    · intro shown preview
      obtain ⟨text, value, committed, rfl⟩ := exists_commits_of_currentPreview preview
      obtain ⟨none, pending, history⟩ := perform_equals_of_success committed late
      exact ⟨text, committed.1, committed.2.1, by rw [none]; rfl, pending, history⟩
    · intro text pending asks preview
      rw [currentPreview_of_asks pending asks] at preview
      have nonempty : text ≠ [] := by
        rintro rfl
        exact not_asksForPreview_nil asks
      cases outcome : c.resultOf text with
      | success value =>
          rw [outcome] at preview
          cases preview
      | failure kind =>
          obtain ⟨none, failed, history⟩ := perform_equals_of_failure pending nonempty outcome
          exact ⟨by rw [none]; rfl, ⟨kind, failed⟩, history⟩

/-- A calculator with a text typed into it five milliseconds after the beginning of time. -/
def previewing (text : Text) : Calculator :=
  (attempt (.new .degrees 5) (.act "input".toList text)).after

/-- A sum is entered with the result that its preview shows, and a quotient without a preview ends
in an error. -/
theorem preview_is_entered :
    (previewing "3+4".toList).preview = some ['7'] ∧
      (attempt (previewing "3+4".toList) (.press ['='])).after.history =
        [⟨"3+4".toList, ['7'], 5⟩] ∧
      (previewing "3÷0".toList).preview = none ∧
      ∃ kind, (attempt (previewing "3÷0".toList) (.press ['='])).after.pending = .failed kind := by
  have reachable (text : Text) : Reachable (previewing text) :=
    .step (.start .degrees 5) (.act "input".toList text)
  have commits : (Step.press ['=']).action? = .ok (some .equals) := rfl
  have sum : (previewing "3+4".toList).preview = some ['7'] := rfl
  have quotient : (previewing "3÷0".toList).preview = none := rfl
  have typed : (previewing "3÷0".toList).pending = .typed "3÷0".toList := rfl
  have asks : AsksForPreview "3÷0".toList :=
    (asksForPreview_iff _).mpr (.inl ⟨'÷', by decide, by decide⟩)
  have entered := (reachable "3+4".toList).preview_spec.2.2.2 (by decide) _ commits
  have refused := (reachable "3÷0".toList).preview_spec.2.2.2 (by decide) _ commits
  obtain ⟨text, pending, _, _, _, history⟩ := entered.1 _ sum
  have same : text = "3+4".toList := by
    have typed : (previewing "3+4".toList).pending = .typed "3+4".toList := rfl
    rw [typed] at pending
    cases pending
    rfl
  subst same
  refine ⟨sum, history.trans ?_, quotient, (refused.2 _ typed asks quotient).2.1⟩
  rfl

end Session

end Keypad
