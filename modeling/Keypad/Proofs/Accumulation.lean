import Keypad.Proofs.Frame
import Keypad.Proofs.Memory
import Keypad.Proofs.Preview

/-!
# What the memory adds up

The memory keys work out the value of the pending expression on their own, and a commit works out
its result on its own. They agree: what is added or subtracted is the number that a commit would
leave on the display, read back from its text, and where a commit would end in an error the memory
keys do nothing (`Reachable.memory_follows_commit`). Nothing else is changed by these keys, not
even the preview.

Every number that is read back from a result is finite. So the memory is always a number, and once
it is infinite nothing but clearing it makes a difference.
-/

namespace Keypad

open Double Calculator

/-- How a key changes the memory by the current value, if it does. -/
def Action.memoryChange? : Action → Option (Float → Float → Float)
  | .memoryAdd => some (· + ·)
  | .memorySubtract => some (· - ·)
  | _ => none

variable {c : Calculator} {action : Action} {change : Float → Float → Float} {a b : Float}

/-- A zero makes no difference to a number. -/
theorem change_beq_of_index_eq_zero (changes : action.memoryChange? = some change)
    (number : a.isNaN = false) (zero : index b = 0) : (change a b == a) = true := by
  cases action with
  | memoryAdd =>
      cases changes
      exact add_beq_of_index_eq_zero number zero
  | memorySubtract =>
      cases changes
      exact sub_beq_of_index_eq_zero number zero
  | _ => cases changes

/-- Nothing finite makes a difference to an infinite number. -/
theorem change_of_isInf (changes : action.memoryChange? = some change) (infinite : a.isInf = true)
    (finite : b.isFinite = true) : change a b = a := by
  cases action with
  | memoryAdd =>
      cases changes
      exact add_of_isInf infinite finite
  | memorySubtract =>
      cases changes
      exact sub_of_isInf infinite finite
  | _ => cases changes

namespace Calculator

variable {text : Text} {value : Float} {kind : ErrorKind}

theorem currentValue_of_failed (pending : c.pending = .failed kind) : c.currentValue = none := by
  unfold currentValue
  rw [pending]

/-- Nothing typed counts as zero. -/
theorem currentValue_of_empty (pending : c.pending = .typed []) : c.currentValue = some 0 := by
  unfold currentValue resultOf
  rw [pending]
  cases c.unit with
  | degrees => rfl
  | radians => rfl

theorem currentValue_of_typed (pending : c.pending = .typed text) (nonempty : text ≠ []) :
    c.currentValue = (c.resultOf text).text?.bind Decimal.readDouble? := by
  unfold currentValue
  rw [pending]
  dsimp only
  rw [List.isEmpty_eq_false_iff.mpr nonempty, if_neg Bool.false_ne_true]

/-- The text that a commit leaves can be read, and its number is the current value. -/
theorem Commits.currentValue (commits : c.Commits text value) :
    ∃ v, Decimal.readDouble? (resultText value) = some v ∧ c.currentValue = some v := by
  obtain ⟨pending, nonempty, success⟩ := commits
  obtain ⟨v, read, _⟩ := readDouble?_resultText ((isFinite_iff _).mp (isFinite_of_resultOf success))
  refine ⟨v, read, ?_⟩
  rw [currentValue_of_typed pending nonempty, success, ← read]
  rfl

/-- What a commit can be asked of. -/
theorem pending_cases (c : Calculator) :
    c.pending = .typed [] ∨ (∃ kind, c.pending = .failed kind) ∨
      (∃ text kind, c.pending = .typed text ∧ text ≠ [] ∧ c.resultOf text = .failure kind) ∨
      ∃ text value, c.Commits text value := by
  cases pending : c.pending with
  | failed kind => exact .inr (.inl ⟨kind, rfl⟩)
  | typed text =>
      by_cases empty : text = []
      · exact .inl (by rw [empty])
      · cases outcome : c.resultOf text with
        | failure kind => exact .inr (.inr (.inl ⟨text, kind, rfl, empty, outcome⟩))
        | success value => exact .inr (.inr (.inr ⟨text, value, pending, empty, outcome⟩))

/-- A key that changes the memory leaves the preview too, as nothing it depends on is changed. -/
theorem perform_of_memoryChange? (changes : action.memoryChange? = some change)
    (fresh : c.preview = c.currentPreview) :
    c.perform action =
      ⟨{ c with memory := c.currentValue.elim c.memory (change c.memory) }, none⟩ := by
  have handled : c.handle action = ⟨c.updateMemory change, none⟩ := by
    cases action with
    | memoryAdd | memorySubtract =>
        cases changes
        rfl
    | _ => cases changes
  rw [perform_of_handle handled, updateMemory_eq]
  generalize c.currentValue.elim c.memory (change c.memory) = m
  have preview : ({ c with memory := m } : Calculator).currentPreview = c.preview :=
    (currentPreview_congr rfl rfl).trans fresh.symm
  rw [refresh, preview]

/-- An infinite memory outlasts every action but the one that clears it. -/
theorem memory_perform_of_isInf (infinite : c.memory.isInf = true) (other : action ≠ .memoryClear) :
    (c.perform action).after.memory = c.memory := by
  have kept (same : Part.memory ∉ action.writes) : (c.perform action).after.memory = c.memory :=
    Part.kept_perform same
  have absorbed {change : Float → Float → Float} (changes : action.memoryChange? = some change) :
      c.currentValue.elim c.memory (change c.memory) = c.memory := by
    cases current : c.currentValue with
    | none => rfl
    | some v => exact change_of_isInf changes infinite (isFinite_currentValue current)
  cases action with
  | memoryClear => exact absurd rfl other
  | memoryAdd => exact (memory_memoryAdd c).trans (absorbed rfl)
  | memorySubtract => exact (memory_memorySubtract c).trans (absorbed rfl)
  | _ => exact kept (by simp [Action.writes])

end Calculator

namespace Session

variable {step equals : Step} {steps : List Step}

theorem memory_attempt_of_isInf (infinite : c.memory.isInf = true)
    (other : step.action? ≠ .ok (some .memoryClear)) :
    (attempt c step).after.memory = c.memory := by
  cases acts : step.action? with
  | error e =>
      unfold attempt
      rw [acts]
  | ok act =>
      cases act with
      | none =>
          unfold attempt
          rw [acts]
          rfl
      | some action =>
          rw [after_attempt acts]
          refine memory_perform_of_isInf infinite ?_
          rintro rfl
          exact other acts

/-- An infinite memory outlasts every run that does not clear it. -/
theorem memory_run_of_isInf (infinite : c.memory.isInf = true)
    (others : ∀ step ∈ steps, step.action? ≠ .ok (some .memoryClear)) :
    (run c steps).memory = c.memory := by
  induction steps generalizing c with
  | nil => rfl
  | cons step rest ih =>
      have first := memory_attempt_of_isInf infinite (others step List.mem_cons_self)
      have later := ih (first ▸ infinite) fun next mem => others next (List.mem_cons_of_mem _ mem)
      exact later.trans first

theorem Reachable.attempt_of_memoryChange? (h : Reachable c)
    (acts : step.action? = .ok (some action)) (changes : action.memoryChange? = some change) :
    attempt c step =
      ⟨{ c with memory := c.currentValue.elim c.memory (change c.memory) }, none⟩ := by
  rw [attempt_of_action acts, perform_of_memoryChange? changes h.preview_eq]
  rfl

/-- What a commit leaves of the pending expression at a time when it can be entered. -/
theorem pending_commit_cases (late : 0 ≤ c.clock) (commits : equals.action? = .ok (some .equals)) :
    (attempt c equals).fault = none ∧
      ((c.pending = .typed [] ∧ (attempt c equals).after.pending = .typed []) ∨
        (c.currentValue = none ∧ ∃ kind, (attempt c equals).after.pending = .failed kind) ∨
        ∃ text v, (attempt c equals).after.pending = .typed text ∧
          Decimal.readDouble? text = some v ∧ c.currentValue = some v) := by
  rw [attempt_fault_eq_none_iff commits, after_attempt commits]
  obtain empty | ⟨kind, failed⟩ | ⟨text, kind, pending, nonempty, failure⟩ |
    ⟨text, value, committed⟩ := c.pending_cases
  · rw [perform_of_handle (handle_equals_of_idle (.inl empty))]
    exact ⟨rfl, .inl ⟨empty, empty⟩⟩
  · rw [perform_of_handle (handle_equals_of_idle (.inr ⟨kind, failed⟩))]
    exact ⟨rfl, .inr (.inl ⟨currentValue_of_failed failed, kind, failed⟩)⟩
  · obtain ⟨none, left, _⟩ := perform_equals_of_failure pending nonempty failure
    have valueless : c.currentValue = .none := by
      rw [currentValue_of_typed pending nonempty, failure]
      rfl
    exact ⟨none, .inr (.inl ⟨valueless, kind, left⟩)⟩
  · obtain ⟨none, left, _⟩ := perform_equals_of_success committed late
    obtain ⟨v, read, current⟩ := committed.currentValue
    exact ⟨none, .inr (.inr ⟨_, v, left, read, current⟩)⟩

/-- The memory is always a number. The keys that add to it and subtract from it change nothing
else: what they add or subtract is zero if nothing is typed, and otherwise the number of the text
that a commit would leave, read back. Where a commit would leave an error they change nothing. Once
the memory is infinite it stays so, whatever is done but to clear it. What a commit would leave
does not depend on the time, as long as it can be entered in the history. -/
theorem Reachable.memory_follows_commit (h : Reachable c) :
    c.memory.isNaN = false ∧
    (∀ step action change, step.action? = .ok (some action) → action.memoryChange? = some change →
      (c.pending = .typed [] →
        attempt c step = ⟨{ c with memory := change c.memory 0 }, none⟩ ∧
          (change c.memory 0 == c.memory) = true) ∧
      ∀ now equals, 0 ≤ now → equals.action? = .ok (some .equals) →
        let committed := attempt { c with clock := now } equals
        committed.fault = none ∧
        (c.pending ≠ .typed [] → ∀ text, committed.after.pending = .typed text →
          ∃ v, Decimal.readDouble? text = some v ∧
            attempt c step = ⟨{ c with memory := change c.memory v }, none⟩) ∧
        ∀ kind, committed.after.pending = .failed kind → attempt c step = ⟨c, none⟩) ∧
    (c.memory.isInf = true → ∀ steps, (∀ step ∈ steps, step.action? ≠ .ok (some .memoryClear)) →
      (Session.run c steps).memory = c.memory) := by
  refine ⟨h.sound.memory, ?_, fun infinite steps others => memory_run_of_isInf infinite others⟩
  intro step action change acts changes
  have changed := h.attempt_of_memoryChange? acts changes
  constructor
  · intro empty
    rw [currentValue_of_empty empty] at changed
    exact ⟨changed, change_beq_of_index_eq_zero changes h.sound.memory rfl⟩
  · intro now equals late commits committed
    have current : ({ c with clock := now } : Calculator).currentValue = c.currentValue :=
      currentValue_congr rfl rfl
    obtain ⟨quiet, outcome⟩ := pending_commit_cases (c := { c with clock := now }) late commits
    rw [current] at outcome
    refine ⟨quiet, ?_, ?_⟩
    · intro nonempty text left
      obtain ⟨empty, _⟩ | ⟨_, kind, failed⟩ | ⟨text', v, typed, read, some⟩ := outcome
      · exact absurd empty nonempty
      · cases left.symm.trans failed
      · cases left.symm.trans typed
        rw [some] at changed
        exact ⟨v, read, changed⟩
    · intro kind left
      obtain ⟨_, empty⟩ | ⟨none, _⟩ | ⟨_, _, typed, _⟩ := outcome
      · cases left.symm.trans empty
      · rw [none] at changed
        exact changed
      · cases left.symm.trans typed

/-- A calculator with twice the number of 308 nines in memory, which is no finite number. -/
def overflowed : Calculator :=
  Session.run (previewing (List.replicate 308 '9')) [.press "M+".toList, .press "M+".toList]

/-- What is added is the rounded sum that a commit would leave. An infinite memory is not changed
by subtracting from it, before a commit or after. -/
theorem memory_takes_rounded_sum :
    (∃ v, Decimal.readDouble? "0.3".toList = some v ∧
      attempt (previewing "0.1+0.2".toList) (.press "M+".toList) =
        ⟨{ previewing "0.1+0.2".toList with
            memory := (previewing "0.1+0.2".toList).memory + v }, none⟩) ∧
      overflowed.memory.isInf = true ∧
      (Session.run overflowed [.press "M-".toList, .press ['='], .press "M-".toList]).memory =
        overflowed.memory := by
  have reachable (text : Text) : Reachable (previewing text) :=
    .step (.start .degrees 5) (.act "input".toList text)
  have adds : (Step.press "M+".toList).action? = .ok (some .memoryAdd) := by decide +kernel
  have commits : (Step.press ['=']).action? = .ok (some .equals) := by decide +kernel
  have infinite : overflowed.memory.isInf = true := by decide +kernel
  obtain ⟨_, follows, _⟩ := (reachable "0.1+0.2".toList).memory_follows_commit
  obtain ⟨_, added, _⟩ :=
    (follows _ _ _ adds rfl).2 1000 (.press ['=']) (by decide) commits
  have outlasts := ((reachable (List.replicate 308 '9')).run
    [.press "M+".toList, .press "M+".toList]).memory_follows_commit.2.2 infinite
  refine ⟨added (by decide +kernel) "0.3".toList (by decide +kernel), infinite, outlasts _ ?_⟩
  decide +kernel

end Session

end Keypad
