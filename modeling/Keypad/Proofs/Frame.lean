import Keypad.Proofs.Commits

/-!
# What steps leave alone

Every action has the parts of a calculator that it may write, and leaves all other parts as they
are; so does every step of a session, and every run of steps (`Part.kept_run`). The preview is no
part of its own, for it follows the others.

An error on the display is a part of the expression and nothing else. An action that edits the
text sees an error as an empty text: what it types depends on the text and the memory alone
(`exists_type_of_edits`), so it leads from an error to where it leads when nothing is typed. The
other actions leave the error on the display.
-/

namespace Keypad

/-- A part of a calculator that an action may write. -/
inductive Part where
  | pending
  | unit
  | memory
  | history

/-- Whether two calculators have the same part. -/
def Part.Kept (c d : Calculator) : Part → Prop
  | .pending => d.pending = c.pending
  | .unit => d.unit = c.unit
  | .memory => d.memory = c.memory
  | .history => d.history = c.history

namespace Action

/-- Whether an action edits the text of the pending expression. -/
def EditsText : Action → Prop
  | .input _ | .operator _ | .smartParenthesis | .clear | .backspace | .toggleSign
  | .memoryRecall => True
  | .equals | .toggleAngle | .memoryClear | .memoryAdd | .memorySubtract => False

/-- The parts that an action may write. -/
def writes : Action → List Part
  | .input _ | .operator _ | .smartParenthesis | .clear | .backspace | .toggleSign
  | .memoryRecall => [.pending]
  | .equals => [.pending, .history]
  | .toggleAngle => [.unit]
  | .memoryClear | .memoryAdd | .memorySubtract => [.memory]

variable {action : Action}

theorem unit_mem_writes_iff : .unit ∈ action.writes ↔ action = .toggleAngle := by
  cases action <;> simp [writes]

theorem memory_mem_writes_iff :
    .memory ∈ action.writes ↔ action ∈ [.memoryClear, .memoryAdd, .memorySubtract] := by
  cases action <;> simp [writes]

theorem history_mem_writes_iff : .history ∈ action.writes ↔ action = .equals := by
  cases action <;> simp [writes]

theorem pending_mem_writes_iff :
    .pending ∈ action.writes ↔ action.EditsText ∨ action = .equals := by
  cases action <;> simp [writes, EditsText]

end Action

variable {c d e : Calculator} {action : Action} {part : Part}

namespace Part

theorem Kept.refl (c : Calculator) (part : Part) : part.Kept c c := by
  cases part with
  | pending | unit | memory | history => rfl

theorem Kept.trans (first : part.Kept c d) (second : part.Kept d e) : part.Kept c e := by
  cases part with
  | pending | unit | memory | history => exact Eq.trans second first

/-- To type a text writes the pending expression alone. -/
theorem kept_type (text : Text) (other : part ∉ [pending]) : part.Kept c (c.type text) := by
  cases part with
  | pending => exact absurd List.mem_cons_self other
  | unit | memory | history => rfl

/-- The memory keys write the memory alone. -/
theorem kept_updateMemory (change : Float → Float → Float) (other : part ∉ [memory]) :
    part.Kept c (c.updateMemory change) := by
  unfold Calculator.updateMemory
  split
  · cases part with
    | memory => exact absurd List.mem_cons_self other
    | pending | unit | history => rfl
  · exact .refl c part

/-- A commit writes the pending expression and the history. -/
theorem kept_commit (other : part ∉ [pending, history]) : part.Kept c c.commit.after := by
  cases part with
  | pending => exact absurd List.mem_cons_self other
  | history => exact absurd (List.mem_cons_of_mem _ List.mem_cons_self) other
  | unit | memory =>
      obtain ⟨_, same⟩ | ⟨_, kind, failed⟩ | ⟨_, _, _, _, early⟩ | ⟨_, _, _, _, entered⟩ :=
        c.commit_cases
      · rw [same]
        rfl
      · rw [failed]
        rfl
      · rw [early]
        rfl
      · rw [entered]
        rfl

theorem kept_handle (other : part ∉ action.writes) : part.Kept c (c.handle action).after := by
  cases action with
  | input | operator | smartParenthesis | clear | backspace | toggleSign =>
      exact kept_type _ other
  | memoryRecall =>
      unfold Calculator.handle
      dsimp only
      split
      · exact kept_type _ other
      · exact .refl c part
  | equals => exact kept_commit other
  | memoryAdd | memorySubtract => exact kept_updateMemory _ other
  | toggleAngle =>
      cases part with
      | unit => exact absurd List.mem_cons_self other
      | pending | memory | history => rfl
  | memoryClear =>
      cases part with
      | memory => exact absurd List.mem_cons_self other
      | pending | unit | history => rfl

/-- An action keeps every part that it does not write. -/
theorem kept_perform (other : part ∉ action.writes) : part.Kept c (c.perform action).after := by
  obtain ⟨preview, same⟩ := c.after_perform action
  rw [same]
  refine (kept_handle other).trans ?_
  cases part with
  | pending | unit | memory | history => rfl

end Part

namespace Calculator

/-- What an edit types depends on the text before and the memory alone. -/
theorem exists_type_of_edits (edits : action.EditsText) (quiet : (c.handle action).fault = none) :
    ∃ text, ∀ d : Calculator, d.pending.text = c.pending.text → d.memory = c.memory →
      d.handle action = ⟨d.type text, none⟩ := by
  cases action with
  | input key => exact ⟨c.pending.text ++ key, fun d same _ => by rw [← same]; rfl⟩
  | operator op => exact ⟨withOperator c.pending.text op, fun d same _ => by rw [← same]; rfl⟩
  | smartParenthesis =>
      exact ⟨withSmartParenthesis c.pending.text, fun d same _ => by rw [← same]; rfl⟩
  | clear => exact ⟨[], fun _ _ _ => rfl⟩
  | backspace => exact ⟨withoutLast c.pending.text, fun d same _ => by rw [← same]; rfl⟩
  | toggleSign => exact ⟨withSignToggled c.pending.text, fun d same _ => by rw [← same]; rfl⟩
  | memoryRecall =>
      cases shown : numberText? c.memory with
      | ok number =>
          refine ⟨c.pending.text ++ number, fun d same memory => ?_⟩
          rw [Calculator.handle, memory, shown, ← same]
      | error fault =>
          rw [Calculator.handle, shown] at quiet
          cases quiet
  | equals | toggleAngle | memoryClear | memoryAdd | memorySubtract => exact edits.elim

/-- The calculator with nothing typed, and otherwise as it is. -/
def emptied (c : Calculator) : Calculator := { c with pending := .typed [], preview := none }

/-- An edit leads from an error to where it leads when nothing is typed. -/
theorem perform_of_failed {kind : ErrorKind} (pending : c.pending = .failed kind)
    (edits : action.EditsText) (quiet : (c.perform action).fault = none) :
    c.perform action = c.emptied.perform action := by
  rw [perform_fault] at quiet
  obtain ⟨text, types⟩ := exists_type_of_edits edits quiet
  have empty : c.pending.text = [] := by
    rw [pending]
    rfl
  rw [perform_of_handle (types c rfl rfl), perform_of_handle (types c.emptied empty.symm rfl)]
  rfl

/-- With nothing typed, or an error on the display, a commit does nothing. -/
theorem handle_equals_of_idle (idle : c.pending = .typed [] ∨ ∃ kind, c.pending = .failed kind) :
    c.handle .equals = ⟨c, none⟩ := by
  apply commit_of_idle
  intro text typed
  rcases idle with empty | ⟨kind, failed⟩
  · rw [empty] at typed
    exact (Pending.typed.inj typed).symm
  · rw [failed] at typed
    cases typed

/-- An action adds at most one entry to the history. -/
theorem history_perform (c : Calculator) (action : Action) :
    (c.perform action).after.history = c.history ∨
      ∃ entry, (c.perform action).after.history = c.history ++ [entry] := by
  by_cases commits : action = .equals
  · subst commits
    obtain ⟨preview, same⟩ := c.after_perform .equals
    rw [same]
    change c.commit.after.history = _ ∨ ∃ entry, c.commit.after.history = _
    obtain ⟨_, same⟩ | ⟨_, kind, failed⟩ | ⟨_, _, _, _, early⟩ | ⟨_, _, _, _, entered⟩ :=
      c.commit_cases
    · rw [same]
      exact .inl rfl
    · rw [failed]
      exact .inl rfl
    · rw [early]
      exact .inl rfl
    · rw [entered]
      exact .inr ⟨_, rfl⟩
  · have other : Part.history ∉ action.writes :=
      fun mem => commits (Action.history_mem_writes_iff.mp mem)
    exact .inl (Part.kept_perform other)

end Calculator

namespace Session

open Calculator

variable {step : Step} {steps : List Step}

/-- The parts that a step may write. -/
def Step.writes (step : Step) : List Part :=
  match step.action? with
  | .error _ => []
  | .ok none => [.history]
  | .ok (some action) => action.writes

/-- A step keeps every part that it does not write. -/
theorem kept_attempt (other : part ∉ step.writes) : part.Kept c (attempt c step).after := by
  unfold Step.writes at other
  unfold attempt
  split
  · exact .refl c part
  · rename_i clears
    rw [clears] at other
    cases part with
    | history => exact absurd List.mem_cons_self other
    | pending | unit | memory => rfl
  · rename_i action acts
    rw [acts] at other
    exact Part.kept_perform other

/-- A run keeps every part that none of its steps writes. -/
theorem kept_run (others : ∀ step ∈ steps, part ∉ step.writes) : part.Kept c (run c steps) := by
  induction steps generalizing c with
  | nil => exact .refl c part
  | cons step rest ih =>
      have first : part.Kept c (attempt c step).after :=
        kept_attempt (others step List.mem_cons_self)
      exact first.trans (ih fun later mem => others later (List.mem_cons_of_mem _ mem))

theorem attempt_fault_eq_none_iff (acts : step.action? = .ok (some action)) :
    (attempt c step).fault = none ↔ (c.perform action).fault = none := by
  rw [attempt_of_action acts, Option.map_eq_none_iff]

/-- What an action leaves alone, unless it raises. The angle unit is changed by its own key only,
the memory by three of the memory keys, the history by a commit, which adds one entry at most. The
expression is kept by the key for the angle unit and by those three, and by a commit with nothing
to calculate. An error on the display counts as nothing typed for every edit of the text, and stays
on the display otherwise. To clear the history clears nothing else. -/
theorem attempt_frame (c : Calculator) :
    (∀ step action, step.action? = .ok (some action) → (attempt c step).fault = none →
      let d := (attempt c step).after
      (action ≠ .toggleAngle → d.unit = c.unit) ∧
      (action ∉ [.memoryClear, .memoryAdd, .memorySubtract] → d.memory = c.memory) ∧
      (action ≠ .equals → d.history = c.history) ∧
      (d.history = c.history ∨ ∃ entry, d.history = c.history ++ [entry]) ∧
      (action ∈ [.toggleAngle, .memoryClear, .memoryAdd, .memorySubtract] →
        d.pending = c.pending) ∧
      (action = .equals → (c.pending = .typed [] ∨ ∃ kind, c.pending = .failed kind) →
        d.pending = c.pending) ∧
      ∀ kind, c.pending = .failed kind →
        (action.EditsText → attempt c step = attempt c.emptied step) ∧
        (¬ action.EditsText → d.pending = .failed kind)) ∧
    attempt c .clearHistory = ⟨{ c with history := [] }, none⟩ := by
  refine ⟨fun step action acts quiet => ?_, rfl⟩
  rw [attempt_fault_eq_none_iff acts] at quiet
  have kept (part : Part) (other : part ∉ action.writes) : part.Kept c (c.perform action).after :=
    Part.kept_perform other
  have idle (empty : c.pending = .typed [] ∨ ∃ kind, c.pending = .failed kind) :
      (c.perform .equals).after.pending = c.pending := by
    rw [perform_of_handle (handle_equals_of_idle empty)]
    rfl
  rw [after_attempt acts]
  refine ⟨?_, ?_, ?_, c.history_perform action, ?_, ?_, ?_⟩
  · exact fun other => kept .unit fun mem => other (Action.unit_mem_writes_iff.mp mem)
  · exact fun other => kept .memory fun mem => other (Action.memory_mem_writes_iff.mp mem)
  · exact fun other => kept .history fun mem => other (Action.history_mem_writes_iff.mp mem)
  · intro elsewhere
    refine kept .pending ?_
    cases action with
    | toggleAngle | memoryClear | memoryAdd | memorySubtract => simp [Action.writes]
    | _ => simp at elsewhere
  · rintro rfl
    exact idle
  · intro kind failed
    constructor
    · intro edits
      rw [attempt_of_action acts, attempt_of_action acts, perform_of_failed failed edits quiet]
    · intro leaves
      rw [← failed]
      by_cases commits : action = .equals
      · subst commits
        exact idle (.inr ⟨kind, failed⟩)
      · exact kept .pending fun mem => (Action.pending_mem_writes_iff.mp mem).elim leaves commits

/-- A calculator with an error on the display. -/
def refused : Calculator :=
  run (.new .degrees 1000) [.press ['1'], .press ['÷'], .press ['0'], .press ['=']]

/-- A minus sign is typed over an error as on an empty display, and a memory key leaves the
error. -/
theorem minus_over_error :
    refused.pending = .failed .divideByZero ∧
      attempt refused (.press ['-']) = attempt refused.emptied (.press ['-']) ∧
      (attempt refused (.press ['-'])).after.pending = .typed ['-'] ∧
      (attempt refused (.press "M+".toList)).after.pending = .failed .divideByZero := by
  have failed : refused.pending = .failed .divideByZero := rfl
  have minus : (Step.press ['-']).action? = .ok (some (.operator ['-'])) := rfl
  have adds : (Step.press "M+".toList).action? = .ok (some .memoryAdd) := rfl
  have edited := (attempt_frame refused).1 _ _ minus rfl
  have added := (attempt_frame refused).1 _ _ adds rfl
  obtain ⟨_, _, _, _, _, _, typed⟩ := edited
  obtain ⟨_, _, _, _, _, _, stays⟩ := added
  exact ⟨failed, (typed _ failed).1 trivial, rfl, (stays _ failed).2 id⟩

end Session

end Keypad
