import Keypad.Calculator
import Keypad.Proofs.Phases
import Keypad.Proofs.ReadBack

/-!
# Sessions

A session is a calculator that is used from outside: keys are pressed by their labels, actions
are asked for by the name of their kind, the history is cleared, and the clock shows what it
likes. Steps that raise a fault are part of a session like any other.

What carries the proofs is an invariant (`Sound`): the memory is a number, and no entry of the
history has an empty text. From it follows exactly which steps raise, and that those change
nothing a user could see.

Of the steps that raise nothing only commits are described here.
-/

namespace Keypad

open Double Decimal

/-- A commit has two texts that are not empty, so its time alone decides whether it makes an
entry. -/
theorem HistoryEntry.make_eq {expression result : Text} (hexpression : expression ≠ [])
    (hresult : result ≠ []) (timestamp : Int) :
    make expression result timestamp =
      if timestamp < 0 then .error [⟨"timestamp".toList, .negative⟩]
      else .ok ⟨expression, result, timestamp.toNat⟩ := by
  have first : checkText expression = .ok expression := by
    simp [checkText, hexpression]
  have second : checkText result = .ok result := by
    simp [checkText, hresult]
  unfold make
  rw [first, second]
  unfold checkTimestamp
  split <;> rfl

namespace Calculator

variable {c : Calculator} {text : Text} {value : Float}

theorem isFinite_of_resultOf (h : c.resultOf text = .success value) : value.isFinite = true :=
  isFinite_of_calculate h

/-- What the memory keys add or subtract is finite. -/
theorem isFinite_currentValue (h : c.currentValue = some value) : value.isFinite = true := by
  unfold currentValue at h
  split at h
  · cases h
  · rename_i typed pending
    obtain ⟨result, shown, read⟩ := Option.bind_eq_some_iff.mp h
    cases outcome : c.resultOf (if typed.isEmpty then ['0'] else typed) with
    | failure kind =>
        rw [outcome] at shown
        cases shown
    | success number =>
        rw [outcome] at shown
        cases shown
        obtain ⟨w, back, finite, _⟩ :=
          readDouble?_resultText ((isFinite_iff _).mp (isFinite_of_resultOf outcome))
        rw [back] at read
        cases read
        exact finite

/-- A commit with nothing to calculate does nothing. -/
theorem commit_of_idle (idle : ∀ text, c.pending = .typed text → text = []) :
    c.commit = ⟨c, none⟩ := by
  unfold commit
  split
  · rfl
  · rfl
  · rename_i text typed
    exact absurd (idle _ typed) (by assumption)

/-- A commit that does not arrive at a number shows the error. -/
theorem commit_of_failure {kind : ErrorKind} (pending : c.pending = .typed text)
    (nonempty : text ≠ []) (failure : c.resultOf text = .failure kind) :
    c.commit = ⟨{ c with pending := .failed kind }, none⟩ := by
  obtain ⟨first, others, rfl⟩ := List.exists_cons_of_ne_nil nonempty
  unfold commit
  rw [pending]
  dsimp only
  rw [failure]

/-- A commit that arrives at a number: the entry of a moment before the beginning of time is
refused, any other is kept. -/
theorem commit_of_success (pending : c.pending = .typed text) (nonempty : text ≠ [])
    (success : c.resultOf text = .success value) :
    c.commit =
      if c.clock < 0 then
        ⟨{ c with clock := c.clock + 1 }, some (.entry [⟨"timestamp".toList, .negative⟩])⟩
      else
        ⟨{ c with
            pending := .typed (resultText value)
            history := c.history ++ [⟨text, resultText value, c.clock.toNat⟩]
            clock := c.clock + 1 }, none⟩ := by
  obtain ⟨first, others, rfl⟩ := List.exists_cons_of_ne_nil nonempty
  unfold commit
  rw [pending]
  dsimp only
  rw [success]
  dsimp only
  rw [HistoryEntry.make_eq nonempty (resultText_ne_nil value)]
  by_cases early : c.clock < 0
  · rw [if_pos early, if_pos early]
  · rw [if_neg early, if_neg early]

/-- Whether a commit would arrive at a number. -/
def Commits (c : Calculator) (text : Text) (value : Float) : Prop :=
  c.pending = .typed text ∧ text ≠ [] ∧ c.resultOf text = .success value

/-- All that a commit can do. -/
theorem commit_cases (c : Calculator) :
    ((∀ text, c.pending = .typed text → text = []) ∧ c.commit = ⟨c, none⟩) ∨
    ((∀ text value, ¬ c.Commits text value) ∧
      ∃ kind, c.commit = ⟨{ c with pending := .failed kind }, none⟩) ∨
    (∃ text value, c.Commits text value ∧ c.clock < 0 ∧
      c.commit =
        ⟨{ c with clock := c.clock + 1 }, some (.entry [⟨"timestamp".toList, .negative⟩])⟩) ∨
    (∃ text value, c.Commits text value ∧ 0 ≤ c.clock ∧
      c.commit =
        ⟨{ c with
            pending := .typed (resultText value)
            history := c.history ++ [⟨text, resultText value, c.clock.toNat⟩]
            clock := c.clock + 1 }, none⟩) := by
  by_cases idle : ∀ text, c.pending = .typed text → text = []
  · exact .inl ⟨idle, commit_of_idle idle⟩
  · simp only [not_forall] at idle
    obtain ⟨text, pending, nonempty⟩ := idle
    cases outcome : c.resultOf text with
    | failure kind =>
        refine .inr (.inl ⟨?_, kind, commit_of_failure pending nonempty outcome⟩)
        rintro text' value ⟨typed, _, success⟩
        rw [pending] at typed
        cases typed
        rw [outcome] at success
        cases success
    | success value =>
        have commits : c.Commits text value := ⟨pending, nonempty, outcome⟩
        have commit := commit_of_success pending nonempty outcome
        by_cases early : c.clock < 0
        · rw [if_pos early] at commit
          exact .inr (.inr (.inl ⟨text, value, commits, early, commit⟩))
        · rw [if_neg early] at commit
          exact .inr (.inr (.inr ⟨text, value, commits, not_lt.mp early, commit⟩))

/-- Performing an action is handling it, but for the preview. -/
theorem after_perform (c : Calculator) (action : Action) :
    ∃ preview, (c.perform action).after = { (c.handle action).after with preview := preview } := by
  unfold perform
  dsimp only
  split
  · exact ⟨_, rfl⟩
  · exact ⟨(c.handle action).after.preview, rfl⟩

theorem perform_fault (c : Calculator) (action : Action) :
    (c.perform action).fault = (c.handle action).fault := by
  unfold perform
  dsimp only
  split
  · rename_i none
    exact none.symm
  · rename_i some
    exact some.symm

/-- Performing an action that raises nothing is handling it and working out the preview. -/
theorem perform_of_handle {d : Calculator} {action : Action}
    (handled : c.handle action = ⟨d, none⟩) : c.perform action = ⟨d.refresh, none⟩ := by
  unfold perform
  rw [handled]

/-- What performing a commit that goes well leaves. -/
theorem perform_equals_of_commits (commits : c.Commits text value) (late : 0 ≤ c.clock) :
    ∃ preview, c.perform .equals =
      ⟨{ c with
          pending := .typed (resultText value)
          preview := preview
          history := c.history ++ [⟨text, resultText value, c.clock.toNat⟩]
          clock := c.clock + 1 }, none⟩ := by
  have entered := commit_of_success commits.1 commits.2.1 commits.2.2
  rw [if_neg (not_lt.mpr late)] at entered
  have handled : c.handle .equals = _ := entered
  unfold perform
  rw [handled]
  exact ⟨_, rfl⟩

/-- A commit that goes well. -/
theorem perform_equals_of_success (commits : c.Commits text value) (late : 0 ≤ c.clock) :
    (c.perform .equals).fault = none ∧
      (c.perform .equals).after.pending = .typed (resultText value) ∧
      (c.perform .equals).after.history =
        c.history ++ [⟨text, resultText value, c.clock.toNat⟩] := by
  obtain ⟨preview, performed⟩ := perform_equals_of_commits commits late
  rw [performed]
  exact ⟨rfl, rfl, rfl⟩

/-- A commit that ends in an error. -/
theorem perform_equals_of_failure {kind : ErrorKind} (pending : c.pending = .typed text)
    (nonempty : text ≠ []) (failure : c.resultOf text = .failure kind) :
    (c.perform .equals).fault = none ∧ (c.perform .equals).after.pending = .failed kind ∧
      (c.perform .equals).after.history = c.history := by
  have handled : c.handle .equals = _ := commit_of_failure pending nonempty failure
  unfold perform
  rw [handled]
  exact ⟨rfl, rfl, rfl⟩

/-- No action but a commit reads the clock or touches the history. -/
theorem handle_frame {action : Action} (other : action ≠ .equals) :
    (c.handle action).after.history = c.history ∧ (c.handle action).after.clock = c.clock := by
  cases action with
  | equals => exact absurd rfl other
  | input | operator | smartParenthesis | clear | backspace | toggleSign | toggleAngle
  | memoryClear => exact ⟨rfl, rfl⟩
  | memoryRecall =>
      unfold Calculator.handle
      dsimp only
      split <;> exact ⟨rfl, rfl⟩
  | memoryAdd | memorySubtract =>
      unfold Calculator.handle Calculator.updateMemory
      dsimp only
      split <;> exact ⟨rfl, rfl⟩

/-- What holds of every calculator in a session. -/
structure Sound (c : Calculator) : Prop where
  /-- The memory is a number. -/
  memory : c.memory.isNaN = false
  /-- No entry has an empty text. -/
  entries : ∀ entry ∈ c.history, entry.expression ≠ [] ∧ entry.result ≠ []

theorem isNaN_zero : (0 : Float).isNaN = false := rfl

theorem sound_new (unit : AngleUnit) (clock : Int) : (new unit clock).Sound :=
  ⟨isNaN_zero, fun _ mem => absurd mem List.not_mem_nil⟩

/-- The invariant is about the memory and the history alone. -/
theorem Sound.of_eq {d : Calculator} (h : c.Sound) (memory : d.memory = c.memory)
    (history : d.history = c.history) : d.Sound :=
  ⟨memory ▸ h.memory, history ▸ h.entries⟩

theorem Sound.commit (h : c.Sound) : c.commit.after.Sound := by
  obtain ⟨_, same⟩ | ⟨_, kind, failed⟩ | ⟨text, value, _, _, early⟩ |
    ⟨text, value, commits, _, entered⟩ := c.commit_cases
  · rw [same]
    exact h
  · rw [failed]
    exact h.of_eq rfl rfl
  · rw [early]
    exact h.of_eq rfl rfl
  · rw [entered]
    refine ⟨h.memory, fun entry mem => ?_⟩
    rcases List.mem_append.mp mem with old | new
    · exact h.entries entry old
    · cases List.mem_singleton.mp new
      exact ⟨commits.2.1, resultText_ne_nil value⟩

/-- Adding to the memory or subtracting from it leaves a number. -/
theorem Sound.updateMemory (h : c.Sound) {change : Float → Float → Float}
    (number : ∀ a b : Float, a.isNaN = false → b.isFinite = true → (change a b).isNaN = false) :
    (c.updateMemory change).Sound := by
  unfold Calculator.updateMemory
  split
  · rename_i value found
    exact ⟨number _ _ h.memory (isFinite_currentValue found), h.entries⟩
  · exact h

/-- Every handler keeps the invariant. -/
theorem Sound.handle (h : c.Sound) (action : Action) : (c.handle action).after.Sound := by
  cases action with
  | input | operator | smartParenthesis | clear | backspace | toggleSign | toggleAngle =>
      exact h.of_eq rfl rfl
  | equals => exact h.commit
  | memoryClear => exact ⟨isNaN_zero, h.entries⟩
  | memoryRecall =>
      unfold Calculator.handle
      dsimp only
      split
      · exact h.of_eq rfl rfl
      · exact h
  | memoryAdd => exact h.updateMemory fun _ _ => isNaN_add
  | memorySubtract => exact h.updateMemory fun _ _ => isNaN_sub

theorem Sound.perform (h : c.Sound) (action : Action) : (c.perform action).after.Sound := by
  obtain ⟨preview, same⟩ := c.after_perform action
  rw [same]
  exact (h.handle action).of_eq rfl rfl

/-- When an action raises. -/
def Refuses (c : Calculator) : Action → Prop
  | .memoryRecall => c.memory.isInf = true
  | .equals => c.clock < 0 ∧ ∃ text value, c.Commits text value
  | _ => False

/-- The same but for the clock. -/
structure Same (c d : Calculator) : Prop where
  pending : d.pending = c.pending
  preview : d.preview = c.preview
  unit : d.unit = c.unit
  memory : d.memory = c.memory
  history : d.history = c.history

theorem Same.refl (c : Calculator) : c.Same c := ⟨rfl, rfl, rfl, rfl, rfl⟩

/-- A number has no text exactly if it is infinite. -/
theorem numberText?_cases {v : Float} (number : v.isNaN = false) :
    (v.isInf = true ∧ numberText? v = .error .notFinite) ∨
      (¬ v.isInf = true ∧ numberText? v = .ok (numberText v)) := by
  rw [← Bool.not_eq_true, isNaN_iff] at number
  rw [isInf_iff]
  unfold numberText?
  by_cases finite : v.isFinite = true
  · rw [if_pos finite]
    rw [isFinite_iff] at finite
    exact .inr ⟨by omega, rfl⟩
  · rw [if_neg finite]
    rw [isFinite_iff] at finite
    exact .inl ⟨by omega, rfl⟩

/-- A commit raises before the beginning of time alone, and then changes nothing but the
clock. -/
theorem commit_spec (c : Calculator) :
    (c.commit.fault.isSome ↔ c.Refuses .equals) ∧
      (c.commit.fault.isSome → c.Same c.commit.after) := by
  obtain ⟨idle, same⟩ | ⟨none, kind, failed⟩ | ⟨text, value, commits, negative, early⟩ |
    ⟨text, value, _, nonneg, entered⟩ := c.commit_cases
  · rw [same]
    refine ⟨iff_of_false Bool.false_ne_true ?_, fun _ => .refl c⟩
    rintro ⟨_, text, value, commits⟩
    exact commits.2.1 (idle text commits.1)
  · rw [failed]
    refine ⟨iff_of_false Bool.false_ne_true ?_, fun raised => by cases raised⟩
    rintro ⟨_, text, value, commits⟩
    exact none text value commits
  · rw [early]
    exact ⟨iff_of_true rfl ⟨negative, text, value, commits⟩, fun _ => ⟨rfl, rfl, rfl, rfl, rfl⟩⟩
  · rw [entered]
    refine ⟨iff_of_false Bool.false_ne_true ?_, fun raised => by cases raised⟩
    rintro ⟨negative, _⟩
    exact not_lt.mpr nonneg negative

/-- Which actions raise, and that those change nothing but the clock. -/
theorem Sound.perform_spec (h : c.Sound) (action : Action) :
    ((c.perform action).fault.isSome ↔ c.Refuses action) ∧
      ((c.perform action).fault.isSome → c.Same (c.perform action).after) := by
  have handled : ((c.handle action).fault.isSome ↔ c.Refuses action) ∧
      ((c.handle action).fault.isSome → c.Same (c.handle action).after) := by
    cases action with
    | input | operator | smartParenthesis | clear | backspace | toggleSign | toggleAngle
    | memoryClear | memoryAdd | memorySubtract =>
        exact ⟨iff_of_false Bool.false_ne_true id, fun raised => by cases raised⟩
    | equals => exact c.commit_spec
    | memoryRecall =>
        unfold Calculator.handle
        dsimp only
        rcases numberText?_cases h.memory with ⟨infinite, none⟩ | ⟨finite, shown⟩
        · rw [none]
          exact ⟨iff_of_true rfl infinite, fun _ => .refl c⟩
        · rw [shown]
          exact ⟨iff_of_false Bool.false_ne_true finite, fun raised => by cases raised⟩
  unfold Calculator.perform
  dsimp only
  split
  · rename_i none
    rw [none] at handled
    exact ⟨handled.1, fun raised => by cases raised⟩
  · rename_i fault some
    rw [some] at handled
    exact handled

end Calculator

namespace Action

/-- The names of the kinds of actions. -/
def kinds : List Text := (input [] :: operator [] :: commands).map kind

/-- A kind has an action exactly if it is one of the kinds, whatever the text. -/
theorem exists_ofKind_iff (name value : Text) :
    (∃ action, ofKind name value = .ok action) ↔ name ∈ kinds := by
  have names : (input value :: operator value :: commands).map kind = kinds := rfl
  rw [← names, List.mem_map]
  unfold ofKind
  constructor
  · rintro ⟨action, found⟩
    split at found
    · rename_i hit lookup
      exact ⟨hit, List.mem_of_find?_eq_some lookup, by simpa using List.find?_some lookup⟩
    · cases found
  · rintro ⟨action, mem, named⟩
    have some : ((input value :: operator value :: commands).find? (·.kind == name)).isSome := by
      rw [List.find?_isSome]
      exact ⟨action, mem, by simpa using named⟩
    obtain ⟨hit, found⟩ := Option.isSome_iff_exists.mp some
    rw [found]
    exact ⟨hit, rfl⟩

/-- The commands may be written in any letter case, all other labels only as they are. -/
def IsLabel (label : Text) : Prop :=
  label.trim ∈ Key.labels ∨ label.trim.upper ∈ Key.commandLabels.map (·.1)

theorem exists_lookup_iff {α : Type} (key : Text) (entries : List (Text × α)) :
    (∃ value, entries.lookup key = some value) ↔ key ∈ entries.map (·.1) := by
  induction entries with
  | nil => simp
  | cons entry entries ih =>
      obtain ⟨name, value⟩ := entry
      by_cases same : key = name
      · simp [same]
      · simp only [List.lookup_cons, beq_eq_false_iff_ne.mpr same, ih, List.map_cons,
          List.mem_cons, same, false_or]

theorem lookup_eq_none {α : Type} {key : Text} {entries : List (Text × α)}
    (none : entries.lookup key = none) : key ∉ entries.map (·.1) := by
  rw [← exists_lookup_iff, none]
  rintro ⟨_, absurd⟩
  cases absurd

/-- The kinds of labels. -/
theorem mem_labels_iff (key : Text) :
    key ∈ Key.labels ↔ key ∈ Key.digits ∨ key ∈ Key.constantLabels.map (·.1) ∨
      key ∈ Key.parentheses ∨ key ∈ Key.operatorLabels.map (·.1) ∨
      key ∈ Key.functionLabels.map (·.1) ∨ key ∈ Key.commandLabels.map (·.1) := by
  simp only [Key.labels, List.mem_mergeSort, List.mem_eraseDups, List.mem_append, or_assoc]

/-- The commands are written in upper case. -/
theorem upper_mem_commandLabels {key : Text} (h : key ∈ Key.commandLabels.map (·.1)) :
    key.upper ∈ Key.commandLabels.map (·.1) := by
  have all : ∀ key ∈ Key.commandLabels.map (·.1),
      Text.upper key ∈ Key.commandLabels.map (·.1) := by
    decide
  exact all key h

/-- A key has an action exactly if it has the label. -/
theorem exists_ofLabel_iff (label : Text) :
    (∃ action, ofLabel label = .ok action) ↔ IsLabel label := by
  unfold IsLabel
  rw [mem_labels_iff]
  unfold ofLabel
  dsimp only
  split
  · rename_i input
    simp only [Bool.or_eq_true, List.contains_iff_mem] at input
    refine iff_of_true ⟨_, rfl⟩ (.inl ?_)
    exact input.elim .inl fun parenthesis => .inr (.inr (.inl parenthesis))
  · rename_i input
    simp only [Bool.or_eq_true, List.contains_iff_mem, not_or] at input
    split
    · rename_i text found
      have constant := (exists_lookup_iff _ _).mp ⟨text, found⟩
      exact iff_of_true ⟨_, rfl⟩ (.inl (.inr (.inl constant)))
    · rename_i constant
      split
      · rename_i text found
        have operator := (exists_lookup_iff _ _).mp ⟨text, found⟩
        exact iff_of_true ⟨_, rfl⟩ (.inl (.inr (.inr (.inr (.inl operator)))))
      · rename_i operator
        split
        · rename_i text found
          have function := (exists_lookup_iff _ _).mp ⟨text, found⟩
          exact iff_of_true ⟨_, rfl⟩ (.inl (.inr (.inr (.inr (.inr (.inl function))))))
        · rename_i function
          split
          · rename_i action found
            have command := (exists_lookup_iff _ _).mp ⟨action, found⟩
            exact iff_of_true ⟨_, rfl⟩ (.inr command)
          · rename_i command
            apply iff_of_false
            · rintro ⟨_, absurd⟩
              cases absurd
            · rintro ((mem | mem | mem | mem | mem | mem) | mem)
              · exact input.1 mem
              · exact lookup_eq_none constant mem
              · exact input.2 mem
              · exact lookup_eq_none operator mem
              · exact lookup_eq_none function mem
              · exact lookup_eq_none command (upper_mem_commandLabels mem)
              · exact lookup_eq_none command mem

end Action

/-! ## Sessions -/

namespace Session

/-- A step of a session. -/
inductive Step where
  /-- Ask for an action by the name of its kind, with a text that it may use. -/
  | act (kind value : Text)
  | press (label : Text)
  | clearHistory

namespace Step

/-- The action of a step, if it is one. -/
def action? : Step → Except KeyError (Option Action)
  | .act kind value => some <$> Action.ofKind kind value
  | .press label => some <$> Action.ofLabel label
  | .clearHistory => .ok none

/-- Whether the kind or the label that a step names is one. -/
def IsKnown : Step → Prop
  | .act kind _ => kind ∈ Action.kinds
  | .press label => Action.IsLabel label
  | .clearHistory => True

/-- A step has an action, or is no action, exactly if it is known. -/
theorem exists_action?_iff (step : Step) :
    (∃ action, step.action? = .ok action) ↔ step.IsKnown := by
  have mapped : ∀ found : Except KeyError Action,
      (∃ action, some <$> found = .ok action) ↔ ∃ action, found = .ok action := by
    intro found
    cases found with
    | error e => exact iff_of_false (by rintro ⟨_, h⟩; cases h) (by rintro ⟨_, h⟩; cases h)
    | ok action => exact iff_of_true ⟨_, rfl⟩ ⟨_, rfl⟩
  cases step with
  | act kind value => exact (mapped _).trans (Action.exists_ofKind_iff kind value)
  | press label => exact (mapped _).trans (Action.exists_ofLabel_iff label)
  | clearHistory => exact iff_of_true ⟨_, rfl⟩ trivial

end Step

/-- Why a step raises. -/
inductive Fault where
  | unknown (error : KeyError)
  | action (fault : ActionFault)

/-- A calculator after a step, and the fault that was raised if one was. -/
structure Outcome where
  after : Calculator
  fault : Option Fault

/-- What a step does. -/
def attempt (c : Calculator) (step : Step) : Outcome :=
  match step.action? with
  | .error e => ⟨c, some (.unknown e)⟩
  | .ok none => ⟨c.clearHistory, none⟩
  | .ok (some action) => ⟨(c.perform action).after, (c.perform action).fault.map .action⟩

theorem attempt_of_action {c : Calculator} {step : Step} {action : Action}
    (acts : step.action? = .ok (some action)) :
    attempt c step = ⟨(c.perform action).after, (c.perform action).fault.map .action⟩ := by
  unfold attempt
  rw [acts]

theorem after_attempt {c : Calculator} {step : Step} {action : Action}
    (acts : step.action? = .ok (some action)) :
    (attempt c step).after = (c.perform action).after := by
  rw [attempt_of_action acts]

theorem action?_press {label : Text} {action : Action} (acts : Action.ofLabel label = .ok action) :
    (Step.press label).action? = .ok (some action) := by
  change some <$> Action.ofLabel label = _
  rw [acts]
  rfl

/-- The calculators that a session can lead to. The clock may be set between any two steps, so
it can read anything at any time. -/
inductive Reachable : Calculator → Prop where
  | start (unit : AngleUnit) (clock : Int) : Reachable (.new unit clock)
  /-- A step, whether it raises or not. -/
  | step {c : Calculator} (before : Reachable c) (step : Step) : Reachable (attempt c step).after
  | wait {c : Calculator} (before : Reachable c) (clock : Int) :
      Reachable { c with clock := clock }

/-- Every step keeps the invariant. -/
theorem sound_attempt {c : Calculator} (h : c.Sound) (step : Step) :
    (attempt c step).after.Sound := by
  unfold attempt
  split
  · exact h
  · exact ⟨h.memory, fun _ mem => absurd mem List.not_mem_nil⟩
  · exact h.perform _

theorem Reachable.sound {c : Calculator} (h : Reachable c) : c.Sound := by
  induction h with
  | start unit clock => exact Calculator.sound_new unit clock
  | step before step ih => exact sound_attempt ih step
  | wait before clock ih => exact ih.of_eq rfl rfl

/-- An entry is added by a commit alone, and what the commit leaves is never empty. -/
theorem typed_of_entry {c : Calculator} (step : Step)
    (more : c.history.length < (attempt c step).after.history.length) :
    ∃ text, (attempt c step).after.pending = .typed text ∧ text ≠ [] := by
  unfold attempt at more ⊢
  split at more
  · exact absurd more (lt_irrefl _)
  · exact absurd more (Nat.not_lt_zero _)
  · rename_i action _
    obtain ⟨preview, same⟩ := c.after_perform action
    dsimp only at more ⊢
    rw [same] at more ⊢
    by_cases commits : action = .equals
    · subst commits
      change c.history.length < c.commit.after.history.length at more
      change ∃ text, c.commit.after.pending = .typed text ∧ text ≠ []
      obtain ⟨_, same⟩ | ⟨_, kind, failed⟩ | ⟨text, value, _, _, early⟩ |
        ⟨text, value, _, _, entered⟩ := c.commit_cases
      · rw [same] at more
        exact absurd more (lt_irrefl _)
      · rw [failed] at more
        exact absurd more (lt_irrefl _)
      · rw [early] at more
        exact absurd more (lt_irrefl _)
      · rw [entered]
        exact ⟨_, rfl, resultText_ne_nil value⟩
    · have kept : (c.handle action).after.history = c.history := (c.handle_frame commits).1
      dsimp only at more
      rw [kept] at more
      exact absurd more (lt_irrefl _)

/-- Which steps raise. -/
theorem attempt_fault_iff {c : Calculator} (h : c.Sound) (step : Step) :
    (attempt c step).fault.isSome ↔
      ¬ step.IsKnown ∨ ∃ action, step.action? = .ok (some action) ∧ c.Refuses action := by
  rw [← step.exists_action?_iff]
  unfold attempt
  split
  · rename_i e unknown
    refine iff_of_true rfl (.inl ?_)
    rw [unknown]
    rintro ⟨_, absurd⟩
    cases absurd
  · rename_i clears
    apply iff_of_false Bool.false_ne_true
    rw [clears]
    rintro (stranger | ⟨_, absurd, _⟩)
    · exact stranger ⟨_, rfl⟩
    · cases absurd
  · rename_i action acts
    dsimp only
    rw [Option.isSome_map, (h.perform_spec action).1, acts]
    constructor
    · intro refuses
      exact .inr ⟨action, rfl, refuses⟩
    · rintro (stranger | ⟨_, same, refuses⟩)
      · exact absurd ⟨_, rfl⟩ stranger
      · cases same
        exact refuses

/-- A step that raises changes nothing but the clock. -/
theorem same_of_attempt {c : Calculator} (h : c.Sound) (step : Step)
    (raised : (attempt c step).fault.isSome) : c.Same (attempt c step).after := by
  unfold attempt at raised ⊢
  split at raised
  · exact .refl c
  · cases raised
  · rename_i action _
    dsimp only at raised
    rw [Option.isSome_map] at raised
    exact (h.perform_spec action).2 raised

/-- A step raises exactly if it names what is not there, recalls an infinite memory, or commits
a result before the beginning of time; then it leaves everything but the clock as it was. An
expression on the display always has an outcome, and what a commit leaves is one. -/
theorem Reachable.attempt_spec {c : Calculator} (h : Reachable c) (step : Step) :
    ((attempt c step).fault.isSome ↔
      ¬ step.IsKnown ∨
      (step.action? = .ok (some .memoryRecall) ∧ c.memory.isInf = true) ∨
      (step.action? = .ok (some .equals) ∧ c.clock < 0 ∧ ∃ text value,
        c.pending = .typed text ∧ text ≠ [] ∧ c.resultOf text = .success value)) ∧
    ((attempt c step).fault.isSome → c.Same (attempt c step).after) ∧
    (∀ text, c.pending = .typed text → text ≠ [] →
      calculate? .standard c.unit text = some (c.resultOf text)) ∧
    (c.history.length < (attempt c step).after.history.length →
      ∃ text, (attempt c step).after.pending = .typed text ∧ text ≠ []) := by
  refine ⟨?_, same_of_attempt h.sound step, ?_, typed_of_entry step⟩
  · rw [attempt_fault_iff h.sound]
    refine or_congr_right ⟨?_, ?_⟩
    · rintro ⟨action, acts, refuses⟩
      cases action with
      | memoryRecall => exact .inl ⟨acts, refuses⟩
      | equals => exact .inr ⟨acts, refuses⟩
      | _ => exact refuses.elim
    · rintro (⟨recalls, infinite⟩ | ⟨commits, early⟩)
      · exact ⟨.memoryRecall, recalls, infinite⟩
      · exact ⟨.equals, commits, early⟩
  · intro text _ nonempty
    simp [calculate?, nonempty, Calculator.resultOf]

/-- A calculator with a digit on the display, just before the beginning of time. -/
def earlyCalculator : Calculator := (attempt (.new .degrees (-1)) (.press ['7'])).after

/-- Its expression outlives the attempt to commit it. -/
theorem same_after_early_commit :
    earlyCalculator.pending = .typed ['7'] ∧
      (attempt earlyCalculator (.press ['='])).fault.isSome ∧
      earlyCalculator.Same (attempt earlyCalculator (.press ['='])).after := by
  have reachable : Reachable earlyCalculator := .step (.start .degrees (-1)) (.press ['7'])
  have raised : (attempt earlyCalculator (.press ['='])).fault.isSome := rfl
  exact ⟨rfl, raised, (reachable.attempt_spec (.press ['='])).2.1 raised⟩

end Session

end Keypad
