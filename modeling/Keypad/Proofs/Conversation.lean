import Keypad.Console.Program
import Keypad.Proofs.Comparisons
import Keypad.Proofs.Session

/-!
# Conversations without a fault

A conversation can fail in one way only: a line has to show the number in memory, and the
number is infinite. That needs a line of keys, for the memory is shown after every such line,
so it is finite whenever a line is asked for. Every other line is answered, and every line is
asked for once.

What is proved of a run of the program is exact: it tells the runs that fail from those that do
not.
-/

namespace Keypad

open Double

namespace Calculator

variable {c : Calculator}

/-- What holds of every calculator of a conversation. -/
structure Running (c : Calculator) : Prop extends Sound c where
  clock : 0 ≤ c.clock

theorem running_new (unit : AngleUnit) : (new unit 0).Running := ⟨sound_new unit 0, le_rfl⟩

/-- No action turns the clock back. -/
theorem clock_le_perform (c : Calculator) (action : Action) :
    c.clock ≤ (c.perform action).after.clock := by
  obtain ⟨preview, same⟩ := c.after_perform action
  rw [same]
  by_cases commits : action = .equals
  · subst commits
    change c.clock ≤ c.commit.after.clock
    obtain ⟨_, same⟩ | ⟨_, kind, failed⟩ | ⟨_, _, _, _, early⟩ | ⟨_, _, _, _, entered⟩ :=
      c.commit_cases
    · rw [same]
    · rw [failed]
    · rw [early]
      exact (lt_add_one c.clock).le
    · rw [entered]
      exact (lt_add_one c.clock).le
  · exact (c.handle_frame commits).2.ge

theorem Running.perform (h : c.Running) (action : Action) : (c.perform action).after.Running :=
  ⟨h.toSound.perform action, h.clock.trans (c.clock_le_perform action)⟩

/-- The only fault of a conversation: the memory is recalled while it is infinite. -/
theorem Running.fault_perform (h : c.Running) (action : Action) :
    ((c.perform action).fault = none ∧ ¬ (action = .memoryRecall ∧ c.memory.isInf = true)) ∨
      ((c.perform action).fault = some (.render .notFinite) ∧ action = .memoryRecall ∧
        c.memory.isInf = true) := by
  obtain ⟨raises, _⟩ := h.toSound.perform_spec action
  cases outcome : (c.perform action).fault with
  | none =>
      refine .inl ⟨rfl, ?_⟩
      rintro ⟨rfl, infinite⟩
      have raised := raises.mpr infinite
      rw [outcome] at raised
      cases raised
  | some fault =>
      have refuses := raises.mp (outcome ▸ rfl)
      cases action with
      | memoryRecall =>
          rcases numberText?_cases h.memory with ⟨infinite, none⟩ | ⟨finite, _⟩
          · rw [perform_fault, Calculator.handle, none] at outcome
            cases outcome
            exact .inr ⟨rfl, rfl, infinite⟩
          · exact absurd refuses finite
      | equals => exact absurd h.clock (not_le.mpr refuses.1)
      | _ => exact refuses.elim

/-- Whether actions recall the memory while it is infinite. -/
def RecallsInfinity (c : Calculator) (actions : List Action) : Prop :=
  ∃ before rest, actions = before ++ .memoryRecall :: rest ∧
    (c.performAll before).after.memory.isInf = true

theorem performAll_cons (action : Action) (rest : List Action)
    (none : (c.perform action).fault = none) :
    c.performAll (action :: rest) = (c.perform action).after.performAll rest := by
  rw [performAll, none]

theorem performAll_cons_fault {action : Action} {rest : List Action} {fault : ActionFault}
    (some : (c.perform action).fault = some fault) :
    c.performAll (action :: rest) = c.perform action := by
  rw [performAll, some]

theorem Running.performAll (h : c.Running) (actions : List Action) :
    (c.performAll actions).after.Running ∧
      ((c.performAll actions).fault = none ∧ ¬ c.RecallsInfinity actions ∨
        (c.performAll actions).fault = some (.render .notFinite) ∧ c.RecallsInfinity actions) := by
  induction actions generalizing c with
  | nil =>
      refine ⟨h, .inl ⟨rfl, ?_⟩⟩
      rintro ⟨before, rest, absurd, _⟩
      cases before <;> cases absurd
  | cons action rest ih =>
      rcases h.fault_perform action with ⟨none, harmless⟩ | ⟨some, rfl, infinite⟩
      · rw [performAll_cons action rest none]
        obtain ⟨running, outcome⟩ := ih (h.perform action)
        have same : c.RecallsInfinity (action :: rest) ↔
            (c.perform action).after.RecallsInfinity rest := by
          constructor
          · rintro ⟨before, others, whole, infinite⟩
            cases before with
            | nil =>
                cases whole
                exact absurd ⟨rfl, infinite⟩ harmless
            | cons first before =>
                cases whole
                rw [performAll_cons _ _ none] at infinite
                exact ⟨before, others, rfl, infinite⟩
          · rintro ⟨before, others, rfl, infinite⟩
            refine ⟨action :: before, others, rfl, ?_⟩
            rw [performAll_cons _ _ none]
            exact infinite
        rw [same]
        exact ⟨running, outcome⟩
      · rw [performAll_cons_fault some]
        exact ⟨h.perform _, .inr ⟨some, [], rest, rfl, infinite⟩⟩

end Calculator

namespace Console

open Calculator

variable {c : Calculator}

/-- The memory has a line of its own exactly if it is finite. -/
theorem memoryLine_cases (number : c.memory.isNaN = false) :
    (c.memory.isInf = true ∧ memoryLine c = .error .notFinite) ∨
      (¬ c.memory.isInf = true ∧ ∃ text, memoryLine c = .ok text) := by
  unfold memoryLine
  rcases numberText?_cases number with ⟨infinite, none⟩ | ⟨finite, shown⟩
  · rw [none]
    exact .inl ⟨infinite, rfl⟩
  · rw [shown]
    exact .inr ⟨finite, _, rfl⟩

/-- A calculator is shown exactly if its memory is finite. -/
theorem render_cases (number : c.memory.isNaN = false) :
    (c.memory.isInf = true ∧ render c = .error .notFinite) ∨
      (¬ c.memory.isInf = true ∧ ∃ text, render c = .ok text) := by
  unfold render
  rcases memoryLine_cases number with ⟨infinite, none⟩ | ⟨finite, text, shown⟩
  · rw [if_neg (not_beq_zero_of_isInf infinite), none]
    exact .inl ⟨infinite, rfl⟩
  · rw [shown]
    refine .inr ⟨finite, ?_⟩
    split <;> exact ⟨_, rfl⟩

/-- A line of keys that recalls an infinite memory, or leaves one. -/
def Overflows (c : Calculator) (line : Text) : Prop :=
  line.trim.head? ≠ some ':' ∧ ∃ actions,
    KeyLine.actionsOf (KeyLine.keysOf line.trim) = .ok actions ∧
      (c.RecallsInfinity actions ∨ (c.performAll actions).after.memory.isInf = true)

/-- Whether a command ends the conversation. -/
def isLeaving (command : Text) : Bool :=
  command.lower == "exit".toList || command.lower == "quit".toList

/-- Whether a line ends the conversation. -/
def lineLeaves (line : Text) : Bool :=
  match line.trim with
  | ':' :: rest =>
    match Text.words rest with
    | [] => false
    | command :: _ => isLeaving command
  | _ => false

/-- Whether an event ends the conversation. -/
def Event.leaves : Event → Bool
  | .interrupt => false
  | .line text => lineLeaves text

/-- What holds whenever a line is asked for. -/
structure Ready (c : Calculator) : Prop extends Running c where
  finite : ¬ c.memory.isInf = true

theorem ready_new (unit : AngleUnit) : Ready (.new unit 0) :=
  ⟨running_new unit, by
    change ¬ (0 : Float).isInf = true
    decide +kernel⟩

/-- How keys are answered. -/
theorem runKeys_spec (h : Ready c) (line : Text) {keys : Text} (trimmed : line.trim = keys)
    (opens : keys.head? ≠ some ':') :
    (Overflows c line ∧ (runKeys c keys).2 = .fault (.render .notFinite)) ∨
      (¬ Overflows c line ∧ Ready (runKeys c keys).1 ∧
        ∃ ok text, (runKeys c keys).2 = .text ok text) := by
  subst trimmed
  unfold runKeys Overflows
  cases named : KeyLine.actionsOf (KeyLine.keysOf line.trim) with
  | error e =>
      refine .inr ⟨?_, h, _, _, rfl⟩
      rintro ⟨_, _, absurd, _⟩
      cases absurd
  | ok actions =>
      obtain ⟨running, ⟨none, harmless⟩ | ⟨some, recalls⟩⟩ := h.toRunning.performAll actions
      · dsimp only
        rw [none]
        dsimp only
        rcases render_cases running.memory with ⟨infinite, none⟩ | ⟨finite, text, shown⟩
        · rw [none]
          exact .inl ⟨⟨opens, actions, rfl, .inr infinite⟩, rfl⟩
        · rw [shown]
          refine .inr ⟨?_, ⟨running, finite⟩, true, text, rfl⟩
          rintro ⟨_, _, same, recalls | infinite⟩
          · cases same
            exact harmless recalls
          · cases same
            exact finite infinite
      · dsimp only
        rw [some]
        exact .inl ⟨⟨opens, actions, rfl, .inl recalls⟩, rfl⟩

/-- A command leaves, or is answered by a text: the memory is finite, so that it has one. -/
theorem runCommand_spec (h : Ready c) (command : Text) (topic : Option Text) :
    (runCommand c command topic = (c, .leave) ∧ isLeaving command = true) ∨
    (isLeaving command = false ∧
      Ready (runCommand c command topic).1 ∧
        ∃ ok text, (runCommand c command topic).2 = .text ok text) := by
  have cleared : Ready c.clearHistory :=
    ⟨⟨⟨h.memory, fun _ mem => absurd mem List.not_mem_nil⟩, h.clock⟩, h.finite⟩
  unfold runCommand
  dsimp only
  split
  · rename_i leaving
    exact .inl ⟨rfl, leaving⟩
  · rename_i staying
    refine .inr ⟨Bool.not_eq_true _ ▸ staying, ?_⟩
    split
    · exact ⟨h, _, _, rfl⟩
    · split
      · exact ⟨h, _, _, rfl⟩
      · split
        · exact ⟨cleared, _, _, rfl⟩
        · split
          · rcases memoryLine_cases h.memory with ⟨infinite, _⟩ | ⟨_, text, shown⟩
            · exact absurd infinite h.finite
            · rw [shown]
              exact ⟨h, _, _, rfl⟩
          · split <;> exact ⟨h, _, _, rfl⟩

/-- A line without a colon names keys. -/
theorem runLine_of_keys {line : Text} (opens : line.trim.head? ≠ some ':') :
    runLine c line = runKeys c line.trim ∧ lineLeaves line = false := by
  constructor
  · unfold runLine
    split
    · rename_i rest colon
      exact absurd (colon ▸ rfl) opens
    · rfl
  · unfold lineLeaves
    split
    · rename_i rest colon
      exact absurd (colon ▸ rfl) opens
    · rfl

/-- How a line is answered: one that leaves ends the conversation, one that overflows fails, and
any other is answered by a text. -/
theorem runLine_spec (h : Ready c) (line : Text) :
    (lineLeaves line = true ∧ ¬ Overflows c line ∧ (runLine c line).2 = .leave) ∨
    (lineLeaves line = false ∧ Overflows c line ∧
      (runLine c line).2 = .fault (.render .notFinite)) ∨
    (lineLeaves line = false ∧ ¬ Overflows c line ∧ Ready (runLine c line).1 ∧
      ∃ ok text, (runLine c line).2 = .text ok text) := by
  by_cases colon : line.trim.head? = some ':'
  · have harmless : ¬ Overflows c line := fun overflows => overflows.1 colon
    obtain ⟨rest, trimmed⟩ : ∃ rest, line.trim = ':' :: rest := List.head?_eq_some_iff.mp colon
    cases words : Text.words rest with
    | nil =>
        have stays : lineLeaves line = false := by simp only [lineLeaves, trimmed, words]
        have answer : runLine c line =
            (c, .text false "No command specified. Use :help for available commands.".toList) := by
          simp only [runLine, trimmed, words]
        rw [answer]
        exact .inr (.inr ⟨stays, harmless, h, _, _, rfl⟩)
    | cons command others =>
        have same : lineLeaves line = isLeaving command := by
          simp only [lineLeaves, trimmed, words]
        have answer : runLine c line = runCommand c command others.head? := by
          simp only [runLine, trimmed, words]
        rw [same, answer]
        rcases runCommand_spec h command others.head? with
          ⟨left, leaves⟩ | ⟨stays, ready, answered⟩
        · exact .inl ⟨leaves, harmless, by rw [left]⟩
        · exact .inr (.inr ⟨stays, harmless, ready, answered⟩)
  · obtain ⟨keys, stays⟩ := runLine_of_keys (c := c) colon
    rw [keys]
    rcases runKeys_spec h line rfl colon with ⟨overflows, failed⟩ | ⟨harmless, ready, answered⟩
    · exact .inr (.inl ⟨stays, overflows, failed⟩)
    · exact .inr (.inr ⟨stays, harmless, ready, answered⟩)

/-- Nothing is left of a blank line. -/
theorem trim_of_blank {line : Text} (blank : line.all Text.isBlank = true) : line.trim = [] := by
  have none : line.dropWhile Text.isBlank = [] :=
    List.dropWhile_eq_nil_iff.mpr (List.all_eq_true.mp blank)
  rw [Text.trim, none]
  rfl

/-- A blank line names no keys, so it leaves a finite memory alone. -/
theorem not_overflows_of_blank (h : Ready c) {line : Text} (blank : line.all Text.isBlank = true) :
    ¬ Overflows c line := by
  rintro ⟨_, actions, named, overflow⟩
  rw [trim_of_blank blank] at named
  have none : KeyLine.actionsOf (KeyLine.keysOf []) = .ok [] := rfl
  rw [none] at named
  cases named
  rcases overflow with ⟨before, rest, absurd, _⟩ | infinite
  · cases before <;> cases absurd
  · exact h.finite infinite

/-- The calculator after an event, whatever comes of it. -/
def after (c : Calculator) : Event → Calculator
  | .interrupt => c
  | .line text => if text.all Text.isBlank then c else (runLine c text).1

/-- Whether an event is a line that overflows. -/
def Event.Overflows (c : Calculator) : Event → Prop
  | .interrupt => False
  | .line text => Console.Overflows c text

/-- How an event is responded to. -/
theorem respond_spec (h : Ready c) (event : Event) :
    (event.leaves = true ∧ ¬ event.Overflows c ∧ ∃ text, respond c event = (text, .finished)) ∨
    (event.leaves = false ∧ event.Overflows c ∧
      ∃ text, respond c event = (text, .failed (.render .notFinite))) ∨
    (event.leaves = false ∧ ¬ event.Overflows c ∧ Ready (after c event) ∧
      ∃ text, respond c event = (text, .continuing (after c event))) := by
  cases event with
  | interrupt => exact .inr (.inr ⟨rfl, id, h, _, rfl⟩)
  | line text =>
      unfold respond after Event.leaves Event.Overflows
      dsimp only
      by_cases blank : text.all Text.isBlank = true
      · have stays : lineLeaves text = false := by
          rw [lineLeaves, trim_of_blank blank]
        rw [if_pos blank, if_pos blank]
        exact .inr (.inr ⟨stays, not_overflows_of_blank h blank, h, _, rfl⟩)
      · rw [if_neg blank, if_neg blank]
        have answer := runLine_spec h text
        cases outcome : runLine c text with
        | mk next said =>
            rw [outcome] at answer
            rcases answer with ⟨leaves, harmless, said⟩ | ⟨stays, overflows, said⟩ |
              ⟨stays, harmless, ready, ok, shown, said⟩
            · cases said
              exact .inl ⟨leaves, harmless, _, rfl⟩
            · cases said
              exact .inr (.inl ⟨stays, overflows, _, rfl⟩)
            · cases said
              exact .inr (.inr ⟨stays, harmless, ready, _, rfl⟩)

/-- Whether a conversation comes to a line that overflows. -/
def Fails (c : Calculator) (events : List Event) : Prop :=
  ∃ before event rest, events = before ++ event :: rest ∧
    (∀ earlier ∈ before, earlier.leaves = false) ∧ event.Overflows (before.foldl after c)

theorem not_fails_nil : ¬ Fails c [] := by
  rintro ⟨before, _, _, absurd, _⟩
  cases before <;> cases absurd

/-- A conversation fails at its first event or later. -/
theorem fails_cons_iff (event : Event) (rest : List Event) :
    Fails c (event :: rest) ↔
      event.Overflows c ∨ event.leaves = false ∧ Fails (after c event) rest := by
  constructor
  · rintro ⟨before, last, others, whole, stays, overflows⟩
    cases before with
    | nil =>
        cases whole
        exact .inl overflows
    | cons first before =>
        cases whole
        have own := stays event List.mem_cons_self
        exact .inr ⟨own, before, last, others, rfl,
          fun earlier mem => stays earlier (List.mem_cons_of_mem _ mem), overflows⟩
  · rintro (overflows | ⟨own, before, last, others, rfl, stays, overflows⟩)
    · exact ⟨[], event, rest, rfl, fun _ mem => absurd mem List.not_mem_nil, overflows⟩
    · refine ⟨event :: before, last, others, rfl, fun earlier mem => ?_, overflows⟩
      rcases List.mem_cons.mp mem with rfl | mem
      · exact own
      · exact stays earlier mem

/-- A conversation fails exactly if it comes to a line that overflows, and otherwise asks once for
every line up to the one that leaves. -/
theorem converse_spec (h : Ready c) (events : List Event) :
    (Fails c events ∧ (converse c events).fault = some (.render .notFinite)) ∨
      (¬ Fails c events ∧ (converse c events).fault = none ∧
        (converse c events).requests = (events.takeWhile (!·.leaves)).length + 1) := by
  induction events generalizing c with
  | nil => exact .inr ⟨not_fails_nil, rfl, rfl⟩
  | cons event rest ih =>
      rw [fails_cons_iff, List.takeWhile_cons]
      unfold converse
      rcases respond_spec h event with ⟨leaves, harmless, text, responded⟩ |
        ⟨_, overflows, text, responded⟩ | ⟨stays, harmless, ready, text, responded⟩
      · rw [responded, leaves]
        refine .inr ⟨?_, rfl, rfl⟩
        rintro (overflows | ⟨absurd, _⟩)
        · exact harmless overflows
        · cases absurd
      · rw [responded]
        exact .inl ⟨.inl overflows, rfl⟩
      · rw [responded, stays]
        dsimp only
        rcases ih ready with ⟨fails, fault⟩ | ⟨succeeds, none, requests⟩
        · exact .inl ⟨.inr ⟨rfl, fails⟩, fault⟩
        · refine .inr ⟨?_, none, ?_⟩
          · rintro (overflows | ⟨_, fails⟩)
            · exact harmless overflows
            · exact succeeds fails
          · rw [requests]
            rfl

/-- A run with valid settings fails exactly if it comes to a line that recalls an infinite memory
or leaves one. No other fault is possible, and without one the prompt is shown once for every event
up to the one that leaves, or up to the end of the input. -/
theorem run_spec {texts : List Text} {environment : Variables} {file : Option Text}
    {settings : Settings} (configured : configure texts environment file = .ok settings)
    (events : List Event) :
    ∃ r, run texts environment file events = .ok r ∧
      (r.fault = none ↔ ¬ Fails (firstCalculator settings) events) ∧
      (∀ fault, r.fault = some fault → fault = .render .notFinite) ∧
      (r.fault = none → r.prompts =
        List.replicate ((events.takeWhile (!·.leaves)).length + 1) settings.prompt) := by
  have ran : run texts environment file events =
      .ok ⟨List.replicate (converse (firstCalculator settings) events).requests settings.prompt,
        greeting ++ (converse (firstCalculator settings) events).output,
        (converse (firstCalculator settings) events).fault⟩ := by
    rw [run, configured]
  refine ⟨_, ran, ?_⟩
  rcases converse_spec (ready_new settings.angleUnit) events with
    ⟨fails, fault⟩ | ⟨succeeds, none, requests⟩
  · change (converse (firstCalculator settings) events).fault = _ at fault
    rw [fault]
    refine ⟨iff_of_false (fun absurd => by cases absurd) (not_not.mpr fails), ?_,
      fun absurd => by cases absurd⟩
    rintro _ ⟨⟩
    rfl
  · change (converse (firstCalculator settings) events).fault = _ at none
    change (converse (firstCalculator settings) events).requests = _ at requests
    rw [none, requests]
    refine ⟨iff_of_true rfl succeeds, ?_, fun _ => rfl⟩
    rintro _ ⟨⟩

/-- A run that asks for three lines, of which the last leaves. -/
theorem run_until_exit :
    ∃ r, run [] [] none [.line "1 + 1 =".toList, .interrupt, .line ":exit".toList] = .ok r ∧
      r.fault = none ∧ r.prompts = List.replicate 3 "> ".toList := by
  have configured : configure [] [] none = .ok .standard := rfl
  obtain ⟨r, ran, -, -, prompts⟩ :=
    run_spec configured [.line "1 + 1 =".toList, .interrupt, .line ":exit".toList]
  have quiet : r.fault = none := by
    cases ran
    exact Option.isNone_iff_eq_none.mp (by decide +kernel)
  exact ⟨r, ran, quiet, prompts quiet⟩

/-- Keys for a number of 308 nines that is added to the memory twice. -/
def overflowingLine : Text := (List.replicate 308 "9 ".toList).flatten ++ "M+ M+".toList

/-- A run that fails: all of its keys are pressed, but the sum in memory is infinite. -/
theorem run_of_overflowingLine :
    ∃ r, run [] [] none [.line overflowingLine] = .ok r ∧ r.fault.isSome = true :=
  ⟨_, rfl, by decide +kernel⟩

end Console

end Keypad
