import Keypad.Proofs.Session

/-!
# The history of a run

A run is any sequence of steps, those that raise included, on a calculator whose clock nobody
sets. The commits of a run can be told from its steps and the states they meet, without a look at
the history (`commits`), and the history is what they make of it: an entry for each commit since
the history was last cleared, in order, with the time of the commit. As the clock is read by
commits alone, the time is the number of commits before, those whose entries were cleared
included.

The step lemmas say what a step does that commits and what one does that does not; induction on
the run puts them together.
-/

namespace Keypad

namespace Session

/-- A commit that arrives at a number. -/
structure Commit where
  text : Text
  unit : AngleUnit
  value : Float

/-- The entry of a commit. -/
def Commit.entry (m : Commit) (timestamp : Nat) : HistoryEntry :=
  ⟨m.text, resultText m.value, timestamp⟩

/-- The commit that a step makes, if it makes one. -/
def commitOf (c : Calculator) (step : Step) : Option Commit :=
  match step.action?, c.pending with
  | .ok (some .equals), .typed text =>
    match calculate? .standard c.unit text with
    | some (.success value) => some ⟨text, c.unit, value⟩
    | _ => none
  | _, _ => none

/-- The calculator after a run. -/
def run (c : Calculator) (steps : List Step) : Calculator :=
  steps.foldl (fun c step => (attempt c step).after) c

/-- The commits of a run, in order. -/
def commits (c : Calculator) : List Step → List Commit
  | [] => []
  | step :: rest => (commitOf c step).toList ++ commits (attempt c step).after rest

variable {c : Calculator} {step : Step} {steps : List Step} {m : Commit}

theorem Step.action?_eq_none_iff : step.action? = .ok none ↔ step = .clearHistory := by
  cases step with
  | act kind value =>
      refine iff_of_false (fun found => ?_) (by rintro ⟨⟩)
      change some <$> Action.ofKind kind value = .ok none at found
      cases action : Action.ofKind kind value <;> rw [action] at found <;> cases found
  | press label =>
      refine iff_of_false (fun found => ?_) (by rintro ⟨⟩)
      change some <$> Action.ofLabel label = .ok none at found
      cases action : Action.ofLabel label <;> rw [action] at found <;> cases found
  | clearHistory => exact iff_of_true rfl rfl

/-- A step commits if it asks for it while a text with a result is on the display. -/
theorem commitOf_eq_some_iff :
    commitOf c step = some m ↔ step.action? = .ok (some .equals) ∧ c.pending = .typed m.text ∧
      m.text ≠ [] ∧ m.unit = c.unit ∧ calculate .standard m.unit m.text = .success m.value := by
  unfold commitOf
  constructor
  · intro found
    split at found
    · rename_i text acts pending
      split at found
      · rename_i value outcome
        cases found
        obtain ⟨nonempty, success⟩ := calculate?_eq_some_iff.mp outcome
        exact ⟨acts, pending, nonempty, rfl, success⟩
      · cases found
    · cases found
  · rintro ⟨acts, pending, nonempty, unit, success⟩
    obtain ⟨text, u, value⟩ := m
    cases unit
    have outcome : calculate? .standard c.unit text = some (.success value) :=
      calculate?_eq_some_iff.mpr ⟨nonempty, success⟩
    rw [acts, pending]
    dsimp only
    rw [outcome]

/-- A step that commits adds an entry and reads the clock once. -/
theorem attempt_of_commitOf (commits : commitOf c step = some m) (late : 0 ≤ c.clock) :
    (attempt c step).fault.isNone ∧
      (attempt c step).after.history = c.history ++ [m.entry c.clock.toNat] ∧
      (attempt c step).after.clock = c.clock + 1 := by
  obtain ⟨acts, pending, nonempty, unit, success⟩ := commitOf_eq_some_iff.mp commits
  rw [unit] at success
  obtain ⟨preview, performed⟩ :=
    Calculator.perform_equals_of_commits ⟨pending, nonempty, success⟩ late
  rw [attempt_of_action acts, performed]
  exact ⟨rfl, rfl, rfl⟩

/-- Any other step leaves the clock alone, and all but one leave the history alone. -/
theorem attempt_of_commitOf_eq_none (none : commitOf c step = none) :
    (attempt c step).after.clock = c.clock ∧
      (step ≠ .clearHistory → (attempt c step).after.history = c.history) := by
  unfold attempt
  split
  · exact ⟨rfl, fun _ => rfl⟩
  · rename_i clears
    exact ⟨rfl, fun other => absurd (Step.action?_eq_none_iff.mp clears) other⟩
  · rename_i action acts
    obtain ⟨preview, same⟩ := c.after_perform action
    dsimp only
    rw [same]
    by_cases asks : action = .equals
    · subst asks
      have fails (text : Text) (value : Float) : ¬ c.Commits text value := by
        rintro ⟨pending, nonempty, success⟩
        have commits : commitOf c step = some ⟨text, c.unit, value⟩ :=
          commitOf_eq_some_iff.mpr ⟨acts, pending, nonempty, rfl, success⟩
        rw [none] at commits
        cases commits
      change c.commit.after.clock = c.clock ∧ (_ → c.commit.after.history = c.history)
      obtain ⟨_, idle⟩ | ⟨_, kind, failed⟩ | ⟨text, value, commits, _⟩ |
        ⟨text, value, commits, _⟩ := c.commit_cases
      · rw [idle]
        exact ⟨rfl, fun _ => rfl⟩
      · rw [failed]
        exact ⟨rfl, fun _ => rfl⟩
      · exact absurd commits (fails text value)
      · exact absurd commits (fails text value)
    · exact ⟨(c.handle_frame asks).2, fun _ => (c.handle_frame asks).1⟩

theorem run_cons (c : Calculator) (step : Step) (rest : List Step) :
    run c (step :: rest) = run (attempt c step).after rest := rfl

theorem run_append (c : Calculator) (first rest : List Step) :
    run c (first ++ rest) = run (run c first) rest := List.foldl_append

theorem commits_append (c : Calculator) (first rest : List Step) :
    commits c (first ++ rest) = commits c first ++ commits (run c first) rest := by
  induction first generalizing c with
  | nil => rfl
  | cons step first ih =>
      rw [List.cons_append, commits, commits, ih, List.append_assoc]
      rfl

/-- The commits of a run by the places where they were made. -/
theorem getElem?_commits_iff {i : ℕ} :
    (commits c steps)[i]? = some m ↔ ∃ earlier step later, steps = earlier ++ step :: later ∧
      (commits c earlier).length = i ∧ commitOf (run c earlier) step = some m := by
  constructor
  · intro found
    induction steps generalizing c i with
    | nil => cases found
    | cons step rest ih =>
        rw [commits] at found
        cases commit : commitOf c step with
        | none =>
            rw [commit] at found
            obtain ⟨earlier, next, later, rfl, place, commits⟩ := ih found
            refine ⟨step :: earlier, next, later, rfl, ?_, commits⟩
            simp [Session.commits, commit, place]
        | some first =>
            rw [commit] at found
            cases i with
            | zero =>
                cases found
                exact ⟨[], step, rest, rfl, rfl, commit⟩
            | succ i =>
                obtain ⟨earlier, next, later, rfl, place, commits⟩ := ih found
                refine ⟨step :: earlier, next, later, rfl, ?_, commits⟩
                simp [Session.commits, commit, place]
  · rintro ⟨earlier, step, later, rfl, rfl, commit⟩
    simp [commits_append, commits, commit]

/-- The clock counts the commits of a run. -/
theorem clock_run (late : 0 ≤ c.clock) (steps : List Step) :
    (run c steps).clock = c.clock + (commits c steps).length := by
  induction steps generalizing c with
  | nil => simp [run, commits]
  | cons step rest ih =>
      change (run (attempt c step).after rest).clock = _
      rw [commits, List.length_append]
      cases commit : commitOf c step with
      | none =>
          have kept := (attempt_of_commitOf_eq_none commit).1
          rw [ih (kept ▸ late), kept]
          simp
      | some m =>
          have ticked := (attempt_of_commitOf commit late).2.2
          rw [ih (by omega), ticked]
          simp
          omega

/-- Until the history is cleared, a run adds to it the entries of its commits. -/
theorem history_run_of_not_clear (late : 0 ≤ c.clock) (kept : .clearHistory ∉ steps) :
    (run c steps).history =
      c.history ++ (commits c steps).mapIdx fun i m => m.entry (c.clock.toNat + i) := by
  induction steps generalizing c with
  | nil => simp [run, commits]
  | cons step rest ih =>
      obtain ⟨other, kept⟩ := not_or.mp (mt List.mem_cons.mpr kept)
      change (run (attempt c step).after rest).history = _
      rw [commits]
      cases commit : commitOf c step with
      | none =>
          have same := attempt_of_commitOf_eq_none commit
          rw [ih (same.1 ▸ late) kept, same.1, same.2 (Ne.symm other)]
          rfl
      | some m =>
          obtain ⟨_, entered, ticked⟩ := attempt_of_commitOf commit late
          -- What comes after a commit counts from the next reading of the clock.
          have next (i : ℕ) : (c.clock + 1).toNat + i = c.clock.toNat + (i + 1) := by omega
          rw [ih (by omega) kept, entered, ticked]
          simp [List.mapIdx_cons, next]

/-- Where the history was cleared last, if it was. -/
theorem exists_since_clear (steps : List Step) :
    ∃ before since, steps = before ++ since ∧
      (before = [] ∨ ∃ earlier, before = earlier ++ [.clearHistory]) ∧ .clearHistory ∉ since := by
  induction steps with
  | nil => exact ⟨[], [], rfl, .inl rfl, List.not_mem_nil⟩
  | cons step rest ih =>
      obtain ⟨before, since, rfl, rfl | ⟨earlier, rfl⟩, kept⟩ := ih
      · by_cases clears : step = .clearHistory
        · subst clears
          exact ⟨[.clearHistory], since, rfl, .inr ⟨[], rfl⟩, kept⟩
        · refine ⟨[], step :: since, rfl, .inl rfl, fun mem => ?_⟩
          rcases List.mem_cons.mp mem with same | mem
          · exact clears same.symm
          · exact kept mem
      · exact ⟨step :: (earlier ++ [.clearHistory]), since, rfl, .inr ⟨step :: earlier, rfl⟩, kept⟩

/-- On a calculator that has just been switched on, the history after a run holds an entry for
each commit since the history was last cleared, in order. Its time is the first reading of the
clock plus the number of all commits before. Commits are made where an expression with a result is
on the display. No step but a commit or a clearing touches the history, and none but a commit reads
the clock. -/
theorem history_run (unit : AngleUnit) {clock : ℤ} (late : 0 ≤ clock) (steps : List Step) :
    (∃ before since, steps = before ++ since ∧
      (before = [] ∨ ∃ earlier, before = earlier ++ [.clearHistory]) ∧ .clearHistory ∉ since ∧
      (run (.new unit clock) steps).history =
        (commits (run (.new unit clock) before) since).mapIdx fun i m =>
          ⟨m.text, resultText m.value,
            clock.toNat + ((commits (.new unit clock) before).length + i)⟩) ∧
    (∀ c part i m, (commits c part)[i]? = some m ↔
      ∃ earlier step later, part = earlier ++ step :: later ∧
        (commits c earlier).length = i ∧ commitOf (run c earlier) step = some m) ∧
    ∀ earlier step later, steps = earlier ++ step :: later →
      let c := run (.new unit clock) earlier
      let after := (attempt c step).after
      c.clock = clock + (commits (.new unit clock) earlier).length ∧
      (∀ m, commitOf c step = some m ↔
        step.action? = .ok (some .equals) ∧ c.pending = .typed m.text ∧ m.text ≠ [] ∧
          m.unit = c.unit ∧ calculate .standard m.unit m.text = .success m.value) ∧
      (∀ m, commitOf c step = some m → (attempt c step).fault.isNone ∧
        after.clock = c.clock + 1 ∧
        after.history = c.history ++ [⟨m.text, resultText m.value, c.clock.toNat⟩]) ∧
      (commitOf c step = none → after.clock = c.clock ∧
        (step ≠ .clearHistory → after.history = c.history) ∧
        (step = .clearHistory → after.history = [])) := by
  refine ⟨?_, fun _ _ _ _ => getElem?_commits_iff, ?_⟩
  · obtain ⟨before, since, rfl, cleared, kept⟩ := exists_since_clear steps
    refine ⟨before, since, rfl, cleared, kept, ?_⟩
    have clock_before := clock_run (c := .new unit clock) late before
    have empty : (run (.new unit clock) before).history = [] := by
      rcases cleared with rfl | ⟨earlier, rfl⟩
      · rfl
      · rw [run_append]
        rfl
    change _ = clock + _ at clock_before
    rw [run_append, history_run_of_not_clear (by omega) kept, empty, clock_before, List.nil_append]
    have time (i : ℕ) : (clock + (commits (.new unit clock) before).length).toNat + i =
        clock.toNat + ((commits (.new unit clock) before).length + i) := by omega
    simp only [Commit.entry, time]
  · intro earlier step later _ c after
    have time : c.clock = clock + _ := clock_run (c := .new unit clock) late earlier
    refine ⟨time, fun m => commitOf_eq_some_iff, fun m commit => ?_, fun none => ?_⟩
    · obtain ⟨quiet, entered, ticked⟩ := attempt_of_commitOf commit (by omega)
      exact ⟨quiet, ticked, entered⟩
    · obtain ⟨same, kept⟩ := attempt_of_commitOf_eq_none none
      refine ⟨same, kept, ?_⟩
      rintro rfl
      rfl

/-- The entry of a commit after a clearing counts the one whose entry was cleared. -/
theorem history_after_clear :
    let c := run (.new .degrees 100)
      [.press ['7'], .press ['='], .clearHistory, .press ['+'], .press ['1']]
    c.history = [] ∧ ∃ m, commitOf c (.press ['=']) = some m ∧ m.text = "7+1".toList ∧
      (attempt c (.press ['='])).after.history = [⟨m.text, resultText m.value, 101⟩] := by
  intro c
  have spec := (history_run .degrees (by decide : (0 : ℤ) ≤ 100)
    ([.press ['7'], .press ['='], .clearHistory, .press ['+'], .press ['1']] ++ [.press ['=']])
    ).2.2 _ _ _ rfl
  obtain ⟨_, made, entered, idle⟩ := spec
  have cleared : c.history = [] := rfl
  have time : c.clock.toNat = 101 := rfl
  have typed : c.pending = .typed "7+1".toList := by decide
  have ticks : (attempt c (.press ['='])).after.clock ≠ c.clock := by decide
  cases commit : commitOf c (.press ['=']) with
  | none => exact absurd (idle commit).1 ticks
  | some m =>
      have pending := ((made m).mp commit).2.1
      change c.pending = _ at pending
      rw [typed] at pending
      have history := (entered m commit).2.2
      change _ = c.history ++ [⟨_, _, c.clock.toNat⟩] at history
      rw [cleared, time] at history
      exact ⟨cleared, m, rfl, (Pending.typed.inj pending).symm, history⟩

end Session

end Keypad
