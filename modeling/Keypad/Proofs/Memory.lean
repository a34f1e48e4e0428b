import Keypad.Proofs.Commits
import Keypad.Proofs.Sums

/-!
# Adding to the memory and subtracting again

The memory is a double, and what is added to it is the result of the pending expression, rounded
to its twelve digits. To add and to subtract again is two sums of doubles of the same operand: the
memory is what it was if the first sum is exact, and otherwise off by at most twice what the first
sum misses.
-/

namespace Keypad

open Double

namespace Calculator

variable {c : Calculator}

/-- The current value belongs to the pending expression in the angle unit in force. -/
theorem currentValue_congr {d : Calculator} (pending : d.pending = c.pending)
    (unit : d.unit = c.unit) : d.currentValue = c.currentValue := by
  unfold currentValue resultOf
  rw [pending, unit]

/-- A key that changes the memory changes nothing else. -/
theorem updateMemory_eq (c : Calculator) (change : Float → Float → Float) :
    c.updateMemory change =
      { c with memory := c.currentValue.elim c.memory (change c.memory) } := by
  unfold updateMemory
  cases c.currentValue with
  | none => rfl
  | some value => rfl

theorem memory_memoryAdd (c : Calculator) :
    (c.perform .memoryAdd).after.memory = c.currentValue.elim c.memory (c.memory + ·) := by
  change (c.updateMemory (· + ·)).memory = _
  rw [updateMemory_eq]

theorem memory_memorySubtract (c : Calculator) :
    (c.perform .memorySubtract).after.memory = c.currentValue.elim c.memory (c.memory - ·) := by
  change (c.updateMemory (· - ·)).memory = _
  rw [updateMemory_eq]

/-- What is subtracted is what was added. -/
theorem currentValue_memoryAdd (c : Calculator) :
    (c.perform .memoryAdd).after.currentValue = c.currentValue := by
  change (c.updateMemory (· + ·)).refresh.currentValue = _
  rw [updateMemory_eq]
  exact currentValue_congr rfl rfl

end Calculator

namespace Session

variable {c : Calculator} {plus minus : Step}

/-- A run leads from one calculator of a session to another. -/
theorem Reachable.run (h : Reachable c) (steps : List Step) : Reachable (run c steps) := by
  induction steps generalizing c with
  | nil => exact h
  | cons step rest ih => exact ih (h.step step)

theorem memory_plus (adds : plus.action? = .ok (some .memoryAdd)) :
    (attempt c plus).after.memory = c.currentValue.elim c.memory (c.memory + ·) := by
  rw [after_attempt adds, Calculator.memory_memoryAdd]

/-- The memory after both keys: the current value is still the same when it is subtracted. -/
theorem memory_plus_minus (adds : plus.action? = .ok (some .memoryAdd))
    (subtracts : minus.action? = .ok (some .memorySubtract)) :
    (attempt (attempt c plus).after minus).after.memory =
      c.currentValue.elim c.memory fun v => c.memory + v - v := by
  rw [after_attempt subtracts, after_attempt adds, Calculator.memory_memorySubtract,
    Calculator.currentValue_memoryAdd, Calculator.memory_memoryAdd]
  -- Not by `rfl`, which would have the kernel unfold the sum of two doubles.
  cases c.currentValue with
  | none => simp only [Option.elim_none]
  | some v => simp only [Option.elim_some]

/-- Adding the current value to a finite memory and subtracting it again. Without a current value
the memory stays. If the exact sum is a double, the memory is as before. Otherwise, unless the sum
or the difference is beyond the range of the numbers, it is the double nearest to what it was and
the error of the sum together, which is as small as the doubles allow, and off by at most twice
that error. -/
theorem memory_add_subtract (finite : c.memory.isFinite = true)
    (adds : plus.action? = .ok (some .memoryAdd))
    (subtracts : minus.action? = .ok (some .memorySubtract)) :
    let sum := (attempt c plus).after.memory
    let back := (attempt (attempt c plus).after minus).after.memory
    (c.currentValue = none → back = c.memory) ∧
    ∀ v, c.currentValue = some v →
      (∀ s : Float, s.isFinite = true → toRat s = toRat c.memory + toRat v →
        back.isFinite = true ∧ toRat back = toRat c.memory) ∧
      (sum.isFinite = true → back.isFinite = true →
        toRat back = rounded (toRat c.memory + sumError c.memory v) ∧
        |toRat back - toRat c.memory| ≤ 2 * |sumError c.memory v| ∧
        ∀ w, |sumError c.memory v| ≤ |toRat w - (toRat c.memory + toRat v)|) := by
  rw [memory_plus adds, memory_plus_minus adds subtracts]
  constructor
  · intro none
    rw [none]
    rfl
  · intro v some
    have operand := (isFinite_iff v).mp (Calculator.isFinite_currentValue some)
    rw [some]
    simp only [Option.elim_some, isFinite_iff] at finite ⊢
    constructor
    · intro s number exact_sum
      exact add_sub_of_exact finite operand number exact_sum
    · intro bounded returned
      exact ⟨toRat_add_sub operand bounded, abs_toRat_add_sub_le operand bounded returned,
        abs_sumError_le operand bounded finite⟩

/-- The key strokes for a number, one for each of its characters. -/
def presses (number : Text) : List Step := number.map fun c => .press [c]

/-- A calculator with one number in memory and another on the display. -/
def remembering (first second : Text) : Calculator :=
  run (.new .degrees 1000)
    (presses first ++ [.press "M+".toList, .press "C".toList] ++ presses second)

/-- Half and a quarter make a double, so half comes back. -/
theorem half_comes_back :
    let c := remembering "0.5".toList "0.25".toList
    c.memory.isFinite = true ∧
      toRat (run c [.press "M+".toList, .press "M-".toList]).memory = toRat c.memory := by
  intro c
  have finite : c.memory.isFinite = true := by decide +kernel
  have sum : (c.memory + c.currentValue.getD 0).isFinite = true := by decide +kernel
  have exact_sum : toRat (c.memory + c.currentValue.getD 0) =
      toRat c.memory + toRat (c.currentValue.getD 0) := by
    decide +kernel
  have adds : (Step.press "M+".toList).action? = .ok (some .memoryAdd) := by decide +kernel
  have subtracts : (Step.press "M-".toList).action? = .ok (some .memorySubtract) := by
    decide +kernel
  have spec := memory_add_subtract finite adds subtracts
  cases current : c.currentValue with
  | none => exact ⟨finite, congrArg toRat (spec.1 current)⟩
  | some v =>
      rw [current] at sum exact_sum
      exact ⟨finite, ((spec.2 v current).1 _ sum exact_sum).2⟩

/-- A tenth and two tenths do not, and the tenth does not come back. -/
theorem tenth_does_not_come_back :
    let c := remembering "0.1".toList "0.2".toList
    Reachable c ∧ c.memory.isFinite = true ∧
      toRat (run c [.press "M+".toList, .press "M-".toList]).memory ≠ toRat c.memory :=
  ⟨(Reachable.start .degrees 1000).run _, by decide +kernel⟩

end Session

end Keypad
