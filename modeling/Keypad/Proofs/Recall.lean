import Keypad.Proofs.Numerals

/-!
# Recalling a number

The number in memory comes back to the display as a text. Written out in full the text is an
expression for the number, whatever the angle unit. With an exponent it is no expression, since
the mark of the exponent is read as the constant `e`, and no constant stands beside a digit. So
what is recalled is worth the number that was stored or nothing, and the size of the number alone
decides which of the two (`recalled_number`).
-/

namespace Keypad

open Double Decimal

section Calculate

variable {v : Float} (finite : v.isFinite = true) (unit : AngleUnit)

include finite

/-- A number that is written out in full is read back as an equal number. -/
theorem calculate_of_inPlainRange (range : InPlainRange v) :
    ∃ w, calculate .standard unit (numberText v) = .success w ∧ (w == v) = true := by
  by_cases zero : index v = 0
  · have text : numberText v = ['0'] := if_pos zero
    rw [text]
    exact ⟨ofIndex false 0, calculate_zero unit,
      beq_of_index_eq_zero (index_ofIndex (Nat.zero_le _) false) zero⟩
  · have written := (inPlainRange_iff.mp range).resolve_left zero
    have size := (isFinite_iff v).mp finite
    have calculated := (calculate_of_isWrittenOut unit zero size written).1
    rw [Result.ofNumber_of_isFinite finite] at calculated
    exact ⟨v, calculated, (beq_iff_toRat_eq finite finite).mpr rfl⟩

/-- A number that is written with an exponent is no expression. -/
theorem calculate_of_not_inPlainRange (range : ¬ InPlainRange v) :
    calculate .standard unit (numberText v) = .failure .invalidFormat := by
  rw [inPlainRange_iff, not_or] at range
  obtain ⟨nonzero, beyond⟩ := range
  exact (calculate_of_not_isWrittenOut unit nonzero ((isFinite_iff v).mp finite) beyond).1

/-- The text of a number is an expression for nothing but the number. -/
theorem equal_of_calculate_numberText {w : Float}
    (success : calculate .standard unit (numberText v) = .success w) :
    InPlainRange v ∧ (w == v) = true := by
  by_cases range : InPlainRange v
  · obtain ⟨u, calculated, same⟩ := calculate_of_inPlainRange finite unit range
    rw [success] at calculated
    cases calculated
    exact ⟨range, same⟩
  · rw [calculate_of_not_inPlainRange finite unit range] at success
    cases success

end Calculate

namespace Calculator

variable {c : Calculator}

/-- Recalled with nothing typed before it, a finite number takes the display alone. -/
theorem perform_memoryRecall (empty : c.pending.text = []) (finite : c.memory.isFinite = true) :
    c.perform .memoryRecall = ⟨(c.type (numberText c.memory)).refresh, none⟩ := by
  have text : numberText? c.memory = .ok (numberText c.memory) := if_pos finite
  apply perform_of_handle
  unfold handle
  dsimp only
  rw [text, empty]
  rfl

/-- What could be committed after a number was recalled. -/
theorem commits_refresh_type_iff {text typed : Text} {w : Float} (nonempty : text ≠ []) :
    (c.type text).refresh.Commits typed w ↔
      typed = text ∧ calculate .standard c.unit text = .success w := by
  constructor
  · rintro ⟨pending, _, success⟩
    cases pending
    exact ⟨rfl, success⟩
  · rintro ⟨rfl, success⟩
    exact ⟨rfl, nonempty, success⟩

end Calculator

/-- The text of a number is an expression for the number, in either unit, exactly if it has no
exponent, and otherwise it is refused. So a number recalled from memory to an empty display can be
committed exactly if its size is middling, and only as what it was. -/
theorem recalled_number {v : Float} (finite : v.isFinite = true) :
    ∃ text, numberText? v = .ok text ∧
      ('e' ∉ text ↔ InPlainRange v) ∧
      ('e' ∉ text → ∀ unit, ∃ w,
        calculate? .standard unit text = some (.success w) ∧ (w == v) = true) ∧
      ('e' ∈ text → ∀ unit,
        calculate? .standard unit text = some (.failure .invalidFormat)) ∧
      ∀ c : Calculator, c.pending.text = [] → c.memory = v →
        (c.perform .memoryRecall).fault = none ∧
        (c.perform .memoryRecall).after.pending = .typed text ∧
        ((∃ w, (c.perform .memoryRecall).after.Commits text w) ↔ InPlainRange v) ∧
        ∀ typed w, (c.perform .memoryRecall).after.Commits typed w → (w == v) = true := by
  have nonempty := numberText_ne_nil v
  have form := not_mem_numberText_iff ((isFinite_iff v).mp finite)
  refine ⟨numberText v, if_pos finite, form, ?_, ?_, ?_⟩
  · intro absent unit
    obtain ⟨w, success, same⟩ := calculate_of_inPlainRange finite unit (form.mp absent)
    exact ⟨w, calculate?_eq_some_iff.mpr ⟨nonempty, success⟩, same⟩
  · intro present unit
    have range : ¬ InPlainRange v := fun range => form.mpr range present
    exact calculate?_eq_some_iff.mpr
      ⟨nonempty, calculate_of_not_inPlainRange finite unit range⟩
  · rintro c empty rfl
    rw [Calculator.perform_memoryRecall empty finite]
    refine ⟨rfl, rfl, ?_, ?_⟩
    · simp only [Calculator.commits_refresh_type_iff nonempty, true_and]
      constructor
      · rintro ⟨w, success⟩
        exact (equal_of_calculate_numberText finite c.unit success).1
      · intro range
        obtain ⟨w, success, _⟩ := calculate_of_inPlainRange finite c.unit range
        exact ⟨w, success⟩
    · intro typed w commits
      have success := ((Calculator.commits_refresh_type_iff nonempty).mp commits).2
      exact (equal_of_calculate_numberText finite c.unit success).2

/-- An eighth comes back from memory, and ten to the power of twenty-one does not. -/
theorem recalled_eighth :
    (∃ w, calculate? .standard .radians "-0.125".toList = some (.success w) ∧
      (w == (Decimal.mk 125 (-3)).toDouble true) = true) ∧
    calculate? .standard .degrees "1e+21".toList = some (.failure .invalidFormat) ∧
    ((Calculator.mk (.typed []) none .degrees ((Decimal.mk 1 21).toDouble false) [] 0).perform
      .memoryRecall).after.pending = .typed "1e+21".toList := by
  have small : numberText? ((Decimal.mk 125 (-3)).toDouble true) = .ok "-0.125".toList := by
    rfl
  have large : numberText? ((Decimal.mk 1 21).toDouble false) = .ok "1e+21".toList := by
    rfl
  obtain ⟨_, shown, _, value, _⟩ :=
    recalled_number (v := (Decimal.mk 125 (-3)).toDouble true) rfl
  rw [small] at shown
  cases shown
  obtain ⟨_, shown, _, _, refused, recalled⟩ :=
    recalled_number (v := (Decimal.mk 1 21).toDouble false) rfl
  rw [large] at shown
  cases shown
  exact ⟨value (by decide) .radians, refused (by decide) .degrees, (recalled _ rfl rfl).2.1⟩

end Keypad
