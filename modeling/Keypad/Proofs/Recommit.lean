import Keypad.Proofs.NumberTokens
import Keypad.Proofs.Session

/-!
# Committing a result again

A result that is written out in full is an expression for the very number it was written for,
and that number is rounded already, so to commit it again changes nothing but the history. A
result that is written with an exponent is no expression. Which of the two it is depends on the
size of the number alone, and the bounds are the doubles nearest to a millionth and to ten to
the power of twenty-one.
-/

namespace Keypad

open Double Decimal

/-- The digits of the shortest decimal begin where its double stands. -/
theorem le_lead_shortest_iff {i : ℕ} {k : ℤ} (h : i ≠ 0) (finite : i < infinityIndex)
    (own : (shortest (nearestIndex ⟨1, k⟩)).lead = k) :
    k ≤ (shortest i).lead ↔ nearestIndex ⟨1, k⟩ ≤ i := by
  have coefficient := coefficient_shortest_ne_zero h finite.le
  have positive : 0 < (shortest i).toRat := by
    unfold Decimal.toRat
    positivity
  have bound : (⟨1, k⟩ : Decimal).toRat = 10 ^ k := by simp [Decimal.toRat]
  have below : k ≤ (shortest i).lead ↔ (10 : ℚ) ^ k ≤ (shortest i).toRat := by
    rw [lead_eq_log coefficient]
    exact (Int.zpow_le_iff_le_log (b := 10) (by decide) positive).symm
  have back := nearest_toRat_shortest finite.le
  constructor
  · intro le
    rw [Decimal.nearestIndex_eq, bound, ← back]
    exact nearest_mono (by positivity) (below.mp le)
  · intro le
    by_contra less
    rw [below, not_le] at less
    have reaches := nearest_mono positive.le less.le
    rw [back, ← bound, ← Decimal.nearestIndex_eq] at reaches
    have same : i = nearestIndex ⟨1, k⟩ := le_antisymm reaches le
    rw [← same] at own
    exact absurd (below.mp own.ge) (not_le.mpr less)

/-- The index of the first number that is written out in full. -/
def writtenOutFrom : ℕ := Decimal.nearestIndex ⟨1, -6⟩

/-- The index of the first number beyond those that are written out in full. -/
def writtenOutBelow : ℕ := Decimal.nearestIndex ⟨1, 21⟩

/-- Whether the display shows a number without an exponent. -/
def IsWrittenOut (i : ℕ) : Prop := writtenOutFrom ≤ i ∧ i < writtenOutBelow

instance (i : ℕ) : Decidable (IsWrittenOut i) :=
  inferInstanceAs (Decidable (writtenOutFrom ≤ i ∧ i < writtenOutBelow))

theorem isWrittenOut_iff {i : ℕ} (h : i ≠ 0) (finite : i < infinityIndex) :
    IsWrittenOut i ↔ NumberStyle.display.plainFrom ≤ (shortest i).lead ∧
      (shortest i).lead < NumberStyle.display.plainBelow := by
  have least := le_lead_shortest_iff (k := -6) h finite rfl
  have most := le_lead_shortest_iff (k := 21) h finite rfl
  unfold IsWrittenOut writtenOutFrom writtenOutBelow
  rw [← least, ← not_le, ← most, not_le]
  rfl

variable {v : Float} (unit : AngleUnit)

section Shown

variable (h : index v ≠ 0) (finite : index v < infinityIndex)

include h finite

/-- A finite number other than zero that is shown written out is an expression for itself. -/
theorem calculate_of_isWrittenOut (range : IsWrittenOut (index v)) :
    calculate .standard unit (numberText v) = .ofNumber v ∧ 'e' ∉ numberText v := by
  have coefficient := coefficient_shortest_ne_zero h finite.le
  have digits := isDigits_digits (shortest (index v))
  have number := ofIndex_index finite.le
  obtain ⟨plain, value⟩ := NumberStyle.plain_spec NumberStyle.isNeutral_display digits
    (digits_ne_nil coefficient) (shortest (index v)).lead
  have text : NumberStyle.display.write (shortest (index v)).digits (shortest (index v)).lead =
      NumberStyle.display.plain (shortest (index v)).digits (shortest (index v)).lead := by
    rw [isWrittenOut_iff h finite] at range
    rw [NumberStyle.write, if_pos (by simpa using range)]
  have letter : 'e' ∉ NumberStyle.display.plain (shortest (index v)).digits
      (shortest (index v)).lead := by
    intro mem
    rcases digit_or_point_of_isPlain plain mem with digit | point
    · cases digit
    · cases point
  have spelt : Symbol.valueOf (NumberStyle.display.plain (shortest (index v)).digits
      (shortest (index v)).lead) = ofIndex false (index v) := by
    rw [Symbol.valueOf, Decimal.toDouble, Decimal.nearestIndex_eq, value, spelled_digits,
      nearest_toRat_shortest finite.le]
  unfold numberText
  simp only [if_neg h, Decimal.write, text]
  by_cases sign : isNegative v = true
  · rw [sign] at number
    rw [if_pos sign, calculate_neg_plain unit plain, spelt, neg_ofIndex finite.le]
    exact ⟨congrArg _ number, by simpa using letter⟩
  · rw [Bool.not_eq_true] at sign
    rw [sign] at number
    rw [sign, if_neg Bool.false_ne_true, calculate_plain unit plain, spelt]
    exact ⟨congrArg _ number, letter⟩

/-- A finite number other than zero that is shown with an exponent is no expression. -/
theorem calculate_of_not_isWrittenOut (range : ¬ IsWrittenOut (index v)) :
    calculate .standard unit (numberText v) = .failure .invalidFormat ∧ 'e' ∈ numberText v := by
  have coefficient := coefficient_shortest_ne_zero h finite.le
  have digits := isDigits_digits (shortest (index v))
  obtain ⟨mantissa, mark, size, whole, plain, _, marks, power, _⟩ :=
    NumberStyle.display.scientific_eq (digits_ne_nil coefficient) digits (shortest (index v)).lead
  have text : NumberStyle.display.write (shortest (index v)).digits (shortest (index v)).lead =
      mantissa ++ 'e' :: mark :: size := by
    rw [isWrittenOut_iff h finite] at range
    rw [NumberStyle.write, if_neg (by simpa using range), whole]
  obtain ⟨positive, negative⟩ := calculate_exponent unit plain power marks
  unfold numberText
  simp only [if_neg h, Decimal.write, text]
  split
  · exact ⟨negative, by simp⟩
  · exact ⟨positive, by simp⟩

end Shown

/-- The text of zero is an expression for zero. -/
theorem calculate_zero : calculate .standard unit ['0'] = .success (ofIndex false 0) := by
  have value : Symbol.valueOf ['0'] = ofIndex false 0 := rfl
  rw [calculate_plain unit rfl, value]
  exact Result.ofNumber_of_isFinite rfl

/-- The calculation of a result text: written out it has that very text as its result, with an
exponent it has none. -/
theorem calculate_resultText (finite : index v < infinityIndex) :
    ∃ w, readDouble? (resultText v) = some w ∧
      ((index w = 0 ∨ IsWrittenOut (index w)) ∧ 'e' ∉ resultText v ∧
        (∃ again, calculate .standard unit (resultText v) = .success again ∧
          resultText again = resultText v) ∨
      ¬ (index w = 0 ∨ IsWrittenOut (index w)) ∧ 'e' ∈ resultText v ∧
        calculate .standard unit (resultText v) = .failure .invalidFormat) := by
  rcases resultText_cases finite with zero | ⟨w, shown, same, nonzero, bounded⟩
  · rw [zero]
    refine ⟨ofIndex false 0, rfl, .inl ⟨.inl (index_ofIndex (Nat.zero_le _) _),
      by simp, ofIndex false 0, calculate_zero unit, rfl⟩⟩
  · rw [shown]
    refine ⟨w, readDouble?_numberText nonzero bounded, ?_⟩
    by_cases range : IsWrittenOut (index w)
    · obtain ⟨calculated, letter⟩ := calculate_of_isWrittenOut unit nonzero bounded range
      have number : Result.ofNumber w = .success w :=
        Result.ofNumber_of_isFinite ((isFinite_iff w).mpr bounded)
      exact .inl ⟨.inr range, letter, w, calculated.trans number, same⟩
    · obtain ⟨calculated, letter⟩ := calculate_of_not_isWrittenOut unit nonzero bounded range
      refine .inr ⟨?_, letter, calculated⟩
      rintro (zero | out)
      · exact nonzero zero
      · exact range out

namespace Calculator

variable {c : Calculator} {text : Text} {value : Float}

/-- What a commit leaves that raises nothing and does not end in an error is a result. -/
theorem exists_of_committed (raised : (c.perform .equals).fault = none)
    (left : (c.perform .equals).after.pending = .typed text) (nonempty : text ≠ []) :
    ∃ value, value.isFinite = true ∧ text = resultText value ∧
      0 ≤ (c.perform .equals).after.clock := by
  obtain ⟨preview, same⟩ := c.after_perform .equals
  rw [perform_fault] at raised
  rw [same] at left ⊢
  change c.commit.fault = none at raised
  change c.commit.after.pending = .typed text at left
  change ∃ value, _ ∧ _ ∧ 0 ≤ c.commit.after.clock
  obtain ⟨idle, same⟩ | ⟨_, kind, failed⟩ | ⟨_, _, _, _, early⟩ |
    ⟨_, value, commits, late, entered⟩ := c.commit_cases
  · rw [same] at left
    exact absurd (idle text left) nonempty
  · rw [failed] at left
    cases left
  · rw [early] at raised
    cases raised
  · rw [entered] at left ⊢
    cases left
    exact ⟨value, isFinite_of_resultOf commits.2.2, rfl, late.trans (lt_add_one c.clock).le⟩

/-- A result that was committed and left on the display can be committed again exactly if it is
written out in full: then it stays as it is, and goes to the history a second time with itself as
its result, at the time that the clock then shows. A result with an exponent is refused as an
expression, and the history stays. Which it is depends on the size of the number that is shown. -/
theorem perform_equals_again (raised : (c.perform .equals).fault = none)
    (left : (c.perform .equals).after.pending = .typed text) (nonempty : text ≠ []) :
    let first := (c.perform .equals).after
    0 ≤ first.clock ∧
    (∃ w, readDouble? text = some w ∧ ('e' ∉ text ↔ index w = 0 ∨ IsWrittenOut (index w))) ∧
    ∀ clock, 0 ≤ clock →
      let again := { first with clock := clock }.perform .equals
      again.fault = none ∧
      ('e' ∉ text → again.after.pending = .typed text ∧
        again.after.history = first.history ++ [⟨text, text, clock.toNat⟩]) ∧
      ('e' ∈ text → again.after.pending = .failed .invalidFormat ∧
        again.after.history = first.history) := by
  intro first
  obtain ⟨value, finite, rfl, early⟩ := exists_of_committed raised left nonempty
  obtain ⟨w, read, ⟨range, letter, again, calculated, same⟩ | ⟨range, letter, calculated⟩⟩ :=
    calculate_resultText first.unit ((isFinite_iff _).mp finite)
  · refine ⟨early, ⟨w, read, iff_of_true letter range⟩, fun clock late => ?_⟩
    have commits : Commits { first with clock := clock } (resultText value) again :=
      ⟨left, nonempty, calculated⟩
    obtain ⟨none, pending, history⟩ := perform_equals_of_success commits late
    rw [same] at pending history
    exact ⟨none, fun _ => ⟨pending, history⟩, fun mem => absurd mem letter⟩
  · refine ⟨early, ⟨w, read, iff_of_false (not_not.mpr letter) range⟩, fun clock _ => ?_⟩
    obtain ⟨none, pending, history⟩ :=
      perform_equals_of_failure (c := { first with clock := clock }) left nonempty calculated
    exact ⟨none, fun absent => absurd letter absent, fun _ => ⟨pending, history⟩⟩

/-- A calculator with a text typed into it. -/
def typing (text : Text) : Calculator := ((new .degrees 0).perform (.input text)).after

/-- A quarter is committed at the beginning of time and seven milliseconds later. -/
theorem quarter_again :
    let first := ((typing "1÷4".toList).perform .equals).after
    first.pending = .typed "0.25".toList ∧
      ({ first with clock := 7 }.perform .equals).after.pending = .typed "0.25".toList ∧
      ({ first with clock := 7 }.perform .equals).after.history =
        [⟨"1÷4".toList, "0.25".toList, 0⟩, ⟨"0.25".toList, "0.25".toList, 7⟩] := by
  intro first
  have raised : ((typing "1÷4".toList).perform .equals).fault = none := rfl
  have left : first.pending = .typed "0.25".toList := rfl
  obtain ⟨_, _, again⟩ := perform_equals_again raised left (by decide)
  obtain ⟨pending, history⟩ := (again 7 (by decide)).2.1 (by decide)
  exact ⟨left, pending, history⟩

/-- A one with twenty-one zeros is committed once: its result has an exponent. -/
theorem large_result_not_again :
    ((typing "1000000000000000000000".toList).perform .equals).fault = none ∧
      ((typing "1000000000000000000000".toList).perform .equals).after.pending =
        .typed "1e+21".toList ∧
      (((typing "1000000000000000000000".toList).perform .equals).after.perform
        .equals).after.pending = .failed .invalidFormat := by
  decide

end Calculator

end Keypad
