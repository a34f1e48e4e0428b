import Keypad.Proofs.ReadBack

/-!
# The digits of a result

A result text is made in three steps: the exact value is rounded to twelve digits, the nearest
double takes the place of what was rounded, and the shortest decimal that reads back as this
double is written out. The detour through a double could change digits, and it does not: the
text spells the rounded value exactly.

Two facts about decimal grids carry the proof. If any point of a grid reads back as a double,
then so does one of the two points around it, since all numbers between two that have the same
nearest double have it too; so the search has an answer by its twelfth grid. And on the grids up
to the twelfth no second point reads back, since their points are much farther apart than
doubles are; so whatever grid answers first, its answer is the rounded value.
-/

namespace Keypad

open Double Decimal

namespace Decimal

variable {i digits n : ℕ} {unit : ℤ} {d : Decimal}

/-- What lies between two numbers with the same nearest double has that nearest double. -/
theorem nearest_eq_of_between {x y z : ℚ} (nonneg : 0 ≤ x) (first : x ≤ y) (second : y ≤ z)
    (below : nearest x = i) (above : nearest z = i) : nearest y = i := by
  apply le_antisymm
  · exact (nearest_mono (nonneg.trans first) second).trans_eq above
  · exact below.symm.trans_le (nearest_mono nonneg first)

/-- The coefficient of the last grid point that does not lie above a double. -/
def gridFloor (i : ℕ) (unit : ℤ) : ℕ := ⌊value i * 10 ^ (-unit)⌋₊

theorem floor_scale_magnitude (i : ℕ) (unit : ℤ) :
    ((magnitude i).scale 10 (-unit)).floor = gridFloor i unit := by
  rw [Fraction.floor_eq, Fraction.toRat_scale]
  rfl

theorem le_gridFloor_iff : n ≤ gridFloor i unit ↔ (n : ℚ) * 10 ^ unit ≤ value i := by
  have scaled : 0 ≤ value i * 10 ^ (-unit) := mul_nonneg (value_nonneg i) (ten_zpow_pos _).le
  rw [gridFloor, Nat.le_floor_iff scaled, zpow_neg, ← div_eq_mul_inv,
    le_div_iff₀ (ten_zpow_pos unit)]

/-- A grid with a point that reads back has an answer. -/
theorem isSome_gridPoint? (finite : i ≤ infinityIndex) (reads : nearest (n * 10 ^ unit) = i) :
    (gridPoint? i (magnitude i) unit).isSome := by
  have power := ten_zpow_pos unit
  have own := nearest_value finite
  have lower : (gridFloor i unit : ℚ) * 10 ^ unit ≤ value i := le_gridFloor_iff.mp le_rfl
  have upper : value i ≤ ((gridFloor i unit + 1 : ℕ) : ℚ) * 10 ^ unit := by
    refine (not_le.mp fun le => ?_).le
    exact absurd (le_gridFloor_iff.mpr le) (Nat.not_succ_le_self _)
  have around : nearest (gridFloor i unit * 10 ^ unit) = i ∨
      nearest ((gridFloor i unit + 1 : ℕ) * 10 ^ unit) = i := by
    rcases Nat.lt_or_ge (gridFloor i unit) n with less | le
    · have last : ((gridFloor i unit + 1 : ℕ) : ℚ) * 10 ^ unit ≤ n * 10 ^ unit := by
        gcongr
        exact less
      exact .inr (nearest_eq_of_between (value_nonneg i) upper last own reads)
    · have first : (n : ℚ) * 10 ^ unit ≤ gridFloor i unit * 10 ^ unit := by gcongr
      exact .inl (nearest_eq_of_between (by positivity) first lower reads own)
  unfold gridPoint?
  simp only [Decimal.nearestIndex_eq, toRat, floor_scale_magnitude]
  rcases around with below | above
  · rw [if_pos below]
    split <;> rfl
  · rw [if_pos above]
    split <;> rfl

/-- The answer of a grid is a point of it, and beyond the double by one unit at most. -/
theorem of_gridPoint? (found : gridPoint? i (magnitude i) unit = some d) :
    d.exponent = unit ∧ d.coefficient ≤ gridFloor i unit + 1 := by
  unfold gridPoint? at found
  simp only [floor_scale_magnitude] at found
  split at found
  · split at found
    · cases found
      have floor := floor_scale_magnitude i unit
      refine ⟨rfl, ?_⟩
      unfold Fraction.floor at floor
      unfold Fraction.roundToEven
      dsimp only
      split <;> omega
    · cases found
      exact ⟨rfl, Nat.le_succ _⟩
  · split at found
    · cases found
      exact ⟨rfl, le_rfl⟩
    · cases found

/-- Two numbers of units that are both less than half a unit away from the same number are the
same. -/
theorem eq_of_near {k : ℕ} {y : ℚ} (first : |y - n * 10 ^ unit| < 10 ^ unit / 2)
    (second : |y - k * 10 ^ unit| < 10 ^ unit / 2) : n = k := by
  have power := ten_zpow_pos unit
  have both : |((n : ℤ) - k : ℚ)| * 10 ^ unit < 1 * 10 ^ unit := by
    calc |((n : ℤ) - k : ℚ)| * 10 ^ unit
        = |(y - k * 10 ^ unit) - (y - n * 10 ^ unit)| := by
          rw [← abs_of_pos power, ← abs_mul, abs_of_pos power]
          push_cast
          ring_nf
      _ ≤ |y - k * 10 ^ unit| + |y - n * 10 ^ unit| := abs_sub _ _
      _ < 1 * 10 ^ unit := by linarith
  have less : |(n : ℤ) - k| < 1 := by exact_mod_cast lt_of_mul_lt_mul_right both power.le
  have same := Int.abs_lt_one_iff.mp less
  omega

section Search

variable (nonzero : i ≠ 0) (finite : i < infinityIndex)
  (large : -300 ≤ lastPlace 12 (value i))
  (near : |value i - n * 10 ^ lastPlace 12 (value i)| < 10 ^ lastPlace 12 (value i) / 2)

include nonzero finite large near

/-- The first twelve grids have one answer between them. -/
theorem toRat_of_gridPoint? (few : digits ≤ 12)
    (found : gridPoint? i (magnitude i) (lastPlace digits (value i)) = some d) :
    d.toRat = n * 10 ^ lastPlace 12 (value i) := by
  obtain ⟨exponent, coefficient⟩ := of_gridPoint? found
  have reads := nearestIndex_of_gridPoint? found
  have most : d.coefficient ≤ 10 ^ digits := by
    refine coefficient.trans (Nat.succ_le_of_lt ?_)
    exact (Nat.floor_lt' (by positivity)).mpr (scaled_lt digits (value i))
  have place : lastPlace digits (value i) =
      ((12 - digits : ℕ) : ℤ) + lastPlace 12 (value i) := by
    unfold lastPlace
    push_cast [few]
    ring
  -- On the twelfth grid the answer has the zeros that it lacks.
  have spelt : d.toRat = ((d.coefficient * 10 ^ (12 - digits) : ℕ) : ℚ) *
      10 ^ lastPlace 12 (value i) := by
    rw [toRat, exponent, place, zpow_add₀ (by norm_num), zpow_natCast]
    push_cast
    ring
  have bound : d.coefficient * 10 ^ (12 - digits) ≤ 10 ^ 12 := by
    calc d.coefficient * 10 ^ (12 - digits) ≤ 10 ^ digits * 10 ^ (12 - digits) :=
          Nat.mul_le_mul_right _ most
      _ = 10 ^ 12 := by rw [← pow_add, Nat.add_sub_cancel' few]
  rw [Decimal.nearestIndex_eq, spelt] at reads
  have positive : d.coefficient * 10 ^ (12 - digits) ≠ 0 := by
    intro zero
    rw [zero, Nat.cast_zero, zero_mul, nearest_zero] at reads
    exact nonzero reads.symm
  have close := abs_value_nearest_sub_lt positive bound large (reads.symm ▸ finite)
  have shrinks : (10 : ℚ) ^ (lastPlace 12 (value i) - 1) ≤ 10 ^ lastPlace 12 (value i) :=
    zpow_le_zpow_right₀ (by norm_num) (by omega)
  rw [reads] at close
  rw [spelt, eq_of_near (close.trans_le (by linarith)) near]

/-- The search ends by the twelfth grid if that has a point that reads back. -/
theorem toRat_shortestFrom (reads : nearest (n * 10 ^ lastPlace 12 (value i)) = i) (fuel : ℕ) :
    ∀ digits ≤ 12, 12 < digits + fuel →
      (shortestFrom i (magnitude i) (Int.log 10 (value i)) fuel digits).toRat =
        n * 10 ^ lastPlace 12 (value i) := by
  induction fuel with
  | zero =>
      intro digits few enough
      omega
  | succ fuel ih =>
      intro digits few enough
      unfold shortestFrom
      split
      · rename_i d found
        exact toRat_of_gridPoint? nonzero finite large near few found
      · rename_i none
        have earlier : digits ≠ 12 := by
          rintro rfl
          have some := isSome_gridPoint? finite.le reads
          rw [show lastPlace 12 (value i) = Int.log 10 (value i) - (12 : ℕ) + 1 from rfl,
            none] at some
          cases some
        exact ih (digits + 1) (by omega) (by omega)

end Search

/-- A number of twelve digits is the shortest decimal of its nearest double. -/
theorem toRat_shortest_nearest {m : ℕ} {u : ℤ} (least : 10 ^ 12 ≤ 10 * m) (most : m ≤ 10 ^ 12)
    (large : -299 ≤ u) (finite : nearest (m * 10 ^ u) < infinityIndex) :
    (shortest (nearest (m * 10 ^ u))).toRat = m * 10 ^ u := by
  have near := abs_value_nearest_sub_lt (by omega : m ≠ 0) most (by omega) finite
  obtain ⟨le, n, same⟩ := exists_units_of_near (by decide : 0 < 12) least most near
  obtain ⟨i, index⟩ : ∃ i, nearest (m * 10 ^ u) = i := ⟨_, rfl⟩
  have grows : (10 : ℚ) ^ (u - 1) ≤ 10 ^ lastPlace 12 (value i) :=
    zpow_le_zpow_right₀ (by norm_num) (index ▸ le)
  have nonzero : i ≠ 0 := by
    rintro rfl
    have positive := (log_of_near least most near).1
    rw [index, value_zero] at positive
    exact lt_irrefl _ positive
  rw [index] at near same le finite ⊢
  rw [← same] at near index ⊢
  rw [shortest, leadingExponent_magnitude nonzero]
  exact toRat_shortestFrom nonzero finite (by omega) (near.trans_le (by linarith)) index 17 1
    (by decide) (by decide)

end Decimal

/-- The exact value of a finite double. -/
def Double.toRat (v : Float) : ℚ := if isNegative v then -value (index v) else value (index v)

/-- The number that a text spells, read as an exact decimal. -/
def Decimal.spelt? (text : Text) : Option ℚ :=
  (read? text).map fun (negative, d) => if negative then -d.toRat else d.toRat

/-- A rational number rounded to `digits` significant digits; from the middle between two, the
one that is farther from zero. -/
def significantAway (digits : ℕ) (x : ℚ) : ℚ :=
  if x < 0 then -significant digits (-x) else significant digits x

variable {v : Float}

theorem abs_toRat (v : Float) : |Double.toRat v| = value (index v) := by
  unfold Double.toRat
  split
  · rw [abs_neg, abs_of_nonneg (value_nonneg _)]
  · exact abs_of_nonneg (value_nonneg _)

/-- The threshold is the double nearest to `10 ^ -12`. -/
theorem zeroThreshold_eq : zeroThreshold = nearest (10 ^ (-12 : ℤ)) := by
  rw [zeroThreshold, Decimal.nearestIndex_eq, Decimal.toRat, Nat.cast_one, one_mul]

theorem value_threshold_le_iff :
    value (nearest (10 ^ (-12 : ℤ))) ≤ |Double.toRat v| ↔ zeroThreshold ≤ index v := by
  rw [abs_toRat, ← zeroThreshold_eq]
  exact value_strictMono.le_iff_le

/-- Rounding away from zero follows the sign. -/
theorem significantAway_toRat (h : index v ≠ 0) (digits : ℕ) :
    significantAway digits (Double.toRat v) =
      if isNegative v then -significant digits (value (index v))
      else significant digits (value (index v)) := by
  have positive := value_pos h
  unfold significantAway Double.toRat
  split
  · rw [if_pos (neg_neg_of_pos positive), neg_neg]
  · rw [if_neg positive.not_gt]

/-- No digit is lost when a rounded double is written out. -/
theorem toRat_shortest_roundedIndex {i : ℕ} (h : zeroThreshold ≤ i) (finite : i < infinityIndex) :
    (shortest (roundedIndex i)).toRat = significant 12 (value i) := by
  have nonzero : i ≠ 0 := (zeroThreshold_pos.trans_le h).ne'
  have stays := roundedIndex_lt finite
  have place := lastPlace_ge h
  rw [roundedIndex_eq nonzero] at stays ⊢
  exact toRat_shortest_nearest (le_roundUp_scaled (value_pos nonzero) (by decide))
    (roundUp_scaled_le _ _) (by omega) stays

/-- The result text of a finite double is zero if the double is smaller than the one nearest to
`10 ^ -12`. In all other cases it spells exactly the value of the double rounded to twelve
significant digits, half away from zero, and the double that the rounded value went through is
finite. -/
theorem resultText_spec (finite : v.isFinite = true) :
    (|Double.toRat v| < value (nearest (10 ^ (-12 : ℤ))) → resultText? v = .ok ['0']) ∧
    (value (nearest (10 ^ (-12 : ℤ))) ≤ |Double.toRat v| →
      ∃ text, resultText? v = .ok text ∧
        spelt? text = some (significantAway 12 (Double.toRat v)) ∧
        text = numberText (roundSignificant v) ∧ (roundSignificant v).isFinite = true) := by
  have shown : resultText? v = .ok (resultText v) := if_pos finite
  have bounded := (isFinite_iff v).mp finite
  rw [← not_le, value_threshold_le_iff, shown]
  constructor
  · intro small
    rw [resultText, if_pos (not_le.mp small)]
  · intro reaches
    have nonzero : index v ≠ 0 := (zeroThreshold_pos.trans_le reaches).ne'
    have rounded := zeroThreshold_le_roundedIndex reaches
    have stays := roundedIndex_lt bounded
    rw [← index_roundSignificant] at rounded stays
    have text : resultText v = numberText (roundSignificant v) := if_neg (not_lt.mpr reaches)
    obtain ⟨d, read, digits⟩ :=
      read?_numberText (zeroThreshold_pos.trans_le rounded).ne' stays
    refine ⟨_, rfl, ?_, text, (isFinite_iff _).mpr stays⟩
    rw [index_roundSignificant, toRat_shortest_roundedIndex reaches bounded] at digits
    rw [text, spelt?, read, significantAway_toRat nonzero, isNegative_roundSignificant, ← digits]
    rfl

/-- A number of thirteen digits that ends in a five is rounded away from zero. -/
theorem resultText_of_tie :
    let v := (Decimal.mk 1000000000025 (-1)).toDouble true
    resultText? v = .ok "-100000000003".toList ∧
      spelt? "-100000000003".toList = some (significantAway 12 (Double.toRat v)) := by
  intro v
  have finite : v.isFinite = true := by decide +kernel
  have large : value (nearest (10 ^ (-12 : ℤ))) ≤ |Double.toRat v| :=
    value_threshold_le_iff.mpr (by decide +kernel)
  have shown : resultText? v = .ok "-100000000003".toList := by decide +kernel
  obtain ⟨text, result, spelt, _⟩ := (resultText_spec finite).2 large
  rw [shown] at result
  cases result
  exact ⟨shown, spelt⟩

/-- A text that is read as a double spells a number, and the double is the one nearest to it, on
the same side of zero. -/
theorem nearest_of_readDouble? {text : Text} {w : Float} (read : readDouble? text = some w) :
    ∃ q, spelt? text = some q ∧ index w = nearest |q| ∧
      (isNegative w = true → q ≤ 0) ∧ (isNegative w = false → 0 ≤ q) := by
  obtain ⟨⟨negative, d⟩, found, rfl⟩ := Option.map_eq_some_iff.mp read
  have bounded : d.nearestIndex ≤ infinityIndex := by
    rw [Decimal.nearestIndex_eq]
    exact nearest_le _
  have nonneg := toRat_nonneg d
  refine ⟨if negative then -d.toRat else d.toRat, by rw [spelt?, found]; rfl, ?_⟩
  dsimp only
  rw [toDouble, index_ofIndex bounded, isNegative_ofIndex bounded, Decimal.nearestIndex_eq]
  cases negative with
  | false => simp [abs_of_nonneg nonneg, nonneg]
  | true => simp [abs_of_nonneg nonneg, nonneg]

/-- The result text of a finite double, read as the nearest double, is a finite double with the
same result text. -/
theorem resultText?_readDouble? (finite : v.isFinite = true) :
    ∃ text q w, resultText? v = .ok text ∧ spelt? text = some q ∧ readDouble? text = some w ∧
      index w = nearest |q| ∧ (isNegative w = true → q ≤ 0) ∧ (isNegative w = false → 0 ≤ q) ∧
      w.isFinite = true ∧ resultText? w = .ok text := by
  obtain ⟨w, read, finite', same⟩ := readDouble?_resultText ((isFinite_iff v).mp finite)
  obtain ⟨q, spelt, near, negative, positive⟩ := nearest_of_readDouble? read
  refine ⟨resultText v, q, w, if_pos finite, spelt, read, near, negative, positive, finite', ?_⟩
  rw [resultText?, if_pos finite', same]

/-- The double that is nearest to a power of ten may lie below it, and so begin with another
digit; it has the power as its result again. -/
theorem resultText?_below_power :
    let v := (Decimal.mk 1 23).toDouble true
    leadingExponent (magnitude (index v)) = 22 ∧ resultText? v = .ok "-1e+23".toList ∧
      ∃ w, readDouble? "-1e+23".toList = some w ∧ resultText? w = .ok "-1e+23".toList := by
  intro v
  have finite : v.isFinite = true := by decide
  have shown : resultText? v = .ok "-1e+23".toList := by decide
  obtain ⟨text, q, w, result, _, read, _, _, _, _, again⟩ := resultText?_readDouble? finite
  rw [shown] at result
  cases result
  exact ⟨by decide, shown, w, read, again⟩

end Keypad
