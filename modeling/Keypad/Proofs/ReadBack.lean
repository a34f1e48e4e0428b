import Mathlib.Data.List.TakeWhile
import Keypad.Proofs.Rounding

/-!
# What is written reads back

The texts of numbers, read again, give the numbers they were written for. A text without an
exponent is a plain spelling, one with an exponent a plain spelling and the power after it;
both spell the same rational number as the decimal they come from, and the double nearest to
that is the one that was written.
-/

namespace Keypad

open Double Decimal

/-- A text of digits alone. -/
def IsDigits (text : Text) : Prop := ∀ c ∈ text, isDigit c = true

variable {c : Char} {a b digits : Text} {lead : ℤ}

theorem IsDigits.append (ha : IsDigits a) (hb : IsDigits b) : IsDigits (a ++ b) := by
  intro c mem
  rcases List.mem_append.mp mem with left | right
  · exact ha c left
  · exact hb c right

theorem isDigits_zeros (n : ℕ) : IsDigits (List.replicate n '0') := by
  intro c mem
  rw [List.eq_of_mem_replicate mem]
  rfl

theorem isDigits_toDigits (n : ℕ) : IsDigits (Nat.toDigits 10 n) := fun _ mem =>
  Nat.isDigit_of_mem_toDigits (by decide) le_rfl mem

theorem ne_of_isDigit {d : Char} (h : isDigit c = true) (other : isDigit d = false) : c ≠ d := by
  rintro rfl
  rw [h] at other
  cases other

/-- No digit is a character that is not one. -/
theorem IsDigits.not_mem (h : IsDigits a) (other : isDigit c = false) : c ∉ a := fun mem =>
  ne_of_isDigit (h c mem) other rfl

theorem IsDigits.all (h : IsDigits a) : a.all isDigit = true := List.all_eq_true.mpr h

namespace Decimal

theorem valueOfDigits_append (a b : Text) :
    valueOfDigits (a ++ b) = valueOfDigits a * 10 ^ b.length + valueOfDigits b := by
  change Nat.ofDigitChars 10 (a ++ b) 0 = _
  rw [Nat.ofDigitChars_append, Nat.ofDigitChars_eq_ofDigitChars_zero, mul_comm]
  rfl

theorem valueOfDigits_zeros (n : ℕ) : valueOfDigits (List.replicate n '0') = 0 :=
  Nat.ofDigitChars_replicate_zero

theorem valueOfDigits_toDigits (n : ℕ) : valueOfDigits (Nat.toDigits 10 n) = n :=
  Nat.ofDigitChars_ten_toDigits

/-- The digits of a coefficient, with the zeros at its end put back. -/
theorem digits_append_zeros (d : Decimal) :
    ∃ n, d.digits ++ List.replicate n '0' = Nat.toDigits 10 d.coefficient := by
  have parts := List.takeWhile_append_dropWhile (p := (· == '0'))
    (l := (Nat.toDigits 10 d.coefficient).reverse)
  have zeros : ((Nat.toDigits 10 d.coefficient).reverse.takeWhile (· == '0')) =
      List.replicate ((Nat.toDigits 10 d.coefficient).reverse.takeWhile (· == '0')).length '0' :=
    List.eq_replicate_of_mem fun c mem => by simpa using List.mem_takeWhile_imp mem
  refine ⟨((Nat.toDigits 10 d.coefficient).reverse.takeWhile (· == '0')).length, ?_⟩
  rw [← List.reverse_inj, List.reverse_append, List.reverse_replicate, ← zeros, digits,
    List.reverse_reverse]
  exact parts

theorem isDigits_digits (d : Decimal) : IsDigits d.digits := by
  obtain ⟨n, whole⟩ := d.digits_append_zeros
  intro c mem
  apply isDigits_toDigits d.coefficient c
  rw [← whole]
  exact List.mem_append_left _ mem

theorem digits_ne_nil {d : Decimal} (h : d.coefficient ≠ 0) : d.digits ≠ [] := by
  intro none
  obtain ⟨n, whole⟩ := d.digits_append_zeros
  have value := valueOfDigits_toDigits d.coefficient
  rw [← whole, none, List.nil_append, valueOfDigits_zeros] at value
  exact h value.symm

/-- The number that digits spell of which the first counts `10 ^ lead`. -/
def spelled (digits : Text) (lead : ℤ) : ℚ :=
  valueOfDigits digits * 10 ^ (lead + 1 - digits.length)

/-- A decimal is what its digits spell. -/
theorem spelled_digits (d : Decimal) : spelled d.digits d.lead = d.toRat := by
  obtain ⟨n, whole⟩ := d.digits_append_zeros
  have value := valueOfDigits_toDigits d.coefficient
  have count := congrArg List.length whole
  rw [← whole, valueOfDigits_append, valueOfDigits_zeros, List.length_replicate,
    Nat.add_zero] at value
  rw [List.length_append, List.length_replicate] at count
  have place : d.lead + 1 - d.digits.length = n + d.exponent := by
    rw [Decimal.lead, digitCount, ← count]
    push_cast
    ring
  rw [spelled, toRat, place, ← value, zpow_add₀ (by norm_num), zpow_natCast]
  push_cast
  ring

theorem ofPlain_digits (ha : IsDigits a) : ofPlain a = ⟨valueOfDigits a, 0⟩ := by
  have point : ∀ c ∈ a, (c != '.') = true := fun c mem =>
    bne_iff_ne.mpr (ne_of_isDigit (ha c mem) rfl)
  have all : a.takeWhile (· != '.') = a := List.takeWhile_eq_self_iff.mpr point
  have none : a.dropWhile (· != '.') = [] := List.dropWhile_eq_nil_iff.mpr point
  simp [ofPlain, all, none]

theorem ofPlain_point (ha : IsDigits a) :
    ofPlain (a ++ '.' :: b) = ⟨valueOfDigits (a ++ b), -(b.length : ℤ)⟩ := by
  have point : ∀ c ∈ a, (c != '.') = true := fun c mem =>
    bne_iff_ne.mpr (ne_of_isDigit (ha c mem) rfl)
  simp [ofPlain, List.takeWhile_append_of_pos point, List.dropWhile_append_of_pos point]

theorem isPlain_digits (ha : IsDigits a) (nonempty : a ≠ []) : isPlain a = true := by
  obtain ⟨c, rest, rfl⟩ := List.exists_cons_of_ne_nil nonempty
  have some : (c :: rest).any isDigit = true :=
    List.any_eq_true.mpr ⟨c, List.mem_cons_self, ha c List.mem_cons_self⟩
  have all : (c :: rest).all (fun c => isDigit c || c == '.') = true :=
    List.all_eq_true.mpr fun d mem => by simp [ha d mem]
  have points : (c :: rest).count '.' = 0 := List.count_eq_zero.mpr (ha.not_mem rfl)
  simp [isPlain, some, all, points]

theorem isPlain_point (ha : IsDigits a) (hb : IsDigits b) (nonempty : a ≠ []) :
    isPlain (a ++ '.' :: b) = true := by
  obtain ⟨c, rest, rfl⟩ := List.exists_cons_of_ne_nil nonempty
  have some : ((c :: rest) ++ '.' :: b).any isDigit = true :=
    List.any_eq_true.mpr ⟨c, List.mem_cons_self, ha c List.mem_cons_self⟩
  have all : ((c :: rest) ++ '.' :: b).all (fun c => isDigit c || c == '.') = true := by
    apply List.all_eq_true.mpr
    intro d mem
    rcases List.mem_append.mp mem with left | right
    · simp [ha d left]
    · rcases List.mem_cons.mp right with rfl | right
      · rfl
      · simp [hb d right]
  have points : ((c :: rest) ++ '.' :: b).count '.' = 1 := by
    rw [List.count_append, List.count_eq_zero.mpr (ha.not_mem rfl), List.count_cons_self,
      List.count_eq_zero.mpr (hb.not_mem rfl)]
  simp only [isPlain, some, all, points]
  rfl

theorem splitSign_of_isDigit (h : isDigit c = true) (rest : Text) :
    splitSign (c :: rest) = (false, c :: rest) := by
  have minus := ne_of_isDigit (d := '-') h rfl
  have plus := ne_of_isDigit (d := '+') h rfl
  unfold splitSign
  split
  · rename_i opens
    exact absurd (List.cons.inj opens).1 minus
  · rename_i opens
    exact absurd (List.cons.inj opens).1 plus
  · rfl

/-- The characters of a plain spelling. -/
theorem digit_or_point_of_isPlain (h : isPlain a = true) (mem : c ∈ a) :
    isDigit c = true ∨ c = '.' := by
  simp only [isPlain, Bool.and_eq_true] at h
  simpa using List.all_eq_true.mp h.1.2 c mem

theorem not_isMark_of_isPlain (h : isPlain a = true) (mem : c ∈ a) :
    (!(c == 'e' || c == 'E')) = true := by
  rcases digit_or_point_of_isPlain h mem with digit | rfl
  · have lower := ne_of_isDigit (d := 'e') digit rfl
    have upper := ne_of_isDigit (d := 'E') digit rfl
    simp [lower, upper]
  · rfl

variable {text tail : Text} {negative : Bool} {e : ℤ}

/-- A plain spelling is read as what it spells. -/
theorem read?_plain (sign : splitSign text = (negative, a)) (h : isPlain a = true) :
    read? text = some (negative, ofPlain a) := by
  have marks : ∀ c ∈ a, (!(c == 'e' || c == 'E')) = true := fun c => not_isMark_of_isPlain h
  have all := List.takeWhile_eq_self_iff.mpr marks
  have none := List.dropWhile_eq_nil_iff.mpr marks
  simp only [read?, sign, all, none, h, if_true]

/-- The power after a mark is added to the exponent. -/
theorem read?_exponent (sign : splitSign text = (negative, a ++ 'e' :: tail))
    (h : isPlain a = true) (power : readExponent? tail = some e) :
    read? text = some (negative, ⟨(ofPlain a).coefficient, (ofPlain a).exponent + e⟩) := by
  have marks : ∀ c ∈ a, (!(c == 'e' || c == 'E')) = true := fun c => not_isMark_of_isPlain h
  have mark : (!('e' == 'e' || 'e' == 'E')) = false := rfl
  simp only [read?, sign, List.takeWhile_append_of_pos marks, List.dropWhile_append_of_pos marks,
    List.takeWhile_cons, List.dropWhile_cons, mark, Bool.false_eq_true, if_false,
    List.append_nil, h, if_true, power, Option.map_some]

/-- An exponent is read as it was written. -/
theorem readExponent?_written (e : ℤ) (n : ℕ) :
    readExponent? ((if e < 0 then '-' else '+') ::
      (List.replicate n '0' ++ Text.ofNat e.natAbs)) = some e := by
  have all := (isDigits_zeros n).append (isDigits_toDigits e.natAbs)
  have nonempty : (List.replicate n '0' ++ Nat.toDigits 10 e.natAbs).isEmpty = false := by
    simp [Nat.toDigits_ne_nil]
  have value : valueOfDigits (List.replicate n '0' ++ Nat.toDigits 10 e.natAbs) = e.natAbs := by
    rw [valueOfDigits_append, valueOfDigits_zeros, valueOfDigits_toDigits, zero_mul, zero_add]
  by_cases below : e < 0
  · rw [if_pos below]
    simp only [readExponent?, splitSign, Text.ofNat, all.all, nonempty, value, Bool.not_true,
      Bool.or_self, Bool.false_eq_true, if_false, if_true]
    congr 1
    omega
  · rw [if_neg below]
    simp only [readExponent?, splitSign, Text.ofNat, all.all, nonempty, value, Bool.not_true,
      Bool.or_self, Bool.false_eq_true, if_false]
    congr 1
    omega

end Decimal

namespace NumberStyle

variable {style : NumberStyle}

/-- What follows a whole number adds nothing to it: it is nothing, or a point and zeros. -/
def IsNeutral (style : NumberStyle) : Prop :=
  style.wholeEnd = [] ∨ ∃ zeros, style.wholeEnd = '.' :: List.replicate zeros '0'

theorem isNeutral_display : display.IsNeutral := .inl rfl

theorem isNeutral_literal : literal.IsNeutral := .inr ⟨1, rfl⟩

/-- A whole number has zeros in the places that its digits do not reach. -/
theorem valueOfDigits_whole (nonneg : 0 ≤ lead) (whole : digits.length ≤ lead.toNat + 1) :
    (valueOfDigits (digits ++ List.replicate (lead.toNat + 1 - digits.length) '0') : ℚ) =
      spelled digits lead := by
  have place : lead + 1 - digits.length = ((lead.toNat + 1 - digits.length : ℕ) : ℤ) := by
    omega
  rw [valueOfDigits_append, valueOfDigits_zeros, List.length_replicate, Nat.add_zero, spelled,
    place, zpow_natCast]
  push_cast
  ring

/-- Below one, zeros stand between the point and the digits. -/
theorem plain_of_neg (h : IsDigits digits) (negative : lead < 0) :
    isPlain (style.plain digits lead) = true ∧
      (ofPlain (style.plain digits lead)).toRat = spelled digits lead := by
  have zero : IsDigits ['0'] := isDigits_zeros 1
  have places := (isDigits_zeros (-lead - 1).toNat).append h
  have text : style.plain digits lead =
      ['0'] ++ '.' :: (List.replicate (-lead - 1).toNat '0' ++ digits) := by
    rw [plain, if_pos negative]
    simp
  have value : valueOfDigits (['0'] ++ (List.replicate (-lead - 1).toNat '0' ++ digits)) =
      valueOfDigits digits := by
    rw [← List.append_assoc, valueOfDigits_append, valueOfDigits_append, valueOfDigits_zeros]
    simp [valueOfDigits]
  have place : -(((List.replicate (-lead - 1).toNat '0' ++ digits).length : ℕ) : ℤ) =
      lead + 1 - digits.length := by
    rw [List.length_append, List.length_replicate]
    omega
  rw [text]
  refine ⟨isPlain_point zero places (by simp), ?_⟩
  rw [ofPlain_point zero, toRat, value, place, spelled]

theorem plain_of_whole (neutral : style.IsNeutral) (h : IsDigits digits) (nonempty : digits ≠ [])
    (nonneg : ¬ lead < 0) (whole : digits.length ≤ lead.toNat + 1) :
    isPlain (style.plain digits lead) = true ∧
      (ofPlain (style.plain digits lead)).toRat = spelled digits lead := by
  have all := h.append (isDigits_zeros (lead.toNat + 1 - digits.length))
  have some : digits ++ List.replicate (lead.toNat + 1 - digits.length) '0' ≠ [] := by
    simp [nonempty]
  have value := valueOfDigits_whole (not_lt.mp nonneg) whole
  rw [plain, if_neg nonneg, if_pos whole]
  rcases neutral with none | ⟨zeros, point⟩
  · rw [none, List.append_nil]
    refine ⟨isPlain_digits all some, ?_⟩
    rw [ofPlain_digits all, toRat, value, zpow_zero, mul_one]
  · rw [point]
    refine ⟨isPlain_point all (isDigits_zeros zeros) some, ?_⟩
    rw [ofPlain_point all, toRat, valueOfDigits_append, valueOfDigits_zeros,
      List.length_replicate, Nat.add_zero, Nat.cast_mul, value, mul_assoc, Nat.cast_pow,
      Nat.cast_ofNat, zpow_neg, zpow_natCast, mul_inv_cancel₀ (by positivity), mul_one]

/-- Where there are more digits than the whole number has places, the point stands between them. -/
theorem plain_of_point (h : IsDigits digits) (nonempty : digits ≠ []) (nonneg : ¬ lead < 0)
    (more : ¬ digits.length ≤ lead.toNat + 1) :
    isPlain (style.plain digits lead) = true ∧
      (ofPlain (style.plain digits lead)).toRat = spelled digits lead := by
  have before : IsDigits (digits.take (lead.toNat + 1)) := fun c mem =>
    h c (List.mem_of_mem_take mem)
  have after : IsDigits (digits.drop (lead.toNat + 1)) := fun c mem =>
    h c (List.mem_of_mem_drop mem)
  have place : -(((digits.drop (lead.toNat + 1)).length : ℕ) : ℤ) = lead + 1 - digits.length := by
    rw [List.length_drop]
    omega
  rw [plain, if_neg nonneg, if_neg more]
  refine ⟨isPlain_point before after (by simp [nonempty]), ?_⟩
  rw [ofPlain_point before, toRat, List.take_append_drop, place, spelled]

/-- Digits without an exponent are a plain spelling of what they spell. -/
theorem plain_spec (neutral : style.IsNeutral) (h : IsDigits digits) (nonempty : digits ≠ [])
    (lead : ℤ) :
    isPlain (style.plain digits lead) = true ∧
      (ofPlain (style.plain digits lead)).toRat = spelled digits lead := by
  by_cases negative : lead < 0
  · exact plain_of_neg h negative
  · by_cases whole : digits.length ≤ lead.toNat + 1
    · exact plain_of_whole neutral h nonempty negative whole
    · exact plain_of_point h nonempty negative whole

/-- Digits with an exponent are a plain spelling of them, and after the mark a sign and a plain
spelling of the power. -/
theorem scientific_eq (style : NumberStyle) (nonempty : digits ≠ []) (h : IsDigits digits)
    (lead : ℤ) :
    ∃ mantissa sign size, style.scientific digits lead = mantissa ++ 'e' :: sign :: size ∧
      isPlain mantissa = true ∧ ofPlain mantissa = ⟨valueOfDigits digits, 1 - digits.length⟩ ∧
      (sign = '+' ∨ sign = '-') ∧ isPlain size = true ∧
      readExponent? (sign :: size) = some lead := by
  have power : IsDigits (List.replicate (style.exponentWidth - (Text.ofNat lead.natAbs).length) '0'
      ++ Text.ofNat lead.natAbs) :=
    (isDigits_zeros _).append (isDigits_toDigits lead.natAbs)
  have some : List.replicate (style.exponentWidth - (Text.ofNat lead.natAbs).length) '0'
      ++ Text.ofNat lead.natAbs ≠ [] := by
    simp [Text.ofNat, Nat.toDigits_ne_nil]
  obtain ⟨d, others, rfl⟩ := List.exists_cons_of_ne_nil nonempty
  have first : IsDigits [d] := fun c mem => h c (List.mem_singleton.mp mem ▸ List.mem_cons_self)
  refine ⟨_, _, _, rfl, ?_, ?_, ?_, isPlain_digits power some, readExponent?_written lead _⟩
  · cases others with
    | nil => exact isPlain_digits first (by simp)
    | cons o others =>
        exact isPlain_point first (fun c mem => h c (List.mem_cons_of_mem _ mem)) (by simp)
  · cases others with
    | nil => simpa using ofPlain_digits first
    | cons o others =>
        have point := ofPlain_point (b := o :: others) first
        simpa using point
  · split
    · exact .inr rfl
    · exact .inl rfl

/-- Digits as text begin with a digit. -/
theorem write_eq_cons (style : NumberStyle) (nonempty : digits ≠ []) (h : IsDigits digits)
    (lead : ℤ) : ∃ c rest, style.write digits lead = c :: rest ∧ isDigit c = true := by
  obtain ⟨d, others, rfl⟩ := List.exists_cons_of_ne_nil nonempty
  have digit := h d List.mem_cons_self
  unfold write
  split
  · unfold plain
    split
    · exact ⟨'0', _, rfl, rfl⟩
    · split
      · exact ⟨d, _, rfl, digit⟩
      · exact ⟨d, _, rfl, digit⟩
  · unfold scientific
    cases others with
    | nil => exact ⟨d, _, rfl, digit⟩
    | cons => exact ⟨d, _, rfl, digit⟩

/-- What is written is read as the number that the digits spell, also behind a sign. -/
theorem read?_write (neutral : style.IsNeutral) (nonempty : digits ≠ []) (h : IsDigits digits)
    (lead : ℤ) :
    ∃ d : Decimal, d.toRat = spelled digits lead ∧
      read? (style.write digits lead) = some (false, d) ∧
      read? ('-' :: style.write digits lead) = some (true, d) := by
  have sign : splitSign (style.write digits lead) = (false, style.write digits lead) := by
    obtain ⟨c, rest, opens, digit⟩ := style.write_eq_cons nonempty h lead
    rw [opens]
    exact splitSign_of_isDigit digit rest
  have minus : splitSign ('-' :: style.write digits lead) = (true, style.write digits lead) := rfl
  by_cases range : style.plainFrom ≤ lead ∧ lead < style.plainBelow
  · obtain ⟨plain, value⟩ := plain_spec neutral h nonempty lead
    have text : style.write digits lead = style.plain digits lead := by
      simp [write, range]
    rw [text] at sign minus ⊢
    exact ⟨_, value, read?_plain sign plain, read?_plain minus plain⟩
  · obtain ⟨mantissa, mark, size, whole, plain, value, _, _, read⟩ :=
      style.scientific_eq nonempty h lead
    have text : style.write digits lead = mantissa ++ 'e' :: mark :: size := by
      rw [← whole]
      simp only [write, Bool.and_eq_true, decide_eq_true_eq, if_neg range]
    rw [text] at sign minus ⊢
    refine ⟨_, ?_, read?_exponent sign plain read, read?_exponent minus plain read⟩
    have place : 1 - (digits.length : ℤ) + lead = lead + 1 - digits.length := by ring
    rw [value, toRat, spelled, place]

end NumberStyle

variable {v : Float}

/-- The text of a finite number is read as its sign and the shortest decimal. -/
theorem read?_numberText (nonzero : index v ≠ 0) (finite : index v < infinityIndex) :
    ∃ d : Decimal, read? (numberText v) = some (isNegative v, d) ∧
      d.toRat = (shortest (index v)).toRat := by
  have coefficient := coefficient_shortest_ne_zero nonzero finite.le
  obtain ⟨d, value, positive, negative⟩ := NumberStyle.read?_write NumberStyle.isNeutral_display
    (digits_ne_nil coefficient) (isDigits_digits _) (shortest (index v)).lead
  rw [spelled_digits] at value
  refine ⟨d, ?_, value⟩
  unfold numberText
  simp only [if_neg nonzero, Decimal.write]
  by_cases sign : isNegative v = true
  · rw [if_pos sign, negative, sign]
  · rw [Bool.not_eq_true] at sign
    rw [sign, if_neg Bool.false_ne_true, positive]

/-- The text of a finite number is read back as the number. -/
theorem readDouble?_numberText (nonzero : index v ≠ 0) (finite : index v < infinityIndex) :
    readDouble? (numberText v) = some v := by
  obtain ⟨d, read, value⟩ := read?_numberText nonzero finite
  rw [readDouble?, read, Option.map_some]
  dsimp only
  rw [toDouble, Decimal.nearestIndex_eq, value, nearest_toRat_shortest finite.le,
    ofIndex_index finite.le]

/-- A result text is zero, or shows a number that is rounded already. -/
theorem resultText_cases (finite : index v < infinityIndex) :
    resultText v = ['0'] ∨
      ∃ w, resultText v = numberText w ∧ resultText w = numberText w ∧ index w ≠ 0 ∧
        index w < infinityIndex := by
  by_cases small : index v < zeroThreshold
  · exact .inl (if_pos small)
  · rw [not_lt] at small
    have rounded := zeroThreshold_le_roundedIndex small
    have stays := roundedIndex_lt finite
    have positive := zeroThreshold_pos
    rw [← index_roundSignificant] at rounded stays
    have again : resultText (roundSignificant v) = numberText (roundSignificant v) := by
      rw [resultText, if_neg (not_lt.mpr rounded), roundSignificant_roundSignificant small finite]
    exact .inr ⟨roundSignificant v, if_neg (not_lt.mpr small), again, by omega, stays⟩

/-- A result text is read back as the rounded number, or as zero, and either has the text again. -/
theorem readDouble?_resultText (finite : index v < infinityIndex) :
    ∃ w, readDouble? (resultText v) = some w ∧ w.isFinite = true ∧
      resultText w = resultText v := by
  rcases resultText_cases finite with zero | ⟨w, shown, same, nonzero, bounded⟩
  · rw [zero]
    exact ⟨ofIndex false 0, rfl, rfl, rfl⟩
  · rw [shown]
    exact ⟨w, readDouble?_numberText nonzero bounded, (isFinite_iff w).mpr bounded, same⟩

/-- Every number has a text. -/
theorem numberText_ne_nil (v : Float) : numberText v ≠ [] := by
  unfold numberText
  dsimp only
  split
  · simp
  · have body : (shortest (index v)).write .display ≠ [] := by
      unfold Decimal.write NumberStyle.write NumberStyle.plain NumberStyle.scientific
      split
      · split
        · simp
        · split
          · intro none
            have size := congrArg List.length none
            simp only [List.length_append, List.length_replicate, List.length_nil] at size
            omega
          · simp
      · simp
    split
    · simp
    · exact body

theorem resultText_ne_nil (v : Float) : resultText v ≠ [] := by
  unfold resultText
  split
  · simp
  · exact numberText_ne_nil _

end Keypad
