import Mathlib.Computability.Language
import Keypad.Proofs.Recommit
import Keypad.Proofs.Sums

/-!
# How a number is written

A number has one text on the display. Written out in full it has a digit before the point, no zero
in front of its digits and none behind its places; with an exponent it has one digit before the
point, which is not zero. The two forms are given as regular languages (`Numeral.plain`,
`Numeral.scientific`), and the size of the number decides between them.

Either form spells the shortest decimal that reads back, which is also what a listing of the number
spells. So the text can be read back, and numbers that differ have different texts
(`numberText_spec`).
-/

namespace Keypad

open Double Decimal
open scoped Computability

namespace Numeral

/-- A single character. -/
def only (c : Char) : Language Char := {[c]}

/-- A digit. -/
def digit : Language Char := {text | ∃ c, isDigit c = true ∧ text = [c]}

/-- A digit other than zero. -/
def countingDigit : Language Char := {text | ∃ c, isDigit c = true ∧ c ≠ '0' ∧ text = [c]}

/-- Digits of which the first is not zero. -/
def leading : Language Char := countingDigit * digit∗

/-- Digits of which the last is not zero. -/
def trailing : Language Char := digit∗ * countingDigit

/-- Places behind a point, the last of them not zero, or nothing. -/
def places : Language Char := 1 + only '.' * trailing

/-- A number written out in full. -/
def plain : Language Char := (1 + only '-') * ((only '0' + leading) * places)

/-- A number with an exponent. -/
def scientific : Language Char :=
  (1 + only '-') * (countingDigit * places * only 'e' * (only '+' + only '-') * leading)

variable {text a b : Text}

theorem mem_digits : text ∈ digit∗ ↔ IsDigits text := by
  rw [Language.mem_kstar]
  constructor
  · rintro ⟨parts, rfl, digits⟩ c mem
    obtain ⟨part, among, inside⟩ := List.mem_flatten.mp mem
    obtain ⟨d, isDigit, rfl⟩ := digits part among
    rwa [List.mem_singleton.mp inside]
  · intro digits
    have parts : text = (text.map ([·])).flatten := by
      rw [← List.flatMap_def, List.flatMap_singleton']
    refine ⟨text.map ([·]), parts, fun part among => ?_⟩
    obtain ⟨c, mem, rfl⟩ := List.mem_map.mp among
    exact ⟨c, digits c mem, rfl⟩

theorem mem_leading : text ∈ leading ↔
    ∃ c rest, isDigit c = true ∧ c ≠ '0' ∧ IsDigits rest ∧ text = c :: rest := by
  constructor
  · intro mem
    obtain ⟨_, ⟨c, digit, nonzero, rfl⟩, rest, digits, rfl⟩ := Language.mem_mul.mp mem
    exact ⟨c, rest, digit, nonzero, mem_digits.mp digits, rfl⟩
  · rintro ⟨c, rest, digit, nonzero, digits, rfl⟩
    exact Language.mem_mul.mpr
      ⟨[c], ⟨c, digit, nonzero, rfl⟩, rest, mem_digits.mpr digits, rfl⟩

theorem mem_leading_of_head? (digits : IsDigits text) (nonempty : text ≠ [])
    (first : text.head? ≠ some '0') : text ∈ leading := by
  obtain ⟨c, rest, rfl⟩ := List.exists_cons_of_ne_nil nonempty
  obtain ⟨digit, others⟩ := List.forall_mem_cons.mp digits
  exact mem_leading.mpr ⟨c, rest, digit, fun zero => first (congrArg some zero), others, rfl⟩

theorem mem_trailing : text ∈ trailing ↔
    ∃ front c, IsDigits front ∧ isDigit c = true ∧ c ≠ '0' ∧ text = front ++ [c] := by
  constructor
  · intro mem
    obtain ⟨front, digits, _, ⟨c, digit, nonzero, rfl⟩, rfl⟩ := Language.mem_mul.mp mem
    exact ⟨front, c, mem_digits.mp digits, digit, nonzero, rfl⟩
  · rintro ⟨front, c, digits, digit, nonzero, rfl⟩
    exact Language.mem_mul.mpr
      ⟨front, mem_digits.mpr digits, [c], ⟨c, digit, nonzero, rfl⟩, rfl⟩

theorem nil_mem_places : [] ∈ places := .inl rfl

theorem point_mem_places (h : text ∈ trailing) : '.' :: text ∈ places :=
  .inr (Language.append_mem_mul (a := ['.']) rfl h)

/-- Any digits may follow. -/
theorem append_mem_leading (ha : a ∈ leading) (hb : IsDigits b) : a ++ b ∈ leading := by
  obtain ⟨c, rest, digit, nonzero, digits, rfl⟩ := mem_leading.mp ha
  exact mem_leading.mpr ⟨c, rest ++ b, digit, nonzero, digits.append hb, rfl⟩

/-- Any digits may stand before. -/
theorem append_mem_trailing (ha : IsDigits a) (hb : b ∈ trailing) : a ++ b ∈ trailing := by
  obtain ⟨front, c, digits, digit, nonzero, rfl⟩ := mem_trailing.mp hb
  exact mem_trailing.mpr
    ⟨a ++ front, c, ha.append digits, digit, nonzero, (List.append_assoc _ _ _).symm⟩

/-- The first digits. -/
theorem take_mem_leading (h : text ∈ leading) (k : ℕ) : text.take (k + 1) ∈ leading := by
  obtain ⟨c, rest, digit, nonzero, digits, rfl⟩ := mem_leading.mp h
  exact mem_leading.mpr ⟨c, rest.take k, digit, nonzero,
    fun d mem => digits d (List.mem_of_mem_take mem), rfl⟩

/-- The last digits. -/
theorem drop_mem_trailing (h : text ∈ trailing) {k : ℕ} (some : k < text.length) :
    text.drop k ∈ trailing := by
  obtain ⟨front, c, digits, digit, nonzero, rfl⟩ := mem_trailing.mp h
  rw [List.length_append, List.length_singleton] at some
  refine mem_trailing.mpr ⟨front.drop k, c, fun d mem => digits d (List.mem_of_mem_drop mem),
    digit, nonzero, ?_⟩
  exact List.drop_append_of_le_length (by omega)

theorem isDigits_of_leading (h : text ∈ leading) : IsDigits text := by
  obtain ⟨c, rest, digit, _, digits, rfl⟩ := mem_leading.mp h
  exact List.forall_mem_cons.mpr ⟨digit, digits⟩

theorem isDigits_of_trailing (h : text ∈ trailing) : IsDigits text := by
  obtain ⟨front, c, digits, digit, _, rfl⟩ := mem_trailing.mp h
  exact digits.append (List.forall_mem_singleton.mpr digit)

/-- What is written out in full has no exponent. -/
theorem not_mem_of_plain (h : text ∈ plain) : 'e' ∉ text := by
  obtain ⟨sign, signs, _, body, rfl⟩ := Language.mem_mul.mp h
  obtain ⟨whole, wholes, point, points, rfl⟩ := Language.mem_mul.mp body
  have first : 'e' ∉ sign := by
    rcases signs with rfl | rfl <;> simp
  have second : 'e' ∉ whole := by
    rcases wholes with rfl | leads
    · simp
    · exact (isDigits_of_leading leads).not_mem rfl
  have third : 'e' ∉ point := by
    rcases points with rfl | point
    · simp
    · obtain ⟨_, rfl, digits, trails, rfl⟩ := Language.mem_mul.mp point
      simpa using (isDigits_of_trailing trails).not_mem rfl
  simp [first, second, third]

/-- A number with an exponent has the mark of the exponent. -/
theorem mem_of_scientific (h : text ∈ scientific) : 'e' ∈ text := by
  obtain ⟨sign, _, _, body, rfl⟩ := Language.mem_mul.mp h
  obtain ⟨_, signed, power, _, rfl⟩ := Language.mem_mul.mp body
  obtain ⟨_, marked, exponentSign, _, rfl⟩ := Language.mem_mul.mp signed
  obtain ⟨mantissa, _, mark, marks, rfl⟩ := Language.mem_mul.mp marked
  obtain rfl : mark = ['e'] := marks
  simp

end Numeral

namespace Decimal

variable {n : ℕ} {d : Decimal}

/-- No number but zero begins with a zero. -/
theorem head?_toDigits_ne_zero (h : n ≠ 0) : (Nat.toDigits 10 n).head? ≠ some '0' := by
  have single : ∀ m < 10, m ≠ 0 → (Nat.toDigits 10 m).head? ≠ some '0' := by decide
  induction n using Nat.strongRecOn with
  | ind n ih =>
      rcases Nat.lt_or_ge n 10 with small | large
      · exact single n small h
      · have shorter : n / 10 < n := Nat.div_lt_self (Nat.pos_of_ne_zero h) (by decide)
        have nonempty : Nat.toDigits 10 (n / 10) ≠ [] := Nat.toDigits_ne_nil
        rw [Nat.toDigits_of_base_le (by decide) large, List.head?_append_of_ne_nil _ nonempty]
        exact ih (n / 10) shorter (by omega)

theorem toDigits_mem_leading (h : n ≠ 0) : Nat.toDigits 10 n ∈ Numeral.leading :=
  Numeral.mem_leading_of_head? (isDigits_toDigits n) Nat.toDigits_ne_nil
    (head?_toDigits_ne_zero h)

/-- The digits of a decimal do not begin with a zero. -/
theorem digits_mem_leading (h : d.coefficient ≠ 0) : d.digits ∈ Numeral.leading := by
  obtain ⟨zeros, whole⟩ := d.digits_append_zeros
  have first := head?_toDigits_ne_zero h
  rw [← whole, List.head?_append_of_ne_nil _ (digits_ne_nil h)] at first
  exact Numeral.mem_leading_of_head? (isDigits_digits d) (digits_ne_nil h) first

/-- The digits of a decimal do not end in a zero. -/
theorem digits_mem_trailing (h : d.coefficient ≠ 0) : d.digits ∈ Numeral.trailing := by
  obtain ⟨front, c, whole⟩ := d.digits.eq_nil_or_concat'.resolve_left (digits_ne_nil h)
  have all : IsDigits (front ++ [c]) := whole ▸ isDigits_digits d
  have last : c ∈ d.digits.getLast? := by
    rw [whole, List.getLast?_concat]
    exact Option.mem_some_self c
  rw [digits, List.getLast?_reverse] at last
  have nonzero : c ≠ '0' := by simpa using Lexer.not_of_mem_head?_dropWhile c last
  exact Numeral.mem_trailing.mpr ⟨front, c, fun e mem => all e (List.mem_append_left _ mem),
    all c (by simp), nonzero, whole⟩

end Decimal

namespace NumberStyle

variable {style : NumberStyle} {digits : Text}

/-- Digits without an exponent have the form of a number written out, before its sign. -/
theorem plain_mem (bare : style.wholeEnd = []) (leads : digits ∈ Numeral.leading)
    (trails : digits ∈ Numeral.trailing) (lead : ℤ) :
    style.plain digits lead ∈ (Numeral.only '0' + Numeral.leading) * Numeral.places := by
  unfold plain
  split
  · have places := Numeral.append_mem_trailing (isDigits_zeros (-lead - 1).toNat) trails
    exact Language.append_mem_mul (a := ['0']) (.inl rfl) (Numeral.point_mem_places places)
  · split
    · have zeros := isDigits_zeros (lead.toNat + 1 - digits.length)
      have whole := Numeral.append_mem_leading leads zeros
      rw [bare]
      exact Language.append_mem_mul (.inr whole) Numeral.nil_mem_places
    · rename_i longer
      have places := Numeral.drop_mem_trailing trails (not_le.mp longer)
      exact Language.append_mem_mul (.inr (Numeral.take_mem_leading leads _))
        (Numeral.point_mem_places places)

/-- Digits with an exponent other than zero have the form of a number with an exponent, before its
sign, if the exponent is not filled up with zeros. -/
theorem scientific_mem (narrow : style.exponentWidth ≤ 1) (leads : digits ∈ Numeral.leading)
    (trails : digits ∈ Numeral.trailing) {lead : ℤ} (power : lead ≠ 0) :
    style.scientific digits lead ∈ Numeral.countingDigit * Numeral.places * Numeral.only 'e' *
      (Numeral.only '+' + Numeral.only '-') * Numeral.leading := by
  obtain ⟨c, rest, digit, nonzero, _, rfl⟩ := Numeral.mem_leading.mp leads
  have first : [c] ∈ Numeral.countingDigit := ⟨c, digit, nonzero, rfl⟩
  have sign : [if lead < 0 then '-' else '+'] ∈ Numeral.only '+' + Numeral.only '-' := by
    split
    · exact .inr rfl
    · exact .inl rfl
  have size : Text.ofNat lead.natAbs ∈ Numeral.leading :=
    Decimal.toDigits_mem_leading (Int.natAbs_ne_zero.mpr power)
  have wide : style.exponentWidth - (Text.ofNat lead.natAbs).length = 0 := by
    have positive : 0 < (Text.ofNat lead.natAbs).length := Nat.length_toDigits_pos
    omega
  obtain ⟨behind, places, whole⟩ : ∃ behind ∈ Numeral.places,
      style.scientific (c :: rest) lead =
        [c] ++ behind ++ ['e'] ++ [if lead < 0 then '-' else '+'] ++ Text.ofNat lead.natAbs := by
    unfold scientific
    simp only [wide, List.replicate_zero, List.nil_append]
    cases rest with
    | nil => exact ⟨[], Numeral.nil_mem_places, by simp⟩
    | cons d others =>
        have last := Numeral.drop_mem_trailing trails (k := 1) (by simp)
        exact ⟨'.' :: d :: others, Numeral.point_mem_places last, by simp⟩
  have mantissa := Language.append_mem_mul first places
  have marked := Language.append_mem_mul mantissa (b := ['e']) (m := Numeral.only 'e') rfl
  rw [whole]
  exact Language.append_mem_mul (Language.append_mem_mul marked sign) size

end NumberStyle

variable {v : Float}

/-- The size of a double that is written out in full: none, or from the double nearest to a
millionth up to below the double nearest to `10 ^ 21`. -/
def Double.InPlainRange (v : Float) : Prop :=
  toRat v = 0 ∨
    value (nearest (10 ^ (-6 : ℤ))) ≤ |toRat v| ∧ |toRat v| < value (nearest (10 ^ (21 : ℤ)))

theorem inPlainRange_iff : InPlainRange v ↔ index v = 0 ∨ IsWrittenOut (index v) := by
  have power (k : ℤ) : nearest (10 ^ k) = Decimal.nearestIndex ⟨1, k⟩ := by
    rw [Decimal.nearestIndex_eq, Decimal.toRat, Nat.cast_one, one_mul]
  rw [InPlainRange, toRat_eq_zero_iff, abs_toRat, value_strictMono.le_iff_le,
    value_strictMono.lt_iff_lt, power, power]
  rfl

/-- A minus sign or nothing may stand before. -/
theorem Numeral.signed_mem {body : Text} {form : Language Char} (h : body ∈ form)
    (negative : Bool) : (if negative then '-' :: body else body) ∈ (1 + only '-') * form := by
  cases negative with
  | false => exact Language.append_mem_mul (a := []) (.inl rfl) h
  | true => exact Language.append_mem_mul (a := ['-']) (.inr rfl) h

/-- The size of a number decides its form. -/
theorem numberText_mem (finite : index v < infinityIndex) :
    (InPlainRange v → numberText v ∈ Numeral.plain) ∧
      (¬ InPlainRange v → numberText v ∈ Numeral.scientific) := by
  rw [inPlainRange_iff]
  unfold numberText
  by_cases zero : index v = 0
  · rw [if_pos zero]
    have whole : ['0'] ∈ (Numeral.only '0' + Numeral.leading) * Numeral.places :=
      Language.append_mem_mul (a := ['0']) (.inl rfl) Numeral.nil_mem_places
    exact ⟨fun _ => Numeral.signed_mem whole false, fun other => absurd (.inl zero) other⟩
  · have coefficient := coefficient_shortest_ne_zero zero finite.le
    have leads := digits_mem_leading coefficient
    have trails := digits_mem_trailing coefficient
    simp only [zero, false_or, if_false, isWrittenOut_iff zero finite, Decimal.write,
      NumberStyle.write, Bool.and_eq_true, decide_eq_true_eq]
    constructor
    · intro range
      rw [if_pos range]
      exact Numeral.signed_mem (NumberStyle.plain_mem rfl leads trails _) _
    · intro range
      have power : (shortest (index v)).lead ≠ 0 := fun zero => range (by rw [zero]; decide)
      rw [if_neg range]
      exact Numeral.signed_mem (NumberStyle.scientific_mem le_rfl leads trails power) _

/-- The letter of the exponent tells the forms apart. -/
theorem not_mem_numberText_iff (finite : index v < infinityIndex) :
    'e' ∉ numberText v ↔ InPlainRange v := by
  obtain ⟨plain, scientific⟩ := numberText_mem finite
  constructor
  · exact fun absent => by_contra fun range => absent (Numeral.mem_of_scientific (scientific range))
  · exact fun range => Numeral.not_mem_of_plain (plain range)

theorem numberText_mem_iff (finite : index v < infinityIndex) :
    (numberText v ∈ Numeral.plain ↔ InPlainRange v) ∧
      (numberText v ∈ Numeral.scientific ↔ ¬ InPlainRange v) := by
  obtain ⟨plain, scientific⟩ := numberText_mem finite
  have letter := not_mem_numberText_iff finite
  constructor
  · exact ⟨fun form => letter.mp (Numeral.not_mem_of_plain form), plain⟩
  · exact ⟨fun form range => letter.mpr range (Numeral.mem_of_scientific form), scientific⟩

/-- What is written with a sign before it spells the decimal with that sign. -/
theorem spelt?_write {style : NumberStyle} (neutral : style.IsNeutral) {d : Decimal}
    (h : d.coefficient ≠ 0) (negative : Bool) :
    spelt? (if negative then '-' :: d.write style else d.write style) =
      some (if negative then -d.toRat else d.toRat) := by
  obtain ⟨read, value, positive, signed⟩ :=
    NumberStyle.read?_write neutral (digits_ne_nil h) (isDigits_digits d) d.lead
  rw [spelled_digits] at value
  rw [Decimal.write, ← value]
  cases negative with
  | false => rw [if_neg Bool.false_ne_true, spelt?, positive]; rfl
  | true => rw [if_pos rfl, spelt?, signed]; rfl

/-- The display and a listing of a double spell the same number. -/
theorem spelt?_numberText (finite : index v < infinityIndex) :
    ∃ q, spelt? (numberText v) = some q ∧ spelt? (literalText v) = some q := by
  unfold numberText literalText
  simp only [if_neg finite.asymm, if_neg finite.ne]
  by_cases zero : index v = 0
  · have listed : ∀ negative : Bool,
        spelt? (if negative then '-' :: "0.0".toList else "0.0".toList) = some 0 := by
      decide +kernel
    simp only [if_pos zero]
    exact ⟨0, by decide +kernel, listed _⟩
  · have coefficient := coefficient_shortest_ne_zero zero finite.le
    simp only [if_neg zero]
    exact ⟨_, spelt?_write NumberStyle.isNeutral_display coefficient _,
      spelt?_write NumberStyle.isNeutral_literal coefficient _⟩

/-- The text of a double is read back as a double of the same value. Of zero the sign is lost. -/
theorem toRat_readDouble?_numberText (finite : index v < infinityIndex) :
    ∃ w, readDouble? (numberText v) = some w ∧ w.isFinite = true ∧ toRat w = toRat v := by
  by_cases zero : index v = 0
  · have text : numberText v = ['0'] := if_pos zero
    rw [text, toRat_eq_zero zero]
    exact ⟨ofIndex false 0, by decide +kernel, by decide +kernel, by decide +kernel⟩
  · exact ⟨v, readDouble?_numberText zero finite, (isFinite_iff v).mpr finite, rfl⟩

/-- Zero is never written with a sign. -/
theorem numberText_ne_minus_zero (finite : index v < infinityIndex) :
    numberText v ≠ ['-', '0'] := by
  intro text
  by_cases zero : index v = 0
  · have shown : numberText v = ['0'] := if_pos zero
    exact absurd (shown.symm.trans text) (by decide)
  · have read := readDouble?_numberText zero finite
    have signed : readDouble? ['-', '0'] = some (ofIndex true 0) := rfl
    rw [text, signed] at read
    cases read
    exact zero (index_ofIndex (Nat.zero_le _) true)

/-- A number is written in one of two forms, without an exponent exactly if it is zero or of a
middling size. Its text spells what a listing of the number spells, it is read back as a double
equal to the number, and no other number has the same text. -/
theorem numberText_spec (finite : v.isFinite = true) :
    ∃ text q, numberText? v = .ok text ∧
      (text ∈ Numeral.plain ↔ InPlainRange v) ∧
      (text ∈ Numeral.scientific ↔ ¬ InPlainRange v) ∧
      text ≠ ['-', '0'] ∧
      spelt? text = some q ∧ spelt? (literalText v) = some q ∧
      (∃ w, readDouble? text = some w ∧ (w == v) = true) ∧
      ∀ u, u.isFinite = true → numberText? u = .ok text → (u == v) = true := by
  have size := (isFinite_iff v).mp finite
  obtain ⟨q, shown, listed⟩ := spelt?_numberText size
  obtain ⟨plain, scientific⟩ := numberText_mem_iff size
  obtain ⟨w, read, bounded, same⟩ := toRat_readDouble?_numberText size
  refine ⟨numberText v, q, if_pos finite, plain, scientific, numberText_ne_minus_zero size, shown,
    listed, ⟨w, read, (beq_iff_toRat_eq bounded finite).mpr same⟩, ?_⟩
  intro u other text
  obtain ⟨x, again, _, equal⟩ := toRat_readDouble?_numberText ((isFinite_iff u).mp other)
  have texts : numberText u = numberText v := by
    rw [numberText?, if_pos other] at text
    exact Except.ok.inj text
  rw [texts, read] at again
  cases again
  exact (beq_iff_toRat_eq other finite).mpr (equal.symm.trans same)

/-- The exponent of a small number has one digit on the display and two in a listing. -/
theorem small_number_text :
    let v := (Decimal.mk 15 (-8)).toDouble true
    numberText? v = .ok "-1.5e-7".toList ∧ literalText v = "-1.5e-07".toList ∧
      "-1.5e-7".toList ∈ Numeral.scientific ∧
      spelt? "-1.5e-7".toList = spelt? "-1.5e-07".toList ∧
      ∀ u, u.isFinite = true → numberText? u = .ok "-1.5e-7".toList → (u == v) = true := by
  intro v
  have shown : numberText? v = .ok "-1.5e-7".toList := by decide
  have listed : literalText v = "-1.5e-07".toList := by decide
  have small : ¬ InPlainRange v := by
    rw [inPlainRange_iff]
    decide
  obtain ⟨text, q, own, _, form, _, spelt, literal, _, alone⟩ :=
    numberText_spec (v := v) (by decide)
  rw [shown] at own
  cases own
  rw [listed] at literal
  exact ⟨shown, listed, form.mpr small, spelt.trans literal.symm, alone⟩

end Keypad
