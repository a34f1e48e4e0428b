import Mathlib.Data.List.DropRight
import Mathlib.Data.List.TakeWhile
import Keypad.Text.Blank

/-!
# Cutting texts

How the cuts of a text follow from the cuts of its parts. A text is cut from left to right, and
what has been cut off has no say in the rest (`piecesFrom_eq`, `segmentsFrom_eq`). Where nothing
that is looked for reaches across a character, the text before it and the text after it are cut
each for itself: the words at a blank (`words_append_cons`), and the segments between marks too,
but for the two that meet at the character and become one (`segments_append_cons`).
-/

namespace Keypad.Text

variable {c d : Char} {mark text : Text}

/-- What belongs to the piece just emitted is passed over. -/
theorem piecesFrom_eq (known : List Text) (skip : Nat) (text : Text) :
    piecesFrom known skip text = pieces known (text.drop skip) := by
  induction text generalizing skip with
  | nil => cases skip <;> rfl
  | cons c rest ih =>
      cases skip with
      | zero => rfl
      | succ skip => exact ih skip

/-- What belongs to the mark just found is passed over. -/
theorem segmentsFrom_eq (mark : Text) (skip : Nat) (text : Text) :
    segmentsFrom mark skip text = segmentsFrom mark 0 (text.drop skip) := by
  induction text generalizing skip with
  | nil => cases skip <;> rfl
  | cons c rest ih =>
      cases skip with
      | zero => rfl
      | succ skip => exact ih skip

/-- A mark at the beginning ends the first segment at once. -/
theorem segments_append_self (nonempty : mark ≠ []) (rest : Text) :
    segments mark (mark ++ rest) = [] :: segments mark rest := by
  obtain ⟨d, others, rfl⟩ := List.exists_cons_of_ne_nil nonempty
  have begins : (d :: others).isPrefixOf (d :: (others ++ rest)) = true :=
    List.isPrefixOf_iff_prefix.mpr (List.prefix_append (d :: others) rest)
  have after : segmentsFrom (d :: others) ((d :: others).length - 1) (others ++ rest) =
      segmentsFrom (d :: others) 0 rest := by
    rw [segmentsFrom_eq]
    simp
  rw [segments, List.cons_append, segmentsFrom, if_pos begins, after]
  rfl

/-- A character that does not begin a mark belongs to the first segment. -/
theorem segments_cons {rest : Text} (none : ¬ mark <+: c :: rest) :
    segments mark (c :: rest) = (segments mark rest).modifyHead (c :: ·) := by
  rw [← List.isPrefixOf_iff_prefix] at none
  rw [segments, segmentsFrom, if_neg none]
  rfl

/-- Induction along a text that is cut from left to right: a mark is passed as a whole, and what
begins no mark character by character. -/
theorem induction_on_marks (nonempty : mark ≠ []) {P : Text → Prop} (nil : P [])
    (found : ∀ rest, P rest → P (mark ++ rest))
    (other : ∀ c rest, ¬ mark <+: c :: rest → P rest → P (c :: rest)) (text : Text) : P text := by
  induction size : text.length using Nat.strongRecOn generalizing text with
  | _ n ih =>
      subst size
      have shorter : 0 < mark.length := List.length_pos_iff.mpr nonempty
      by_cases begins : mark <+: text
      · obtain ⟨rest, rfl⟩ := begins
        exact found rest (ih rest.length (by simpa using shorter) rest rfl)
      · cases text with
        | nil => exact nil
        | cons c rest => exact other c rest begins (ih rest.length (by simp) rest rfl)

/-- If no mark reaches across a character, the text before it and the text after it are cut each
for itself, but the last segment of the one and the first of the other become one. -/
theorem segments_append_cons (nonempty : mark ≠ []) {a b : Text}
    (apart : ∀ s t, mark = s ++ d :: t → s <:+ a → ¬ t <+: b) :
    ∃ before last first after, segments mark a = before ++ [last] ∧
      segments mark b = first :: after ∧
      segments mark (a ++ d :: b) = before ++ (last ++ d :: first) :: after := by
  obtain ⟨first, after, second⟩ : ∃ first after, segments mark b = first :: after := ⟨_, _, rfl⟩
  induction a using induction_on_marks nonempty with
  | nil =>
      have none : ¬ mark <+: d :: b := by
        intro begins
        rcases List.prefix_cons_iff.mp begins with empty | ⟨t, whole, rest⟩
        · exact nonempty empty
        · exact apart [] t whole List.nil_suffix rest
      refine ⟨[], [], first, after, rfl, second, ?_⟩
      rw [List.nil_append, segments_cons none, second]
      rfl
  | found rest ih =>
      obtain ⟨before, last, _, _, cut, same, joined⟩ :=
        ih fun s t whole ends => apart s t whole (ends.trans (List.suffix_append mark rest))
      refine ⟨[] :: before, last, _, _, ?_, same, ?_⟩
      · rw [segments_append_self nonempty, cut, List.cons_append]
      · rw [List.append_assoc, segments_append_self nonempty, joined, List.cons_append]
  | other c rest none ih =>
      obtain ⟨before, last, _, _, cut, same, joined⟩ :=
        ih fun s t whole ends => apart s t whole (ends.trans (List.suffix_cons c rest))
      have still : ¬ mark <+: c :: (rest ++ d :: b) := by
        rintro ⟨tail, whole⟩
        rw [← List.cons_append, List.append_eq_append_iff] at whole
        rcases whole with ⟨left, within, _⟩ | ⟨beyond, across, joint⟩
        · exact none ⟨left, within.symm⟩
        · cases beyond with
          | nil => exact none (by simp [across])
          | cons e t =>
              obtain ⟨rfl, rfl⟩ := List.cons.inj joint
              exact apart (c :: rest) t across List.suffix_rfl (List.prefix_append t tail)
      rw [segments_cons none, List.cons_append, segments_cons still, cut, joined]
      cases before with
      | nil => exact ⟨[], c :: last, _, _, rfl, same, rfl⟩
      | cons s before => exact ⟨(c :: s) :: before, last, _, _, rfl, same, rfl⟩

theorem consWord_append (word : Text) (words others : List Text) :
    consWord word (words ++ others) = consWord word words ++ others := by
  unfold consWord
  split <;> rfl

theorem wordsFrom_append_cons (blank : isBlank d = true) (a b : Text) :
    wordsFrom (a ++ d :: b) = ((wordsFrom a).1, (wordsFrom a).2 ++ words b) := by
  induction a with
  | nil =>
      simp only [List.nil_append, wordsFrom, if_pos blank]
      rfl
  | cons c rest ih =>
      simp only [List.cons_append, wordsFrom, ih, consWord_append]
      split <;> rfl

/-- The words of two texts with a blank between them. -/
theorem words_append_cons (blank : isBlank d = true) (a b : Text) :
    words (a ++ d :: b) = words a ++ words b := by
  simp only [words, wordsFrom_append_cons blank, consWord_append]

theorem head?_trimEnd (visible : ¬ isBlank c = true) (rest : Text) :
    (trimEnd (c :: rest)).head? = some c := by
  rw [trimEnd, List.reverse_cons, List.dropWhile_append, List.dropWhile_cons_of_neg visible]
  split <;> simp

/-- Without the blanks around it a text begins with its first character that is none. -/
theorem head?_trim (text : Text) : text.trim.head? = text.find? (!isBlank ·) := by
  rw [List.find?_not_eq_head?_dropWhile, trim]
  cases left : text.dropWhile isBlank with
  | nil => rfl
  | cons c rest =>
      have visible := List.head?_dropWhile_not isBlank text
      rw [left] at visible
      exact head?_trimEnd (by simpa using visible) rest

theorem head?_trim_append_cons (blank : isBlank d = true) (a b : Text) :
    (trim (a ++ d :: b)).head? = a.trim.head?.or b.trim.head? := by
  rw [head?_trim, List.find?_append, List.find?_cons_of_neg (by simpa using blank), ← head?_trim,
    ← head?_trim]

/-- A text without a blank has none around it. -/
theorem trim_of_visible (visible : ∀ c ∈ text, isBlank c = false) : trim text = text := by
  have stays {text : Text} (visible : ∀ c ∈ text, isBlank c = false) :
      text.dropWhile isBlank = text := by
    cases text with
    | nil => rfl
    | cons c rest => exact List.dropWhile_cons_of_neg (by simp [visible c List.mem_cons_self])
  have back : ∀ c ∈ text.reverse, isBlank c = false := fun c mem =>
    visible c (List.mem_reverse.mp mem)
  rw [trim, trimEnd, stays visible, stays back, List.reverse_reverse]

/-- Without the blanks around it a text has none around it. -/
theorem trim_trim (text : Text) : text.trim.trim = text.trim := by
  have opens : text.trim.dropWhile isBlank = text.trim := by
    have visible := head?_trim text
    cases trimmed : text.trim with
    | nil => rfl
    | cons c rest =>
        rw [trimmed] at visible
        have first := List.find?_some visible.symm
        exact List.dropWhile_cons_of_neg (by simpa using first)
  rw [trim, opens]
  exact List.rdropWhile_idempotent isBlank _

end Keypad.Text
