import Keypad.Proofs.Respelling

/-!
# Canonical texts as keypad texts

A canonical text may be taken for what the keypad wrote, and nothing happens to it: it is its own
canonical form, with the same mark (`ofKeypad_ofKeypad`).

It need not be free of glyphs. The letter `e` and the logarithm `ln(` are spelt as themselves, and
`sin_angle(` has an `e` in it. What is true is that every glyph that still stands in a canonical
text is spelt as itself (`Settled`), also one that lies across the end of a spelling. Closing
parentheses belong to no glyph, so it makes no difference whether they come before or after the
glyphs are replaced.
-/

namespace Keypad

open Text

/-- Every word that stands anywhere in the text is spelt as itself. -/
def Settled (table : Spellings) : Text → Prop
  | [] => True
  | c :: rest =>
    (∀ entry ∈ table, entry.1 <+: c :: rest → entry.1 = entry.2) ∧ Settled table rest

variable {table : Spellings} {text after : Text}

/-- A text may be put in front if words that are spelt otherwise begin nowhere inside it. -/
theorem Settled.append (h : Settled table after)
    (clear : ∀ entry ∈ table, entry.1 = entry.2 ∨ Clear entry.1 text) :
    Settled table (text ++ after) := by
  induction text with
  | nil => exact h
  | cons c text ih =>
      constructor
      · intro entry mem begins
        rcases clear entry mem with same | clear
        · exact same
        · exact absurd begins (clear.1.not_prefix_append after)
      · exact ih fun entry mem => (clear entry mem).imp_right And.right

/-- Once the words are replaced, nothing is left to replace. -/
theorem Respelt.settled (independent : Independent table) (h : Respelt table text after) :
    Settled table after := by
  induction h with
  | nothing => trivial
  | word mem _ ih => exact ih.append fun entry mem' => independent.within entry mem' _ mem
  | @copied c rest after none others ih =>
      refine ⟨fun entry mem begins => ?_, ih⟩
      -- A word that begins with a copied character stood in the text before.
      obtain ⟨d, tail, word⟩ := List.exists_cons_of_ne_nil (independent.nonempty entry mem)
      have closed : ∀ other ∈ table, Clear other.2 entry.1.tail := independent.spellings entry mem
      have before : entry.1 <+: c :: rest := by
        rw [word, List.tail_cons] at closed
        rw [word, List.cons_prefix_cons] at begins ⊢
        exact ⟨begins.1, others.prefix_of_prefix closed begins.2⟩
      exact absurd before (none entry mem)

/-- What is true of a text is true of its end. -/
theorem Settled.of_append {word : Text} (h : Settled table (word ++ text)) :
    Settled table text := by
  induction word with
  | nil => exact h
  | cons c word ih => exact ih h.2

/-- Where nothing is left to replace, to replace all words changes nothing. -/
theorem Settled.respelt (nonempty : ∀ entry ∈ table, entry.1 ≠ []) (h : Settled table text) :
    Respelt table text text := by
  -- A word may be longer than one character, so the induction is on the length.
  induction sized : text.length using Nat.strongRecOn generalizing text with
  | ind size ih =>
      cases text with
      | nil => exact .nothing
      | cons c rest =>
          by_cases found : ∃ entry ∈ table, entry.1 <+: c :: rest
          · obtain ⟨entry, mem, begins⟩ := found
            have same := h.1 entry mem begins
            obtain ⟨others, whole⟩ := begins
            have positive := List.length_pos_iff.mpr (nonempty entry mem)
            rw [← whole] at h sized ⊢
            have shorter : others.length < size := by
              rw [List.length_append] at sized
              omega
            have replaced := Respelt.word mem (ih _ shorter h.of_append rfl)
            rwa [← same] at replaced
          · have none : ∀ entry ∈ table, ¬ entry.1 <+: c :: rest := fun entry mem begins =>
              found ⟨entry, mem, begins⟩
            have shorter : rest.length < size := by
              rw [← sized]
              exact Nat.lt_succ_self _
            exact .copied none (ih _ shorter h.2 rfl)

/-- A word that begins a text and has none of the characters at its end begins what is before
them. -/
theorem prefix_of_prefix_append {word a b : Text} (begins : word <+: a ++ b)
    (foreign : ∀ c ∈ b, c ∉ word) : word <+: a := by
  rcases List.prefix_or_prefix_of_prefix begins (List.prefix_append a b) with within | ⟨beyond, rfl⟩
  · exact within
  · cases beyond with
    | nil => simp
    | cons c beyond =>
        have follows : c :: beyond <+: b := (List.prefix_append_right_inj a).mp begins
        exact absurd (by simp) (foreign c (follows.subset List.mem_cons_self))

/-- Characters that stand in no word may follow a text, and are copied. -/
theorem Respelt.append {b : Text} (nonempty : ∀ entry ∈ table, entry.1 ≠ [])
    (foreign : ∀ entry ∈ table, ∀ c ∈ b, c ∉ entry.1) (h : Respelt table text after) :
    Respelt table (text ++ b) (after ++ b) := by
  induction h with
  | nothing =>
      induction b with
      | nil => exact .nothing
      | cons c b ih =>
          refine .copied (fun entry mem begins => ?_)
            (ih fun entry mem d later => foreign entry mem d (List.mem_cons_of_mem c later))
          have empty := prefix_of_prefix_append (a := []) begins (foreign entry mem)
          exact nonempty entry mem (List.prefix_nil.mp empty)
  | word mem _ ih =>
      rw [List.append_assoc, List.append_assoc]
      exact .word mem ih
  | copied none _ ih =>
      exact .copied (fun entry mem begins =>
        none entry mem (prefix_of_prefix_append begins (foreign entry mem))) ih

/-- No glyph has a closing parenthesis in it. -/
theorem respell_append_closings (text : Text) (count : ℕ) :
    respell (text ++ List.replicate count ')') = respell text ++ List.replicate count ')' := by
  have none : ∀ entry ∈ glyphs, ')' ∉ entry.1 := by decide
  have foreign : ∀ entry ∈ glyphs, ∀ c ∈ List.replicate count ')', c ∉ entry.1 := by
    intro entry mem c closes
    rw [List.eq_of_mem_replicate closes]
    exact none entry mem
  exact respell_of_respelt ((respelt_respell text).append independent_glyphs.nonempty foreign)

/-- The glyphs of a text whose glyphs have been replaced are spelt as themselves. -/
theorem respell_respell (text : Text) : respell (respell text) = respell text := by
  have settled := (respelt_respell text).settled independent_glyphs
  exact respell_of_respelt (settled.respelt independent_glyphs.nonempty)

/-- Closing parentheses are counted off from those that a text lacks. -/
theorem missingClosings_append_closings (text : Text) (count : ℕ) :
    missingClosings (text ++ List.replicate count ')') = missingClosings text - count := by
  unfold missingClosings
  rw [List.count_append, List.count_append, List.count_replicate_self,
    List.count_replicate, if_neg (by decide), Nat.add_zero, Nat.sub_add_eq]

/-- A text with its open parentheses closed lacks none. -/
theorem missingClosings_closeParentheses (text : Text) :
    missingClosings (closeParentheses text) = 0 := by
  rw [closeParentheses, missingClosings_append_closings, Nat.sub_self]

theorem closeParentheses_closeParentheses (text : Text) :
    closeParentheses (closeParentheses text) = closeParentheses text := by
  rw [closeParentheses, missingClosings_closeParentheses, List.replicate_zero, List.append_nil]

/-- The canonical form of a canonical text is that text, marked as it was. -/
theorem ofKeypad_ofKeypad (text : Text) :
    Canonical.ofKeypad (Canonical.ofKeypad text).text = Canonical.ofKeypad text := by
  have respelt : respell (closeParentheses (respell text)) = closeParentheses (respell text) := by
    rw [closeParentheses, respell_append_closings, respell_respell]
  have canonical : (Canonical.ofKeypad text).text = closeParentheses (respell text) := rfl
  rw [canonical, Canonical.ofKeypad, respelt, closeParentheses_closeParentheses]
  rfl

/-- The letter `e` and the logarithm are glyphs of this canonical text, and one `e` is inside
another spelling. -/
example : (Canonical.ofKeypad "cosin_angle(lln(e))".toList).text =
    "cosin_angle(lln(e))".toList := by
  decide

end Keypad
