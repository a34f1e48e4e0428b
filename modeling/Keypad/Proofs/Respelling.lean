import Keypad.Canonical
import Keypad.Proofs.Cutting

/-!
# Replacing glyphs one after the other

The canonical spelling of a text is made in one pass. To replace one glyph everywhere in the text
and then the next gives the same text, in whatever order the glyphs are taken: this is
`foldl_replaceAll_eq_respell`.

What is replaced first could get in the way of what is replaced later. A spelling could contain a
glyph, make one up together with the text around it, or take away a part of one. That nothing of
this happens is a property of the table alone (`Independent`), about places where one word begins
inside another. The letter `e` does begin inside spellings, and this does no harm only because it
is spelt as itself.

Both procedures are compared with `Respelt`, which says what a text looks like when some of the
glyphs have been replaced in it. There is one such text for the whole table, and either procedure
ends in it.
-/

namespace Keypad

namespace Text

variable {c : Char} {a rest word spelling text : Text}

/-- The text with every occurrence of `word`, found from left to right, replaced by `spelling`. -/
def replaceAll (word spelling text : Text) : Text := joinWith spelling (segments word text)

/-- A word at the beginning is replaced, and the rest after it. -/
theorem replaceAll_append (nonempty : word ≠ []) (spelling rest : Text) :
    replaceAll word spelling (word ++ rest) = spelling ++ replaceAll word spelling rest := by
  rw [replaceAll, segments_append_self nonempty]
  exact joinWith_cons spelling [] (by simp [segments])

/-- A character that does not begin a word is copied. -/
theorem replaceAll_cons (none : ¬ word <+: c :: rest) (spelling : Text) :
    replaceAll word spelling (c :: rest) = c :: replaceAll word spelling rest := by
  rw [replaceAll, segments_cons none, replaceAll, segments]
  obtain ⟨first, others⟩ := segmentsFrom word 0 rest
  cases others with
  | nil => rfl
  | cons next others => rfl

/-- A word replaced by itself leaves the text as it is. -/
theorem replaceAll_self (nonempty : word ≠ []) (text : Text) : replaceAll word word text = text :=
  joinWith_segments nonempty text

/-- Neither text begins the other. -/
def Apart (a b : Text) : Prop := ¬ a <+: b ∧ ¬ b <+: a

instance (a b : Text) : Decidable (Apart a b) := inferInstanceAs (Decidable (_ ∧ _))

/-- The word begins nowhere inside a text, whatever follows the text. -/
def Clear (word : Text) : Text → Prop
  | [] => True
  | c :: rest => Apart (c :: rest) word ∧ Clear word rest

instance decidableClear (word : Text) : (text : Text) → Decidable (Clear word text)
  | [] => inferInstanceAs (Decidable True)
  | _ :: rest =>
    have := decidableClear word rest
    inferInstanceAs (Decidable (_ ∧ Clear word rest))

theorem Apart.not_prefix_append (h : Apart a word) (rest : Text) : ¬ word <+: a ++ rest := by
  intro begins
  exact (List.prefix_or_prefix_of_prefix begins (List.prefix_append a rest)).elim h.2 h.1

/-- A text that is clear of a word is copied, whatever follows it. -/
theorem replaceAll_append_of_clear (h : Clear word text) (spelling rest : Text) :
    replaceAll word spelling (text ++ rest) = text ++ replaceAll word spelling rest := by
  induction text with
  | nil => rfl
  | cons c text ih =>
      have none : ¬ word <+: c :: (text ++ rest) := h.1.not_prefix_append rest
      rw [List.cons_append, replaceAll_cons none, ih h.2, List.cons_append]

end Text

open Text

/-- A table of words with a spelling for each. -/
abbrev Spellings : Type := List (Text × Text)

/-- The first text with every word of the table in its spelling is the second. -/
inductive Respelt (table : Spellings) : Text → Text → Prop where
  | nothing : Respelt table [] []
  /-- A word stands here, and its spelling takes its place. -/
  | word {entry : Text × Text} {rest after : Text} (mem : entry ∈ table)
      (others : Respelt table rest after) : Respelt table (entry.1 ++ rest) (entry.2 ++ after)
  /-- No word stands here, and the character is copied. -/
  | copied {c : Char} {rest after : Text} (none : ∀ entry ∈ table, ¬ entry.1 <+: c :: rest)
      (others : Respelt table rest after) : Respelt table (c :: rest) (c :: after)

/-- The words and spellings of a table do not get in each other's way. -/
structure Independent (table : Spellings) : Prop where
  nonempty : ∀ entry ∈ table, entry.1 ≠ []
  /-- No word begins another. -/
  unique : ∀ entry ∈ table, ∀ other ∈ table, entry.1 <+: other.1 → entry = other
  /-- No word begins inside another. -/
  words : ∀ entry ∈ table, ∀ other ∈ table, Clear other.1 entry.1.tail
  /-- No spelling begins inside a word. -/
  spellings : ∀ entry ∈ table, ∀ other ∈ table, Clear other.2 entry.1.tail
  /-- Only a word that is spelt as itself begins inside a spelling. -/
  within : ∀ entry ∈ table, ∀ other ∈ table, entry.1 = entry.2 ∨ Clear entry.1 other.2

variable {table whole : Spellings} {entry : Text × Text} {word text after other : Text}

namespace Respelt

/-- With nothing to replace a text stays as it is. -/
theorem refl (text : Text) : Respelt [] text text := by
  induction text with
  | nil => exact .nothing
  | cons c rest ih => exact .copied (by simp) ih

/-- The order of a table does not matter. -/
theorem of_mem_iff {others : Spellings} (same : ∀ entry, entry ∈ table ↔ entry ∈ others)
    (h : Respelt table text after) : Respelt others text after := by
  induction h with
  | nothing => exact .nothing
  | word mem _ ih => exact .word ((same _).mp mem) ih
  | copied none _ ih => exact .copied (fun entry mem => none entry ((same entry).mpr mem)) ih

/-- The words of an independent table leave no choice. -/
theorem unique (independent : Independent table) (first : Respelt table text after)
    (second : Respelt table text other) : after = other := by
  induction first generalizing other with
  | nothing =>
      generalize empty : ([] : Text) = text at second
      cases second with
      | nothing => rfl
      | word mem _ =>
          have none := (List.append_eq_nil_iff.mp empty.symm).1
          exact absurd none (independent.nonempty _ mem)
      | copied => cases empty
  | @word entry rest after mem _ ih =>
      generalize whole : entry.1 ++ rest = text at second
      cases second with
      | nothing =>
          exact absurd (List.append_eq_nil_iff.mp whole).1 (independent.nonempty _ mem)
      | @word entry' rest' after' mem' others' =>
          have begins : entry.1 <+: entry'.1 ++ rest' := ⟨rest, whole⟩
          obtain rfl : entry = entry' := by
            rcases List.prefix_or_prefix_of_prefix begins (List.prefix_append _ _) with le | le
            · exact independent.unique _ mem _ mem' le
            · exact (independent.unique _ mem' _ mem le).symm
          obtain rfl : rest = rest' := List.append_cancel_left whole
          rw [ih others']
      | copied none => exact absurd ⟨rest, whole⟩ (none entry mem)
  | @copied c rest after none _ ih =>
      generalize whole : c :: rest = text at second
      cases second with
      | nothing => cases whole
      | word mem => exact absurd ⟨_, whole.symm⟩ (none _ mem)
      | copied _ others =>
          cases whole
          rw [ih others]

/-- A text that is clear of all words is copied. -/
theorem of_clear (clear : ∀ entry ∈ table, Clear entry.1 word)
    (h : Respelt table (word ++ text) after) :
    ∃ rest, after = word ++ rest ∧ Respelt table text rest := by
  induction word generalizing after with
  | nil => exact ⟨after, rfl, h⟩
  | cons c word ih =>
      generalize whole : (c :: word) ++ text = start at h
      cases h with
      | nothing => cases whole
      | @word entry rest _ mem _ =>
          have apart := (clear entry mem).1
          exact absurd ⟨rest, whole.symm⟩ (apart.not_prefix_append text)
      | copied _ others =>
          cases whole
          obtain ⟨rest, rfl, tail⟩ := ih (fun entry mem => (clear entry mem).2) others
          exact ⟨rest, rfl, tail⟩

/-- A word that begins the respelt text stood there before, if no spelling begins inside it. -/
theorem prefix_of_prefix (clear : ∀ entry ∈ table, Clear entry.2 word)
    (h : Respelt table text after) (begins : word <+: after) : word <+: text := by
  induction h generalizing word with
  | nothing => exact begins
  | @word entry rest after mem _ _ =>
      cases word with
      | nil => exact List.nil_prefix
      | cons d word =>
          rcases List.prefix_or_prefix_of_prefix begins (List.prefix_append entry.2 after)
            with le | le
          · exact absurd le (clear entry mem).1.1
          · exact absurd le (clear entry mem).1.2
  | copied _ _ ih =>
      cases word with
      | nil => exact List.nil_prefix
      | cons d word =>
          obtain ⟨rfl, tail⟩ := List.cons_prefix_cons.mp begins
          exact List.cons_prefix_cons.mpr ⟨rfl, ih (fun entry mem => (clear entry mem).2) tail⟩

end Respelt

/-- A spelling in the text is copied when another word is replaced, or replaced by itself. -/
theorem Independent.replaceAll_spelling (independent : Independent whole) (mem : entry ∈ whole)
    {spelt : Text × Text} (mem' : spelt ∈ whole) (rest : Text) :
    replaceAll entry.1 entry.2 (spelt.2 ++ rest) =
      spelt.2 ++ replaceAll entry.1 entry.2 rest := by
  rcases independent.within entry mem spelt mem' with same | clear
  · have nonempty := independent.nonempty entry mem
    rw [← same, replaceAll_self nonempty, replaceAll_self nonempty]
  · exact replaceAll_append_of_clear clear entry.2 rest

/-- When a word is replaced in a text that is respelt already, it joins the words that are. -/
theorem Respelt.replaceAll (independent : Independent whole) (subset : table ⊆ whole)
    (mem : entry ∈ whole) (h : Respelt table text after) :
    Respelt (entry :: table) text (Text.replaceAll entry.1 entry.2 after) := by
  -- A word may span several characters that are copied, so the induction is on the length.
  induction sized : text.length using Nat.strongRecOn generalizing text after with
  | ind size ih =>
      cases h with
      | nothing => exact .nothing
      | @word spelt rest after mem' others =>
          have shorter : rest.length < size := by
            have := List.length_pos_iff.mpr (independent.nonempty spelt (subset mem'))
            rw [← sized, List.length_append]
            omega
          rw [independent.replaceAll_spelling mem (subset mem')]
          exact .word (List.mem_cons_of_mem _ mem') (ih _ shorter others rfl)
      | @copied c rest after none others =>
          have shorter : rest.length < size := by
            rw [← sized, List.length_cons]
            omega
          have clear : ∀ spelt ∈ table, Clear spelt.1 entry.1.tail := fun spelt mem' =>
            independent.words entry mem spelt (subset mem')
          have closed : ∀ spelt ∈ table, Clear spelt.2 entry.1.tail := fun spelt mem' =>
            independent.spellings entry mem spelt (subset mem')
          obtain ⟨d, tail, word⟩ :=
            List.exists_cons_of_ne_nil (independent.nonempty entry mem)
          rw [word, List.tail_cons] at clear closed
          by_cases begins : entry.1 <+: c :: rest
          · -- No spelling has touched its characters, so it is found where it stood.
            rw [word, List.cons_prefix_cons] at begins
            obtain ⟨rfl, rest', rfl⟩ := begins
            obtain ⟨after', rfl, others'⟩ := others.of_clear clear
            have whole (x : Text) : d :: (tail ++ x) = entry.1 ++ x := by
              rw [word, List.cons_append]
            have shorter' : rest'.length < size := by
              rw [List.length_append] at shorter
              omega
            rw [whole, whole, replaceAll_append (independent.nonempty entry mem)]
            exact .word List.mem_cons_self (ih _ shorter' others' rfl)
          · have later : ¬ entry.1 <+: c :: after := by
              rw [word, List.cons_prefix_cons] at begins ⊢
              exact fun ⟨same, le⟩ => begins ⟨same, others.prefix_of_prefix closed le⟩
            rw [replaceAll_cons later]
            refine .copied ?_ (ih _ shorter others rfl)
            exact List.forall_mem_cons.mpr ⟨begins, none⟩

/-- Replacing words one after the other ends in the text with all of them replaced. -/
theorem Respelt.foldl_replaceAll (independent : Independent whole) {order : Spellings}
    (subset : order ⊆ whole) (earlier : table ⊆ whole) (h : Respelt table text after) :
    Respelt (order.reverse ++ table) text
      (order.foldl (fun text entry => Text.replaceAll entry.1 entry.2 text) after) := by
  induction order generalizing table after with
  | nil => exact h
  | cons entry order ih =>
      obtain ⟨mem, others⟩ := List.cons_subset.mp subset
      have replaced := ih others (List.cons_subset.mpr ⟨mem, earlier⟩)
        (h.replaceAll independent earlier mem)
      rw [List.reverse_cons, List.append_assoc]
      exact replaced

/-- The glyphs can be replaced in any order. -/
theorem independent_glyphs : Independent glyphs where
  nonempty := by decide
  unique := by decide
  words := by decide
  spellings := by decide
  within := by decide

/-- A glyph is spelt as the table has it. -/
theorem mem_glyphs_respellPiece (mem : word ∈ glyphs.map (·.1)) :
    (word, respellPiece word) ∈ glyphs := by
  revert word
  decide

/-- Where no glyph stands, the character is a piece that is spelt as itself. -/
theorem respellPiece_of_no_glyph {c : Char} {rest : Text}
    (none : ∀ entry ∈ glyphs, ¬ entry.1 <+: c :: rest) : respellPiece [c] = [c] := by
  have unknown : glyphs.lookup [c] = .none := by
    refine List.lookup_eq_none_iff.mpr fun entry mem => bne_iff_ne.mpr fun same => ?_
    apply none entry mem
    rw [← same]
    exact List.cons_prefix_cons.mpr ⟨rfl, List.nil_prefix⟩
  rw [respellPiece, unknown]
  rfl

/-- The one pass over the text replaces all glyphs. -/
theorem respelt_respell (text : Text) : Respelt glyphs text (respell text) := by
  induction sized : text.length using Nat.strongRecOn generalizing text with
  | ind size ih =>
      cases text with
      | nil => exact .nothing
      | cons c rest =>
          cases found : (glyphs.map (·.1)).find? (·.isPrefixOf (c :: rest)) with
          | none =>
              have none : ∀ entry ∈ glyphs, ¬ entry.1 <+: c :: rest := by
                intro entry mem begins
                have fails := List.find?_eq_none.mp found entry.1 (List.mem_map_of_mem mem)
                exact fails (List.isPrefixOf_iff_prefix.mpr begins)
              have piece : respell (c :: rest) = c :: respell rest := by
                rw [respell, pieces, piecesFrom, found]
                change respellPiece [c] ++ respell rest = _
                rw [respellPiece_of_no_glyph none, List.singleton_append]
              rw [piece]
              exact .copied none (ih _ (by rw [← sized]; simp) rest rfl)
          | some glyph =>
              have mem := List.mem_of_find?_eq_some found
              have entry := mem_glyphs_respellPiece mem
              obtain ⟨d, others, rfl⟩ :=
                List.exists_cons_of_ne_nil (independent_glyphs.nonempty _ entry)
              have begins : (d :: others).isPrefixOf (c :: rest) = true := by
                simpa using List.find?_some found
              obtain ⟨rfl, after, rfl⟩ :=
                List.cons_prefix_cons.mp (List.isPrefixOf_iff_prefix.mp begins)
              have piece : respell (d :: (others ++ after)) =
                  respellPiece (d :: others) ++ respell after := by
                rw [respell, pieces, piecesFrom, found]
                dsimp only
                rw [piecesFrom_eq, List.flatMap_cons, respell]
                simp
              have shorter : after.length < size := by
                rw [← sized, List.length_cons, List.length_append]
                omega
              have replaced := Respelt.word entry (ih _ shorter after rfl)
              rw [piece]
              exact replaced

/-- A text in which every glyph is replaced is the canonical spelling. -/
theorem respell_of_respelt (h : Respelt glyphs text after) : respell text = after :=
  (respelt_respell text).unique independent_glyphs h

/-- To replace one glyph after the other everywhere in a text, each of them once and in any order,
gives the canonical spelling of the text. -/
theorem foldl_replaceAll_eq_respell {order : Spellings} (all : order.Perm glyphs) (text : Text) :
    order.foldl (fun text entry => Text.replaceAll entry.1 entry.2 text) text = respell text := by
  have replaced := (Respelt.refl text).foldl_replaceAll independent_glyphs all.subset
    (List.nil_subset glyphs)
  have same (entry : Text × Text) : entry ∈ order.reverse ++ [] ↔ entry ∈ glyphs := by
    rw [List.append_nil, List.mem_reverse, all.mem_iff]
  exact (respell_of_respelt (replaced.of_mem_iff same)).symm

/-- Glyphs that stand close together, replaced from the last one to the first. -/
theorem foldl_replaceAll_reverse :
    glyphs.reverse.Perm glyphs ∧
      glyphs.reverse.foldl (fun text entry => Text.replaceAll entry.1 entry.2 text)
        "cosin(log(πe%^√(".toList = "cosin_angle(log10(pie/100**sqrt(".toList := by
  refine ⟨List.reverse_perm glyphs, ?_⟩
  rw [foldl_replaceAll_eq_respell (List.reverse_perm glyphs)]
  decide

end Keypad
