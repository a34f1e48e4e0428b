import Keypad.Proofs.KeyLines

/-!
# Keys run together

Keys may be typed without blanks between them. Then their word is cut from left to right, and at
each place the longest name that is kept whole is one key. A name that begins no other name is cut
off whatever follows it (`Text.pieces_append`), and so is a character with which no name begins. All
labels that need no blank are of these two kinds, so the pieces of labels run together are the
labels again (`pieces_flatten`).

A word that is a label itself is not cut. As the pieces of a word say which labels it was made of,
the table of the labels can be gone through: only those of the sign key and of the smart parenthesis
are made of others (`eq_of_isLabel_flatten`). So keys run together are the same keys but for these
two (`keysOf_flatten_iff`).

However a line is cut, all of it comes back but its blanks (`keysOf_lossless`).
-/

namespace Keypad

variable {c : Char} {key text : Text} {keys : List Text}

namespace Text

variable {known : List Text}

/-- A word is cut off if none of the known words goes on with it. A longer known word would be tried
before it, and could stand there only if it did. -/
theorem pieces_append (sorted : known.Pairwise fun a b => b.length ≤ a.length) (mem : key ∈ known)
    (nonempty : key ≠ []) (maximal : ∀ word ∈ known, key <+: word → word = key) (rest : Text) :
    pieces known (key ++ rest) = key :: pieces known rest := by
  obtain ⟨before, after, rfl⟩ := List.append_of_mem mem
  have found : (before ++ key :: after).find? (·.isPrefixOf (key ++ rest)) = some key := by
    rw [List.find?_append, List.find?_cons_of_pos (by simp)]
    cases earlier : before.find? (·.isPrefixOf (key ++ rest)) with
    | none => rfl
    | some word =>
        have member := List.mem_of_find?_eq_some earlier
        have opens : word <+: key ++ rest := by simpa using List.find?_some earlier
        have longer : key.length ≤ word.length :=
          (List.pairwise_append.mp sorted).2.2 word member key List.mem_cons_self
        have same := maximal word (List.mem_append_left _ member)
          (List.prefix_of_prefix_length_le (List.prefix_append key rest) opens longer)
        rw [same]
        rfl
  obtain ⟨c, others, rfl⟩ := List.exists_cons_of_ne_nil nonempty
  rw [List.cons_append] at found ⊢
  rw [pieces, piecesFrom, found]
  dsimp only
  rw [piecesFrom_eq, List.length_cons, Nat.add_sub_cancel, List.drop_left]

/-- A character is cut off if no known word begins with it. -/
theorem pieces_cons (apart : ∀ word ∈ known, word ≠ [] ∧ word.head? ≠ some c) (rest : Text) :
    pieces known (c :: rest) = [c] :: pieces known rest := by
  have none : known.find? (·.isPrefixOf (c :: rest)) = none := by
    rw [List.find?_eq_none]
    intro word mem opens
    obtain ⟨nonempty, head⟩ := apart word mem
    obtain ⟨d, others, rfl⟩ := List.exists_cons_of_ne_nil nonempty
    rw [List.isPrefixOf_iff_prefix, List.cons_prefix_cons] at opens
    exact head (congrArg some opens.1)
  rw [pieces, piecesFrom, none]
  rfl

/-- No piece is empty. -/
theorem nil_not_mem_piecesFrom (h : [] ∉ known) (skip : ℕ) (text : Text) :
    [] ∉ piecesFrom known skip text := by
  induction text generalizing skip with
  | nil => cases skip <;> simp [piecesFrom]
  | cons c rest ih =>
      cases skip with
      | succ skip => exact ih skip
      | zero =>
          rw [piecesFrom]
          split
          · rename_i word found
            have nonempty : [] ≠ word := fun empty => h (empty ▸ List.mem_of_find?_eq_some found)
            exact List.not_mem_cons_of_ne_of_not_mem nonempty (ih _)
          · exact List.not_mem_cons_of_ne_of_not_mem (List.cons_ne_nil c []).symm (ih 0)

/-- No word is empty. -/
theorem nil_not_mem_words (text : Text) : [] ∉ words text := by
  have consWord_spec {word : Text} {others : List Text} (h : [] ∉ others) :
      [] ∉ consWord word others := by
    cases word with
    | nil => exact h
    | cons c word => exact List.not_mem_cons_of_ne_of_not_mem (List.cons_ne_nil c word).symm h
  have later : [] ∉ (wordsFrom text).2 := by
    induction text with
    | nil => exact List.not_mem_nil
    | cons c rest ih =>
        by_cases blank : isBlank c = true
        · simpa [wordsFrom, blank] using consWord_spec ih
        · simpa [wordsFrom, blank] using ih
  exact consWord_spec later

/-- No word has a blank in it. -/
theorem not_blank_of_mem_words {word : Text} (mem : word ∈ words text) :
    ∀ c ∈ word, isBlank c = false := by
  intro c member
  have visible : c ∈ text.filter (!isBlank ·) := by
    rw [← flatten_words]
    exact List.mem_flatten_of_mem mem member
  simpa using (List.mem_filter.mp visible).2

/-- A text without a blank is one word. -/
theorem words_of_visible (nonempty : text ≠ []) (visible : ∀ c ∈ text, isBlank c = false) :
    words text = [text] := by
  have whole : wordsFrom text = (text, []) := by
    clear nonempty
    induction text with
    | nil => rfl
    | cons c rest ih =>
        obtain ⟨first, others⟩ := List.forall_mem_cons.mp visible
        rw [wordsFrom, ih others]
        simp [first]
  simp [words, whole, consWord, nonempty]

end Text

namespace KeyLine

open Text

theorem nil_not_mem_inlineLabels : [] ∉ inlineLabels := by
  rw [inlineLabels_eq]
  decide

/-- The keys of a word make it up. -/
theorem flatten_keysOfWord (word : Text) : (keysOfWord word).flatten = word := by
  unfold keysOfWord
  split
  · exact List.append_nil word
  · exact flatten_pieces nil_not_mem_inlineLabels word

theorem nil_not_mem_keysOfWord {word : Text} (nonempty : word ≠ []) : [] ∉ keysOfWord word := by
  unfold keysOfWord
  split
  · simpa using nonempty
  · exact nil_not_mem_piecesFrom nil_not_mem_inlineLabels 0 word

/-- The keys of a segment are the segment without its blanks. -/
theorem flatten_keysOfSegment (segment : Text) :
    (keysOfSegment segment).flatten = segment.filter (!isBlank ·) := by
  rw [← flatten_words, keysOfSegment]
  induction words segment with
  | nil => rfl
  | cons word words ih =>
      rw [List.flatMap_cons, List.flatten_append, flatten_keysOfWord, ih, List.flatten_cons]

/-- A key of a segment is part of a word. -/
theorem mem_keysOfSegment {segment : Text} (mem : key ∈ keysOfSegment segment) :
    key ≠ [] ∧ ∀ c ∈ key, isBlank c = false := by
  obtain ⟨word, member, part⟩ := List.mem_flatMap.mp mem
  have nonempty : word ≠ [] := ne_of_mem_of_not_mem member (nil_not_mem_words segment)
  refine ⟨ne_of_mem_of_not_mem part (nil_not_mem_keysOfWord nonempty), fun c inside => ?_⟩
  refine not_blank_of_mem_words member c ?_
  rw [← flatten_keysOfWord word]
  exact List.mem_flatten_of_mem part inside

/-- The keys of segments are what they and the smart parentheses between them have besides
blanks. -/
theorem flatten_keysOfSegments (segments : List Text) :
    (keysOfSegments segments).flatten.filter (!isBlank ·) =
      (joinWith smartParenthesis segments).filter (!isBlank ·) := by
  have visible (segment : Text) : (keysOfSegment segment).flatten.filter (!isBlank ·) =
      segment.filter (!isBlank ·) := by
    rw [flatten_keysOfSegment, List.filter_filter]
    simp
  induction segments with
  | nil => rfl
  | cons segment others ih =>
      cases others with
      | nil => exact visible segment
      | cons next others =>
          rw [keysOfSegments_cons segment (List.cons_ne_nil next others),
            joinWith_cons _ _ (List.cons_ne_nil next others), List.flatten_append,
            List.flatten_cons, List.filter_append, List.filter_append, ih, visible,
            List.filter_append, List.filter_append, List.append_assoc]

theorem mem_keysOfSegments {segments : List Text} (mem : key ∈ keysOfSegments segments) :
    key = smartParenthesis ∨ key ≠ [] ∧ ∀ c ∈ key, isBlank c = false := by
  induction segments with
  | nil => cases mem
  | cons segment others ih =>
      cases others with
      | nil => exact .inr (mem_keysOfSegment mem)
      | cons next others =>
          rw [keysOfSegments_cons segment (List.cons_ne_nil next others), List.mem_append,
            List.mem_cons] at mem
          rcases mem with first | smart | later
          · exact .inr (mem_keysOfSegment first)
          · exact .inl smart
          · exact ih later

/-- The keys of a line, one after the other, are the line, if blanks do not count. No key is empty,
and of all keys only the smart parenthesis has a blank in it. -/
theorem keysOf_lossless (line : Text) :
    (keysOf line).flatten.filter (!isBlank ·) = line.filter (!isBlank ·) ∧
      [] ∉ keysOf line ∧
      ∀ key ∈ keysOf line, key = smartParenthesis ∨ ∀ c ∈ key, isBlank c = false := by
  have nonempty : smartParenthesis ≠ [] := by decide
  refine ⟨?_, fun empty => ?_, fun key mem => ?_⟩
  · rw [keysOf, flatten_keysOfSegments, joinWith_segments nonempty]
  · rcases mem_keysOfSegments empty with smart | other
    · exact nonempty smart.symm
    · exact other.1 rfl
  · exact (mem_keysOfSegments mem).imp_right And.right

/-- A parenthesis that is open beside the smart one stays. -/
theorem keysOf_sine_of_parentheses :
    (keysOf "sin( ( )\u00a0+/-".toList).flatten.filter (!isBlank ·) = "sin(()+/-".toList ∧
      [] ∉ keysOf "sin( ( )\u00a0+/-".toList ∧ "( )".toList ∈ keysOf "sin( ( )\u00a0+/-".toList ∧
      "( )".toList = smartParenthesis := by
  obtain ⟨whole, nonempty, visible⟩ := keysOf_lossless "sin( ( )\u00a0+/-".toList
  have mem : "( )".toList ∈ keysOf "sin( ( )\u00a0+/-".toList := by decide
  refine ⟨whole, nonempty, mem, (visible _ mem).resolve_right fun none => ?_⟩
  have blank := none ' ' (by decide)
  cases blank

/-- The labels that may be typed without a blank before or after them. -/
def runLabels : List Text :=
  Key.digits ++ Key.constantLabels.map (·.1) ++ Key.parentheses ++ Key.operatorLabels.map (·.1) ++
    [['='], "sin(".toList, "cos(".toList, "tan(".toList, "log(".toList, "ln(".toList, "√(".toList,
      "sqrt(".toList]

/-- A label that needs no blank is a name that begins no other, or a character that begins none. -/
theorem runLabels_cases : ∀ key ∈ runLabels,
    (key ∈ inlineLabels ∧ ∀ word ∈ inlineLabels, key <+: word → word = key) ∨
      (key.length = 1 ∧ ∀ word ∈ inlineLabels, word ≠ [] ∧ word.head? ≠ key.head?) := by
  rw [inlineLabels_eq]
  decide

/-- The pieces of labels run together are the labels. -/
theorem pieces_flatten (typed : ∀ key ∈ keys, key ∈ runLabels) :
    pieces inlineLabels keys.flatten = keys := by
  have sorted : inlineLabels.Pairwise fun a b => b.length ≤ a.length := by
    rw [inlineLabels_eq]
    decide
  induction keys with
  | nil => rfl
  | cons key keys ih =>
      obtain ⟨first, others⟩ := List.forall_mem_cons.mp typed
      rw [List.flatten_cons]
      rcases runLabels_cases key first with ⟨mem, maximal⟩ | ⟨single, apart⟩
      · have nonempty := ne_of_mem_of_not_mem mem nil_not_mem_inlineLabels
        rw [pieces_append sorted mem nonempty maximal, ih others]
      · obtain ⟨c, rfl⟩ := List.length_eq_one_iff.mp single
        rw [List.singleton_append, pieces_cons apart, ih others]

/-- A label is made of others if it is that of the sign key or of the smart parenthesis, written
without its blank. -/
def IsMade (text : Text) : Prop := text = "+/-".toList ∨ text = "()".toList

instance : DecidablePred IsMade := fun text =>
  inferInstanceAs (Decidable (text = "+/-".toList ∨ text = "()".toList))

/-- The labels in the table, and those of the commands in lower case: if all pieces of one need no
blank, it is a single piece, or made of others. -/
theorem pieces_of_label : ∀ text ∈ Key.digits ++ Key.constantLabels.map (·.1) ++ Key.parentheses ++
      Key.operatorLabels.map (·.1) ++ Key.functionLabels.map (·.1) ++
      Key.commandLabels.map (·.1) ++ Key.commandLabels.map (lower ·.1),
    (∀ piece ∈ pieces inlineLabels text, piece ∈ runLabels) →
      pieces inlineLabels text = [text] ∨ IsMade text := by
  rw [inlineLabels_eq]
  decide

/-- No label that needs no blank has a blank in it or a letter in upper case. -/
theorem runLabels_characters : runLabels.all fun key => key.all fun c =>
    !isBlank c && lower (upperOf c) == [c] := by
  decide

/-- In labels run together there are no blanks, and upper case can be taken back. -/
theorem flatten_characters (typed : ∀ key ∈ keys, key ∈ runLabels) :
    (∀ c ∈ keys.flatten, isBlank c = false) ∧ lower (upper keys.flatten) = keys.flatten := by
  have characters : ∀ c ∈ keys.flatten, isBlank c = false ∧ lower (upperOf c) = [c] := by
    intro c mem
    obtain ⟨key, member, inside⟩ := List.mem_flatten.mp mem
    have known := List.all_eq_true.mp runLabels_characters key (typed key member)
    simpa using List.all_eq_true.mp known c inside
  refine ⟨fun c mem => (characters c mem).1, ?_⟩
  generalize keys.flatten = text at characters
  induction text with
  | nil => rfl
  | cons c rest ih =>
      obtain ⟨first, others⟩ := List.forall_mem_cons.mp characters
      have joined : lower (upper (c :: rest)) = lower (upperOf c) ++ lower (upper rest) := by
        rw [upper, List.flatMap_cons, lower, List.map_append]
        rfl
      rw [joined, first.2, ih others, List.singleton_append]

/-- Labels run together are a label only if they are one, or a label that is made of others. -/
theorem eq_of_isLabel_flatten (typed : ∀ key ∈ keys, key ∈ runLabels)
    (label : Action.IsLabel keys.flatten) : keys = [keys.flatten] ∨ IsMade keys.flatten := by
  obtain ⟨visible, lowered⟩ := flatten_characters typed
  have listed : keys.flatten ∈ Key.digits ++ Key.constantLabels.map (·.1) ++ Key.parentheses ++
      Key.operatorLabels.map (·.1) ++ Key.functionLabels.map (·.1) ++
      Key.commandLabels.map (·.1) ++ Key.commandLabels.map (lower ·.1) := by
    rw [Action.IsLabel, trim_of_visible visible, Action.mem_labels_iff] at label
    simp only [List.mem_append]
    rcases label with label | command
    · tauto
    · obtain ⟨entry, mem, name⟩ := List.mem_map.mp command
      exact .inr (List.mem_map.mpr ⟨entry, mem, by rw [name, lowered]⟩)
  have pieces := pieces_of_label keys.flatten listed
  rw [pieces_flatten typed] at pieces
  exact pieces typed

/-- A text without a blank is a single segment. -/
theorem segments_of_visible (visible : ∀ c ∈ text, isBlank c = false) :
    segments smartParenthesis text = [text] := by
  induction text with
  | nil => rfl
  | cons c rest ih =>
      have none : ¬ smartParenthesis <+: c :: rest := fun begins => by
        have blank := visible ' ' (begins.subset (by decide))
        cases blank
      rw [segments_cons none, ih (List.forall_mem_cons.mp visible).2]
      rfl

/-- The keys of a text without a blank are those of a word. -/
theorem keysOf_of_visible (nonempty : text ≠ []) (visible : ∀ c ∈ text, isBlank c = false) :
    keysOf text = keysOfWord text := by
  rw [keysOf, segments_of_visible visible, keysOfSegments, keysOfSegment,
    words_of_visible nonempty visible, List.flatMap_singleton]

/-- Labels that need no blank, run together, are the keys of the line that they make, unless the
line is the label of the sign key, or that of the smart parenthesis without its blank. These are
single keys, and need a blank to be anything else. -/
theorem keysOf_flatten_iff (typed : ∀ key ∈ keys, key ∈ runLabels) :
    keysOf keys.flatten = keys ↔ keys.flatten ≠ "+/-".toList ∧ keys.flatten ≠ "()".toList := by
  by_cases made : IsMade keys.flatten
  · refine iff_of_false (fun same => ?_) (not_and_or.mpr (made.imp not_not.mpr not_not.mpr))
    have single : ∀ text, IsMade text → keysOf text = [text] ∧ text ∉ runLabels := by
      rintro text (rfl | rfl) <;> decide
    obtain ⟨alone, other⟩ := single keys.flatten made
    rw [alone] at same
    have mem := List.mem_singleton_self keys.flatten
    rw [same] at mem
    exact other (typed keys.flatten mem)
  · refine iff_of_true ?_ (not_or.mp made)
    by_cases empty : keys.flatten = []
    · rw [empty, keysOf_nil, ← pieces_flatten typed, empty]
      rfl
    · rw [keysOf_of_visible empty (flatten_characters typed).1]
      by_cases label : Action.IsLabel keys.flatten
      · obtain ⟨action, named⟩ := (Action.exists_ofLabel_iff keys.flatten).mpr label
        rw [keysOfWord, named]
        exact ((eq_of_isLabel_flatten typed label).resolve_right made).symm
      · rw [keysOfWord_of_not_isLabel label, pieces_flatten typed]

/-- The keys of a quotient in which a sign follows the stroke, and the same three keys alone. -/
theorem keysOf_quotient_of_signed :
    keysOf "sin(pi+/-e)=".toList =
        ["sin(", "pi", "+", "/", "-", "e", ")", "="].map String.toList ∧
      keysOf "+/-".toList ≠ ["+", "/", "-"].map String.toList := by
  have quotient : ∀ key ∈ ["sin(", "pi", "+", "/", "-", "e", ")", "="].map String.toList,
      key ∈ runLabels := by
    decide
  have three : ∀ key ∈ ["+", "/", "-"].map String.toList, key ∈ runLabels := by decide
  exact ⟨(keysOf_flatten_iff quotient).mpr (by decide),
    fun same => ((keysOf_flatten_iff three).mp same).1 rfl⟩

end KeyLine

end Keypad
