/-!
# Text

A text is the list of its characters, so positions and lengths count code points. The
functions here cut a text by known words and lose nothing of it: the pieces of a text make it
up (`flatten_pieces`), and so do its segments with the mark between them
(`joinWith_segments`).
-/

namespace Keypad

/-- A text, character by character. -/
abbrev Text := List Char

namespace Text

/-- Cut a text from left to right into pieces: the first of `known` that stands at a place
is one piece, and a character that opens none of them is a piece of its own. The first
argument counts the characters that belong to the piece just emitted. -/
def piecesFrom (known : List Text) : Nat → Text → List Text
  | _, [] => []
  | skip + 1, _ :: rest => piecesFrom known skip rest
  | 0, c :: rest =>
    match known.find? (·.isPrefixOf (c :: rest)) with
    | some word => word :: piecesFrom known (word.length - 1) rest
    | none => [c] :: piecesFrom known 0 rest

/-- The pieces of a text: known words whole, everything else character by character. -/
def pieces (known : List Text) (text : Text) : List Text := piecesFrom known 0 text

/-- What is left to cut of a text is cut without loss. -/
theorem flatten_piecesFrom {known : List Text} (h : [] ∉ known) (text : Text) (skip : Nat) :
    (piecesFrom known skip text).flatten = text.drop skip := by
  induction text generalizing skip with
  | nil => cases skip <;> simp [piecesFrom]
  | cons c rest ih =>
    cases skip with
    | succ skip => simpa [piecesFrom] using ih skip
    | zero =>
      unfold piecesFrom
      split
      · rename_i word found
        have opens : word.isPrefixOf (c :: rest) := by simpa using List.find?_some found
        obtain ⟨tail, whole⟩ := List.isPrefixOf_iff_prefix.mp opens
        have nonempty : word ≠ [] := fun empty => h (empty ▸ List.mem_of_find?_eq_some found)
        obtain ⟨d, word, rfl⟩ := List.exists_cons_of_ne_nil nonempty
        obtain ⟨rfl, rfl⟩ : d = c ∧ word ++ tail = rest := by simpa using whole
        simp [ih]
      · simp [ih]

/-- The pieces of a text make it up. -/
theorem flatten_pieces {known : List Text} (h : [] ∉ known) (text : Text) :
    (pieces known text).flatten = text := by
  simpa [pieces] using flatten_piecesFrom h text 0

/-- The segment before the first occurrence of `mark`, and the segments after it. -/
def segmentsFrom (mark : Text) : Nat → Text → Text × List Text
  | _, [] => ([], [])
  | skip + 1, _ :: rest => segmentsFrom mark skip rest
  | 0, c :: rest =>
    if mark.isPrefixOf (c :: rest) then
      let (first, others) := segmentsFrom mark (mark.length - 1) rest
      ([], first :: others)
    else
      let (first, others) := segmentsFrom mark 0 rest
      (c :: first, others)

/-- The segments between the occurrences of `mark`, found from left to right. There is one
more segment than there are occurrences. -/
def segments (mark text : Text) : List Text :=
  let (first, others) := segmentsFrom mark 0 text
  first :: others

/-- Whether `word` stands anywhere in the text. -/
def occurs (word : Text) : Text → Bool
  | [] => word.isEmpty
  | c :: rest => word.isPrefixOf (c :: rest) || occurs word rest

/-- The texts in order with `glue` between neighbours. -/
def joinWith (glue : Text) : List Text → Text
  | [] => []
  | [text] => text
  | text :: others => text ++ glue ++ joinWith glue others

theorem joinWith_cons (glue text : Text) {others : List Text} (h : others ≠ []) :
    joinWith glue (text :: others) = text ++ glue ++ joinWith glue others := by
  cases others with
  | nil => exact absurd rfl h
  | cons next others => rfl

/-- The segments of what is left of a text, with marks between them, make it up. -/
theorem joinWith_segmentsFrom {mark : Text} (h : mark ≠ []) (text : Text) (skip : Nat) :
    joinWith mark ((segmentsFrom mark skip text).1 :: (segmentsFrom mark skip text).2) =
      text.drop skip := by
  induction text generalizing skip with
  | nil => cases skip <;> simp [segmentsFrom, joinWith]
  | cons c rest ih =>
    cases skip with
    | succ skip => simpa [segmentsFrom] using ih skip
    | zero =>
      unfold segmentsFrom
      split
      · rename_i found
        obtain ⟨tail, whole⟩ := List.isPrefixOf_iff_prefix.mp found
        obtain ⟨d, mark, rfl⟩ := List.exists_cons_of_ne_nil h
        obtain ⟨rfl, rfl⟩ : d = c ∧ mark ++ tail = rest := by simpa using whole
        simp [joinWith_cons, ih]
      · have := ih 0
        cases e : (segmentsFrom mark 0 rest).2 <;> simp_all [joinWith]

/-- The segments of a text with the mark between them make it up. -/
theorem joinWith_segments {mark : Text} (h : mark ≠ []) (text : Text) :
    joinWith mark (segments mark text) = text := by
  simpa [segments] using joinWith_segmentsFrom h text 0

/-- Code point order, a proper beginning before what extends it. -/
def atMost : Text → Text → Bool
  | [], _ => true
  | _ :: _, [] => false
  | c :: s, d :: t => c.toNat < d.toNat || (c == d && atMost s t)

/-- A natural number in decimal digits. -/
def ofNat (n : Nat) : Text := Nat.toDigits 10 n

/-- An integer in decimal digits, a minus sign before a negative one. -/
def ofInt (n : Int) : Text :=
  if n < 0 then '-' :: ofNat n.natAbs else ofNat n.natAbs

end Text

end Keypad
