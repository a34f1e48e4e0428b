import Keypad.Text.Basic

/-!
# Blanks and words

A blank is any of the 29 characters that separate words: the ASCII blanks and separators,
the next-line and no-break spaces, and the Unicode space separators and line breaks. Words
are the longest runs without a blank, and together they are the text without its blanks
(`flatten_words`).
-/

namespace Keypad.Text

/-- A character that separates words. -/
def isBlank (c : Char) : Bool :=
  let n := c.toNat
  (0x09 ≤ n && n ≤ 0x0d) || (0x1c ≤ n && n ≤ 0x20) || n == 0x85 || n == 0xa0 || n == 0x1680 ||
    (0x2000 ≤ n && n ≤ 0x200a) || n == 0x2028 || n == 0x2029 || n == 0x202f || n == 0x205f ||
    n == 0x3000

/-- The text without the blanks at its end. -/
def trimEnd (text : Text) : Text := (text.reverse.dropWhile isBlank).reverse

/-- The text without the blanks at either end. -/
def trim (text : Text) : Text := trimEnd (text.dropWhile isBlank)

/-- Put a word before the others unless it is empty. -/
def consWord (word : Text) (words : List Text) : List Text :=
  if word.isEmpty then words else word :: words

/-- The run without blanks at the beginning of the text, and the words after it. -/
def wordsFrom : Text → Text × List Text
  | [] => ([], [])
  | c :: rest =>
    let (word, words) := wordsFrom rest
    if isBlank c then ([], consWord word words) else (c :: word, words)

/-- The words of a text, in order. -/
def words (text : Text) : List Text :=
  let (word, others) := wordsFrom text
  consWord word others

theorem flatten_consWord (word : Text) (words : List Text) :
    (consWord word words).flatten = word ++ words.flatten := by
  cases word <;> simp [consWord]

/-- The words of a text are the text without its blanks. -/
theorem flatten_words (text : Text) : text.words.flatten = text.filter (!isBlank ·) := by
  suffices (wordsFrom text).1 ++ (wordsFrom text).2.flatten = text.filter (!isBlank ·) by
    simpa [words, flatten_consWord] using this
  induction text with
  | nil => rfl
  | cons c rest ih =>
    by_cases blank : isBlank c <;> simp [wordsFrom, blank, flatten_consWord, ← ih]

end Keypad.Text
