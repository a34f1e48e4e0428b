import Keypad.Key

/-!
# Lines of keys

A line names keys one after the other. A word that is a label on its own is one key; any other
word is read as keys run together, where the names of the functions and of the constant pi are
kept whole and everything else is one key a character. The label of the smart parenthesis has
a blank in it, so it is looked for before the line is cut into words.

Nothing of the line is lost but its blanks.
-/

namespace Keypad.KeyLine

/-- The label of the smart parenthesis. -/
def smartParenthesis : Text := "( )".toList

/-- The labels that are kept whole inside a word, the longest first. -/
def inlineLabels : List Text :=
  (Key.functionLabels.map (·.1) ++ ["pi".toList]).filter (2 ≤ ·.length)
    |>.mergeSort (fun a b => b.length ≤ a.length)

/-- The keys of a word. -/
def keysOfWord (word : Text) : List Text :=
  match Action.ofLabel word with
  | .ok _ => [word]
  | .error _ => Text.pieces inlineLabels word

/-- The keys of a text without a smart parenthesis. -/
def keysOfSegment (segment : Text) : List Text := segment.words.flatMap keysOfWord

/-- The keys of the segments, with a smart parenthesis between any two. -/
def keysOfSegments : List Text → List Text
  | [] => []
  | [segment] => keysOfSegment segment
  | segment :: others => keysOfSegment segment ++ smartParenthesis :: keysOfSegments others

/-- The keys of a line. -/
def keysOf (line : Text) : List Text := keysOfSegments (Text.segments smartParenthesis line)

/-- The actions of keys; the first one that is no label is the fault. -/
def actionsOf (keys : List Text) : Except KeyError (List Action) := keys.mapM Action.ofLabel

end Keypad.KeyLine
