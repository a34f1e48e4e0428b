import Keypad.Proofs.Commits
import Keypad.Proofs.Conversation
import Keypad.Proofs.Cutting

/-!
# Lines of keys

A line names its keys one after the other, and a blank between two keys is as good as the end of
the line: the keys of two lines with a blank between them are the keys of the one and the keys of
the other (`keysOf_append_cons`). There is one exception. The label of the smart parenthesis has a
blank in the middle, and a line that ends with the parenthesis that opens it would grow together
with a line that begins with the one that closes it.

The keys of a line are pressed if all of them are labels, and then the line does what its keys do
when they are pressed one by one; otherwise nothing is pressed, and the answer names the first key
that is no label (`runLine_all_or_none`). So a line may be broken into two at any such blank
(`runLine_append_space`).
-/

namespace Keypad

namespace KeyLine

variable {a b line : Text} {d : Char}

theorem keysOfSegments_cons (segment : Text) {others : List Text} (nonempty : others ≠ []) :
    keysOfSegments (segment :: others) =
      keysOfSegment segment ++ smartParenthesis :: keysOfSegments others := by
  cases others with
  | nil => exact absurd rfl nonempty
  | cons next others => rfl

theorem keysOfSegment_append_cons (blank : Text.isBlank d = true) (a b : Text) :
    keysOfSegment (a ++ d :: b) = keysOfSegment a ++ keysOfSegment b := by
  unfold keysOfSegment
  rw [Text.words_append_cons blank, List.flatMap_append]

/-- The keys of segments of which two are one, with a blank in between. -/
theorem keysOfSegments_append_cons (blank : Text.isBlank d = true) (before : List Text)
    (last first : Text) (after : List Text) :
    keysOfSegments (before ++ (last ++ d :: first) :: after) =
      keysOfSegments (before ++ [last]) ++ keysOfSegments (first :: after) := by
  induction before with
  | nil =>
      have single : keysOfSegments ([] ++ [last]) = keysOfSegment last := rfl
      rw [single, List.nil_append]
      cases after with
      | nil => exact keysOfSegment_append_cons blank last first
      | cons next others =>
          rw [keysOfSegments_cons _ (List.cons_ne_nil next others),
            keysOfSegments_cons _ (List.cons_ne_nil next others),
            keysOfSegment_append_cons blank, List.append_assoc]
  | cons segment before ih =>
      rw [List.cons_append, List.cons_append, keysOfSegments_cons _ (by simp),
        keysOfSegments_cons _ (by simp), ih, List.append_assoc, List.cons_append]

/-- Of the smart parenthesis only the space in its middle is a blank. -/
theorem eq_of_smartParenthesis {s t : Text} (blank : Text.isBlank d = true)
    (whole : smartParenthesis = s ++ d :: t) : s = ['('] ∧ d = ' ' ∧ t = [')'] := by
  change ['(', ' ', ')'] = s ++ d :: t at whole
  match s with
  | [] =>
      cases whole
      exact absurd blank (by decide)
  | [opening] =>
      cases whole
      exact ⟨rfl, rfl, rfl⟩
  | [opening, space] =>
      cases whole
      exact absurd blank (by decide)
  | opening :: space :: closing :: s => simp at whole

/-- The keys of two lines with a blank between them, where it is not the blank of a smart
parenthesis. -/
theorem keysOf_append_cons (blank : Text.isBlank d = true)
    (apart : ¬ (a.getLast? = some '(' ∧ d = ' ' ∧ b.head? = some ')')) :
    keysOf (a ++ d :: b) = keysOf a ++ keysOf b := by
  have clear : ∀ s t, smartParenthesis = s ++ d :: t → s <:+ a → ¬ t <+: b := by
    rintro s t whole ⟨front, rfl⟩ ⟨back, rfl⟩
    obtain ⟨rfl, rfl, rfl⟩ := eq_of_smartParenthesis blank whole
    exact apart ⟨List.getLast?_concat, rfl, rfl⟩
  obtain ⟨before, last, first, after, left, right, joined⟩ :=
    Text.segments_append_cons (by decide) clear
  unfold keysOf
  rw [left, right, joined]
  exact keysOfSegments_append_cons blank before last first after

example : keysOf "( )".toList = [smartParenthesis] ∧
    keysOf "(".toList ++ keysOf ")".toList = [['('], [')']] := by
  decide

theorem keysOf_nil : keysOf [] = [] := rfl

/-- A blank at the beginning of a line is no key. -/
theorem keysOf_cons (blank : Text.isBlank d = true) (line : Text) :
    keysOf (d :: line) = keysOf line := by
  have joined := keysOf_append_cons (a := []) (b := line) blank (by simp)
  rwa [keysOf_nil, List.nil_append, List.nil_append] at joined

/-- A blank at the end of a line is no key. -/
theorem keysOf_concat (blank : Text.isBlank d = true) (line : Text) :
    keysOf (line ++ [d]) = keysOf line := by
  have joined := keysOf_append_cons (a := line) (b := []) blank (by simp)
  rwa [keysOf_nil, List.append_nil] at joined

/-- The blanks around a line are no keys. -/
theorem keysOf_trim (line : Text) : keysOf line.trim = keysOf line := by
  have front (text : Text) : keysOf (text.dropWhile Text.isBlank) = keysOf text := by
    induction text with
    | nil => rfl
    | cons c rest ih =>
        by_cases blank : Text.isBlank c = true
        · rw [List.dropWhile_cons_of_pos blank, ih, keysOf_cons blank]
        · rw [List.dropWhile_cons_of_neg blank]
  have back (text : Text) : keysOf (text.dropWhile Text.isBlank).reverse = keysOf text.reverse := by
    induction text with
    | nil => rfl
    | cons c rest ih =>
        by_cases blank : Text.isBlank c = true
        · rw [List.dropWhile_cons_of_pos blank, ih, List.reverse_cons, keysOf_concat blank]
        · rw [List.dropWhile_cons_of_neg blank]
  unfold Text.trim Text.trimEnd
  rw [back, List.reverse_reverse, front]

end KeyLine

namespace Action

variable {label : Text}

theorem isOk_ofLabel_iff (label : Text) : (ofLabel label).isOk = true ↔ IsLabel label := by
  rw [← exists_ofLabel_iff]
  cases ofLabel label with
  | ok action => exact iff_of_true rfl ⟨action, rfl⟩
  | error e => exact iff_of_false Bool.false_ne_true (by rintro ⟨_, ⟨⟩⟩)

instance (label : Text) : Decidable (IsLabel label) :=
  decidable_of_iff _ (isOk_ofLabel_iff label)

/-- What is no label is refused by its name. -/
theorem ofLabel_of_not_isLabel (unknown : ¬ IsLabel label) :
    ofLabel label = .error (.unknownKey label) := by
  cases found : ofLabel label with
  | ok action => exact absurd ((exists_ofLabel_iff label).mp ⟨action, found⟩) unknown
  | error e =>
      -- Only where all tables fail there is an error, and it has the label.
      simp only [ofLabel] at found
      grind

end Action

namespace KeyLine

variable {keys : List Text} {key word : Text}

/-- The labels that are kept whole inside a word, in the order in which they are tried. -/
theorem inlineLabels_eq : inlineLabels =
    ["sqrt(", "sin(", "cos(", "tan(", "log(", "sqrt", "sin", "cos", "tan", "log", "ln(", "ln",
      "√(", "pi"].map String.toList := by
  cbv

/-- A word that is no label is cut into keys. -/
theorem keysOfWord_of_not_isLabel (unknown : ¬ Action.IsLabel word) :
    keysOfWord word = Text.pieces inlineLabels word := by
  rw [keysOfWord, Action.ofLabel_of_not_isLabel unknown]

/-- Labels name their actions, one for each. -/
theorem exists_actionsOf (labels : ∀ key ∈ keys, Action.IsLabel key) :
    ∃ actions, actionsOf keys = .ok actions ∧
      List.Forall₂ (fun key action => Action.ofLabel key = .ok action) keys actions := by
  induction keys with
  | nil => exact ⟨[], rfl, .nil⟩
  | cons key keys ih =>
      obtain ⟨action, first⟩ :=
        (Action.exists_ofLabel_iff key).mpr (labels key List.mem_cons_self)
      obtain ⟨actions, others, each⟩ := ih fun key mem => labels key (List.mem_cons_of_mem _ mem)
      refine ⟨action :: actions, ?_, .cons first each⟩
      unfold actionsOf at others ⊢
      rw [List.mapM_cons, first, others]
      rfl

/-- The first key that is no label is refused, whatever comes after it. -/
theorem actionsOf_of_not_isLabel {before : List Text} (rest : List Text)
    (labels : ∀ key ∈ before, Action.IsLabel key) (unknown : ¬ Action.IsLabel key) :
    actionsOf (before ++ key :: rest) = .error (.unknownKey key) := by
  induction before with
  | nil =>
      unfold actionsOf
      rw [List.nil_append, List.mapM_cons, Action.ofLabel_of_not_isLabel unknown]
      rfl
  | cons first before ih =>
      obtain ⟨action, found⟩ :=
        (Action.exists_ofLabel_iff first).mpr (labels first List.mem_cons_self)
      have later := ih fun key mem => labels key (List.mem_cons_of_mem _ mem)
      unfold actionsOf at later ⊢
      rw [List.cons_append, List.mapM_cons, found, later]
      rfl

end KeyLine

namespace Session

/-- Whether no step of a run raises. -/
def isQuiet (c : Calculator) : List Step → Bool
  | [] => true
  | step :: rest => (attempt c step).fault.isNone && isQuiet (attempt c step).after rest

variable {c : Calculator} {keys : List Text} {actions : List Action}

theorem isQuiet_append (c : Calculator) (first rest : List Step) :
    isQuiet c (first ++ rest) = (isQuiet c first && isQuiet (run c first) rest) := by
  induction first generalizing c with
  | nil => rfl
  | cons step first ih =>
      rw [List.cons_append, isQuiet, isQuiet, ih, Bool.and_assoc]
      rfl

/-- To perform the actions of labels is to press the keys one by one, as long as none raises. -/
theorem performAll_eq_run
    (each : List.Forall₂ (fun key action => Action.ofLabel key = .ok action) keys actions) :
    ((c.performAll actions).fault = none ↔ isQuiet c (keys.map .press) = true) ∧
      (isQuiet c (keys.map .press) = true →
        c.performAll actions = ⟨run c (keys.map .press), none⟩) := by
  induction each generalizing c with
  | nil => exact ⟨iff_of_true rfl rfl, fun _ => rfl⟩
  | @cons key action keys actions first _ ih =>
      have pressed := attempt_of_action (c := c) (action?_press first)
      rw [List.map_cons, isQuiet, run_cons, pressed, Option.isNone_map]
      dsimp only
      cases raised : (c.perform action).fault with
      | none =>
          rw [Calculator.performAll_cons _ _ raised]
          exact ih
      | some fault =>
          rw [Calculator.performAll_cons_fault raised, raised]
          exact ⟨iff_of_false (by simp) (by simp), fun absurd => by cases absurd⟩

end Session

namespace Console

open Session

variable {c : Calculator} {line : Text}

/-- A line whose keys are labels does what its keys do one by one, and shows what they lead to,
unless one of them raises. -/
theorem runLine_of_labels (c : Calculator) (keyed : line.trim.head? ≠ some ':')
    (labels : ∀ key ∈ KeyLine.keysOf line, Action.IsLabel key) :
    let presses := (KeyLine.keysOf line).map .press
    (isQuiet c presses = true ∧
      runLine c line = (Session.run c presses, .ofRendered (render (Session.run c presses)))) ∨
    (¬ isQuiet c presses = true ∧ ∃ fault, (runLine c line).2 = .fault fault) := by
  intro presses
  obtain ⟨actions, named, each⟩ := KeyLine.exists_actionsOf labels
  obtain ⟨raises, performed⟩ := performAll_eq_run (c := c) each
  rw [(runLine_of_keys keyed).1, runKeys, KeyLine.keysOf_trim, named]
  dsimp only
  by_cases quiet : isQuiet c presses = true
  · rw [performed quiet]
    exact .inl ⟨quiet, rfl⟩
  · cases outcome : (c.performAll actions).fault with
    | none => exact absurd (raises.mp outcome) quiet
    | some fault => exact .inr ⟨quiet, fault, rfl⟩

theorem Answer.ofRendered_eq_text_iff {shown : Except RenderFault Text} {ok : Bool} {text : Text} :
    ofRendered shown = .text ok text ↔ ok = true ∧ shown = .ok text := by
  cases shown with
  | ok rendered => simp [ofRendered, eq_comm]
  | error fault => simp [ofRendered]

/-- A line of keys presses all of them or none. If one of them is no label, the first of these is
named and nothing is changed. Otherwise the line is answered by a text exactly if none of the keys
raises and the calculator that they lead to can be shown; the text shows it, and it is the
calculator after the line. -/
theorem runLine_all_or_none (c : Calculator) (keyed : line.trim.head? ≠ some ':') :
    (∀ before key rest, KeyLine.keysOf line = before ++ key :: rest →
      (∀ earlier ∈ before, Action.IsLabel earlier) → ¬ Action.IsLabel key →
      runLine c line =
        (c, .text false ("Error: Unknown key: ".toList ++ Text.quoted key))) ∧
    ((∀ key ∈ KeyLine.keysOf line, Action.IsLabel key) →
      let presses := (KeyLine.keysOf line).map .press
      (∀ ok text, (runLine c line).2 = .text ok text ↔
        ok = true ∧ isQuiet c presses ∧ render (Session.run c presses) = .ok text) ∧
      (isQuiet c presses → (runLine c line).1 = Session.run c presses)) := by
  constructor
  · intro before key rest whole labels unknown
    rw [(runLine_of_keys keyed).1, runKeys, KeyLine.keysOf_trim, whole,
      KeyLine.actionsOf_of_not_isLabel rest labels unknown]
    rfl
  · intro labels presses
    rcases runLine_of_labels c keyed labels with ⟨quiet, ran⟩ | ⟨loud, fault, failed⟩
    · rw [ran]
      refine ⟨fun ok text => ?_, fun _ => rfl⟩
      rw [Answer.ofRendered_eq_text_iff]
      exact and_congr_right fun _ => (and_iff_right quiet).symm
    · refine ⟨fun ok text => ?_, fun quiet => absurd quiet loud⟩
      rw [failed]
      exact iff_of_false (by simp) fun shown => loud shown.2.1

/-- A sum with a letter in it presses nothing, and a sum that is added to the memory is shown with
the memory. -/
theorem sum_with_letter :
    runLine (.new .degrees 0) "1+x=".toList =
        (.new .degrees 0, .text false "Error: Unknown key: 'x'".toList) ∧
      (runLine (.new .degrees 0) "1 + 2 = M+".toList).2 = .text true "M: 3\n[deg] 3".toList := by
  have cut : KeyLine.keysOf "1+x=".toList = [['1'], ['+']] ++ ['x'] :: [['=']] := by
    have word : KeyLine.keysOf "1+x=".toList = KeyLine.keysOfWord "1+x=".toList ++ [] := rfl
    rw [word, KeyLine.keysOfWord_of_not_isLabel (by decide +kernel), KeyLine.inlineLabels_eq]
    decide
  have letter : (Text.trim "1+x=".toList).head? ≠ some ':' := by decide
  have refused := (runLine_all_or_none (.new .degrees 0) letter).1 _ _ _ cut
    (by decide +kernel) (by decide +kernel)
  have message : "Error: Unknown key: ".toList ++ Text.quoted ['x'] =
      "Error: Unknown key: 'x'".toList := by decide +kernel
  rw [message] at refused
  have sum : (Text.trim "1 + 2 = M+".toList).head? ≠ some ':' := by decide
  have pressed := (runLine_all_or_none (.new .degrees 0) sum).2 (by decide +kernel)
  exact ⟨refused, (pressed.1 true _).mpr ⟨rfl, by decide +kernel, by decide +kernel⟩⟩

/-- A line of labels that raise nothing leads to where its keys lead one by one. -/
theorem after_runLine (keyed : line.trim.head? ≠ some ':')
    (labels : ∀ key ∈ KeyLine.keysOf line, Action.IsLabel key)
    (quiet : isQuiet c ((KeyLine.keysOf line).map .press) = true) :
    (runLine c line).1 = Session.run c ((KeyLine.keysOf line).map .press) := by
  rcases runLine_of_labels c keyed labels with ⟨_, ran⟩ | ⟨loud, _⟩
  · rw [ran]
  · exact absurd quiet loud

/-- Two lines may be put together with a space between them, unless a smart parenthesis would come
about: the keys are those of the one line and those of the other. If these are labels, and none of
them raises when they are pressed one by one, it makes no difference to the calculator whether they
come in two lines or in one. -/
theorem runLine_append_space {a b : Text}
    (apart : ¬ (a.getLast? = some '(' ∧ b.head? = some ')')) :
    KeyLine.keysOf (a ++ ' ' :: b) = KeyLine.keysOf a ++ KeyLine.keysOf b ∧
    ∀ c : Calculator, a.trim.head? ≠ some ':' → b.trim.head? ≠ some ':' →
      (∀ key ∈ KeyLine.keysOf a ++ KeyLine.keysOf b, Action.IsLabel key) →
      isQuiet c ((KeyLine.keysOf a ++ KeyLine.keysOf b).map .press) →
      (runLine c (a ++ ' ' :: b)).1 = (runLine (runLine c a).1 b).1 := by
  have keys : KeyLine.keysOf (a ++ ' ' :: b) = KeyLine.keysOf a ++ KeyLine.keysOf b :=
    KeyLine.keysOf_append_cons (by decide) fun cross => apart ⟨cross.1, cross.2.2⟩
  refine ⟨keys, ?_⟩
  intro c first second labels quiet
  have keyed : (Text.trim (a ++ ' ' :: b)).head? ≠ some ':' := by
    rw [Text.head?_trim_append_cons (by decide)]
    cases opens : a.trim.head? with
    | none => exact second
    | some d =>
        rw [opens] at first
        exact first
  obtain ⟨left, right⟩ := List.forall_mem_append.mp labels
  rw [after_runLine keyed (keys ▸ labels) (keys ▸ quiet), keys, List.map_append, run_append]
  rw [List.map_append, isQuiet_append, Bool.and_eq_true] at quiet
  rw [after_runLine first left quiet.1, after_runLine second right quiet.2]

/-- A product in one line and in two, where the second does not begin with the parenthesis. -/
theorem product_in_two_lines :
    (runLine (.new .radians 0) "2 × ( 3 ) =".toList).1 =
        (runLine (runLine (.new .radians 0) "2 × (".toList).1 "3 ) =".toList).1 ∧
      (runLine (.new .radians 0) "2 × ( 3 ) =".toList).1.pending = .typed ['6'] :=
  ⟨(runLine_append_space (a := "2 × (".toList) (b := "3 ) =".toList) (by decide)).2
    (.new .radians 0) (by decide) (by decide) (by decide) (by decide),
    by decide⟩

end Console

end Keypad
