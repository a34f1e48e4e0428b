import Keypad.Proofs.Keystrokes

/-!
# How expressions open

An operator other than the minus sign needs an operand before it, and the keypad refuses one on an
empty text. It looks at nothing but whether the text is empty. A minus sign alone is no operand
either, yet an operator is accepted after it, and takes its place or stands at the beginning once
the sign is toggled away.

That is the only way: a session in which no operator is pressed on minus signs alone
(`Overtakes`) never has a text that opens with one. What carries the proof is the text behind its
leading minus signs, which no key lets begin with such an operator.
-/

namespace Keypad

open Calculator

/-- The operators that need an operand before them. -/
def Key.followers : List Text := [['+'], ['×'], ['÷'], ['%'], ['^']]

/-- Whether a text begins with an operator that needs an operand before it. -/
def OpensWithOperator (text : Text) : Prop := ∃ op ∈ Key.followers, op <+: text

instance (text : Text) : Decidable (OpensWithOperator text) :=
  inferInstanceAs (Decidable (∃ op ∈ Key.followers, op <+: text))

/-- The text behind its leading minus signs. -/
def behindSigns (text : Text) : Text := text.dropWhile (· == '-')

/-- Behind its minus signs the text begins with no operator. -/
def WellOpened (text : Text) : Prop := ¬ OpensWithOperator (behindSigns text)

instance (text : Text) : Decidable (WellOpened text) :=
  inferInstanceAs (Decidable (¬ OpensWithOperator (behindSigns text)))

variable {a b op text after : Text} {c : Calculator} {action : Action} {label : Text}

theorem not_opensWithOperator_nil : ¬ OpensWithOperator [] := by decide

theorem opensWithOperator_cons {d : Char} {rest : Text} :
    OpensWithOperator (d :: rest) ↔ [d] ∈ Key.followers := by
  have single : ∀ op ∈ Key.followers, ∃ e, op = [e] := by
    simp [Key.followers]
  constructor
  · rintro ⟨op, mem, begins⟩
    obtain ⟨e, rfl⟩ := single op mem
    obtain ⟨rfl, _⟩ := List.cons_prefix_cons.mp begins
    exact mem
  · intro mem
    exact ⟨[d], mem, List.cons_prefix_cons.mpr ⟨rfl, List.nil_prefix⟩⟩

/-- A text of minus signs alone. -/
theorem behindSigns_eq_nil_iff : behindSigns text = [] ↔ ∃ n, text = List.replicate n '-' := by
  unfold behindSigns
  rw [List.dropWhile_eq_nil_iff]
  constructor
  · intro minus
    exact ⟨text.length, List.eq_replicate_of_mem fun d mem => by simpa using minus d mem⟩
  · rintro ⟨n, rfl⟩ d mem
    simpa using List.eq_of_mem_replicate mem

theorem behindSigns_append (signs : behindSigns a = []) (b : Text) :
    behindSigns (a ++ b) = behindSigns b := by
  unfold behindSigns at *
  rw [List.dropWhile_append, signs]
  rfl

theorem behindSigns_append_of_ne_nil (other : behindSigns a ≠ []) (b : Text) :
    behindSigns (a ++ b) = behindSigns a ++ b := by
  unfold behindSigns at *
  rw [List.dropWhile_append, if_neg (by simpa using other)]

namespace WellOpened

theorem not_opensWithOperator (h : WellOpened text) : ¬ OpensWithOperator text := by
  intro opens
  cases text with
  | nil => exact not_opensWithOperator_nil opens
  | cons d rest =>
      have minus : [d] ∈ Key.followers := opensWithOperator_cons.mp opens
      have other : (d == '-') = false := by
        rw [beq_eq_false_iff_ne]
        rintro rfl
        revert minus
        decide
      apply h
      rw [behindSigns, List.dropWhile_cons, other]
      exact opens

/-- What follows the first character behind the signs does not matter. -/
theorem append_iff (other : behindSigns a ≠ []) (b : Text) :
    WellOpened (a ++ b) ↔ WellOpened a := by
  obtain ⟨d, rest, begins⟩ := List.exists_cons_of_ne_nil other
  unfold WellOpened
  rw [behindSigns_append_of_ne_nil other, begins, List.cons_append, opensWithOperator_cons,
    opensWithOperator_cons]

theorem append (ha : WellOpened a) (hb : WellOpened b) : WellOpened (a ++ b) := by
  by_cases signs : behindSigns a = []
  · rwa [WellOpened, behindSigns_append signs]
  · exact (append_iff signs b).mpr ha

theorem of_prefix (h : WellOpened text) (begins : a <+: text) : WellOpened a := by
  obtain ⟨b, rfl⟩ := begins
  by_cases signs : behindSigns a = []
  · rw [WellOpened, signs]
    exact not_opensWithOperator_nil
  · exact (append_iff signs b).mp h

theorem of_isShown (h : IsShown text) : WellOpened text := by
  obtain ⟨d, rest, digit, begins⟩ := h.opens
  have none : ∀ op ∈ Key.followers, op.all (!isDigit ·) = true := by decide
  have minus : (d == '-') = false := by
    rw [beq_eq_false_iff_ne]
    rintro rfl
    cases digit
  have stops : behindSigns text = d :: rest := by
    rcases begins with rfl | rfl
    · simp [behindSigns, minus]
    · simp [behindSigns, minus]
  rw [WellOpened, stops, opensWithOperator_cons]
  intro follower
  have other := none _ follower
  simp [digit] at other

/-- Of the strokes only an operator that needs an operand opens a text badly. -/
theorem of_stroke (mem : op ∈ Key.strokes) (other : op ∉ Key.followers) : WellOpened op := by
  have all : ∀ op ∈ Key.strokes, op ∉ Key.followers → WellOpened op := by decide
  exact all op mem other

end WellOpened

theorem exists_of_endsInBinary (h : endsInBinary text = true) :
    ∃ front d, text = front ++ [d] ∧ [d] ∈ Key.binaryOperators := by
  unfold endsInBinary at h
  split at h
  · rename_i d last
    obtain ⟨front, rfl⟩ := List.getLast?_eq_some_iff.mp last
    exact ⟨front, d, rfl, List.contains_iff_mem.mp h⟩
  · cases h

theorem not_mem_starters (follower : op ∈ Key.followers) : op ∉ starters := by
  revert op
  decide

/-- An operator does no harm unless it needs an operand and finds nothing but minus signs. -/
theorem WellOpened.withOperator (h : WellOpened text) (mem : op ∈ Key.strokes)
    (fits : op ∈ Key.followers → ∀ n, text ≠ List.replicate (n + 1) '-') :
    WellOpened (withOperator text op) := by
  unfold Calculator.withOperator
  split
  · exact not_opensWithOperator_nil
  · rename_i accepted
    split
    · rename_i replaces
      rw [Bool.and_eq_true] at replaces
      obtain ⟨front, d, rfl, binary⟩ := exists_of_endsInBinary replaces.1
      rw [List.dropLast_concat]
      have start : WellOpened front := h.of_prefix (List.prefix_append front [d])
      by_cases follower : op ∈ Key.followers
      · refine (append_iff (fun signs => ?_) op).mpr start
        -- The operator that is replaced would be one minus sign more.
        have minus : ∀ op ∈ Key.binaryOperators, WellOpened op → op = ['-'] := by decide
        rw [WellOpened, behindSigns_append signs] at h
        obtain ⟨n, rfl⟩ := behindSigns_eq_nil_iff.mp signs
        apply fits follower n
        rw [minus [d] binary h, ← List.replicate_succ']
      · exact start.append (of_stroke mem follower)
    · by_cases follower : op ∈ Key.followers
      · refine (append_iff (fun signs => ?_) op).mpr h
        obtain ⟨n, rfl⟩ := behindSigns_eq_nil_iff.mp signs
        cases n with
        | zero => exact accepted (by simpa using not_mem_starters follower)
        | succ n => exact fits follower n rfl
      · exact h.append (of_stroke mem follower)

/-- No key lets a text open badly, but for an operator on minus signs alone. -/
theorem Edit.wellOpened (edit : Edit text action after) (key : action.IsKey)
    (fits : ∀ op ∈ Key.followers, action = .operator op → ∀ n, text ≠ List.replicate (n + 1) '-')
    (h : WellOpened text) : WellOpened after := by
  cases edit with
  | kept => exact h
  | emptied => exact not_opensWithOperator_nil
  | inserted =>
      have harmless : ∀ key ∈ Key.digits ++ Key.constants ++ Key.parentheses,
          key ∉ Key.followers := by
        decide
      exact h.append (.of_stroke key.mem_of_input (harmless _ key))
  | operated op => exact h.withOperator key.mem_of_operator fun follower => fits op follower rfl
  | parenthesised =>
      have harmless : ∀ key ∈ Key.parentheses, WellOpened key := by decide
      obtain ⟨key, mem, added⟩ := exists_withSmartParenthesis text
      rw [added]
      exact h.append (harmless key mem)
  | undone => exact h.of_prefix (isPrefix_withoutLast text)
  | toggled =>
      unfold Calculator.withSignToggled
      split
      · exact h
      · exact h
  | recalled shown => exact h.append (.of_isShown shown)
  | entered shown => exact .of_isShown shown

namespace Session

/-- Whether a key puts an operator that needs an operand after minus signs alone. -/
def Overtakes (c : Calculator) (label : Text) : Prop :=
  (∃ n, c.pending.text = List.replicate (n + 1) '-') ∧
    ∃ op ∈ Key.followers, Action.ofLabel label = .ok (.operator op)

/-- Without such a key no text opens badly. -/
theorem PressedWithin.wellOpened (h : PressedWithin (fun c label => ¬ Overtakes c label) c) :
    WellOpened c.pending.text := by
  refine h.text_induction not_opensWithOperator_nil fun {c label action after} fits acts edit => ?_
  refine edit.wellOpened (Action.isKey_of_ofLabel acts) fun op follower operates n signs => ?_
  rw [operates] at acts
  exact fits ⟨⟨n, signs⟩, op, follower, acts⟩

/-- On minus signs alone any operator is accepted. -/
theorem exists_withOperator_signs (op : Text) (n : ℕ) :
    ∃ m, withOperator (List.replicate (n + 1) '-') op = List.replicate m '-' ++ op := by
  unfold withOperator
  rw [if_neg (by simp)]
  split
  · exact ⟨n, by rw [List.replicate_succ', List.dropLast_concat]⟩
  · exact ⟨n + 1, rfl⟩

/-- Leading minus signs are toggled away one by one. -/
theorem text_run_toggles {toggle : Text} (toggles : Action.ofLabel toggle = .ok .toggleSign)
    (n : ℕ) (signs : c.pending.text = List.replicate n '-' ++ text) :
    (run c (List.replicate n (.press toggle))).pending.text = text := by
  induction n generalizing c with
  | zero => exact signs
  | succ n ih =>
      apply ih
      rw [pending_press toggles]
      change withSignToggled c.pending.text = _
      rw [signs]
      rfl

/-- A text never opens with an operator that needs an operand before it, as long as no such
operator is pressed on minus signs alone. Where one is, it stands at the beginning, or is brought
there by toggling the sign. -/
theorem opensWithOperator_spec (c : Calculator) :
    (PressedWithin (fun c label => ¬ Overtakes c label) c → ¬ OpensWithOperator c.pending.text) ∧
    (∀ label toggle, Overtakes c label → Action.ofLabel toggle = .ok .toggleSign →
      ∃ n, OpensWithOperator
        (run c (.press label :: List.replicate n (.press toggle))).pending.text) := by
  constructor
  · intro pressed
    exact pressed.wellOpened.not_opensWithOperator
  · rintro label toggle ⟨⟨n, signs⟩, op, follower, operates⟩ toggles
    obtain ⟨m, accepted⟩ := exists_withOperator_signs op n
    have text : (attempt c (.press label)).after.pending.text = List.replicate m '-' ++ op := by
      rw [pending_press operates, ← accepted, ← signs]
      rfl
    refine ⟨m, op, follower, ?_⟩
    change op <+: (run (attempt c (.press label)).after _).pending.text
    rw [text_run_toggles toggles m text]

/-- A plus sign takes the place of a minus sign that stands alone. -/
theorem plus_overtakes_minus :
    let c := run (.new .degrees 1000) [.press ['-'], .press ['+']]
    Pressed c ∧ c.pending = .typed ['+'] ∧ OpensWithOperator c.pending.text :=
  ⟨Pressed.run (.start .degrees 1000) [['-'], ['+']], by decide⟩

end Session

end Keypad
