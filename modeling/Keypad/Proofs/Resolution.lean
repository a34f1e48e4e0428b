import Keypad.Console.Program
import Keypad.Proofs.Cutting

/-!
# Where the settings come from

Each of the three settings has a variable in the environment, a line of a file and a standard value,
and two of them have a flag. Which of these counts is a question for each setting alone. A file of
plain lines sets what they say (`Variables.ofFile_content`), the fields are looked up with the
environment in front of it (`Settings.lookup_fields`), and what no field says is as if the standard
value had been said (`Fields.optional_of_text`). So to load settings is to check three texts
(`Settings.load_eq`).

Flags are put over settings that have been checked, and then everything is checked once more.
Checked settings pass again, for their own fields describe them (`Settings.ofFields_toFields`), so
the second check can only refuse what a flag says (`Settings.override_spec`).

For the program as a whole this is `Console.run_configured`.
-/

namespace Keypad

variable {c : Char} {text : Text}

namespace Variables

/-- A line of a file: a name and a value with an equals sign between them, a text behind a number
sign, or nothing. -/
inductive FileLine where
  | setting (name value : Text)
  | comment (text : Text)
  | empty

/-- A character that may stand in a line. -/
def IsInline (c : Char) : Prop := c ∉ ['\n', '\r', '\x00']

/-- A name and a value that mean what is written: there are no quotation marks around them, no
comment comes behind the value, and it refers to no other variable. -/
structure IsPlain (name value : Text) : Prop where
  named : name ≠ []
  word : ∀ c ∈ name, IsInline c ∧ Text.isBlank c = false ∧ c ∉ ['=', '#']
  inline : ∀ c ∈ value, IsInline c
  unquoted : name.head? ≠ some '\x27' ∧ value.trim.head? ∉ [some '\x27', some '\x22']
  /-- A number sign in the value has no blank before it. -/
  uncommented : ∀ blank, Text.isBlank blank = true → ¬ [blank, '#'] <:+: value
  /-- No reference begins in the value. -/
  literal : ¬ ['$', '\x7b'] <:+: value

/-- A value without number signs and dollar signs is plain if it is not quoted. -/
theorem IsPlain.of_unmarked {name value : Text}
    (word : (!name.isEmpty && name.head? != some '\x27' && name.all fun c =>
      !Text.isBlank c && c != '\x00' && c != '=' && c != '#') = true)
    (inline : (value.all fun c =>
      c != '\n' && c != '\r' && c != '\x00' && c != '#' && c != '$') = true)
    (unquoted : value.trim.head? ∉ [some '\x27', some '\x22']) : IsPlain name value := by
  simp only [Bool.and_eq_true, List.all_eq_true, bne_iff_ne, Bool.not_eq_true'] at word inline
  obtain ⟨⟨named, opens⟩, letters⟩ := word
  refine ⟨by simpa using named, fun c mem => ?_, fun c mem => ?_, ⟨opens, unquoted⟩,
    fun blank _ inside => ?_, fun inside => ?_⟩
  · obtain ⟨⟨⟨visible, zero⟩, equals⟩, sign⟩ := letters c mem
    have feed : c ≠ '\n' := by
      rintro rfl
      cases visible
    have carriage : c ≠ '\r' := by
      rintro rfl
      cases visible
    exact ⟨by simp [IsInline, feed, carriage, zero], visible, by simp [equals, sign]⟩
  · obtain ⟨⟨⟨⟨feed, carriage⟩, zero⟩, _⟩, _⟩ := inline c mem
    simp [IsInline, feed, carriage, zero]
  · exact (inline '#' (inside.subset (by simp))).1.2 rfl
  · exact (inline '$' (inside.subset (by simp))).2 rfl

namespace FileLine

/-- How a line is written. -/
def written : FileLine → Text
  | setting name value => name ++ '=' :: value
  | comment text => '#' :: text
  | empty => []

/-- What a line sets. Blanks around the value do not count. -/
def entry? : FileLine → Option (Text × Text)
  | setting name value => some (name, value.trim)
  | comment _ | empty => none

/-- Whether a line means what is written. -/
def Plain : FileLine → Prop
  | setting name value => IsPlain name value
  | comment text => ∀ c ∈ text, IsInline c
  | empty => True

end FileLine

/-- The content of a file. -/
def content (file : List FileLine) : Text := Text.joinWith ['\n'] (file.map FileLine.written)

/-- The value of a variable: what the environment says, or else the last line of the file that
sets it. -/
def inForce (environment : Variables) (file : List FileLine) (name : Text) : Option Text :=
  (environment.lookup name).or ((file.filterMap FileLine.entry?).reverse.lookup name)

theorem lines_cons (inline : IsInline c) {rest line : Text} {others : List Text}
    (next : lines rest = line :: others) : lines (c :: rest) = (c :: line) :: others := by
  obtain ⟨feed, carriage, _⟩ : c ≠ '\n' ∧ c ≠ '\r' ∧ c ≠ '\x00' := by simpa [IsInline] using inline
  rw [lines.eq_3 c rest fun _ same => absurd same carriage, next]
  simp [feed, carriage]

/-- A text without a line break is one line. -/
theorem lines_of_inline (inline : ∀ c ∈ text, IsInline c) : lines text = [text] := by
  induction text with
  | nil => rfl
  | cons c rest ih =>
      obtain ⟨first, others⟩ := List.forall_mem_cons.mp inline
      exact lines_cons first (ih others)

theorem lines_append (inline : ∀ c ∈ text, IsInline c) (rest : Text) :
    lines (text ++ '\n' :: rest) = text :: lines rest := by
  induction text with
  | nil => simp [lines.eq_3]
  | cons c text ih =>
      obtain ⟨first, others⟩ := List.forall_mem_cons.mp inline
      exact lines_cons first (ih others)

/-- The lines of a content are the texts it was made of. -/
theorem lines_joinWith {texts : List Text} (nonempty : texts ≠ [])
    (inline : ∀ text ∈ texts, ∀ c ∈ text, IsInline c) :
    lines (Text.joinWith ['\n'] texts) = texts := by
  induction texts with
  | nil => exact absurd rfl nonempty
  | cons text others ih =>
      obtain ⟨first, later⟩ := List.forall_mem_cons.mp inline
      cases others with
      | nil => exact lines_of_inline first
      | cons next others =>
          rw [Text.joinWith_cons _ _ (List.cons_ne_nil next others), List.append_assoc,
            List.singleton_append, lines_append first, ih (List.cons_ne_nil next others) later]

/-- A text without a comment is all that counts. -/
theorem withoutComment_eq_self
    (uncommented : ∀ blank, Text.isBlank blank = true → ¬ [blank, '#'] <:+: text) :
    withoutComment text = text := by
  induction text with
  | nil => rfl
  | cons c rest ih =>
      have none : ¬ (Text.isBlank c && rest.head? == some '#') = true := by
        intro comment
        rw [Bool.and_eq_true, beq_iff_eq] at comment
        obtain ⟨tail, rfl⟩ := List.head?_eq_some_iff.mp comment.2
        exact uncommented c comment.1 ⟨[], tail, rfl⟩
      rw [withoutComment, if_neg none, ih fun blank h inside =>
        uncommented blank h (inside.trans (List.suffix_cons c rest).isInfix)]

/-- A plain line sets what it says. -/
theorem ofLine?_written {line : FileLine} (plain : line.Plain) :
    ofLine? line.written = line.entry? := by
  cases line with
  | empty => rfl
  | comment text =>
      have sign : (Text.trim ('#' :: text.takeWhile (· != '='))).head? = some '#' := by
        rw [Text.head?_trim]
        rfl
      change ofLine? ('#' :: text) = none
      rw [ofLine?, List.takeWhile_cons_of_pos (by decide), sign]
      split <;> rfl
  | setting name value =>
      obtain ⟨named, word, _, _, uncommented, _⟩ := plain
      have letters : ∀ c ∈ name, (c != '=') = true := fun c mem => by
        have mark := (word c mem).2.2
        simp_all
      have trimmed : name.trim = name := Text.trim_of_visible fun c mem => (word c mem).2.1
      have first : name.head? ≠ some '#' := fun head =>
        (word '#' (List.mem_of_mem_head? head)).2.2 (by decide)
      have value_left : withoutComment (value.dropWhile Text.isBlank) =
          value.dropWhile Text.isBlank := withoutComment_eq_self fun blank h inside =>
        uncommented blank h (inside.trans (List.dropWhile_suffix _).isInfix)
      change ofLine? (name ++ '=' :: value) =
        some (name, Text.trimEnd (value.dropWhile Text.isBlank))
      rw [ofLine?, List.takeWhile_append_of_pos letters,
        List.dropWhile_append_of_pos letters]
      simp [trimmed, first, value_left]

theorem FileLine.Plain.inline {line : FileLine} (plain : line.Plain) :
    ∀ c ∈ line.written, IsInline c := by
  cases line with
  | empty => exact List.forall_mem_nil _
  | comment text => exact List.forall_mem_cons.mpr ⟨by simp [IsInline], plain⟩
  | setting name value =>
      refine List.forall_mem_append.mpr ⟨fun c mem => (plain.word c mem).1, ?_⟩
      exact List.forall_mem_cons.mpr ⟨by simp [IsInline], IsPlain.inline plain⟩

/-- The variables of a plain file are those that its lines set, the last one first. -/
theorem ofFile_content {file : List FileLine} (plain : ∀ line ∈ file, line.Plain) :
    ofFile (content file) = (file.filterMap FileLine.entry?).reverse := by
  cases file with
  | nil => rfl
  | cons line others =>
      have inline : ∀ text ∈ (line :: others).map FileLine.written, ∀ c ∈ text, IsInline c :=
        List.forall_mem_map.mpr fun line mem => (plain line mem).inline
      have read : lines (content (line :: others)) = (line :: others).map FileLine.written :=
        lines_joinWith (List.cons_ne_nil _ _) inline
      rw [ofFile, read, List.filterMap_map]
      exact congrArg List.reverse
        (List.filterMap_congr fun line mem => ofLine?_written (plain line mem))

end Variables

theorem AngleUnit.ofName?_eq_some_iff {unit : AngleUnit} :
    ofName? text = some unit ↔ unit.name = text := by
  constructor
  · intro found
    simpa using List.find?_some found
  · rintro rfl
    cases unit <;> rfl

theorem AngleUnit.name_injective : Function.Injective AngleUnit.name := by
  intro a b same
  have found := ofName?_eq_some_iff.mpr same
  rw [ofName?_eq_some_iff.mpr rfl] at found
  exact (Option.some_inj.mp found).symm

namespace LogLevel

/-- Whether a text names a level, in any letter case and with blanks around it. -/
def IsNamed (text : Text) : Prop := ∃ level : LogLevel, level.name = text.trim.upper

theorem ofText?_eq_some_iff {level : LogLevel} :
    ofText? text = some level ↔ level.name = text.trim.upper := by
  constructor
  · intro found
    simpa using List.find?_some found
  · intro named
    rw [ofText?, ← named]
    cases level <;> rfl

/-- The name of a level is in upper case, without blanks. -/
theorem upper_trim_name (level : LogLevel) : level.name.trim.upper = level.name := by
  cases level <;> rfl

theorem isNamed_name (level : LogLevel) : IsNamed level.name :=
  ⟨level, level.upper_trim_name.symm⟩

theorem name_injective : Function.Injective name := by
  intro a b same
  have found := ofText?_eq_some_iff.mpr a.upper_trim_name.symm
  rw [same, ofText?_eq_some_iff.mpr b.upper_trim_name.symm] at found
  exact (Option.some_inj.mp found).symm

theorem isNamed_trim : IsNamed text.trim ↔ IsNamed text := by
  rw [IsNamed, Text.trim_trim, IsNamed]

end LogLevel

/-- A field that is not there is as good as one that says what is standard. -/
theorem Fields.optional_of_text {α : Type} {fields : Fields} {name otherwise : Text}
    {said : Option Text} {standard : α} {check : FieldValue → Except Complaint α}
    (looked : fields.lookup name = said.map .text)
    (passes : check (.text otherwise) = .ok standard) :
    fields.optional name standard check = check (.text (said.getD otherwise)) := by
  rw [optional, looked]
  cases said with
  | none => exact passes.symm
  | some value => rfl

namespace Settings

variable {s loaded : Settings} {angleUnit logLevel prompt : Text}

theorem checkAngleUnit_eq_ok_iff {unit : AngleUnit} :
    checkAngleUnit (.text text) = .ok unit ↔ unit.name = text := by
  rw [← AngleUnit.ofName?_eq_some_iff, checkAngleUnit]
  cases AngleUnit.ofName? text <;> simp

theorem checkLogLevel_eq_ok_iff {level : LogLevel} :
    checkLogLevel text = .ok level ↔ level.name = text.trim.upper := by
  rw [← LogLevel.ofText?_eq_some_iff, checkLogLevel]
  cases LogLevel.ofText? text <;> simp

theorem checkPrompt_eq_ok_iff : checkPrompt text = .ok prompt ↔ prompt = text ∧ text ≠ [] := by
  cases text <;> simp [checkPrompt, eq_comm]

/-- What a refused log level is refused with. -/
theorem checkLogLevel_of_not_isNamed (unknown : ¬ LogLevel.IsNamed text) :
    checkLogLevel text = .error (.refused ("Unknown log level: ".toList ++ text)) := by
  have none : LogLevel.ofText? text = none := by
    rw [Option.eq_none_iff_forall_ne_some]
    exact fun level found => unknown ⟨level, LogLevel.ofText?_eq_some_iff.mp found⟩
  rw [checkLogLevel, none]

theorem ofChecked_eq_ok_iff {angleUnit : Except Complaint AngleUnit}
    {logLevel : Except Complaint LogLevel} {prompt : Except Complaint Text} :
    ofChecked angleUnit logLevel prompt = .ok s ↔
      angleUnit = .ok s.angleUnit ∧ logLevel = .ok s.logLevel ∧ prompt = .ok s.prompt := by
  cases s
  cases angleUnit <;> cases logLevel <;> cases prompt <;> simp [ofChecked]

/-- The settings that three texts describe. -/
def ofTexts (angleUnit logLevel prompt : Text) : Except (List Issue) Settings :=
  ofChecked (checkAngleUnit (.text angleUnit)) (checkLogLevel logLevel) (checkPrompt prompt)

theorem ofTexts_eq_ok_iff : ofTexts angleUnit logLevel prompt = .ok s ↔
    s.angleUnit.name = angleUnit ∧ s.logLevel.name = logLevel.trim.upper ∧ s.prompt = prompt ∧
      prompt ≠ [] := by
  rw [ofTexts, ofChecked_eq_ok_iff, checkAngleUnit_eq_ok_iff, checkLogLevel_eq_ok_iff,
    checkPrompt_eq_ok_iff]

/-- Three texts describe settings exactly if each of them passes. -/
theorem exists_ofTexts_eq_ok_iff : (∃ s, ofTexts angleUnit logLevel prompt = .ok s) ↔
    (∃ unit : AngleUnit, unit.name = angleUnit) ∧ LogLevel.IsNamed logLevel ∧ prompt ≠ [] := by
  constructor
  · rintro ⟨s, made⟩
    obtain ⟨unit, level, _, nonempty⟩ := ofTexts_eq_ok_iff.mp made
    exact ⟨⟨_, unit⟩, ⟨_, level⟩, nonempty⟩
  · rintro ⟨⟨unit, named⟩, ⟨level, leveled⟩, nonempty⟩
    exact ⟨⟨unit, level, prompt⟩, ofTexts_eq_ok_iff.mpr ⟨named, leveled, rfl, nonempty⟩⟩

/-- If the angle unit and the prompt pass, only the log level can be an issue. -/
theorem ofTexts_eq_error {unit : AngleUnit} {issues : List Issue} (nonempty : prompt ≠ [])
    (refused : ofTexts unit.name logLevel prompt = .error issues) :
    ¬ LogLevel.IsNamed logLevel ∧
      issues = [⟨"log_level".toList, .refused ("Unknown log level: ".toList ++ logLevel)⟩] := by
  have unknown : ¬ LogLevel.IsNamed logLevel := fun known => by
    obtain ⟨s, made⟩ := exists_ofTexts_eq_ok_iff.mpr ⟨⟨unit, rfl⟩, known, nonempty⟩
    rw [made] at refused
    cases refused
  refine ⟨unknown, ?_⟩
  rw [ofTexts, checkAngleUnit_eq_ok_iff.mpr rfl, checkLogLevel_of_not_isNamed unknown,
    checkPrompt_eq_ok_iff.mpr ⟨rfl, nonempty⟩] at refused
  exact (Except.error.inj refused).symm

/-- Fields that hold texts alone are three texts to check. -/
theorem ofFields_eq {fields : Fields} {angleUnit logLevel prompt : Option Text}
    (angleUnit_eq : fields.lookup "angle_unit".toList = angleUnit.map .text)
    (logLevel_eq : fields.lookup "log_level".toList = logLevel.map .text)
    (prompt_eq : fields.lookup "prompt".toList = prompt.map .text) :
    ofFields fields = ofTexts (angleUnit.getD standard.angleUnit.name)
      (logLevel.getD standard.logLevel.name) (prompt.getD standard.prompt) := by
  have level : (FieldValue.text standard.logLevel.name).toText >>= checkLogLevel =
      .ok standard.logLevel := checkLogLevel_eq_ok_iff.mpr standard.logLevel.upper_trim_name.symm
  have asked : (FieldValue.text standard.prompt).toText >>= checkPrompt = .ok standard.prompt :=
    checkPrompt_eq_ok_iff.mpr ⟨rfl, List.cons_ne_nil _ _⟩
  rw [ofFields, Fields.optional_of_text angleUnit_eq (checkAngleUnit_eq_ok_iff.mpr rfl),
    Fields.optional_of_text logLevel_eq level, Fields.optional_of_text prompt_eq asked]
  rfl

/-- What is said of each of the settings. -/
structure Said where
  angleUnit : Option Text
  logLevel : Option Text
  prompt : Option Text

namespace Said

/-- What the environment and a file say. -/
def ofSources (environment : Variables) (file : List Variables.FileLine) : Said where
  angleUnit := Variables.inForce environment file "SCICALC_ANGLE_UNIT".toList
  logLevel := Variables.inForce environment file "SCICALC_LOG_LEVEL".toList
  prompt := Variables.inForce environment file "SCICALC_PROMPT".toList

/-- Whether all that is said makes sense. Blanks around a text count only in a prompt. -/
structure Valid (said : Said) : Prop where
  angleUnit : ∀ text ∈ said.angleUnit, ∃ unit : AngleUnit, unit.name = text.trim
  logLevel : ∀ text ∈ said.logLevel, LogLevel.IsNamed text
  prompt : said.prompt ≠ some []

/-- The settings that follow from what is said, or what is wrong with it. -/
def load (said : Said) : Except (List Issue) Settings :=
  ofTexts ((said.angleUnit.map Text.trim).getD standard.angleUnit.name)
    ((said.logLevel.map Text.trim).getD standard.logLevel.name)
    (said.prompt.getD standard.prompt)

/-- What is said gives settings exactly if all of it makes sense. -/
theorem exists_load_eq_ok_iff (said : Said) : (∃ s, said.load = .ok s) ↔ said.Valid := by
  obtain ⟨angleUnit, logLevel, prompt⟩ := said
  have unit : (∃ unit : AngleUnit,
        unit.name = (angleUnit.map Text.trim).getD standard.angleUnit.name) ↔
      ∀ text ∈ angleUnit, ∃ unit : AngleUnit, unit.name = text.trim := by
    cases angleUnit <;> simp
  have level : LogLevel.IsNamed ((logLevel.map Text.trim).getD standard.logLevel.name) ↔
      ∀ text ∈ logLevel, LogLevel.IsNamed text := by
    cases logLevel with
    | none => simpa using standard.logLevel.isNamed_name
    | some text => simpa using LogLevel.isNamed_trim
  have asked : prompt.getD standard.prompt ≠ [] ↔ prompt ≠ some [] := by
    cases prompt <;> simp [standard]
  rw [load, exists_ofTexts_eq_ok_iff, unit, level, asked]
  exact ⟨fun ⟨unit, level, asked⟩ => ⟨unit, level, asked⟩,
    fun valid => ⟨valid.angleUnit, valid.logLevel, valid.prompt⟩⟩

theorem prompt_ne_nil {said : Said} (made : said.load = .ok loaded) : loaded.prompt ≠ [] := by
  obtain ⟨_, _, asked, nonempty⟩ := ofTexts_eq_ok_iff.mp made
  rwa [asked]

end Said

/-- The variables that hold the fields. -/
theorem lookup_fields (environment : Variables) :
    environment.fields.lookup "angle_unit".toList =
        ((environment.lookup "SCICALC_ANGLE_UNIT".toList).map Text.trim).map .text ∧
      environment.fields.lookup "log_level".toList =
        ((environment.lookup "SCICALC_LOG_LEVEL".toList).map Text.trim).map .text ∧
      environment.fields.lookup "prompt".toList =
        (environment.lookup "SCICALC_PROMPT".toList).map .text := by
  have names : Variables.nameOf "angle_unit".toList = "SCICALC_ANGLE_UNIT".toList ∧
      Variables.nameOf "log_level".toList = "SCICALC_LOG_LEVEL".toList ∧
      Variables.nameOf "prompt".toList = "SCICALC_PROMPT".toList := by decide
  obtain ⟨angleUnit, logLevel, prompt⟩ := names
  unfold Variables.fields
  dsimp only
  rw [angleUnit, logLevel, prompt]
  cases environment.lookup "SCICALC_ANGLE_UNIT".toList <;>
    cases environment.lookup "SCICALC_LOG_LEVEL".toList <;>
      cases environment.lookup "SCICALC_PROMPT".toList <;> exact ⟨rfl, rfl, rfl⟩

/-- To load settings is to check what the environment and the file say. -/
theorem load_eq (environment : Variables) {file : Option (List Variables.FileLine)}
    (plain : ∀ lines ∈ file, ∀ line ∈ lines, line.Plain) :
    load environment (file.map Variables.content) =
      (Said.ofSources environment (file.getD [])).load := by
  have read : ((file.map Variables.content).map Variables.ofFile).getD [] =
      ((file.getD []).filterMap Variables.FileLine.entry?).reverse := by
    cases file with
    | none => rfl
    | some lines => exact Variables.ofFile_content (plain lines rfl)
  obtain ⟨angleUnit, logLevel, prompt⟩ := lookup_fields
    (environment ++ ((file.map Variables.content).map Variables.ofFile).getD [])
  rw [load, ofFields_eq angleUnit logLevel prompt, read, List.lookup_append, List.lookup_append,
    List.lookup_append]
  rfl

/-- The log level that a flag says. An empty one says nothing. -/
def flagLevel (logLevel : Option Text) : Option Text := logLevel.filter (· ≠ [])

/-- Flags in front of the fields of settings are three texts to check. -/
theorem ofFields_flagFields_append (s : Settings) (angleUnit : Option AngleUnit)
    (logLevel : Option Text) :
    ofFields (flagFields angleUnit logLevel ++ s.toFields) =
      ofTexts (angleUnit.getD s.angleUnit).name
        ((flagLevel logLevel).getD s.logLevel.name) s.prompt := by
  have looked : (flagFields angleUnit logLevel ++ s.toFields).lookup "angle_unit".toList =
        (some (angleUnit.getD s.angleUnit).name).map .text ∧
      (flagFields angleUnit logLevel ++ s.toFields).lookup "log_level".toList =
        (some ((flagLevel logLevel).getD s.logLevel.name)).map .text ∧
      (flagFields angleUnit logLevel ++ s.toFields).lookup "prompt".toList =
        (some s.prompt).map .text := by
    cases angleUnit <;> rcases logLevel with _ | _ | _ <;> exact ⟨rfl, rfl, rfl⟩
  rw [ofFields_eq looked.1 looked.2.1 looked.2.2, Option.getD_some, Option.getD_some,
    Option.getD_some]

/-- Settings with a prompt are described by their own fields. -/
theorem ofFields_toFields (nonempty : s.prompt ≠ []) : ofFields s.toFields = .ok s := by
  have own : ofFields s.toFields = ofTexts s.angleUnit.name s.logLevel.name s.prompt :=
    s.ofFields_flagFields_append none none
  rw [own]
  exact ofTexts_eq_ok_iff.mpr ⟨rfl, s.logLevel.upper_trim_name.symm, rfl, nonempty⟩

/-- Flags over settings with a prompt are three texts to check, even if no flag says anything. -/
theorem override_eq (nonempty : s.prompt ≠ []) (angleUnit : Option AngleUnit)
    (logLevel : Option Text) :
    s.override angleUnit logLevel = ofTexts (angleUnit.getD s.angleUnit).name
      ((flagLevel logLevel).getD s.logLevel.name) s.prompt := by
  rw [← ofFields_flagFields_append, override]
  cases flagFields angleUnit logLevel with
  | nil => exact (ofFields_toFields nonempty).symm
  | cons flag flags => rfl

/-- Flags change what they name and nothing else. If they are refused, it is for the log level
that they say. -/
theorem override_spec (nonempty : s.prompt ≠ []) (angleUnit : Option AngleUnit)
    (logLevel : Option Text) :
    (∀ after, s.override angleUnit logLevel = .ok after →
      after.angleUnit = angleUnit.getD s.angleUnit ∧
      after.logLevel.name =
        (Text.trim ((flagLevel logLevel).getD s.logLevel.name)).upper ∧
      after.prompt = s.prompt) ∧
    ∀ issues, s.override angleUnit logLevel = .error issues →
      ∃ text ∈ flagLevel logLevel, ¬ LogLevel.IsNamed text ∧
        issues = [⟨"log_level".toList, .refused ("Unknown log level: ".toList ++ text)⟩] := by
  rw [override_eq nonempty]
  refine ⟨fun after made => ?_, fun issues refused => ?_⟩
  · obtain ⟨unit, level, prompt, _⟩ := ofTexts_eq_ok_iff.mp made
    exact ⟨AngleUnit.name_injective unit, level, prompt⟩
  · obtain ⟨unknown, reason⟩ := ofTexts_eq_error nonempty refused
    cases flag : flagLevel logLevel with
    | some text =>
        rw [flag] at unknown reason
        exact ⟨text, rfl, unknown, reason⟩
    | none =>
        rw [flag] at unknown
        exact absurd s.logLevel.isNamed_name unknown

/-- Whether settings are what follows from flags and from what is said otherwise, for each field
alone. -/
structure Said.Resolves (said : Said) (angleUnit : Option AngleUnit) (logLevel : Option Text)
    (s : Settings) : Prop where
  angleUnit : s.angleUnit.name =
    ((angleUnit.map AngleUnit.name).or (said.angleUnit.map Text.trim)).getD "deg".toList
  logLevel : s.logLevel.name =
    (Text.trim (((flagLevel logLevel).or said.logLevel).getD "WARNING".toList)).upper
  prompt : s.prompt = said.prompt.getD "> ".toList

/-- Flags over loaded settings give what follows from both. -/
theorem Said.resolves {said : Said} (made : said.load = .ok loaded)
    (angleUnit : Option AngleUnit) (logLevel : Option Text)
    (flagged : loaded.override angleUnit logLevel = .ok s) :
    said.Resolves angleUnit logLevel s := by
  obtain ⟨unit, level, asked, nonempty⟩ := ofTexts_eq_ok_iff.mp made
  rw [← asked] at nonempty
  obtain ⟨unit_over, level_over, asked_over⟩ :=
    (override_spec nonempty angleUnit logLevel).1 s flagged
  refine ⟨?_, ?_, asked_over.trans asked⟩
  · rw [unit_over]
    cases angleUnit with
    | none => exact unit
    | some flag => rfl
  · rw [level_over]
    cases flagLevel logLevel with
    | some flag => rfl
    | none =>
        rw [Option.getD_none, loaded.logLevel.upper_trim_name, level]
        cases said.logLevel with
        | none => rfl
        | some text => exact congrArg Text.upper (Text.trim_trim text)

/-- Flags over loaded settings are accepted exactly if they name a level or none. -/
theorem exists_override_eq_ok_iff (nonempty : s.prompt ≠ []) (angleUnit : Option AngleUnit)
    (logLevel : Option Text) : (∃ after, s.override angleUnit logLevel = .ok after) ↔
      ∀ text ∈ flagLevel logLevel, LogLevel.IsNamed text := by
  rw [override_eq nonempty, exists_ofTexts_eq_ok_iff]
  cases flagLevel logLevel with
  | none => simpa [nonempty] using s.logLevel.isNamed_name
  | some text => simp [nonempty]

end Settings

namespace Console

open Settings

variable {texts : List Text} {arguments : Arguments}

/-- With a command line that is accepted the settings are loaded, and flags put over them. -/
theorem configure_eq_ok_iff (accepted : Arguments.ofTexts texts = .ok arguments)
    (environment : Variables) {file : Option (List Variables.FileLine)}
    (plain : ∀ lines ∈ file, ∀ line ∈ lines, line.Plain) {settings : Settings} :
    configure texts environment (file.map Variables.content) = .ok settings ↔
      ∃ loaded, (Said.ofSources environment (file.getD [])).load = .ok loaded ∧
        loaded.override arguments.angleUnit arguments.logLevel = .ok settings := by
  rw [configure, accepted]
  dsimp only
  rw [load_eq environment plain]
  cases (Said.ofSources environment (file.getD [])).load with
  | error issues => simp
  | ok loaded =>
      cases flagged : loaded.override arguments.angleUnit arguments.logLevel <;> simp [flagged]

/-- With a command line that is accepted only invalid settings can stop the program. -/
theorem configure_cases (accepted : Arguments.ofTexts texts = .ok arguments)
    (environment : Variables) (file : Option Text) :
    (∃ settings, configure texts environment file = .ok settings) ∨
      ∃ issues, configure texts environment file = .error (.invalid issues) := by
  rw [configure, accepted]
  dsimp only
  cases load environment file with
  | error issues => exact .inr ⟨issues, rfl⟩
  | ok loaded =>
      dsimp only
      cases loaded.override arguments.angleUnit arguments.logLevel with
      | error issues => exact .inr ⟨issues, rfl⟩
      | ok settings => exact .inl ⟨settings, rfl⟩

/-- There are settings exactly if all that is said makes sense, flags included. -/
theorem exists_configure_eq_ok_iff (accepted : Arguments.ofTexts texts = .ok arguments)
    (environment : Variables) {file : Option (List Variables.FileLine)}
    (plain : ∀ lines ∈ file, ∀ line ∈ lines, line.Plain) :
    (∃ settings, configure texts environment (file.map Variables.content) = .ok settings) ↔
      (Said.ofSources environment (file.getD [])).Valid ∧
        ∀ text ∈ flagLevel arguments.logLevel, LogLevel.IsNamed text := by
  simp only [configure_eq_ok_iff accepted environment plain, ← Said.exists_load_eq_ok_iff]
  constructor
  · rintro ⟨settings, loaded, made, flagged⟩
    exact ⟨⟨loaded, made⟩, (exists_override_eq_ok_iff (Said.prompt_ne_nil made) _ _).mp
      ⟨settings, flagged⟩⟩
  · rintro ⟨⟨loaded, made⟩, named⟩
    obtain ⟨settings, flagged⟩ :=
      (exists_override_eq_ok_iff (Said.prompt_ne_nil made) arguments.angleUnit _).mpr named
    exact ⟨settings, loaded, made, flagged⟩

/-- A program whose command line is accepted is stopped exactly if some text in force is invalid:
one of the environment or of the file that nothing in the environment stands over, or a log level
of a flag. Otherwise it runs with settings that follow field by field from the flags, the
environment, the file and the standard ones, in this order. Where flags are put over loaded
settings, the other fields stay as they are and are never what is refused. -/
theorem run_configured (accepted : Arguments.ofTexts texts = .ok arguments)
    (environment : Variables) {file : Option (List Variables.FileLine)}
    (plain : ∀ lines ∈ file, ∀ line ∈ lines, line.Plain) :
    (∀ events,
      (∃ issues, run texts environment (file.map Variables.content) events =
        .error (.invalid issues)) ↔
      ¬ ((Said.ofSources environment (file.getD [])).Valid ∧
        ∀ text ∈ flagLevel arguments.logLevel, LogLevel.IsNamed text)) ∧
    ((Said.ofSources environment (file.getD [])).Valid ∧
        (∀ text ∈ flagLevel arguments.logLevel, LogLevel.IsNamed text) →
      ∃ settings, configure texts environment (file.map Variables.content) = .ok settings ∧
        (Said.ofSources environment (file.getD [])).Resolves arguments.angleUnit
          arguments.logLevel settings ∧
        ∀ events, run texts environment (file.map Variables.content) events =
          let transcript := converse (Calculator.new settings.angleUnit 0) events
          .ok ⟨List.replicate transcript.requests settings.prompt, greeting ++ transcript.output,
            transcript.fault⟩) ∧
    ∀ loaded, load environment (file.map Variables.content) = .ok loaded →
      (∀ settings, loaded.override arguments.angleUnit arguments.logLevel = .ok settings →
        (arguments.angleUnit = none → settings.angleUnit = loaded.angleUnit) ∧
        (flagLevel arguments.logLevel = none → settings.logLevel = loaded.logLevel) ∧
        settings.prompt = loaded.prompt) ∧
      ∀ issues, loaded.override arguments.angleUnit arguments.logLevel = .error issues →
        (flagLevel arguments.logLevel).isSome ∧
          ∀ issue ∈ issues, issue.field = "log_level".toList := by
  refine ⟨fun events => ?_, fun sense => ?_, fun loaded made => ?_⟩
  · rw [← exists_configure_eq_ok_iff accepted environment plain, run]
    rcases configure_cases accepted environment (file.map Variables.content) with
      ⟨settings, ok⟩ | ⟨issues, refused⟩
    · simp [ok]
    · simp [refused]
  · obtain ⟨settings, ok⟩ := (exists_configure_eq_ok_iff accepted environment plain).mpr sense
    obtain ⟨loaded, made, flagged⟩ := (configure_eq_ok_iff accepted environment plain).mp ok
    refine ⟨settings, ok, Said.resolves made _ _ flagged, fun events => ?_⟩
    rw [run, ok]
    rfl
  · rw [load_eq environment plain] at made
    obtain ⟨changed, refused⟩ := override_spec (Said.prompt_ne_nil made) arguments.angleUnit
      arguments.logLevel
    refine ⟨fun settings flagged => ?_, fun issues flagged => ?_⟩
    · obtain ⟨unit, level, asked⟩ := changed settings flagged
      refine ⟨fun none => by rw [unit, none, Option.getD_none], fun none => ?_, asked⟩
      rw [none, Option.getD_none, loaded.logLevel.upper_trim_name] at level
      exact LogLevel.name_injective level
    · obtain ⟨text, flag, _, rfl⟩ := refused issues flagged
      exact ⟨Option.isSome_of_mem flag, List.forall_mem_singleton.mpr rfl⟩

/-- The environment stands over the file and a flag over both. A flag that names no level is
refused. -/
theorem run_flag_over_environment_over_file :
    configure ["--angle".toList, "rad".toList]
        [("SCICALC_PROMPT".toList, "$ ".toList), ("SCICALC_ANGLE_UNIT".toList, " deg".toList)]
        (some "SCICALC_LOG_LEVEL= debug\n# what asks\nSCICALC_PROMPT=calc>\n".toList) =
      .ok ⟨.radians, .debug, "$ ".toList⟩ ∧
    ∃ issues, run ["--log-level=loud".toList] [] none [] = .error (.invalid issues) := by
  let file : List Variables.FileLine := [.setting "SCICALC_LOG_LEVEL".toList " debug".toList,
    .comment " what asks".toList, .setting "SCICALC_PROMPT".toList "calc>".toList, .empty]
  let environment : Variables :=
    [("SCICALC_PROMPT".toList, "$ ".toList), ("SCICALC_ANGLE_UNIT".toList, " deg".toList)]
  constructor
  · have flags : Arguments.ofTexts ["--angle".toList, "rad".toList] =
        .ok ⟨some .radians, none⟩ := rfl
    have plain : ∀ lines ∈ some file, ∀ line ∈ lines, line.Plain := by
      rintro _ ⟨⟩
      simp only [file, List.forall_mem_cons]
      exact ⟨.of_unmarked rfl rfl (by decide),
        by simp [Variables.FileLine.Plain, Variables.IsInline],
        .of_unmarked rfl rfl (by decide), trivial, List.forall_mem_nil _⟩
    have valid : (Said.ofSources environment file).Valid := by
      refine ⟨?_, ?_, by decide⟩
      · rintro _ ⟨⟩
        exact ⟨.degrees, rfl⟩
      · rintro _ ⟨⟩
        exact ⟨.debug, rfl⟩
    obtain ⟨⟨unit, level, prompt⟩, ok, resolves, _⟩ :=
      (run_configured flags environment plain).2.1 ⟨valid, by simp [flagLevel]⟩
    obtain rfl : unit = .radians := AngleUnit.name_injective resolves.angleUnit
    obtain rfl : level = .debug := LogLevel.name_injective resolves.logLevel
    obtain rfl : prompt = "$ ".toList := resolves.prompt
    exact ok
  · have loud : Arguments.ofTexts ["--log-level=loud".toList] =
        .ok ⟨none, some "loud".toList⟩ := rfl
    have no_file : ∀ lines ∈ (none : Option (List Variables.FileLine)), ∀ line ∈ lines,
        line.Plain := by simp
    refine ((run_configured loud [] no_file).1 []).mpr fun sense => ?_
    obtain ⟨level, named⟩ := sense.2 "loud".toList rfl
    cases level <;> cases named

end Console

end Keypad
