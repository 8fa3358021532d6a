import Mathlib.Data.List.Basic
import SlimTS.Common.Basic

/-!
# The console

The configurations of the console plugin, how a text is coloured under one, and how one is copied to
another. A level's configuration derives from the base configuration and declares two of its members
again. Which of the two is meant depends on the static type of the pointer: `colorize` and the
properties that scripts see go through the derived type, the copying goes through the base.

The sections of a level (field separator, message, remainder, time stamp) take no part in either and
are left out.
-/

namespace SlimTS

/-! ## Configurations -/

/-- The colour nothing has been set to. -/
def defaultColor : Str := "default".toList

/-- `BaseConfiguration`. -/
structure BaseConfiguration where
  dim : Bool := false
  bold : Bool := false
  italic : Bool := false
  inverse : Bool := false
  underline : Bool := false
  /-- `show`. -/
  shown : Bool := true
  expandObjects : Bool := false
  textColor : Str := defaultColor
  backgroundColor : Str := defaultColor
deriving DecidableEq

/-- `Configuration`: the members of the base, and the two that are declared again. -/
structure Configuration where
  base : BaseConfiguration := {}
  levelString : Str := []
  textColor : Str := defaultColor
  expandObjects : Bool := false
deriving DecidableEq

/-- The members as an access through `Configuration` finds them: those declared again hide those of
the base. -/
def Configuration.members (c : Configuration) : BaseConfiguration :=
  { c.base with
    textColor := c.textColor
    expandObjects := c.expandObjects }

/-- The global configurations. -/
inductive ConfigurationName
  | dir
  | dirxml
  | debug
  | error
  | info
  | log
  | print
  | todo
  | table
  | trace
  | warn
deriving DecidableEq, Repr

/-- The globals of the plugin: the configurations behind the pointers of `level_configurations`. -/
abbrev ConsoleState := ConfigurationName → Configuration

/-- `level_configurations`. -/
def levelConfigurations : List (Str × ConfigurationName) :=
  [("dir".toList, .dir), ("dirxml".toList, .dir), ("debug".toList, .debug),
    ("error".toList, .error), ("info".toList, .info), ("log".toList, .log),
    ("print".toList, .print), ("todo".toList, .todo), ("table".toList, .table),
    ("trace".toList, .trace), ("warn".toList, .warn)]

/-- The configurations as they are initialised. -/
def initialConfigurations : ConsoleState
  | .dir => { expandObjects := true }
  | .dirxml => {}
  | .debug => { levelString := "DEBUG".toList, textColor := "red".toList }
  | .error => { levelString := "ERROR".toList, textColor := "red".toList }
  | .info => { levelString := "INFO".toList, textColor := "bright white".toList }
  | .log => { levelString := "LOG".toList }
  | .print => {}
  | .todo => { levelString := "TODO".toList, textColor := "blue".toList }
  | .table => { levelString := "TABLE".toList, textColor := "bright red".toList }
  | .trace => { levelString := "TRACE".toList, textColor := "bright green".toList }
  | .warn => { levelString := "WARN".toList, textColor := "yellow".toList }

/-! ## Colours -/

/-- `text_colors`. -/
def textColors : List (Str × ℕ) :=
  [("default".toList, 39), ("black".toList, 30), ("red".toList, 31), ("green".toList, 32),
    ("yellow".toList, 33), ("blue".toList, 34), ("magenta".toList, 35), ("cyan".toList, 36),
    ("white".toList, 37), ("bright black".toList, 90), ("bright red".toList, 91),
    ("bright green".toList, 92), ("bright yellow".toList, 93), ("bright blue".toList, 94),
    ("bright magenta".toList, 95), ("bright cyan".toList, 96), ("bright white".toList, 97)]

/-- `background_colors`. -/
def backgroundColors : List (Str × ℕ) :=
  [("default".toList, 49), ("black".toList, 40), ("red".toList, 41), ("green".toList, 42),
    ("yellow".toList, 43), ("blue".toList, 44), ("magenta".toList, 45), ("cyan".toList, 46),
    ("white".toList, 47), ("bright black".toList, 100), ("bright red".toList, 101),
    ("bright green".toList, 102), ("bright yellow".toList, 103), ("bright blue".toList, 104),
    ("bright magenta".toList, 105), ("bright cyan".toList, 106), ("bright white".toList, 107)]

/-- What `std::stoi` throws. -/
inductive StoiError
  | invalidArgument
  | outOfRange
deriving DecidableEq, Repr

/-- `std::isspace`. -/
def isSpace (c : Char) : Bool :=
  c = ' ' || c = '\t' || c = '\n' || c = '\x0b' || c = '\x0c' || c = '\r'

/-- The number `std::stoi` makes of the digits at the front of a text, with the sign before them. -/
def stoiDigits (sign : ℤ) (text : Str) : Except StoiError ℤ :=
  if text.takeWhile Char.isDigit = [] then .error .invalidArgument
  else
    let n := sign * Nat.ofDigitChars 10 (text.takeWhile Char.isDigit) 0
    if -2 ^ 31 ≤ n ∧ n < 2 ^ 31 then .ok n else .error .outOfRange

/-- `std::stoi`. -/
def stoi (text : Str) : Except StoiError ℤ :=
  match text.dropWhile isSpace with
  | '-' :: digits => stoiDigits (-1) digits
  | '+' :: digits => stoiDigits 1 digits
  | digits => stoiDigits 1 digits

/-- `[0-9]{1,3}` matches the text. -/
def isColorNumber (text : Str) : Bool :=
  text.all Char.isDigit && decide (1 ≤ text.length) && decide (text.length ≤ 3)

/-- `[0-9]{1,3};[0-9]{1,3};[0-9]{1,3}` matches the text. -/
def isRgb (text : Str) : Bool :=
  (text.splitOn ';').length = 3 && (text.splitOn ';').all isColorNumber

/-- The beginning of an escape sequence. -/
def escape : Str := "\x1b[".toList

/-- The sequence that sets the text colour. -/
def textSequence (textColor : Str) : Except StoiError Str :=
  -- `operator[]` enters a colour that is not there with 0, which later calls find.
  let consoleTextColor := (textColors.lookup textColor).getD 0
  if 29 < consoleTextColor then .ok (escape ++ (Nat.toDigits 10 consoleTextColor ++ ['m']))
  else do
    -- `stoi` comes before the regular expression, and throws for what is no number.
    let n ← stoi textColor
    if -1 < n then return escape ++ ("38;5;".toList ++ (textColor ++ ['m']))
    else if isRgb textColor then return escape ++ ("38;2;".toList ++ (textColor ++ ['m']))
    else return []

/-- The sequence that sets the background colour. The regular expression is tried on the text
colour here too. -/
def backgroundSequence (textColor backgroundColor : Str) : Except StoiError Str :=
  let consoleBackgroundColor := (backgroundColors.lookup backgroundColor).getD 0
  if 38 < consoleBackgroundColor then
    .ok (escape ++ (Nat.toDigits 10 consoleBackgroundColor ++ ['m']))
  else do
    let n ← stoi backgroundColor
    if -1 < n then return escape ++ ("48;5;".toList ++ (backgroundColor ++ ['m']))
    else if isRgb textColor then return escape ++ ("48;2;".toList ++ (backgroundColor ++ ['m']))
    else return []

/-- The sequences of the attributes. -/
def attributeSequences (configuration : BaseConfiguration) : Str :=
  (if configuration.bold then escape ++ ['1', 'm'] else [])
    ++ (if configuration.dim then escape ++ ['2', 'm'] else [])
    ++ (if configuration.italic then escape ++ ['3', 'm'] else [])
    ++ (if configuration.underline then escape ++ ['4', 'm'] else [])
    ++ (if configuration.inverse then escape ++ ['7', 'm'] else [])

/-- `colorize`, of the members it finds. -/
def colorize (configuration : BaseConfiguration) (stringValue : Str) : Except StoiError Str :=
  if configuration.shown then do
    let text ← textSequence configuration.textColor
    let background ← backgroundSequence configuration.textColor configuration.backgroundColor
    return attributeSequences configuration ++ text ++ background ++ stringValue
      ++ (escape ++ ['0', 'm'])
  else return []

/-! ## Copying -/

/-- `copy_console_configuration`. -/
def copyConsoleConfiguration (source destination : BaseConfiguration) : BaseConfiguration :=
  { destination with
    bold := source.bold
    backgroundColor := source.backgroundColor
    dim := source.dim
    expandObjects := source.expandObjects
    italic := source.italic
    inverse := source.inverse
    shown := source.shown
    textColor := source.textColor
    underline := source.underline }

/-- What is thrown for a level copied to itself. -/
def cannotCopyToSelf : Str := "cannot copy to self".toList

/-- What is thrown for a level that is not known. -/
def levelNotFound : Str := "level not found: ".toList

/-- The exceptions `copy_configuration` throws to V8. None of them ends it. -/
def copyExceptions (fromLevel toLevel : Str) : List Str :=
  (if fromLevel = toLevel then [cannotCopyToSelf] else [])
    ++ ([toLevel, fromLevel].filter fun level ↦ (levelConfigurations.lookup level).isNone).map
      (levelNotFound ++ ·)

/-- `copy_configuration`, of two strings: the state it leaves and the exceptions it has thrown. A
level that is not known has the null pointer for a configuration, and nothing can be copied through
that. -/
def copyConfiguration (s : ConsoleState) (fromLevel toLevel : Str) :
    Option (ConsoleState × List Str) :=
  (levelConfigurations.lookup fromLevel).bind fun fromConfiguration ↦
    (levelConfigurations.lookup toLevel).map fun toConfiguration ↦
      (Function.update s toConfiguration
        { s toConfiguration with
          base := copyConsoleConfiguration (s fromConfiguration).base (s toConfiguration).base },
        copyExceptions fromLevel toLevel)

end SlimTS
