import SlimTS.Common.MemoryMapper
import SlimTS.Common.Path

/-!
# The command line

`slim::command_line`: which arguments are TypeScript options, options of the program itself, the
script, arguments of the script or arguments for V8, which of the log's switches they set, and the
two configurations that `set_argv` stores.

The reading loop is a recursion on the arguments that are left. An option with a value takes two of
them, and takes the terminating null pointer when it is the last: no string can be made of that.
-/

namespace SlimTS

/-! ## The tables -/

/-- `allowed_file_extensions`. -/
def allowedFileExtensions : List Str := [".js".toList, ".mjs".toList, ".ts".toList]

/-- `slim_configurations`. -/
def slimConfigurations : List Str :=
  ["--print-all".toList, "--print-debug".toList, "--print-error".toList, "--print-info".toList,
    "--print-trace".toList, "--print-thread-identity".toList, "--print-warn".toList,
    "--print-without-thread-identity".toList]

/-- `typescript_configurations`, as it is initialised. -/
def typescriptConfigurations : List (Str × Str) :=
  [("--print-typescript-all".toList, "false".toList),
    ("--print-typescript-debug".toList, "false".toList),
    ("--print-typescript-error".toList, "false".toList),
    ("--print-typescript-info".toList, "false".toList),
    ("--print-typescript-log".toList, "false".toList),
    ("--print-typescript-trace".toList, "false".toList),
    ("--print-typescript-warn".toList, "false".toList),
    ("--print-typescript-configuration".toList, "false".toList),
    ("--typescript-project".toList, [])]

/-- `typescript_command_line_argument_expects_value`. -/
def typescriptExpectsValue : List (Str × Bool) := [("--typescript-project".toList, true)]

/-! ## The switches of the log -/

/-- The switches of `slim::common::log` that the command line can set, as they are initialised. -/
structure LogSettings where
  allowDebugPrint : Bool := false
  allowErrorPrint : Bool := true
  allowInfoPrint : Bool := false
  allowTracePrint : Bool := false
  allowWarnPrint : Bool := false
  allowThreadIdentityPrint : Bool := false
deriving DecidableEq

/-- `log::print_all`. -/
def LogSettings.printAll (value : Bool) : LogSettings where
  allowDebugPrint := value
  allowErrorPrint := value
  allowInfoPrint := value
  allowTracePrint := value
  allowWarnPrint := value
  allowThreadIdentityPrint := value

/-- What a slim argument sets. -/
def LogSettings.readSwitch (log : LogSettings) (argument : Str) : LogSettings :=
  if argument = "--print-all".toList then .printAll true
  else if argument = "--print-debug".toList then { log with allowDebugPrint := true }
  else if argument = "--print-error".toList then { log with allowErrorPrint := true }
  else if argument = "--print-info".toList then { log with allowInfoPrint := true }
  else if argument = "--print-thread-identity".toList then
    { log with allowThreadIdentityPrint := true }
  else if argument = "--print-trace".toList then { log with allowTracePrint := true }
  else if argument = "--print-warn".toList then { log with allowWarnPrint := true }
  else if argument = "--print-without-thread-identity".toList then
    { log with allowThreadIdentityPrint := false }
  else log

/-! ## The state -/

/-- What the command line is read in. -/
structure CommandLineEnvironment where
  /-- `slim::path::getExecutablePath`. -/
  executablePath : Str
  /-- `std::filesystem::current_path`, of a working directory that is there. -/
  currentPath : Str
  currentPath_head : currentPath.head? = some '/'
  /-- `typescript_configurations` in the order an iteration visits it. -/
  configurations : List (Str × Str)
  configurations_perm : configurations.Perm typescriptConfigurations

/-- The globals `set_argv` fills, and its local flag. -/
structure ArgvState where
  scriptArgvs : Str
  /-- `slim_configuration_values["script_name"]`. -/
  scriptName : Option Str
  v8ConfigurationValues : List Str
  typescriptConfigurations : List (Str × Str)
  log : LogSettings
  foundModuleSourceFile : Bool
deriving DecidableEq

/-- The exceptions that leave `set_argv`. -/
inductive ArgvError
  /-- `std::filesystem::absolute` has no absolute path for the empty one. -/
  | emptyPath
  /-- `std::string` is made of the null pointer behind the last argument. -/
  | nullArgument
deriving DecidableEq

/-- The options with this prefix are switches. -/
def printPrefix : Str := "--print".toList

/-- The value of a switch that is given. -/
def trueText : Str := "true".toList

/-- The value of a switch that is not given. -/
def falseText : Str := "false".toList

/-! ## Classifying an argument -/

/-- `std::regex_replace` of `/./|//` by `/`. The dot matches every character but the line ends, and
the first alternative is preferred to the second. -/
def regexReplace : Str → Str
  | '/' :: c :: '/' :: text =>
    if c ≠ '\n' ∧ c ≠ '\r' then '/' :: regexReplace text
    else '/' :: c :: regexReplace ('/' :: text)
  | '/' :: '/' :: text => '/' :: regexReplace text
  | c :: text => c :: regexReplace text
  | [] => []

/-- `is_script`: the absolute path of the argument, if its extension is one of a script. -/
def isScript (e : CommandLineEnvironment) (argument : Str) : Except ArgvError (Option Str) :=
  match Path.absolute e.currentPath (regexReplace argument) with
  | none => .error .emptyPath
  | some scriptPath =>
    .ok (if 1 < scriptPath.length ∧ allowedFileExtensions.contains (Path.extension scriptPath)
      then some scriptPath else none)

/-- `is_slim_argument`. -/
def isSlimArgument (argument : Str) : Bool := slimConfigurations.contains argument

/-- `is_typescript_argument`. -/
def isTypescriptArgument (s : ArgvState) (argument : Str) : Bool :=
  (s.typescriptConfigurations.map Prod.fst).contains argument

/-- `typescript_argument_expects_value`. -/
def typescriptArgumentExpectsValue (argument : Str) : Bool :=
  (typescriptExpectsValue.lookup argument).getD false

/-! ## Reading the arguments -/

/-- `typescript_configurations[argument] = value`, for an argument that is there. -/
def ArgvState.configure (s : ArgvState) (argument value : Str) : ArgvState :=
  { s with typescriptConfigurations := s.typescriptConfigurations.map fun entry ↦
      if entry.1 = argument then (argument, value) else entry }

/-- The branch of a slim argument. None of them expects a value. -/
def ArgvState.readSlim (s : ArgvState) (argument : Str) : ArgvState :=
  { s with log := s.log.readSwitch argument }

/-- `script_argvs += piece + ","`. -/
def ArgvState.append (s : ArgvState) (piece : Str) : ArgvState :=
  { s with scriptArgvs := s.scriptArgvs ++ (piece ++ [',']) }

/-- The branch of an argument that is no option: the script, or an argument for V8. -/
def ArgvState.readFile (s : ArgvState) (argument : Str) : Option Str → ArgvState
  | some scriptPath =>
    { s.append scriptPath with scriptName := some scriptPath, foundModuleSourceFile := true }
  | none => { s with v8ConfigurationValues := s.v8ConfigurationValues ++ [argument] }

/-- The loop of `set_argv`. -/
def readArguments (e : CommandLineEnvironment) :
    ArgvState → List Str → Except ArgvError ArgvState
  | s, [] => .ok s
  | s, argument :: rest =>
    -- Behind the script every argument is the script's, whatever it looks like.
    if s.foundModuleSourceFile then readArguments e (s.append argument) rest
    else if isTypescriptArgument s argument then
      if printPrefix.isPrefixOf argument then
        readArguments e (s.configure argument trueText) rest
      else if typescriptArgumentExpectsValue argument then
        match rest with
        -- The index is increased without a look at the number of arguments.
        | [] => .error .nullArgument
        | value :: rest => readArguments e (s.configure argument value) rest
      -- Any other option is read over.
      else readArguments e s rest
    else if isSlimArgument argument then readArguments e (s.readSlim argument) rest
    else do
      let script ← isScript e argument
      readArguments e (s.readFile argument script) rest

/-! ## The two configurations -/

/-- The member of the JSON text for one entry, and the comma after it. -/
def configurationMember (entry : Str × Str) : Str :=
  let newKey := if "--".toList.isPrefixOf entry.1 then entry.1.drop 2 else []
  let newValue :=
    if entry.2 = trueText ∨ entry.2 = falseText then entry.2 ++ [',']
    else '"' :: entry.2 ++ ['"', ',']
  '"' :: newKey ++ ['"', ':'] ++ newValue

/-- `pop_back`, if the text ends with a comma. -/
def popComma (text : Str) : Str := if text.getLast? = some ',' then text.dropLast else text

/-- `typescript_configuration_string`. -/
def typescriptConfigurationString (entries : List (Str × Str)) : Str :=
  popComma ('{' :: entries.flatMap configurationMember) ++ ['}']

/-- The map both configurations are stored in. -/
def configurationsMap : Str := "configurations".toList

/-- The file of the TypeScript configuration. -/
def typescriptFile : Str := "typescript".toList

/-- The file of the script's arguments. -/
def scriptArgvFile : Str := "script.argv".toList

/-- The globals as `set_argv` finds them when its loop begins. -/
def ArgvState.start (e : CommandLineEnvironment) : ArgvState where
  scriptArgvs := e.executablePath ++ [',']
  scriptName := none
  v8ConfigurationValues := [e.executablePath]
  typescriptConfigurations := e.configurations
  log := {}
  foundModuleSourceFile := false

/-- `set_argv`: the globals and the store it leaves. -/
def setArgv (e : CommandLineEnvironment) (store : Store) (arguments : List Str) :
    Except ArgvError (ArgvState × Store) := do
  let s ← readArguments e (.start e) arguments
  let store := store.write configurationsMap typescriptFile
    (.pointer (typescriptConfigurationString s.typescriptConfigurations))
  let s := { s with scriptArgvs := popComma s.scriptArgvs }
  return (s, store.write configurationsMap scriptArgvFile (.pointer s.scriptArgvs))

end SlimTS
