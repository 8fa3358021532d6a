import SlimTS.Common.Text
import SlimTS.Library.Getline

/-!
# Macros

`slim::macros`: every line of a source text goes through three passes, one for each of `__dirname`,
`__filename` and `__line_number`. A pass looks for its token, replaces it and goes on behind the
replacement; the directory and the file name are put between quotes.

The position of a pass is an `int`, so it is reduced to 32 bits when the result of `find` is put in
it and when it is moved on; and so are the position of the last separator of the path and the line
number. A pass is given the number of rounds it may make, because with positions that wrap around it
need not end.
-/

namespace SlimTS

namespace Macros

/-- What ends a call without a result. -/
inductive MacroFault
  /-- `std::out_of_range`. -/
  | outOfRange
  /-- The pass has used up its rounds. -/
  | rounds
  /-- A null pointer is dereferenced. -/
  | nullPointer
deriving DecidableEq, Repr

def dirnameToken : Str := "__dirname".toList

def filenameToken : Str := "__filename".toList

def lineNumberToken : Str := "__line_number".toList

/-- A text between quotes. -/
def quote (text : Str) : Str := '"' :: (text ++ ['"'])

theorem length_quote (s : Str) : (quote s).length = s.length + 2 := by
  rw [quote, List.length_cons, List.length_append, List.length_singleton]

/-- `std::to_string`. -/
def decimal (n : ℤ) : Str :=
  if n < 0 then '-' :: Nat.toDigits 10 n.natAbs else Nat.toDigits 10 n.natAbs

/-- An exception of the standard library ends the call. -/
def orFault {α : Type} : Except OutOfRange α → Except MacroFault α
  | .error .outOfRange => .error .outOfRange
  | .ok a => .ok a

/-- The loop of `replace_token`, from a position on. -/
def replaceFrom (token replacement : Str) : ℕ → ℤ → Str → Except MacroFault Str
  | 0, _, _ => .error .rounds
  | rounds + 1, fileNameTokenPosition, lineOfText =>
    let found := toInt (Text.findFrom lineOfText token fileNameTokenPosition)
    if found = Text.npos then .ok lineOfText
    else
      match Text.replace lineOfText found token.length replacement with
      | .error _ => .error .outOfRange
      | .ok lineOfText =>
        replaceFrom token replacement rounds (toInt (found + replacement.length)) lineOfText

/-- `replace_token`. -/
def replaceToken (rounds : ℕ) (token lineOfText replaceWith : Str) (isText : Bool) :
    Except MacroFault Str :=
  replaceFrom token (if isText then quote replaceWith else replaceWith) rounds 0 lineOfText

/-- `directory_name_string`. -/
def directoryName (absolutePathToFile : Str) : Except MacroFault Str :=
  orFault (Text.substr absolutePathToFile 0 (toInt (Text.findLast absolutePathToFile '/')))

/-- `file_name_string`. -/
def fileName (absolutePathToFile : Str) : Except MacroFault Str :=
  orFault (Text.substr absolutePathToFile (toInt (toInt (Text.findLast absolutePathToFile '/') + 1))
    Text.npos)

/-- The three passes over a line. -/
def applyLine (rounds : ℕ) (directory file : Str) (lineNumber : ℤ) (lineOfText : Str) :
    Except MacroFault Str := do
  let lineOfText ← replaceToken rounds dirnameToken lineOfText directory true
  let lineOfText ← replaceToken rounds filenameToken lineOfText file true
  replaceToken rounds lineNumberToken lineOfText (decimal lineNumber) false

/-- The loop over the lines, behind a line number. -/
def applyLines (rounds : ℕ) (directory file : Str) : ℤ → List Str → Except MacroFault Str
  | _, [] => .ok []
  | lineNumber, lineOfText :: lines => do
    let applied ← applyLine rounds directory file (toInt (lineNumber + 1)) lineOfText
    let rest ← applyLines rounds directory file (toInt (lineNumber + 1)) lines
    return applied ++ '\n' :: rest

/-- `apply`, of a text in a stream. -/
def apply (rounds : ℕ) (text absolutePathToFile : Str) : Except MacroFault Str := do
  let directory ← directoryName absolutePathToFile
  let file ← fileName absolutePathToFile
  applyLines rounds directory file 0 (Getline.pieces '\n' text)

/-- `apply`, of a text behind a pointer. -/
def applyPointer (rounds : ℕ) (content : Option Str) (absolutePathToFile : Str) :
    Except MacroFault Str :=
  match content with
  | none => .error .nullPointer
  | some text => apply rounds text absolutePathToFile

/-- The call ends and returns the result. -/
def Returns (text absolutePathToFile result : Str) : Prop :=
  ∃ rounds, apply rounds text absolutePathToFile = .ok result

example : apply 9 "a(__dirname)\n__filename __line_number".toList "/lib/a.js".toList
    = .ok "a(\"/lib\")\n\"a.js\" 2\n".toList := by rfl

end Macros

end SlimTS
