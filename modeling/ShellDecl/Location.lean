import ShellDecl.Host
import ShellDecl.Path
import ShellDecl.Text.Blank
import ShellDecl.Text.Word

/-!
# Locations

A file, a line and a column written as one text with colons between them, or a file and a line. The file name may hold
colons, so the text is split from its end. The last two parts are a position only if both are made of digits.
-/

set_option autoImplicit false

namespace ShellDecl

structure Location where
  file : String
  line : Nat
  column : Nat
  deriving DecidableEq, Repr

inductive Axis where
  | line
  | column
  deriving DecidableEq, Repr

def Axis.name : Axis → String
  | .line => "line"
  | .column => "column"

def Axis.title : Axis → String
  | .line => "Line"
  | .column => "Column"

inductive LocationError where
  | empty
  | noLine
  | noFile (text : String)
  | notNumber (axis : Axis) (text : String)
  | zero (axis : Axis)
  | fileNotFound (file : String)
  deriving DecidableEq, Repr

def LocationError.message : LocationError → String
  | .empty => "Location cannot be empty"
  | .noLine => "Invalid location format. Expected: file:line[:column]\nExample: deploy.sh:10:5"
  | .noFile text => "Location is missing a file path: " ++ text
  | .notNumber axis text =>
    "Invalid " ++ axis.name ++ " number '" ++ text ++ "': must be a positive integer (1-indexed)"
  | .zero axis => axis.title ++ " number must be >= 1 (got 0). Positions are 1-indexed."
  | .fileNotFound file => "File not found: " ++ file

namespace Location

def splitLast? : List Char → Option (List Char × List Char)
  | [] => none
  | c :: rest =>
    match splitLast? rest with
    | some (before, behind) => some (c :: before, behind)
    | none => if c = ':' then some ([], rest) else none

def parts? (text : List Char) : Option (List Char × List Char × List Char) :=
  match splitLast? text with
  | none => none
  | some (before, last) =>
    match splitLast? before with
    | some (file, line) =>
      if Text.isNumber line && Text.isNumber last then some (file, line, last) else some (before, last, ['1'])
    | none => some (before, last, ['1'])

def coordinate (axis : Axis) (text : List Char) : Except LocationError Nat :=
  match Text.word? text with
  | none => .error (.notNumber axis (String.ofList text))
  | some 0 => .error (.zero axis)
  | some n => .ok n

def ofChars (text : List Char) : Except LocationError Location :=
  match parts? text with
  | none => .error .noLine
  | some (file, line, column) =>
    if file.isEmpty then .error (.noFile (String.ofList text))
    else do return ⟨String.ofList file, ← coordinate .line line, ← coordinate .column column⟩

/-- Reads a location, blanks around it apart. -/
def ofText (text : String) : Except LocationError Location :=
  match Text.trim text.toList with
  | [] => .error .empty
  | text => ofChars text

def resolve {m : Type → Type} [Monad m] (h : Host m) (l : Location) : ExceptT LocationError m Location := do
  let here ← h.currentDirectory
  let file ← (h.resolve (Path.join here l.file)).adapt fun _ => .fileNotFound l.file
  return { l with file := file }

end Location

end ShellDecl
