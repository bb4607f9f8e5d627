import ShellDecl.Config
import ShellDecl.Text.Quoted

/-!
# Written configurations

A configuration as the text of a file. A text is quoted with as few escapes as can be: with none if it is plain, as it
stands if it has quotes or backslashes, and over several lines if it has line breaks.
-/

set_option autoImplicit false

namespace ShellDecl.Toml

def longestRun (quote : Char) (current best : Nat) : List Char → Nat
  | [] => best
  | c :: rest =>
    if c = quote then longestRun quote (current + 1) (max best (current + 1)) rest
    else longestRun quote 0 best rest

/-- What decides how a text is quoted. -/
structure Traits where
  newline : Bool
  backslash : Bool
  /-- Whether there are controls other than tabulators and line breaks. -/
  control : Bool
  doubles : Nat
  singles : Nat
  deriving DecidableEq, Repr

def Traits.of (text : List Char) : Traits where
  newline := text.contains '\n'
  backslash := text.contains '\\'
  control := text.any fun c => (c.toNat < 0x20 && c != '\t' && c != '\n') || c.toNat == 0x7f
  doubles := longestRun '"' 0 0 text
  singles := longestRun '\x27' 0 0 text

inductive Quoting where
  | basic
  | literal
  | basicLines
  | literalLines
  deriving DecidableEq, Repr

def Traits.quoting (t : Traits) : Quoting :=
  if !t.control && !t.backslash && t.doubles = 0 && !t.newline then .basic
  else if !t.control && t.singles = 0 && !t.newline then .literal
  else if !t.control && !t.backslash && t.doubles ≤ 2 then .basicLines
  else if !t.control && t.singles ≤ 2 then .literalLines
  else if t.newline then .basicLines
  else .basic

def fourDigits (n : Nat) : List Char :=
  let digits := (Text.hexadecimal n).map Char.toUpper
  List.replicate (4 - digits.length) '0' ++ digits

/-- A text with escapes, in which at most `allowed` double quotes may stand in a row; `seen` of them were written just
now. -/
def escaped (lines : Bool) (allowed seen : Nat) : List Char → List Char
  | [] => []
  | c :: rest =>
    if c = '"' then
      if seen < allowed then c :: escaped lines allowed (seen + 1) rest else '\\' :: c :: escaped lines allowed 0 rest
    else if c.toNat = 8 then '\\' :: 'b' :: escaped lines allowed 0 rest
    else if c = '\t' then '\\' :: 't' :: escaped lines allowed 0 rest
    else if c = '\n' then
      if lines then c :: escaped lines allowed 0 rest else '\\' :: 'n' :: escaped lines allowed 0 rest
    else if c.toNat = 12 then '\\' :: 'f' :: escaped lines allowed 0 rest
    else if c = '\r' then '\\' :: 'r' :: escaped lines allowed 0 rest
    else if c = '\\' then '\\' :: '\\' :: escaped lines allowed 0 rest
    else if c.toNat < 0x20 || c.toNat == 0x7f then
      '\\' :: 'u' :: fourDigits c.toNat ++ escaped lines allowed 0 rest
    else c :: escaped lines allowed 0 rest

/-- A text of several lines begins on a line of its own. -/
def quote (text : List Char) : List Char :=
  let t := Traits.of text
  let first := if t.newline then ['\n'] else []
  match t.quoting with
  | .basic => '"' :: escaped false 0 0 text ++ ['"']
  | .literal => '\x27' :: text ++ ['\x27']
  | .basicLines => ['"', '"', '"'] ++ first ++ escaped true 2 0 text ++ ['"', '"', '"']
  | .literalLines => ['\x27', '\x27', '\x27'] ++ first ++ text ++ ['\x27', '\x27', '\x27']

def line (key : String) (value : List Char) : String :=
  key ++ " = " ++ String.ofList value ++ "\n"

def boolean (b : Bool) : List Char :=
  (if b then "true" else "false").toList

def optionalLine {α : Type} (key : String) (write : α → List Char) : Option α → String
  | some a => line key (write a)
  | none => ""

def written (c : Config) : String :=
  "[parser]\n"
    ++ line "max_file_size_mb" (toString c.parser.maxFileSizeMb.toNat).toList
    ++ "\n[output]\n"
    ++ line "format" (quote c.output.format.toList)
    ++ "\n[settings.analysis]\n"
    ++ optionalLine "enabled" boolean c.settings.analysis.enabled
    ++ optionalLine "settingsPath" (fun (s : String) => quote s.toList) c.settings.analysis.settingsPath

end ShellDecl.Toml
