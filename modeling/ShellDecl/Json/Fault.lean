import ShellDecl.Decimal.Shortest
import ShellDecl.Json.Numeral
import ShellDecl.Record

/-!
# Faults

What can be wrong with a text that a value is read from, where it is wrong, and the wording. Places are lines and
bytes on the line.
-/

set_option autoImplicit false

namespace ShellDecl.Json

/-- A place in a text: its line, counted from one, and the bytes in front of it on that line. -/
structure Mark where
  line : Nat
  column : Nat
  deriving DecidableEq, Repr

namespace Mark

def start : Mark :=
  ⟨1, 0⟩

def plus (m : Mark) (n : Nat) : Mark :=
  ⟨m.line, m.column + n⟩

def afterByte (m : Mark) (c : Char) : Mark :=
  if c = '\n' then ⟨m.line + 1, 0⟩ else ⟨m.line, m.column + 1⟩

def step (m : Mark) (c : Char) : Mark :=
  if c = '\n' then ⟨m.line + 1, 0⟩ else ⟨m.line, m.column + c.utf8Size⟩

def advance (m : Mark) (text : List Char) : Mark :=
  text.foldl step m

end Mark

structure Spot where
  here : Mark
  head : Option Char
  deriving DecidableEq, Repr

def Spot.next (s : Spot) : Mark :=
  match s.head with
  | some c => s.here.afterByte c
  | none => s.here

/-- Decimal text with at most sixteen places in front of the point and four zeros behind it; beyond that the point
follows the first digit and the exponent has a sign. -/
def floatText (x : Float) : String :=
  let (negative, size) := Decimal.parts x
  let sign := if negative then "-" else ""
  match size with
  | none => sign ++ "0.0"
  | some b =>
    let d := b.shortest
    let digits := (toString d.digits).toList
    let point : Int := digits.length + d.exponent
    let zeros (n : Nat) := List.replicate n '0'
    let text :=
      if 0 ≤ d.exponent ∧ point ≤ 16 then digits ++ zeros d.exponent.toNat ++ ['.', '0']
      else if 0 < point ∧ point ≤ 16 then digits.take point.toNat ++ '.' :: digits.drop point.toNat
      else if -5 < point ∧ point ≤ 0 then '0' :: '.' :: zeros (-point).toNat ++ digits
      else
        let power := point - 1
        let mark := if power < 0 then ['e', '-'] else ['e', '+']
        let fraction := if digits.length = 1 then [] else '.' :: digits.drop 1
        digits.take 1 ++ fraction ++ mark ++ (toString power.natAbs).toList
    sign ++ String.ofList text

def Number.found : Number → Found
  | .natural n => .integer n
  | .negative n => .integer (-n)
  | .floating x => .floating (floatText x)

inductive Cause where
  | endOfValue
  | endOfList
  | endOfObject
  | endOfString
  | expectedIdent
  | expectedValue
  | expectedColon
  | expectedListEnd
  | expectedObjectEnd
  | invalidNumber
  | numberOutOfRange
  | invalidEscape
  | controlCharacter
  | loneSurrogate
  | endOfHexEscape
  | keyNotString
  | trailingComma
  | trailingCharacters
  | tooDeep
  | mismatch (m : Mismatch)
  deriving DecidableEq, Repr

def Cause.message : Cause → String
  | .endOfValue => "EOF while parsing a value"
  | .endOfList => "EOF while parsing a list"
  | .endOfObject => "EOF while parsing an object"
  | .endOfString => "EOF while parsing a string"
  | .expectedIdent => "expected ident"
  | .expectedValue => "expected value"
  | .expectedColon => "expected `:`"
  | .expectedListEnd => "expected `,` or `]`"
  | .expectedObjectEnd => "expected `,` or `\x7d`"
  | .invalidNumber => "invalid number"
  | .numberOutOfRange => "number out of range"
  | .invalidEscape => "invalid escape"
  | .controlCharacter => "control character (\\u0000-\\u001F) found while parsing a string"
  | .loneSurrogate => "lone leading surrogate in hex escape"
  | .endOfHexEscape => "unexpected end of hex escape"
  | .keyNotString => "key must be a string"
  | .trailingComma => "trailing comma"
  | .trailingCharacters => "trailing characters"
  | .tooDeep => "recursion limit exceeded"
  | .mismatch m => m.message

/-- A fault without a place gets the place where the value around it ends. -/
structure Fault where
  cause : Cause
  place : Option Mark
  deriving DecidableEq, Repr

namespace Fault

def placed (cause : Cause) (m : Mark) : Fault :=
  ⟨cause, some m⟩

def message (f : Fault) : String :=
  match f.place with
  | some m => f.cause.message ++ " at line " ++ toString m.line ++ " column " ++ toString m.column
  | none => f.cause.message

end Fault

end ShellDecl.Json
