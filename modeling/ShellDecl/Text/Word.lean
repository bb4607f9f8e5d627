/-!
# Whole numbers of 32 bits

Decimal digits with or without a plus sign in front of them, as far as the number has a place in 32 bits.
-/

set_option autoImplicit false

namespace ShellDecl.Text

def digitValue (c : Char) : Nat :=
  c.toNat - '0'.toNat

def decimal (digits : List Char) : Nat :=
  digits.foldl (fun n c => n * 10 + digitValue c) 0

def isNumber (text : List Char) : Bool :=
  !text.isEmpty && text.all Char.isDigit

def unsigned : List Char → List Char
  | '+' :: digits => digits
  | digits => digits

def word? (text : List Char) : Option Nat :=
  let digits := unsigned text
  if isNumber digits && decimal digits < UInt32.size then some (decimal digits) else none

end ShellDecl.Text
