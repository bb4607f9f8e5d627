/-!
# Number texts

How far a number runs, and what it stands for. A number without a point and an exponent is a whole number while it has
a place in 64 bits. Any other is a floating point number: the first digits as a whole number of 64 bits, scaled by a
power of ten.
-/

set_option autoImplicit false

namespace ShellDecl.Json

/-- `negative n` stands for `-n`. -/
inductive Number where
  | natural (n : Nat)
  | negative (n : Nat)
  | floating (x : Float)
  deriving Repr

namespace Numeral

def digitsLength (text : List Char) : Nat :=
  (text.takeWhile Char.isDigit).length

/-- The length of an exponent and its letter, zero if there is none, or the place of the fault in it. -/
def exponentLength (text : List Char) : Except Nat Nat :=
  match text with
  | c :: rest =>
    if c = 'e' || c = 'E' then
      let sign :=
        match rest with
        | '+' :: _ => 1
        | '-' :: _ => 1
        | _ => 0
      match digitsLength (rest.drop sign) with
      | 0 => .error (1 + sign)
      | n => .ok (1 + sign + n)
    else .ok 0
  | [] => .ok 0

def fractionLength (text : List Char) : Except Nat Nat :=
  match text with
  | '.' :: rest =>
    match digitsLength rest with
    | 0 => .error 1
    | n => .ok (1 + n)
  | _ => .ok 0

/-- The length of the digits in front of the point. A zero stands alone. -/
def wholeLength (text : List Char) : Except Nat Nat :=
  match text with
  | '0' :: rest => if digitsLength rest = 0 then .ok 1 else .error 1
  | _ =>
    match digitsLength text with
    | 0 => .error 0
    | n => .ok n

def length (text : List Char) : Except Nat Nat :=
  let sign :=
    match text with
    | '-' :: _ => 1
    | _ => 0
  match wholeLength (text.drop sign) with
  | .error n => .error (sign + n)
  | .ok whole =>
    match fractionLength (text.drop (sign + whole)) with
    | .error n => .error (sign + whole + n)
    | .ok fraction =>
      match exponentLength (text.drop (sign + whole + fraction)) with
      | .error n => .error (sign + whole + fraction + n)
      | .ok exponent => .ok (sign + whole + fraction + exponent)

def digit (c : Char) : Nat :=
  c.toNat - '0'.toNat

/-- Goes on with a whole number while it stays below `limit`, and tells how many digits it took. -/
def absorb (limit value taken : Nat) : List Char → Nat × Nat
  | [] => (value, taken)
  | c :: rest =>
    let next := value * 10 + digit c
    if next < limit then absorb limit next (taken + 1) rest else (value, taken)

/-- Divides by a power of ten, in steps where the power is too large to write. -/
def scaleDown (x : Float) (e : Nat) : Float :=
  if h : e ≤ 308 then x / Float.ofScientific 1 false e
  else if x == 0 then x
  else scaleDown (x / Float.ofScientific 1 false 308) (e - 308)
termination_by e
decreasing_by omega

def scaled? (negative : Bool) (value : Nat) (e : Int) : Option Number :=
  let x := Float.ofNat value
  let size? : Option Float :=
    if e < 0 then some (scaleDown x (-e).toNat)
    else if e ≤ 308 then
      let y := x * Float.ofScientific 1 false e.toNat
      if y.isInf then none else some y
    else if value = 0 then some x
    else none
  size?.map fun y => .floating (if negative then -y else y)

/-- What the number with the given text stands for, or how much of it was read when it was out of range. -/
def value (text : List Char) : Except Nat Number :=
  let negative := text.head? == some '-'
  let sign := if negative then 1 else 0
  let body := text.drop sign
  let whole := body.takeWhile Char.isDigit
  let after := body.drop whole.length
  let fraction :=
    match after with
    | '.' :: rest => rest.takeWhile Char.isDigit
    | _ => []
  let exponentText := after.drop (if fraction.isEmpty then 0 else fraction.length + 1)
  let (head, taken) := absorb UInt64.size 0 0 whole
  if fraction.isEmpty && exponentText.isEmpty && taken == whole.length then
    .ok (if !negative then .natural head
      else if head = 0 || UInt64.size / 2 < head then .floating (-(Float.ofNat head))
      else .negative head)
  else
    let (head, more) := absorb UInt64.size head 0 fraction
    let scale : Int := (whole.length - taken : Nat) - more
    let down := (exponentText.drop 1).head? == some '-'
    let digits := exponentText.dropWhile fun c => !c.isDigit
    let (e, used) := absorb (UInt32.size / 2) 0 0 digits
    if used < digits.length then
      if head ≠ 0 && !down then .error (text.length - digits.length + used + 1)
      else .ok (.floating (if negative then -0.0 else 0.0))
    else
      match scaled? negative head (if down then scale - e else scale + e) with
      | some x => .ok x
      | none => .error text.length

end Numeral

end ShellDecl.Json
