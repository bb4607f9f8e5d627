import ShellDecl.Toml.Value

/-!
# Numbers and dates of TOML

Whole numbers have 64 bits and a sign, and a base if they start with one; an underscore may stand between two digits.
Of dates and times only the form and the ranges are checked.
-/

set_option autoImplicit false

namespace ShellDecl.Toml.Number

/-- How far digits run on behind a first one; an underscore that no digit follows is a fault. -/
def moreDigits? (isDigit : Char → Bool) : List Char → Option Nat
  | [] => some 0
  | '_' :: c :: rest => if isDigit c then (moreDigits? isDigit rest).map (· + 2) else none
  | c :: rest => if isDigit c then (moreDigits? isDigit rest).map (· + 1) else if c = '_' then none else some 0

def digits? (isDigit : Char → Bool) : List Char → Option Nat
  | c :: rest => if isDigit c then (moreDigits? isDigit rest).map (· + 1) else none
  | [] => none

def signLength : List Char → Nat
  | '+' :: _ => 1
  | '-' :: _ => 1
  | _ => 0

def wholeLength? (text : List Char) : Option Nat :=
  let sign := signLength text
  match text.drop sign with
  | '0' :: _ => some (sign + 1)
  | rest => (digits? Char.isDigit rest).map (sign + ·)

def exponentLength? : List Char → Option Nat
  | c :: rest =>
    if c = 'e' || c = 'E' then
      let sign := signLength rest
      (digits? Char.isDigit (rest.drop sign)).map (1 + sign + ·)
    else some 0
  | [] => some 0

def fractionLength? : List Char → Option Nat
  | '.' :: rest => (digits? Char.isDigit rest).map (1 + ·)
  | _ => some 0

def digitValue (c : Char) : Nat :=
  if c.isDigit then c.toNat - 48 else if c.isUpper then c.toNat - 55 else c.toNat - 87

def valueIn (base : Nat) (text : List Char) : Nat :=
  (text.filter (· != '_')).foldl (fun n c => n * base + digitValue c) 0

/-- A whole number times a power of ten. No finite number reaches 400 places in front of the point, and none that is
not zero has 400 zeros behind it. -/
def scaled (mantissa : Nat) (exponent : Int) : Float :=
  let places : Int := (Nat.toDigits 10 mantissa).length + exponent
  if mantissa = 0 ∨ places < -400 then 0.0
  else if 400 < places then 1.0 / 0.0
  else if exponent < 0 then Float.ofScientific mantissa true (-exponent).toNat
  else Float.ofScientific mantissa false exponent.toNat

def floating? (negative : Bool) (whole fraction exponent : List Char) : Option Scalar :=
  let fraction := (fraction.drop 1).filter (· != '_')
  let mantissa := valueIn 10 ((whole.drop (signLength whole)) ++ fraction)
  let power := exponent.drop 1
  let size : Int := valueIn 10 (power.drop (signLength power))
  let exponent := (if power.head? = some '-' then -size else size) - fraction.length
  let x := scaled mantissa exponent
  if negative then some (.floating (-x)) else if x.isInf then none else some (.floating x)

def integer? (i : Int) : Option Scalar :=
  if Int64.minValue.toInt ≤ i ∧ i ≤ Int64.maxValue.toInt then some (.integer i) else none

def decimal? (text : List Char) : Option (Scalar × List Char) := do
  let whole ← wholeLength? text
  let after := text.drop whole
  let fraction ← fractionLength? after
  let exponent ← exponentLength? (after.drop fraction)
  let negative := text.head? == some '-'
  let rest := after.drop (fraction + exponent)
  if fraction + exponent = 0 then
    let n : Int := valueIn 10 ((text.take whole).drop (signLength text))
    return (← integer? (if negative then -n else n), rest)
  else
    return (← floating? negative (text.take whole) (after.take fraction) ((after.drop fraction).take exponent), rest)

def inBase? (base : Nat) (isDigit : Char → Bool) (text : List Char) : Option (Scalar × List Char) := do
  let n ← digits? isDigit text
  return (← integer? (valueIn base (text.take n)), text.drop n)

def isHexDigit (c : Char) : Bool :=
  c.isDigit || ('a' ≤ c && c ≤ 'f') || ('A' ≤ c && c ≤ 'F')

def special? (text : List Char) : Option (Scalar × List Char) :=
  let sign := signLength text
  let negative := text.head? == some '-'
  match text.drop sign with
  | 'i' :: 'n' :: 'f' :: rest =>
    let x : Float := 1.0 / 0.0
    some (.floating (if negative then -x else x), rest)
  | 'n' :: 'a' :: 'n' :: rest => some (.floating (0.0 / 0.0), rest)
  | _ => none

/-! ## Dates -/

def field? (count low high : Nat) (text : List Char) : Option (Nat × List Char) :=
  let ds := text.take count
  let n := valueIn 10 ds
  if ds.length = count ∧ ds.all Char.isDigit ∧ low ≤ n ∧ n ≤ high then some (n, text.drop count) else none

def mark? (test : Char → Bool) : List Char → Option (List Char)
  | c :: rest => if test c then some rest else none
  | [] => none

def daysIn (year month : Nat) : Nat :=
  if month = 2 then (if year % 4 = 0 ∧ (year % 100 ≠ 0 ∨ year % 400 = 0) then 29 else 28)
  else if month = 4 ∨ month = 6 ∨ month = 9 ∨ month = 11 then 30
  else 31

def day? (text : List Char) : Option (List Char) := do
  let (year, text) ← field? 4 0 9999 text
  let (month, text) ← field? 2 1 12 (← mark? (· == '-') text)
  let (_, text) ← field? 2 1 (daysIn year month) (← mark? (· == '-') text)
  return text

def time? (text : List Char) : Option (List Char) := do
  let (_, text) ← field? 2 0 23 text
  let (_, text) ← field? 2 0 59 (← mark? (· == ':') text)
  let (_, text) ← field? 2 0 60 (← mark? (· == ':') text)
  match text with
  | '.' :: rest =>
    let fraction := rest.takeWhile Char.isDigit
    return if fraction.isEmpty then text else rest.drop fraction.length
  | text => return text

def offset? (text : List Char) : Option (List Char) :=
  match text with
  | 'Z' :: rest => some rest
  | 'z' :: rest => some rest
  | c :: rest =>
    if c = '+' || c = '-' then do
      let (_, rest) ← field? 2 0 23 rest
      let (_, rest) ← field? 2 0 59 (← mark? (· == ':') rest)
      return rest
    else none
  | [] => none

def date? (text : List Char) : Option (Scalar × List Char) :=
  match day? text with
  | some rest =>
    match (mark? (fun c => c == 'T' || c == 't' || c == ' ') rest).bind time? with
    | some rest' => some (.date, (offset? rest').getD rest')
    | none => some (.date, rest)
  | none => (time? text).map fun rest => (.date, rest)

def read (text : List Char) : Option (Scalar × List Char) :=
  match date? text with
  | some r => some r
  | none =>
    match text with
    | '0' :: 'x' :: rest => inBase? 16 isHexDigit rest
    | '0' :: 'o' :: rest => inBase? 8 (fun c => '0' ≤ c && c ≤ '7') rest
    | '0' :: 'b' :: rest => inBase? 2 (fun c => c == '0' || c == '1') rest
    | text =>
      match special? text with
      | some r => some r
      | none => decimal? text

end ShellDecl.Toml.Number
