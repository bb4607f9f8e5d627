/-!
# Shortest decimals

The decimal with the fewest digits that lies nearer to a binary number than to any other. A number is `m * 2 ^ q`; the
decimals that round to it form an interval, which has its ends if `m` is even. Of the grids with one digit, two digits
and so on, the first that has a point in the interval gives the digits, and of two points the nearer one.
-/

set_option autoImplicit false

namespace ShellDecl.Decimal

/-- The decimal `digits * 10 ^ exponent`. -/
structure Scaled where
  digits : Nat
  exponent : Int
  deriving DecidableEq, Repr

/-- A finite positive binary number `mantissa * 2 ^ exponent`. -/
structure Binary where
  mantissa : Nat
  exponent : Int
  /-- Whether the number below is only half as far away as the number above. -/
  narrow : Bool
  deriving DecidableEq, Repr

def scaledByTwo (n : Nat) (q : Int) : Nat × Nat :=
  if 0 ≤ q then (n <<< q.toNat, 1) else (n, 1 <<< (-q).toNat)

def overTen (x : Nat × Nat) (e : Int) : Nat × Nat :=
  if 0 ≤ e then (x.1, x.2 * Nat.pow 10 e.toNat) else (x.1 * Nat.pow 10 (-e).toNat, x.2)

def digitCount (n : Nat) : Nat :=
  (Nat.toDigits 10 n).length

/-- The number of digits in front of the point, negative for zeros after it. -/
def pointOf (x : Nat × Nat) : Int :=
  let guess : Int := digitCount x.1 - digitCount x.2
  let (n, d) := overTen x guess
  if n < d then guess else guess + 1

namespace Binary

/-- The number and the ends of its interval, all in quarters of the last binary place. -/
def quarters (b : Binary) : Nat × Nat × Nat :=
  (4 * b.mantissa, 4 * b.mantissa - (if b.narrow then 1 else 2), 4 * b.mantissa + 2)

/-- The nearest decimal with a given exponent, if it rounds to the number. -/
def onGrid? (b : Binary) (exponent : Int) : Option Scaled :=
  let (value, low, high) := b.quarters
  let (n, d) := overTen (scaledByTwo value (b.exponent - 2)) exponent
  let inside (k : Nat) : Bool :=
    -- `k` grid steps are `k * d * value / n` quarters.
    let step := k * d * value
    if b.mantissa % 2 = 0 then low * n ≤ step && step ≤ high * n else low * n < step && step < high * n
  let below := n / d
  let above := below + 1
  let nearer := if 2 * (n - below * d) < d then below
    else if 2 * (n - below * d) = d then (if below % 2 = 0 then below else above)
    else above
  let farther := if nearer = below then above else below
  if inside nearer then some ⟨nearer, exponent⟩
  else if inside farther then some ⟨farther, exponent⟩
  else none

def shortestFrom (b : Binary) (point : Int) (count : Nat) : Nat → Scaled
  | 0 => ⟨b.mantissa, 0⟩
  | tries + 1 =>
    match b.onGrid? (point - count) with
    | some x => x
    | none => shortestFrom b point (count + 1) tries

def trimmed (x : Scaled) : Nat → Scaled
  | 0 => x
  | tries + 1 => if x.digits % 10 = 0 ∧ x.digits ≠ 0 then trimmed ⟨x.digits / 10, x.exponent + 1⟩ tries else x

/-- Seventeen digits tell all numbers with 53 binary places apart. -/
def shortest (b : Binary) : Scaled :=
  let point := pointOf (scaledByTwo b.mantissa b.exponent)
  trimmed (b.shortestFrom point 1 17) 17

end Binary

def parts (x : Float) : Bool × Option Binary :=
  let bits : Nat := x.toBits.toNat
  let negative := bits >>> 63 == 1
  let exponent : Nat := (bits >>> 52) % (1 <<< 11)
  let fraction : Nat := bits % (1 <<< 52)
  if exponent = 0 then
    (negative, if fraction = 0 then none else some ⟨fraction, -1074, false⟩)
  else (negative, some ⟨(1 <<< 52) + fraction, (exponent : Int) - 1075, fraction = 0 && exponent != 1⟩)

end ShellDecl.Decimal
