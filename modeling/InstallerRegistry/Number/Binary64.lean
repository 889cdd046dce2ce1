import InstallerRegistry.Text

/-!
# Binary floating point, exactly

A finite number of the format binary64 is an integer below `2 ^ 53` times a power of two, and that
is how it is held here: nothing about it is approximate, and two values are equal when they are
written alike. Zero keeps its sign.

Rounding (`Binary64.ofFraction`) takes the nearest such number to a fraction and, of two equally
near ones, the one whose integer is even. A fraction beyond the largest number rounds to infinity.
-/

namespace InstallerRegistry

/-- A **decimal**: an integer times a power of ten, with a sign that zero keeps. -/
structure Decimal where
  negative : Bool
  coefficient : Nat
  exponent : Int
deriving DecidableEq, Repr

/-- A number of the format binary64. The finite ones are `mantissa * 2 ^ exponent`, the mantissa
having 53 bits unless the exponent is the least one, `-1074`. -/
inductive Binary64 where
  | nan
  | infinite (negative : Bool)
  | finite (negative : Bool) (mantissa : Nat) (exponent : Int)
deriving DecidableEq, Repr

/-! ## Reading decimals -/

namespace Decimal

/-- The digits at the front of a text, and the rest. -/
def digits (t : Text) : Text × Text :=
  (t.takeWhile Char.isDigit, t.dropWhile Char.isDigit)

/-- The number that decimal digits denote. -/
def valueOf (digits : Text) : Nat :=
  Nat.ofDigitChars 10 digits 0

/-- A sign at the front of a text (is it a minus?), and the rest. -/
def sign : Text → Bool × Text
  | '-' :: rest => (true, rest)
  | '+' :: rest => (false, rest)
  | t => (false, t)

/-- The exponent a text ends with: nothing, or an `e` of either case, a sign and digits. -/
def exponent? : Text → Option Int
  | [] => some 0
  | c :: rest =>
    if c = 'e' ∨ c = 'E' then
      let (negative, rest) := sign rest
      match digits rest with
      | ([], _) => none
      | (ds, []) => some (if negative then -(valueOf ds : Int) else valueOf ds)
      | (_, _ :: _) => none
    else none

/-- **Decimal notation**: a sign, digits with or without a point among, before or behind them, and
an exponent. There is at least one digit. -/
def ofText? (t : Text) : Option Decimal :=
  let (negative, t) := sign t
  let (whole, rest) := digits t
  let (fraction, rest) :=
    match rest with
    | '.' :: rest => digits rest
    | rest => ([], rest)
  if whole.isEmpty && fraction.isEmpty then none
  else
    (exponent? rest).map fun e =>
      ⟨negative, valueOf (whole ++ fraction), e - fraction.length⟩

end Decimal

/-! ## Rounding -/

namespace Binary64

/-- The integer nearest to `n / d`; of two equally near ones the even one. -/
def roundDiv (n d : Nat) : Nat :=
  let q := n / d
  let r := n % d
  if 2 * r < d then q
  else if d < 2 * r then q + 1
  else if q % 2 = 0 then q
  else q + 1

/-- Two to the power of the positive part of an integer. -/
def powerOfTwo (e : Int) : Nat :=
  Nat.pow 2 e.toNat

/-- The number nearest to the fraction `num / den`. -/
def ofFraction (negative : Bool) (num den : Nat) : Binary64 :=
  if num = 0 then finite negative 0 (-1074)
  else
    -- The quotient by `2 ^ guess` lies strictly between `2 ^ 52` and `2 ^ 54`.
    let guess : Int := (num.log2 : Int) - den.log2 - 53
    let whole := num * powerOfTwo (-guess) / (den * powerOfTwo guess)
    let e := max (if whole < 0x20000000000000 then guess else guess + 1) (-1074)
    let m := roundDiv (num * powerOfTwo (-e)) (den * powerOfTwo e)
    let (m, e) := if m = 0x20000000000000 then (0x10000000000000, e + 1) else (m, e)
    if 971 < e then infinite negative
    else if m = 0 then finite negative 0 (-1074)
    else finite negative m e

/-- The number nearest to a decimal. A decimal whose first digit stands beyond the places that any
finite number reaches is settled by that alone. -/
def ofDecimal (d : Decimal) : Binary64 :=
  let leading := (Text.ofNat d.coefficient).length + d.exponent
  if d.coefficient = 0 then finite d.negative 0 (-1074)
  else if 310 < leading then infinite d.negative
  else if leading < -330 then finite d.negative 0 (-1074)
  else
    ofFraction d.negative (d.coefficient * Nat.pow 10 d.exponent.toNat)
      (Nat.pow 10 (-d.exponent).toNat)

/-- Are two numbers equal as numbers? Zeros of either sign are, and so are two that are no numbers
at all. -/
def same : Binary64 → Binary64 → Bool
  | finite _ 0 _, finite _ 0 _ => true
  | a, b => a == b

end Binary64

end InstallerRegistry
