import InstallerRegistry.Number.Binary64

/-!
# The shortest decimal that reads back

The reals that round to a binary64 number form an interval around it. Among the decimals in that
interval, the one written is of the fewest digits and, among those, the nearest to the number
itself; of two equally near ones the one whose last digit is even.

For each number of digits the two neighbours of the value on that decimal grid are tried, in exact
arithmetic: if any point of a grid lies in the interval, so does one of these two.
-/

namespace InstallerRegistry.Binary64

/-- The number of decimal digits of a number. -/
def digitCount (n : Nat) : Nat :=
  (Nat.toDigits 10 n).length

/-- The exponent of ten of the first digit of `num / den`. -/
def leadingExponent (num den : Nat) : Int :=
  if den ≤ num then (digitCount (num / den) : Int) - 1
  else -(digitCount ((den - 1) / num) : Int)

/-- The decimal point of the interval on the grid of `10 ^ p` that is nearest to `mid / den`, if
there is one. The interval reaches from `low / den` to `high / den`, with its ends if `closed`. -/
def onGrid? (low mid high den : Nat) (closed : Bool) (p : Int) : Option (Nat × Int) :=
  let unit := den * Nat.pow 10 p.toNat
  let scale := Nat.pow 10 (-p).toNat
  let inside := fun x : Nat =>
    if closed then low * scale ≤ x * unit ∧ x * unit ≤ high * scale
    else low * scale < x * unit ∧ x * unit < high * scale
  let below := mid * scale / unit
  let above := below + 1
  match decide (inside below), decide (inside above) with
  | true, true =>
    let toBelow := mid * scale - below * unit
    let toAbove := above * unit - mid * scale
    if toBelow < toAbove ∨ (toBelow = toAbove ∧ below % 2 = 0) then some (below, p)
    else some (above, p)
  | true, false => some (below, p)
  | false, true => some (above, p)
  | false, false => none

/-- The same decimal with no zero at the end of its coefficient. -/
def withoutZeros (c : Nat) (p : Int) : Nat × Int :=
  if c = 0 ∨ c % 10 ≠ 0 then (c, p) else withoutZeros (c / 10) (p + 1)
termination_by c
decreasing_by omega

/-- The shortest decimal, as a coefficient and an exponent of ten, that rounds to
`m * 2 ^ e` (`m` not zero). Seventeen digits always suffice. -/
def shortest (m : Nat) (e : Int) : Nat × Int :=
  -- In units of a quarter of the last place, the interval reaches two below and two above the
  -- value, but only one below it where the numbers below lie twice as close.
  let lowUnits := if m = 0x10000000000000 ∧ -1074 < e then 4 * m - 1 else 4 * m - 2
  let scale := powerOfTwo (e - 2)
  let den := powerOfTwo (2 - e)
  let (low, mid, high) := (lowUnits * scale, 4 * m * scale, (4 * m + 2) * scale)
  let leading := leadingExponent mid den
  let candidate := (List.range 17).findSome? fun (n : Nat) =>
    onGrid? low mid high den (m % 2 = 0) (leading - (n : Int))
  let (c, p) := candidate.getD (m, 0)
  withoutZeros c p

end InstallerRegistry.Binary64
