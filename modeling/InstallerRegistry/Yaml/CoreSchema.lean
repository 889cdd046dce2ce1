import InstallerRegistry.Yaml.Value

/-!
# The core schema

What a plain scalar denotes is decided by its text. `~`, `null` and the empty text are null; `true`
and `false` in three spellings each are truth values; decimal, `0x`, `0o` and `0b` numerals with an
optional sign are integers; decimal notation with a point or an exponent, the infinities and
`.nan` are floating-point numbers; all else is text. Digits behind a needless leading zero are
text, too.

An integer has to lie between `-2 ^ 63` and `2 ^ 64`. One that does not, but still fits in 128
bits, denotes nothing at all; beyond that, its digits are read as a floating-point number.
-/

namespace InstallerRegistry.Yaml.CoreSchema

/-- The spellings of null, the empty text apart. -/
def isNullWord (t : Text) : Bool :=
  t == "null".toList || t == "Null".toList || t == "NULL".toList || t == ['~']

/-- The truth value a text spells. -/
def boolean? (t : Text) : Option Bool :=
  if t == "true".toList || t == "True".toList || t == "TRUE".toList then some true
  else if t == "false".toList || t == "False".toList || t == "FALSE".toList then some false
  else none

/-! ## Integers -/

/-- A text without the sign at its front. -/
def unsigned : Text → Text
  | '-' :: rest => rest
  | '+' :: rest => rest
  | t => t

/-- Is the text made of digits behind a leading zero? Such a text is no number. -/
def hasLeadingZero (t : Text) : Bool :=
  match unsigned t with
  | '0' :: c :: rest => (c :: rest).all Char.isDigit
  | _ => false

/-- The value of a digit in any base up to thirty-six, of either case. -/
def digitValue (c : Char) : Nat :=
  if c.isDigit then c.toNat - 0x30
  else if c.isLower then c.toNat - 0x61 + 10
  else if c.isUpper then c.toNat - 0x41 + 10
  else 36

/-- The number that digits of a base denote; there is at least one digit. -/
def numeral? (base : Nat) (t : Text) : Option Nat :=
  if !t.isEmpty && t.all (fun c => digitValue c < base) then
    some (t.foldl (fun n c => n * base + digitValue c) 0)
  else none

/-- The number that a text without a sign denotes, in the base its beginning announces. -/
def magnitude? : Text → Option Nat
  | '0' :: 'x' :: rest => numeral? 16 rest
  | '0' :: 'o' :: rest => numeral? 8 rest
  | '0' :: 'b' :: rest => numeral? 2 rest
  | t => if hasLeadingZero t then none else numeral? 10 t

/-- The integer that a text denotes, of whatever size. -/
def integer? : Text → Option Int
  | '-' :: rest => (magnitude? rest).map fun n => -(n : Int)
  | '+' :: rest => (magnitude? rest).map fun n => (n : Int)
  | t => (magnitude? t).map fun n => (n : Int)

/-- The integer a text denotes, if it fits in 64 bits with a sign. -/
def int64? (t : Text) : Option Int :=
  (integer? t).filter fun n => -0x8000000000000000 ≤ n && n < 0x8000000000000000

/-! ## Floating-point numbers -/

/-- The floating-point number a text denotes. A numeral beyond the largest one denotes none. -/
def float? (t : Text) : Option Binary64 :=
  let positive :=
    match t with
    | '+' :: rest => rest
    | t => t
  let signs :=
    match t with
    | '+' :: '+' :: _ => true
    | '+' :: '-' :: _ => true
    | _ => false
  if signs then none
  else if [".inf", ".Inf", ".INF"].any (·.toList == positive) then some (.infinite false)
  else if ["-.inf", "-.Inf", "-.INF"].any (·.toList == t) then some (.infinite true)
  else if [".nan", ".NaN", ".NAN"].any (·.toList == t) then some .nan
  else
    match (Decimal.ofText? positive).map Binary64.ofDecimal with
    | some (.finite s m e) => some (.finite s m e)
    | _ => none

/-! ## Scalars -/

/-- Is the integer too wide for a number, yet within 128 bits? -/
def isTooWide (n : Int) : Bool :=
  (0x10000000000000000 ≤ n && n < 0x100000000000000000000000000000000)
    || (-0x80000000000000000000000000000000 ≤ n && n < -0x8000000000000000)

/-- **What a plain scalar denotes.** Nothing, if it is an integer too wide for a number. -/
def resolve (t : Text) : Option Value :=
  if t.isEmpty || isNullWord t then some .null
  else
    match boolean? t with
    | some b => some (.boolean b)
    | none =>
      let asFloat : Value :=
        if hasLeadingZero t then .text t
        else
          match float? t with
          | some x => .number (.float x)
          | none => .text t
      match integer? t with
      | some n =>
        if -0x8000000000000000 ≤ n && n < 0x10000000000000000 then some (.number (.integer n))
        else if isTooWide n then none
        else some asFloat
      | none => some asFloat

/-- Does a plain scalar denote the text it is written as, without looking like a number? -/
def isPlainText (t : Text) : Bool :=
  match resolve t with
  | some (.text _) => !hasLeadingZero t
  | _ => false

end InstallerRegistry.Yaml.CoreSchema
