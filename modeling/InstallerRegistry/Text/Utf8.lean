import InstallerRegistry.Text

/-!
# UTF-8

A character is written as one to four bytes, the first of which says how many follow. Reading
(`Utf8.decode`) takes characters off the front for as long as the bytes are well formed and hands
back the bytes it could not read, so the place of the first fault is the end of the text it did
read. A byte sequence is well formed only if it is the shortest for its character and the
character is not a surrogate.
-/

namespace InstallerRegistry.Utf8

/-- The bytes of one character. -/
def encodeChar (c : Char) : List UInt8 :=
  let n := c.toNat
  if n < 0x80 then [UInt8.ofNat n]
  else if n < 0x800 then [UInt8.ofNat (0xC0 + n / 0x40), UInt8.ofNat (0x80 + n % 0x40)]
  else if n < 0x10000 then
    [UInt8.ofNat (0xE0 + n / 0x1000), UInt8.ofNat (0x80 + n / 0x40 % 0x40),
      UInt8.ofNat (0x80 + n % 0x40)]
  else
    [UInt8.ofNat (0xF0 + n / 0x40000), UInt8.ofNat (0x80 + n / 0x1000 % 0x40),
      UInt8.ofNat (0x80 + n / 0x40 % 0x40), UInt8.ofNat (0x80 + n % 0x40)]

/-- The bytes of a text. -/
def encode (t : Text) : List UInt8 :=
  t.flatMap encodeChar

/-- The number of bytes of a text. -/
def size (t : Text) : Nat :=
  (encode t).length

/-- Can the byte continue a character? -/
def isTail (b : Nat) : Bool :=
  0x80 ≤ b && b ≤ 0xBF

/-- The second bytes that may follow the first byte `a` of a character of three bytes: the others
would give a character that has a shorter form, or a surrogate. -/
def isSecondOfThree (a b : Nat) : Bool :=
  if a == 0xE0 then 0xA0 ≤ b && b ≤ 0xBF
  else if a == 0xED then 0x80 ≤ b && b ≤ 0x9F
  else isTail b

/-- The second bytes that may follow the first byte `a` of a character of four bytes: the others
would give a character that has a shorter form, or one beyond the last. -/
def isSecondOfFour (a b : Nat) : Bool :=
  if a == 0xF0 then 0x90 ≤ b && b ≤ 0xBF
  else if a == 0xF4 then 0x80 ≤ b && b ≤ 0x8F
  else isTail b

/-- The first character of a byte sequence and the number of its bytes, if the sequence begins
with a well-formed character. -/
def first? : List Nat → Option (Char × Nat)
  | [] => none
  | a :: rest =>
    if a < 0x80 then some (Char.ofNat a, 1)
    else if 0xC2 ≤ a ∧ a ≤ 0xDF then
      match rest with
      | b :: _ => if isTail b then some (Char.ofNat (a % 0x20 * 0x40 + b % 0x40), 2) else none
      | _ => none
    else if 0xE0 ≤ a ∧ a ≤ 0xEF then
      match rest with
      | b :: c :: _ =>
        if isSecondOfThree a b && isTail c then
          some (Char.ofNat (a % 0x10 * 0x1000 + b % 0x40 * 0x40 + c % 0x40), 3)
        else none
      | _ => none
    else if 0xF0 ≤ a ∧ a ≤ 0xF4 then
      match rest with
      | b :: c :: d :: _ =>
        if isSecondOfFour a b && isTail c && isTail d then
          some (Char.ofNat (a % 0x08 * 0x40000 + b % 0x40 * 0x1000 + c % 0x40 * 0x40 + d % 0x40), 4)
        else none
      | _ => none
    else none

theorem first?_pos {bytes : List Nat} {c : Char} {n : Nat} (h : first? bytes = some (c, n)) :
    0 < n := by
  unfold first? at h
  repeat' split at h
  all_goals simp only [reduceCtorEq, Option.some.injEq, Prod.mk.injEq] at h
  all_goals omega

theorem first?_nil : first? [] = none := rfl

/-- The text at the front of a byte sequence, and the bytes from the first fault on: none at all
if the whole sequence is well formed. -/
def decode (bytes : List UInt8) : Text × List UInt8 :=
  match _h : first? (bytes.take 4 |>.map UInt8.toNat) with
  | none => ([], bytes)
  | some (c, n) =>
    let (t, rest) := decode (bytes.drop n)
    (c :: t, rest)
termination_by bytes.length
decreasing_by
  have hn := first?_pos _h
  cases bytes with
  | nil => simp [first?_nil] at _h
  | cons b bytes => simp; omega

/-- The text of a byte sequence that is well formed as a whole. -/
def decode? (bytes : List UInt8) : Option Text :=
  match decode bytes with
  | (t, []) => some t
  | (_, _ :: _) => none

end InstallerRegistry.Utf8
