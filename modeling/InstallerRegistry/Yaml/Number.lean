import InstallerRegistry.Number.Shortest

/-!
# Numbers of a YAML document

A number is an integer or a floating-point number, and the two are never equal. Integers are
written in decimal. A finite floating-point number is written as the shortest decimal that reads
back to it, always with a point or an exponent so that it cannot be taken for an integer.
-/

namespace InstallerRegistry.Yaml

/-- A number: an integer or a floating-point number. -/
inductive Number where
  | integer (n : Int)
  | float (x : Binary64)
deriving DecidableEq, Repr

namespace Number

/-- The digits `ds`, whose last one has the place value `10 ^ p`, with the point where it belongs:
positional from `10 ^ -5` up to below `10 ^ 16`, and with one digit before the point and an
exponent elsewhere. -/
def layOut (ds : Text) (p : Int) : Text :=
  -- The first digit stands just before the place `point`.
  let point : Int := ds.length + p
  if 0 ≤ p ∧ point ≤ 16 then ds ++ List.replicate p.toNat '0' ++ ['.', '0']
  else if 0 < point ∧ point ≤ 16 then ds.take point.toNat ++ '.' :: ds.drop point.toNat
  else if -5 < point ∧ point ≤ 0 then ['0', '.'] ++ List.replicate (-point).toNat '0' ++ ds
  else
    let mantissa := if ds.length = 1 then ds else ds.take 1 ++ '.' :: ds.drop 1
    mantissa ++ 'e' :: Text.ofInt (point - 1)

/-- The text of a floating-point number. -/
def ofBinary64 : Binary64 → Text
  | .nan => ".nan".toList
  | .infinite false => ".inf".toList
  | .infinite true => "-.inf".toList
  | .finite negative m e =>
    let magnitude :=
      if m = 0 then "0.0".toList
      else
        let (c, p) := Binary64.shortest m e
        layOut (Text.ofNat c) p
    if negative then '-' :: magnitude else magnitude

/-- The text of a number. -/
def text : Number → Text
  | integer n => Text.ofInt n
  | float x => ofBinary64 x

/-- Are two numbers the same? An integer and a floating-point number never are. -/
def same : Number → Number → Bool
  | integer a, integer b => a == b
  | float a, float b => a.same b
  | _, _ => false

end Number

end InstallerRegistry.Yaml
