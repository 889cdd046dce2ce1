import InstallerRegistry.Proofs.Identifier
import InstallerRegistry.Proofs.Number.Shortest
import InstallerRegistry.Proofs.Text.Cutting
import InstallerRegistry.Yaml.CoreSchema

/-!
# Texts of numbers

The text of a number belongs to no other number (`Number.text_injective`). For integers, that is so
because their digits can be read. The text of a finite floating-point number reads as a decimal that
rounds to it (`Number.exists_ofText?_ofBinary64`), and no decimal rounds to two numbers. A point or
an exponent tells the two kinds apart.

All of that is about the numbers of the format binary64. No others are ever read
(`CoreSchema.isProper_of_resolve`).
-/

namespace InstallerRegistry

/-! ## Reading decimals -/

namespace Decimal

/-- How large a decimal is, whatever its sign. -/
def magnitude (d : Decimal) : ℚ :=
  d.coefficient * 10 ^ d.exponent

/-- Is the text made of digits only? -/
def IsDigits (t : Text) : Prop :=
  ∀ c ∈ t, c.isDigit = true

/-- What a decimal ends with, and the exponent that this says: nothing, or an integer behind an
`e`. -/
inductive IsEnding : Text → ℤ → Prop
  | none : IsEnding [] 0
  | exponent (k : ℤ) : IsEnding ('e' :: Text.ofInt k) k

theorem isDigits_ofNat (n : ℕ) : IsDigits (Text.ofNat n) :=
  fun _ hc => Nat.isDigit_of_mem_toDigits (by decide) (by decide) hc

theorem isDigits_zeros (n : ℕ) : IsDigits (List.replicate n '0') :=
  fun _ hc => by rw [List.eq_of_mem_replicate hc]; rfl

theorem IsDigits.append {a b : Text} (ha : IsDigits a) (hb : IsDigits b) : IsDigits (a ++ b) :=
  List.forall_mem_append.2 ⟨ha, hb⟩

theorem IsDigits.take {t : Text} (h : IsDigits t) (n : ℕ) : IsDigits (t.take n) :=
  fun c hc => h c (List.mem_of_mem_take hc)

theorem IsDigits.drop {t : Text} (h : IsDigits t) (n : ℕ) : IsDigits (t.drop n) :=
  fun c hc => h c (List.mem_of_mem_drop hc)

theorem ofNat_ne_nil (n : ℕ) : Text.ofNat n ≠ [] :=
  Nat.toDigits_ne_nil

@[simp] theorem valueOf_ofNat (n : ℕ) : valueOf (Text.ofNat n) = n :=
  Nat.ofDigitChars_ten_toDigits

theorem valueOf_append (a b : Text) :
    valueOf (a ++ b) = valueOf a * 10 ^ b.length + valueOf b := by
  unfold valueOf
  rw [Nat.ofDigitChars_append, Nat.ofDigitChars_eq_ofDigitChars_zero, Nat.mul_comm]

@[simp] theorem valueOf_zeros (n : ℕ) : valueOf (List.replicate n '0') = 0 := by
  rw [valueOf, Nat.ofDigitChars_replicate_zero, Nat.mul_zero]

/-- Digits are read up to the first character that is none. -/
theorem digits_append {ds rest : Text} (h : IsDigits ds)
    (hrest : ∀ c ∈ rest.head?, c.isDigit = false) : digits (ds ++ rest) = (ds, rest) := by
  obtain ⟨hds, hbehind⟩ := Text.span_append h hrest
  rw [digits, hds, hbehind]

/-- Digits have no sign in front. -/
theorem sign_append {ds : Text} (h : IsDigits ds) (hne : ds ≠ []) (rest : Text) :
    sign (ds ++ rest) = (false, ds ++ rest) := by
  obtain ⟨c, ds, rfl⟩ := List.exists_cons_of_ne_nil hne
  have hc : c.isDigit = true := h c List.mem_cons_self
  rw [List.cons_append]
  unfold sign
  split
  next heq => cases heq; exact absurd hc (by decide)
  next heq => cases heq; exact absurd hc (by decide)
  next => rfl

/-- The digits behind a point, if there is one, and the rest. -/
def fractionOf : Text → Text × Text
  | '.' :: rest => digits rest
  | rest => ([], rest)

/-- A decimal is read part by part. -/
theorem ofText?_eq (t : Text) :
    ofText? t =
      let unsigned := (sign t).2
      let whole := (digits unsigned).1
      let fraction := (fractionOf (digits unsigned).2).1
      if whole.isEmpty && fraction.isEmpty then none
      else (exponent? (fractionOf (digits unsigned).2).2).map fun e =>
        ⟨(sign t).1, valueOf (whole ++ fraction), e - fraction.length⟩ :=
  rfl

/-- A text that starts with digits is a decimal if an exponent or nothing stands behind these and a
fraction. -/
theorem ofText?_append {whole rest : Text} (h : IsDigits whole) (hne : whole ≠ [])
    (hrest : ∀ c ∈ rest.head?, c.isDigit = false) :
    ofText? (whole ++ rest) = (exponent? (fractionOf rest).2).map fun e =>
      ⟨false, valueOf (whole ++ (fractionOf rest).1), e - (fractionOf rest).1.length⟩ := by
  have hdigit : ¬ (whole.isEmpty && (fractionOf rest).1.isEmpty) = true := by simp [hne]
  rw [ofText?_eq, sign_append h hne]
  dsimp only
  rw [digits_append h hrest, if_neg hdigit]

/-- A minus sign in front changes the sign of a decimal that has none. -/
theorem ofText?_neg {t : Text} (hsign : sign t = (false, t)) :
    ofText? ('-' :: t) = (ofText? t).map fun d => { d with negative := true } := by
  have hminus : sign ('-' :: t) = (true, t) := rfl
  rw [ofText?_eq, ofText?_eq, hminus, hsign]
  dsimp only
  split
  next => rfl
  next => rw [Option.map_map]; rfl

/-- Digits behind an `e` and a sign are an exponent. -/
theorem exponent?_ofNat {t : Text} {negative : Bool} {n : ℕ}
    (h : sign t = (negative, Text.ofNat n)) :
    exponent? ('e' :: t) = some (if negative then -(n : ℤ) else n) := by
  have hread : digits (Text.ofNat n ++ []) = (Text.ofNat n, []) :=
    digits_append (isDigits_ofNat n) nofun
  rw [List.append_nil] at hread
  have hvalue := valueOf_ofNat n
  rw [exponent?, if_pos (.inl rfl), h]
  dsimp only
  rw [hread]
  obtain ⟨c, ds, hds⟩ := List.exists_cons_of_ne_nil (ofNat_ne_nil n)
  rw [hds] at hvalue ⊢
  dsimp only
  rw [hvalue]

theorem exponent?_of_isEnding {t : Text} {k : ℤ} (h : IsEnding t k) : exponent? t = some k := by
  cases h with
  | none => rfl
  | exponent k =>
    cases k with
    | ofNat n =>
      have hsign := sign_append (isDigits_ofNat n) (ofNat_ne_nil n) []
      rw [List.append_nil] at hsign
      exact exponent?_ofNat hsign
    | negSucc n =>
      have hsign : sign ('-' :: Text.ofNat (n + 1)) = (true, Text.ofNat (n + 1)) := rfl
      exact exponent?_ofNat hsign

/-- No ending starts with a digit or a point. -/
theorem IsEnding.head_eq {t : Text} {k : ℤ} (h : IsEnding t k) : ∀ c ∈ t.head?, c = 'e' := by
  cases h with
  | none => exact nofun
  | exponent k => rintro _ ⟨⟩; rfl

/-- **Does a text write a magnitude**, in decimal notation and without a sign? -/
structure Writes (t : Text) (x : ℚ) : Prop where
  unsigned : sign t = (false, t)
  read : ∃ d, ofText? t = some d ∧ d.negative = false ∧ d.magnitude = x

/-- The digits around a point write one number. -/
theorem writes_pointed {whole fraction ending : Text} {k : ℤ} (hwhole : IsDigits whole)
    (hne : whole ≠ []) (hfraction : IsDigits fraction) (hending : IsEnding ending k) :
    Writes (whole ++ '.' :: (fraction ++ ending))
      (valueOf (whole ++ fraction) * 10 ^ (k - fraction.length)) := by
  have hread : fractionOf ('.' :: (fraction ++ ending)) = (fraction, ending) :=
    digits_append hfraction fun c hc => by rw [hending.head_eq c hc]; rfl
  refine ⟨sign_append hwhole hne _,
    ⟨false, valueOf (whole ++ fraction), k - fraction.length⟩, ?_, rfl, rfl⟩
  rw [ofText?_append hwhole hne fun c hc => by cases hc; rfl, hread, exponent?_of_isEnding hending]
  rfl

theorem writes_whole {whole ending : Text} {k : ℤ} (hwhole : IsDigits whole) (hne : whole ≠ [])
    (hending : IsEnding ending k) : Writes (whole ++ ending) (valueOf whole * 10 ^ k) := by
  have hread : fractionOf ending = ([], ending) := by
    cases hending <;> rfl
  refine ⟨sign_append hwhole hne _, ⟨false, valueOf whole, k⟩, ?_, rfl, rfl⟩
  rw [ofText?_append hwhole hne fun c hc => by rw [hending.head_eq c hc]; rfl, hread,
    exponent?_of_isEnding hending, List.append_nil]
  simp

/-- **A sign and a magnitude are read**, if the minus sign stands in front of what is negative. -/
theorem Writes.exists_ofText? {t : Text} {x : ℚ} (h : Writes t x) (negative : Bool) :
    ∃ d, ofText? (if negative then '-' :: t else t) = some d ∧ d.negative = negative
      ∧ d.magnitude = x := by
  obtain ⟨d, hread, hpositive, hx⟩ := h.read
  cases negative with
  | false => exact ⟨d, hread, hpositive, hx⟩
  | true =>
    refine ⟨{ d with negative := true }, ?_, rfl, hx⟩
    rw [if_pos rfl, ofText?_neg h.unsigned, hread, Option.map_some]

end Decimal

/-! ## Writing decimals -/

namespace Yaml.Number

open Binary64 (IsFormat RoundsTo)
open Decimal

/-- Zeros behind the digits of a whole number. -/
theorem writes_zeros (c n : ℕ) :
    Writes (Text.ofNat c ++ List.replicate n '0' ++ ['.', '0']) (c * 10 ^ (n : ℤ)) := by
  have hone : IsDigits ['0'] := isDigits_zeros 1
  have hread := writes_pointed ((isDigits_ofNat c).append (isDigits_zeros n))
    (List.append_ne_nil_of_left_ne_nil (ofNat_ne_nil c) _) hone .none
  have hvalue : valueOf (Text.ofNat c ++ List.replicate n '0' ++ ['0']) = c * 10 ^ (n + 1) := by
    rw [List.append_assoc, ← List.replicate_succ', valueOf_append, valueOf_ofNat, valueOf_zeros,
      List.length_replicate, Nat.add_zero]
  have htenth : ((c * 10 ^ (n + 1) : ℕ) : ℚ) * 10 ^ (0 - ((1 : ℕ) : ℤ)) = c * 10 ^ (n : ℤ) := by
    push_cast
    rw [mul_assoc, ← zpow_natCast, ← zpow_add₀ (by norm_num)]
    norm_num
  rw [hvalue, List.length_singleton, htenth] at hread
  exact hread

/-- A point among the digits. -/
theorem writes_take_drop {c n : ℕ} {ending : Text} {k p : ℤ} (hn : 0 < n)
    (hle : n ≤ (Text.ofNat c).length) (hending : IsEnding ending k)
    (hp : p = k - ((Text.ofNat c).length - n)) :
    Writes ((Text.ofNat c).take n ++ '.' :: ((Text.ofNat c).drop n ++ ending)) (c * 10 ^ p) := by
  have hdigits := isDigits_ofNat c
  have hne : (Text.ofNat c).take n ≠ [] := by
    rw [ne_eq, List.take_eq_nil_iff]
    exact not_or.2 ⟨hn.ne', ofNat_ne_nil c⟩
  have hread := writes_pointed (hdigits.take n) hne (hdigits.drop n) hending
  rwa [List.take_append_drop, valueOf_ofNat, List.length_drop, Nat.cast_sub hle, ← hp] at hread

/-- Zeros between the point and the digits. -/
theorem writes_leadingZeros {c n : ℕ} {p : ℤ} (hp : p = -(n + (Text.ofNat c).length : ℤ)) :
    Writes (['0', '.'] ++ List.replicate n '0' ++ Text.ofNat c) (c * 10 ^ p) := by
  have hzero : IsDigits ['0'] := isDigits_zeros 1
  have hread := writes_pointed hzero (List.cons_ne_nil _ _)
    ((isDigits_zeros n).append (isDigits_ofNat c)) .none
  have hvalue : valueOf (['0'] ++ (List.replicate n '0' ++ Text.ofNat c)) = c := by
    rw [← List.append_assoc, List.singleton_append, ← List.replicate_succ, valueOf_append,
      valueOf_zeros, Nat.zero_mul, Nat.zero_add, valueOf_ofNat]
  rw [hvalue, List.append_nil, List.length_append, List.length_replicate, zero_sub,
    Nat.cast_add, ← hp] at hread
  exact hread

/-- **Digits are laid out** so that they write the number they are laid out for. -/
theorem writes_layOut (c : ℕ) (p : ℤ) : Writes (layOut (Text.ofNat c) p) (c * 10 ^ p) := by
  have hlength : 0 < (Text.ofNat c).length := List.length_pos_of_ne_nil (ofNat_ne_nil c)
  unfold layOut
  dsimp only
  split
  next h =>
    obtain ⟨n, rfl⟩ := Int.eq_ofNat_of_zero_le h.1
    exact writes_zeros c n
  next hsmall =>
    split
    next hpoint =>
      obtain ⟨n, hn⟩ := Int.eq_ofNat_of_zero_le hpoint.1.le
      have hread := writes_take_drop (c := c) (n := n) (p := p) (by omega) (by omega) .none
        (by omega)
      rwa [hn, Int.toNat_natCast, ← List.append_nil (List.drop n _)]
    next =>
      split
      next hpoint =>
        obtain ⟨n, hn⟩ := Int.eq_ofNat_of_zero_le (Int.neg_nonneg_of_nonpos hpoint.2)
        rw [hn, Int.toNat_natCast]
        exact writes_leadingZeros (by omega)
      next =>
        generalize hk : ((Text.ofNat c).length + p - 1 : ℤ) = k
        have hending := IsEnding.exponent k
        split
        next hone =>
          obtain rfl : k = p := by omega
          have hread := writes_whole (isDigits_ofNat c) (ofNat_ne_nil c) hending
          rwa [valueOf_ofNat] at hread
        next =>
          rw [List.append_assoc, List.cons_append]
          exact writes_take_drop Nat.one_pos hlength hending (by omega)

/-- The text of a finite number, without its sign. -/
def textOfMagnitude (m : ℕ) (e : ℤ) : Text :=
  if m = 0 then "0.0".toList
  else layOut (Text.ofNat (Binary64.shortest m e).1) (Binary64.shortest m e).2

theorem ofBinary64_finite (negative : Bool) (m : ℕ) (e : ℤ) :
    ofBinary64 (.finite negative m e)
      = if negative then '-' :: textOfMagnitude m e else textOfMagnitude m e :=
  rfl

theorem exists_writes_textOfMagnitude {m : ℕ} {e : ℤ} (h : IsFormat m e) :
    ∃ x, Writes (textOfMagnitude m e) x ∧ RoundsTo x m e := by
  unfold textOfMagnitude
  split
  next hm =>
    have hread : ∃ d, ofText? "0.0".toList = some d ∧ d.negative = false ∧ d.magnitude = 0 :=
      ⟨⟨false, 0, -1⟩, rfl, rfl, zero_mul _⟩
    exact ⟨0, ⟨rfl, hread⟩, hm ▸ Binary64.roundsTo_zero e⟩
  next hm => exact ⟨_, writes_layOut _ _, Binary64.roundsTo_shortest h hm⟩

/-- **The text of a finite number reads as a decimal that rounds to it.** -/
theorem exists_ofText?_ofBinary64 {m : ℕ} {e : ℤ} (h : IsFormat m e) (negative : Bool) :
    ∃ d, ofText? (ofBinary64 (.finite negative m e)) = some d ∧ d.negative = negative
      ∧ RoundsTo d.magnitude m e := by
  obtain ⟨x, hwrites, hx⟩ := exists_writes_textOfMagnitude h
  obtain ⟨d, hread, hnegative, rfl⟩ := hwrites.exists_ofText? negative
  exact ⟨d, hread, hnegative, hx⟩

/-! ## Telling numbers apart -/

/-- Is there a point in a text, or a digit and an exponent? -/
def IsFractional (t : Text) : Prop :=
  '.' ∈ t ∨ 'e' ∈ t ∧ ∃ c ∈ t, c.isDigit = true

theorem IsFractional.mono {t u : Text} (h : IsFractional t) (hsub : t ⊆ u) : IsFractional u :=
  h.imp (fun h => hsub h) fun ⟨he, c, hc, hdigit⟩ => ⟨hsub he, c, hsub hc, hdigit⟩

theorem isFractional_layOut (n : ℕ) (p : ℤ) : IsFractional (layOut (Text.ofNat n) p) := by
  unfold layOut
  dsimp only
  split
  next => exact .inl (by simp)
  next =>
    split
    next => exact .inl (by simp)
    next =>
      split
      next => exact .inl (by simp)
      next =>
        split
        next =>
          obtain ⟨c, hc⟩ := List.exists_mem_of_ne_nil _ (ofNat_ne_nil n)
          exact .inr ⟨by simp, c, List.mem_append_left _ hc, isDigits_ofNat n c hc⟩
        next => exact .inl (by simp)

/-- The text of a floating-point number is never that of an integer. -/
theorem isFractional_ofBinary64 (x : Binary64) : IsFractional (ofBinary64 x) := by
  cases x with
  | nan => exact .inl (by decide)
  | infinite negative => exact .inl (by cases negative <;> decide)
  | finite negative m e =>
    have hmagnitude : IsFractional (textOfMagnitude m e) := by
      unfold textOfMagnitude
      split
      next => exact .inl (by decide)
      next => exact isFractional_layOut _ _
    rw [ofBinary64_finite]
    split
    next => exact hmagnitude.mono (List.subset_cons_self _ _)
    next => exact hmagnitude

theorem eq_or_isDigit_of_mem_ofInt {k : ℤ} : ∀ c ∈ Text.ofInt k, c = '-' ∨ c.isDigit = true := by
  intro c hc
  cases k with
  | ofNat n => exact .inr (isDigits_ofNat n c hc)
  | negSucc n =>
    rcases List.mem_cons.1 hc with hc | hc
    · exact .inl hc
    · exact .inr (isDigits_ofNat _ c hc)

theorem ofInt_injective {k l : ℤ} (h : Text.ofInt k = Text.ofInt l) : k = l := by
  have hminus : ∀ n, '-' ∉ Text.ofNat n := fun n hmem =>
    absurd (isDigits_ofNat n _ hmem) (by decide)
  cases k with
  | ofNat m =>
    cases l with
    | ofNat n => rw [Identifier.ofNat_injective h]
    | negSucc n =>
      refine absurd ?_ (hminus m)
      rw [show Text.ofNat m = '-' :: Text.ofNat (n + 1) from h]
      exact List.mem_cons_self
  | negSucc m =>
    cases l with
    | ofNat n =>
      refine absurd ?_ (hminus n)
      rw [← show '-' :: Text.ofNat (m + 1) = Text.ofNat n from h]
      exact List.mem_cons_self
    | negSucc n => rw [Nat.succ.inj (Identifier.ofNat_injective (List.cons.inj h).2)]

theorem not_isFractional_ofInt (k : ℤ) : ¬ IsFractional (Text.ofInt k) := by
  rintro (hpoint | ⟨hexponent, _⟩)
  · exact absurd (eq_or_isDigit_of_mem_ofInt _ hpoint) (by decide)
  · exact absurd (eq_or_isDigit_of_mem_ofInt _ hexponent) (by decide)

/-- An integer is never written as a floating-point number. -/
theorem ofInt_ne_ofBinary64 (k : ℤ) (x : Binary64) : Text.ofInt k ≠ ofBinary64 x :=
  fun h => not_isFractional_ofInt k (h ▸ isFractional_ofBinary64 x)

/-- What is not finite does not read as a decimal. -/
theorem ofText?_ofBinary64_eq_none {x : Binary64} (h : ∀ s m e, x ≠ .finite s m e) :
    ofText? (ofBinary64 x) = none := by
  cases x with
  | nan => rfl
  | infinite negative => cases negative <;> rfl
  | finite s m e => exact absurd rfl (h s m e)

theorem ofBinary64_finite_ne {m : ℕ} {e : ℤ} (h : IsFormat m e) (negative : Bool) {y : Binary64}
    (hy : ∀ s m e, y ≠ .finite s m e) : ofBinary64 (.finite negative m e) ≠ ofBinary64 y := by
  intro heq
  obtain ⟨d, hread, _⟩ := exists_ofText?_ofBinary64 h negative
  rw [heq, ofText?_ofBinary64_eq_none hy] at hread
  cases hread

/-- **The text of a floating-point number belongs to no other one.** -/
theorem ofBinary64_injective {x y : Binary64} (hx : x.IsProper) (hy : y.IsProper)
    (h : ofBinary64 x = ofBinary64 y) : x = y := by
  cases x with
  | finite s m e =>
    cases y with
    | finite s' m' e' =>
      obtain ⟨d, hread, hsign, hrounds⟩ := exists_ofText?_ofBinary64 hx s
      obtain ⟨d', hread', hsign', hrounds'⟩ := exists_ofText?_ofBinary64 hy s'
      rw [h, hread'] at hread
      obtain rfl : d' = d := Option.some.inj hread
      obtain ⟨rfl, rfl⟩ := Binary64.eq_of_roundsTo hx hy hrounds hrounds'
      rw [← hsign, ← hsign']
    | _ => exact absurd h (ofBinary64_finite_ne hx s nofun)
  | nan =>
    cases y with
    | finite s' m' e' => exact absurd h.symm (ofBinary64_finite_ne hy s' nofun)
    | nan => rfl
    | infinite s' => cases s' <;> exact absurd h (by decide)
  | infinite s =>
    cases y with
    | finite s' m' e' => exact absurd h.symm (ofBinary64_finite_ne hy s' nofun)
    | nan => cases s <;> exact absurd h (by decide)
    | infinite s' => cases s <;> cases s' <;> first | rfl | exact absurd h (by decide)

/-- Is a number an integer, or one of the format? -/
def IsProper : Number → Prop
  | integer _ => True
  | float x => x.IsProper

/-- **The text of a number belongs to no other number.** -/
theorem text_injective {n n' : Number} (hn : n.IsProper) (hn' : n'.IsProper)
    (h : n.text = n'.text) : n = n' := by
  cases n with
  | integer k =>
    cases n' with
    | integer l => rw [ofInt_injective h]
    | float y => exact absurd h (ofInt_ne_ofBinary64 k y)
  | float x =>
    cases n' with
    | integer l => exact absurd h.symm (ofInt_ne_ofBinary64 l x)
    | float y => rw [ofBinary64_injective hn hn' h]

theorem same_self (n : Number) : n.same n = true := by
  cases n with
  | integer k => exact beq_self_eq_true k
  | float x =>
    show x.same x = true
    unfold Binary64.same
    split
    next => rfl
    next => exact beq_self_eq_true x

/-- There is a digit or a point in the text of a number. -/
theorem exists_mem_text (n : Number) : ∃ c ∈ n.text, c.isDigit = true ∨ c = '.' := by
  have hsome : ∀ n : ℕ, ∃ c ∈ Text.ofNat n, c.isDigit = true := fun n =>
    (List.exists_mem_of_ne_nil _ (ofNat_ne_nil n)).imp fun c hc => ⟨hc, isDigits_ofNat n c hc⟩
  cases n with
  | integer k =>
    cases k with
    | ofNat n =>
      obtain ⟨c, hc, hdigit⟩ := hsome n
      exact ⟨c, hc, .inl hdigit⟩
    | negSucc n =>
      obtain ⟨c, hc, hdigit⟩ := hsome (n + 1)
      exact ⟨c, List.mem_cons_of_mem _ hc, .inl hdigit⟩
  | float x =>
    rcases isFractional_ofBinary64 x with hpoint | ⟨_, c, hc, hdigit⟩
    · exact ⟨_, hpoint, .inr rfl⟩
    · exact ⟨c, hc, .inl hdigit⟩

end Yaml.Number

/-! ## Numbers that are read -/

namespace Yaml.CoreSchema

theorem isProper_of_float? {t : Text} {x : Binary64} (h : float? t = some x) : x.IsProper := by
  unfold float? at h
  extract_lets positive signs at h
  clear_value positive signs
  split_ifs at h
  · cases h; trivial
  · cases h; trivial
  · cases h; trivial
  · split at h
    next s m e hread =>
      obtain ⟨d, _, hd⟩ := Option.map_eq_some_iff.1 hread
      cases h
      exact hd ▸ Binary64.isProper_ofDecimal d
    next => cases h

/-- **Numbers that are read** are integers, or numbers of the format. -/
theorem isProper_of_resolve {t : Text} {n : Number} (h : resolve t = some (.number n)) :
    n.IsProper := by
  unfold resolve at h
  extract_lets asFloat at h
  have hfloat : asFloat = .number n → n.IsProper := by
    intro hn
    subst asFloat
    split at hn
    next => cases hn
    next =>
      split at hn
      next x hx =>
        cases hn
        exact isProper_of_float? hx
      next => cases hn
  clear_value asFloat
  split at h
  next => cases h
  next =>
    split at h
    next => cases h
    next =>
      split at h
      next =>
        split_ifs at h
        · cases h; trivial
        · exact hfloat (Option.some.inj h)
      next => exact hfloat (Option.some.inj h)

end Yaml.CoreSchema

end InstallerRegistry
