import InstallerRegistry.Number.Binary64
import Mathlib.Algebra.Order.Field.Power
import Mathlib.Data.Nat.Cast.Order.Field
import Mathlib.Data.Nat.Log
import Mathlib.Data.Rat.Cast.Order
import Mathlib.Tactic.Linarith
import Mathlib.Tactic.Ring

/-!
# Rounding to binary floating point

The rationals that round to a binary64 number lie between the points halfway to its neighbours
(`Binary64.RoundsTo`), and no rational rounds to two numbers (`Binary64.eq_of_roundsTo`).

Whatever fraction is rounded, the result is a number of the format (`Binary64.isProper_ofFraction`),
and so is every decimal that is read (`Binary64.isProper_ofDecimal`). The exponent that is guessed
from the sizes of numerator and denominator leaves a quotient with 53 or 54 bits, so that it is too
small by one at most.
-/

namespace InstallerRegistry.Binary64

/-! ## Rounding -/

/-- The format of a finite number: the mantissa has 53 bits unless the exponent is the least one. -/
structure IsFormat (m : ℕ) (e : ℤ) : Prop where
  lt : m < 2 ^ 53
  filled : 2 ^ 52 ≤ m ∨ e = -1074
  least : -1074 ≤ e
  greatest : e ≤ 971

/-- Is it a number of the format? -/
def IsProper : Binary64 → Prop
  | .finite _ m e => IsFormat m e
  | _ => True

theorem isFormat_zero : IsFormat 0 (-1074) :=
  ⟨by decide, .inr rfl, le_rfl, by decide⟩

/-- The lower end of the interval around a number, in quarters of the last place. The numbers below
lie twice as close where the exponent changes. -/
def lowUnits (m : ℕ) (e : ℤ) : ℕ :=
  if m = 0x10000000000000 ∧ -1074 < e then 4 * m - 1 else 4 * m - 2

/-- Does a rational lie between two others, or on one of them if they are included? -/
def Between (closed : Bool) (low high x : ℚ) : Prop :=
  if closed then low ≤ x ∧ x ≤ high else low < x ∧ x < high

/-- **Does the rational round to `m * 2 ^ e`?** The ends of the interval go to the even mantissa. -/
def RoundsTo (x : ℚ) (m : ℕ) (e : ℤ) : Prop :=
  Between (m % 2 = 0) (lowUnits m e * 2 ^ (e - 2)) ((4 * m + 2 : ℕ) * 2 ^ (e - 2)) x

theorem RoundsTo.le {x : ℚ} {m : ℕ} {e : ℤ} (h : RoundsTo x m e) :
    lowUnits m e * 2 ^ (e - 2) ≤ x ∧ x ≤ (4 * m + 2 : ℕ) * 2 ^ (e - 2) := by
  unfold RoundsTo Between at h
  split at h
  next => exact h
  next => exact ⟨h.1.le, h.2.le⟩

/-- The ends of the interval do not go to an odd mantissa. -/
theorem RoundsTo.lt {x : ℚ} {m : ℕ} {e : ℤ} (h : RoundsTo x m e) (hodd : m % 2 = 1) :
    lowUnits m e * 2 ^ (e - 2) < x ∧ x < (4 * m + 2 : ℕ) * 2 ^ (e - 2) := by
  have hopen : decide (m % 2 = 0) = false := decide_eq_false (by omega)
  rw [RoundsTo, hopen] at h
  exact h

theorem roundsTo_zero (e : ℤ) : RoundsTo 0 0 e := by
  rw [RoundsTo, decide_eq_true rfl]
  refine ⟨?_, by positivity⟩
  simp [lowUnits]

theorem le_lowUnits (m : ℕ) (e : ℤ) : 4 * m - 2 ≤ lowUnits m e := by
  unfold lowUnits
  split <;> omega

/-- A rational that rounds to a number rounds to none above it. -/
theorem RoundsTo.not_above {x : ℚ} {m m' : ℕ} {e e' : ℤ} (h : RoundsTo x m e)
    (hformat : IsFormat m e) (hformat' : IsFormat m' e') (hlt : e < e' ∨ e = e' ∧ m < m') :
    ¬ RoundsTo x m' e' := by
  intro h'
  have hunit : (0 : ℚ) < 2 ^ (e - 2) := by positivity
  have hlow := le_lowUnits m' e'
  have hmantissa := hformat.lt
  rcases hlt with he | ⟨rfl, hm⟩
  · -- the interval above starts at the end of that of the greatest mantissa, which is odd
    have he' : -1074 < e' := hformat.least.trans_lt he
    have hm' : 2 ^ 52 ≤ m' := hformat'.filled.resolve_right he'.ne'
    have hstart : 2 ^ 54 - 1 ≤ lowUnits m' e' := by
      unfold lowUnits
      split <;> omega
    have hdouble : 2 * (2 : ℚ) ^ (e - 2) ≤ 2 ^ (e' - 2) := by
      rw [← zpow_one_add₀ two_ne_zero]
      exact zpow_le_zpow_right₀ one_le_two (by omega)
    have hends : ((2 ^ 55 - 2 : ℕ) : ℚ) * 2 ^ (e - 2) ≤ x :=
      calc ((2 ^ 55 - 2 : ℕ) : ℚ) * 2 ^ (e - 2)
          = ((2 ^ 54 - 1 : ℕ) : ℚ) * (2 * 2 ^ (e - 2)) := by norm_num; ring
        _ ≤ lowUnits m' e' * 2 ^ (e' - 2) := by gcongr
        _ ≤ x := h'.le.1
    have hgreatest : 2 ^ 55 - 2 ≤ 4 * m + 2 := by
      exact_mod_cast le_of_mul_le_mul_right (hends.trans h.le.2) hunit
    obtain rfl : m = 2 ^ 53 - 1 := by omega
    exact absurd (h.lt (by decide)).2 (not_lt.2 hends)
  · -- the intervals of neighbours have an end in common, and one of the neighbours is odd
    have hends : ((4 * m' - 2 : ℕ) : ℚ) * 2 ^ (e - 2) ≤ lowUnits m' e * 2 ^ (e - 2) := by gcongr
    have hneighbour : 4 * m' - 2 ≤ 4 * m + 2 := by
      exact_mod_cast le_of_mul_le_mul_right (hends.trans (h'.le.1.trans h.le.2)) hunit
    obtain rfl : m' = m + 1 := by omega
    rcases Nat.mod_two_eq_zero_or_one m with heven | hodd
    · exact absurd (hends.trans_lt (h'.lt (by omega)).1) (not_lt.2 h.le.2)
    · exact absurd (h.lt hodd).2 (not_lt.2 (hends.trans h'.le.1))

/-- **No rational rounds to two numbers.** -/
theorem eq_of_roundsTo {x : ℚ} {m m' : ℕ} {e e' : ℤ} (hformat : IsFormat m e)
    (hformat' : IsFormat m' e') (h : RoundsTo x m e) (h' : RoundsTo x m' e') :
    m = m' ∧ e = e' := by
  rcases lt_trichotomy e e' with he | rfl | he
  · exact absurd h' (h.not_above hformat hformat' (.inl he))
  · rcases lt_trichotomy m m' with hm | rfl | hm
    · exact absurd h' (h.not_above hformat hformat' (.inr ⟨rfl, hm⟩))
    · exact ⟨rfl, rfl⟩
    · exact absurd h (h'.not_above hformat' hformat (.inr ⟨rfl, hm⟩))
  · exact absurd h (h'.not_above hformat' hformat (.inl he))

/-! ## Powers -/

/-- An integer power is a fraction of natural ones. -/
theorem zpow_eq_div (b : ℚ) (k : ℤ) : b ^ k = b ^ k.toNat / b ^ (-k).toNat := by
  rcases le_total 0 k with h | h
  · obtain ⟨n, rfl⟩ := Int.eq_ofNat_of_zero_le h
    simp
  · obtain ⟨n, hn⟩ := Int.eq_ofNat_of_zero_le (Int.neg_nonneg_of_nonpos h)
    obtain rfl : k = -n := by omega
    simp

theorem mul_powerOfTwo_div (n : ℕ) (k : ℤ) :
    ((n * powerOfTwo k : ℕ) : ℚ) / powerOfTwo (-k) = n * 2 ^ k := by
  rw [zpow_eq_div, powerOfTwo, powerOfTwo, Nat.pow_eq, Nat.pow_eq]
  push_cast
  rw [mul_div_assoc]

theorem powerOfTwo_pos (k : ℤ) : 0 < powerOfTwo k :=
  Nat.pow_pos (by decide)

/-! ## Quotients -/

theorem roundDiv_le {n d k : ℕ} (h : n < k * d) : roundDiv n d ≤ k := by
  have hquotient : n / d < k := Nat.div_lt_of_lt_mul (by rwa [Nat.mul_comm])
  unfold roundDiv
  dsimp only
  split_ifs <;> omega

theorem le_roundDiv {n d k : ℕ} (hd : 0 < d) (h : k * d ≤ n) : k ≤ roundDiv n d := by
  have hquotient : k ≤ n / d := (Nat.le_div_iff_mul_le hd).2 h
  unfold roundDiv
  dsimp only
  split_ifs <;> omega

section Quotient

variable {num den : ℕ}

/-- Comparisons with a quotient by a power of two are those of natural numbers. -/
theorem scaled_lt_iff (hden : 0 < den) (k : ℕ) (e : ℤ) :
    num * powerOfTwo (-e) < k * (den * powerOfTwo e) ↔ (num : ℚ) / den * 2 ^ (-e) < k := by
  have hden' : (0 : ℚ) < den := Nat.cast_pos.2 hden
  have hscale : (0 : ℚ) < 2 ^ e.toNat := by positivity
  rw [zpow_eq_div, neg_neg, div_mul_div_comm, div_lt_iff₀ (mul_pos hden' hscale)]
  exact_mod_cast Iff.rfl

theorem le_scaled_iff (hden : 0 < den) (k : ℕ) (e : ℤ) :
    k * (den * powerOfTwo e) ≤ num * powerOfTwo (-e) ↔ (k : ℚ) ≤ num / den * 2 ^ (-e) := by
  rw [← not_lt, ← not_lt, scaled_lt_iff hden]

/-- The quotient by the guessed power of two has 53 or 54 bits. -/
theorem guess_bounds (hnum : num ≠ 0) (hden : 0 < den) :
    (2 : ℚ) ^ 52 ≤ num / den * 2 ^ (-((num.log2 : ℤ) - den.log2 - 53))
      ∧ num / den * 2 ^ (-((num.log2 : ℤ) - den.log2 - 53)) < (2 : ℚ) ^ 54 := by
  generalize ha : num.log2 = a
  generalize hb : den.log2 = b
  have hnumLow : 2 ^ a ≤ num := ha ▸ Nat.log2_self_le hnum
  have hnumHigh : num < 2 ^ (a + 1) := ha ▸ Nat.lt_log2_self
  have hdenLow : 2 ^ b ≤ den := hb ▸ Nat.log2_self_le hden.ne'
  have hdenHigh : den < 2 ^ (b + 1) := hb ▸ Nat.lt_log2_self
  have hden' : (0 : ℚ) < den := Nat.cast_pos.2 hden
  have hscale : (2 : ℚ) ^ (-((a : ℤ) - b - 53)) = 2 ^ 53 * 2 ^ b / 2 ^ a := by
    rw [show -((a : ℤ) - b - 53) = (53 : ℕ) + (b : ℕ) - (a : ℕ) by push_cast; ring,
      zpow_sub₀ two_ne_zero, zpow_add₀ two_ne_zero, zpow_natCast, zpow_natCast, zpow_natCast]
  rw [hscale, div_mul_div_comm, le_div_iff₀ (by positivity), div_lt_iff₀ (by positivity)]
  constructor
  · have hlow : 2 ^ 52 * (den * 2 ^ a) ≤ num * (2 ^ 53 * 2 ^ b) :=
      calc 2 ^ 52 * (den * 2 ^ a) ≤ 2 ^ 52 * (2 ^ (b + 1) * num) := by gcongr
        _ = num * (2 ^ 53 * 2 ^ b) := by ring
    exact_mod_cast hlow
  · have hhigh : num * (2 ^ 53 * 2 ^ b) < 2 ^ 54 * (den * 2 ^ a) :=
      calc num * (2 ^ 53 * 2 ^ b) < 2 ^ (a + 1) * (2 ^ 53 * 2 ^ b) := by gcongr
        _ ≤ 2 ^ (a + 1) * (2 ^ 53 * den) := by gcongr
        _ = 2 ^ 54 * (den * 2 ^ a) := by ring
    exact_mod_cast hhigh

/-- The exponent that the number nearest to a fraction has, unless it is rounded up to the next one:
the guessed one or the one above it, and never less than the least one. -/
def exponentOf (num den : ℕ) : ℤ :=
  let guess : ℤ := (num.log2 : ℤ) - den.log2 - 53
  let whole := num * powerOfTwo (-guess) / (den * powerOfTwo guess)
  max (if whole < 0x20000000000000 then guess else guess + 1) (-1074)

theorem exponentOf_bounds (hnum : num ≠ 0) (hden : 0 < den) :
    num / den * 2 ^ (-exponentOf num den) < (2 : ℚ) ^ 53
      ∧ (exponentOf num den = -1074 ∨ (2 : ℚ) ^ 52 ≤ num / den * 2 ^ (-exponentOf num den)) := by
  obtain ⟨hlow, hhigh⟩ := guess_bounds hnum hden
  unfold exponentOf
  dsimp only
  generalize (num.log2 : ℤ) - den.log2 - 53 = guess at *
  have hunit : 0 < den * powerOfTwo guess := Nat.mul_pos hden (powerOfTwo_pos _)
  obtain ⟨e, he, hbelow, habove⟩ : ∃ e, (if num * powerOfTwo (-guess) / (den * powerOfTwo guess)
      < 0x20000000000000 then guess else guess + 1) = e ∧ (2 : ℚ) ^ 52 ≤ num / den * 2 ^ (-e)
      ∧ num / den * 2 ^ (-e) < (2 : ℚ) ^ 53 := by
    split
    next h =>
      rw [Nat.div_lt_iff_lt_mul hunit, scaled_lt_iff hden] at h
      exact ⟨guess, rfl, hlow, by exact_mod_cast h⟩
    next h =>
      -- there is one bit too many
      rw [Nat.div_lt_iff_lt_mul hunit, scaled_lt_iff hden, not_lt] at h
      have hhalf : (num : ℚ) / den * 2 ^ (-(guess + 1)) = num / den * 2 ^ (-guess) / 2 := by
        rw [neg_add, zpow_add₀ two_ne_zero, zpow_neg_one, mul_div_assoc, div_eq_mul_inv (_ ^ _)]
      refine ⟨guess + 1, rfl, ?_, ?_⟩
      · rw [hhalf, le_div_iff₀ two_pos]
        exact le_trans (by norm_num) h
      · rw [hhalf, div_lt_iff₀ two_pos]
        exact hhigh.trans_le (by norm_num)
  rw [he]
  rcases le_total (-1074) e with hleast | hleast
  · rw [max_eq_left hleast]
    exact ⟨habove, .inr hbelow⟩
  · rw [max_eq_right hleast]
    refine ⟨lt_of_le_of_lt ?_ habove, .inl rfl⟩
    gcongr
    exact one_le_two

end Quotient

/-- **A fraction is rounded to a number of the format.** -/
theorem isProper_ofFraction (negative : Bool) (num : ℕ) {den : ℕ} (hden : 0 < den) :
    (ofFraction negative num den).IsProper := by
  by_cases hnum : num = 0
  · rw [ofFraction, if_pos hnum]
    exact isFormat_zero
  have hdef : ofFraction negative num den
      = let e := exponentOf num den
        let m := roundDiv (num * powerOfTwo (-e)) (den * powerOfTwo e)
        let rounded := if m = 0x20000000000000 then (0x10000000000000, e + 1) else (m, e)
        if 971 < rounded.2 then infinite negative
        else if rounded.1 = 0 then finite negative 0 (-1074)
        else finite negative rounded.1 rounded.2 := by
    rw [ofFraction, if_neg hnum]
    rfl
  obtain ⟨hhigh, hlow⟩ := exponentOf_bounds hnum hden
  have hleast : -1074 ≤ exponentOf num den := le_max_right _ _
  rw [hdef]
  dsimp only
  generalize exponentOf num den = e at *
  have hunit : 0 < den * powerOfTwo e := Nat.mul_pos hden (powerOfTwo_pos e)
  have hle : roundDiv (num * powerOfTwo (-e)) (den * powerOfTwo e) ≤ 2 ^ 53 :=
    roundDiv_le ((scaled_lt_iff hden _ e).2 (by exact_mod_cast hhigh))
  have hfilled : 2 ^ 52 ≤ roundDiv (num * powerOfTwo (-e)) (den * powerOfTwo e) ∨ e = -1074 :=
    hlow.symm.imp_left fun h =>
      le_roundDiv hunit ((le_scaled_iff hden _ e).2 (by exact_mod_cast h))
  generalize roundDiv (num * powerOfTwo (-e)) (den * powerOfTwo e) = m at *
  by_cases hm : m = 0x20000000000000
  · rw [if_pos hm]
    dsimp only
    split_ifs with hgreatest
    · trivial
    · exact isFormat_zero
    · exact ⟨by decide, .inl (by decide), by omega, by omega⟩
  · rw [if_neg hm]
    dsimp only
    split_ifs with hgreatest
    · trivial
    · exact isFormat_zero
    · exact ⟨by omega, hfilled, hleast, by omega⟩

/-- **A decimal is read as a number of the format.** -/
theorem isProper_ofDecimal (d : Decimal) : (ofDecimal d).IsProper := by
  unfold ofDecimal
  dsimp only
  split_ifs
  · exact isFormat_zero
  · trivial
  · exact isFormat_zero
  · exact isProper_ofFraction _ _ (Nat.pow_pos (by decide))

end InstallerRegistry.Binary64
