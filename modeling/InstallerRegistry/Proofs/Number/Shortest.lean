import InstallerRegistry.Number.Shortest
import InstallerRegistry.Proofs.Number.Rounding

/-!
# Shortest decimals round back

The shortest decimal of a number is one of those that round to it (`Binary64.roundsTo_shortest`), so
it belongs to no other number.

Behind this are two facts about decimal grids: one that is finer than an interval is wide has a
point in it next to any point of the interval (`Binary64.exists_onGrid?`), and the grid of seventeen
digits is as fine as that for every number of 53 bits.
-/

namespace InstallerRegistry.Binary64

/-! ## The first digit -/

/-- The first digit of a fraction is at its place. -/
theorem zpow_leadingExponent_le {num den : ℕ} (hnum : 0 < num) (hden : 0 < den) :
    (10 : ℚ) ^ leadingExponent num den ≤ num / den := by
  have hnum' : (0 : ℚ) < num := Nat.cast_pos.2 hnum
  have hden' : (0 : ℚ) < den := Nat.cast_pos.2 hden
  unfold leadingExponent digitCount
  split
  next hle =>
    -- a whole number is at least the power of ten with as many digits
    set whole := num / den
    have hwhole : 1 ≤ whole := (Nat.one_le_div_iff hden).2 hle
    have hpower : 10 ^ ((Nat.toDigits 10 whole).length - 1) ≤ whole := by
      cases hlength : (Nat.toDigits 10 whole).length - 1 with
      | zero => simpa using hwhole
      | succ k =>
        have hmore : ¬ (Nat.toDigits 10 whole).length ≤ k + 1 := by omega
        rw [Nat.length_toDigits_le_iff (by decide) (Nat.succ_pos k)] at hmore
        exact Nat.le_of_not_lt hmore
    have hexponent : ((Nat.toDigits 10 whole).length : ℤ) - 1
        = ((Nat.toDigits 10 whole).length - 1 : ℕ) := by
      have := Nat.length_toDigits_pos (b := 10) (n := whole)
      omega
    rw [hexponent, zpow_natCast]
    calc (10 : ℚ) ^ ((Nat.toDigits 10 whole).length - 1)
        = (10 ^ ((Nat.toDigits 10 whole).length - 1) : ℕ) := by push_cast; rfl
      _ ≤ whole := Nat.cast_le.2 hpower
      _ ≤ num / den := Nat.cast_div_le
  next hlt =>
    set k := (Nat.toDigits 10 ((den - 1) / num)).length
    have hpower : (den - 1) / num < 10 ^ k :=
      (Nat.length_toDigits_le_iff (by decide) Nat.length_toDigits_pos).1 le_rfl
    have hbound : den ≤ num * 10 ^ k := by
      rw [Nat.div_lt_iff_lt_mul hnum] at hpower
      rw [Nat.mul_comm]
      omega
    rw [zpow_neg, zpow_natCast, inv_eq_one_div, div_le_div_iff₀ (by positivity) hden', one_mul]
    exact_mod_cast hbound

/-! ## Decimal grids -/

section Grid

variable {low mid high den : ℕ} {closed : Bool} {p : ℤ}

/-- Is the point of the grid inside? -/
def Inside (low high den : ℕ) (closed : Bool) (p : ℤ) (x : ℕ) : Prop :=
  if closed then
    low * Nat.pow 10 (-p).toNat ≤ x * (den * Nat.pow 10 p.toNat)
      ∧ x * (den * Nat.pow 10 p.toNat) ≤ high * Nat.pow 10 (-p).toNat
  else
    low * Nat.pow 10 (-p).toNat < x * (den * Nat.pow 10 p.toNat)
      ∧ x * (den * Nat.pow 10 p.toNat) < high * Nat.pow 10 (-p).toNat

/-- A point of the grid that is found is inside. -/
theorem inside_of_onGrid? {c : ℕ} {p' : ℤ} (h : onGrid? low mid high den closed p = some (c, p')) :
    p' = p ∧ Inside low high den closed p c := by
  unfold onGrid? at h
  dsimp only at h
  split at h
  next hbelow habove =>
    split at h
    next =>
      cases h
      exact ⟨rfl, (of_decide_eq_true hbelow :)⟩
    next =>
      cases h
      exact ⟨rfl, (of_decide_eq_true habove :)⟩
  next hbelow _ =>
    cases h
    exact ⟨rfl, (of_decide_eq_true hbelow :)⟩
  next _ habove =>
    cases h
    exact ⟨rfl, (of_decide_eq_true habove :)⟩
  next => cases h

/-- The point of the grid below `mid / den`. -/
def pointBelow (mid den : ℕ) (p : ℤ) : ℕ :=
  mid * Nat.pow 10 (-p).toNat / (den * Nat.pow 10 p.toNat)

/-- A point is found if one of the two next to the number is inside. -/
theorem onGrid?_isSome (h : Inside low high den closed p (pointBelow mid den p)
      ∨ Inside low high den closed p (pointBelow mid den p + 1)) :
    (onGrid? low mid high den closed p).isSome := by
  unfold onGrid?
  dsimp only
  split
  next => split <;> rfl
  next => rfl
  next => rfl
  next hbelow habove =>
    exact (h.elim (of_decide_eq_false hbelow :) (of_decide_eq_false habove :)).elim

/-- **A grid that is finer than the interval is wide has a point in it**, one of the two next to any
number inside. -/
theorem exists_onGrid? (hlow : low < mid) (hhigh : mid < high) (hden : 0 < den)
    (hfine : low * Nat.pow 10 (-p).toNat + den * Nat.pow 10 p.toNat
      < high * Nat.pow 10 (-p).toNat) : (onGrid? low mid high den closed p).isSome := by
  apply onGrid?_isSome
  have hscale : 0 < Nat.pow 10 (-p).toNat := Nat.pow_pos (by decide)
  have hunit : 0 < den * Nat.pow 10 p.toNat := Nat.mul_pos hden (Nat.pow_pos (by decide))
  have hlow' := Nat.mul_lt_mul_of_pos_right hlow hscale
  have hhigh' := Nat.mul_lt_mul_of_pos_right hhigh hscale
  have hbelow := Nat.div_mul_le_self (mid * Nat.pow 10 (-p).toNat) (den * Nat.pow 10 p.toNat)
  have habove := Nat.lt_div_mul_add (a := mid * Nat.pow 10 (-p).toNat) hunit
  rw [← pointBelow] at hbelow habove
  unfold Inside
  rw [Nat.succ_mul]
  generalize pointBelow mid den p * (den * Nat.pow 10 p.toNat) = below at *
  generalize den * Nat.pow 10 p.toNat = unit at *
  generalize low * Nat.pow 10 (-p).toNat = low at *
  generalize mid * Nat.pow 10 (-p).toNat = mid at *
  generalize high * Nat.pow 10 (-p).toNat = high at *
  cases closed
  · simp only [Bool.false_eq_true, if_false]
    omega
  · simp only [if_true]
    omega

/-- Comparisons with a point of the grid are those of natural numbers. -/
theorem div_le_grid_iff (hden : 0 < den) (a x : ℕ) :
    (a : ℚ) / den ≤ x * 10 ^ p ↔ a * Nat.pow 10 (-p).toNat ≤ x * (den * Nat.pow 10 p.toNat) := by
  have hden' : (0 : ℚ) < den := Nat.cast_pos.2 hden
  rw [zpow_eq_div, mul_div_assoc', div_le_div_iff₀ hden' (by positivity), mul_assoc (x : ℚ),
    mul_comm ((10 : ℚ) ^ p.toNat)]
  exact_mod_cast Iff.rfl

theorem grid_le_div_iff (hden : 0 < den) (a x : ℕ) :
    x * 10 ^ p ≤ (a : ℚ) / den ↔ x * (den * Nat.pow 10 p.toNat) ≤ a * Nat.pow 10 (-p).toNat := by
  have hden' : (0 : ℚ) < den := Nat.cast_pos.2 hden
  rw [zpow_eq_div, mul_div_assoc', div_le_div_iff₀ (by positivity) hden', mul_assoc (x : ℚ),
    mul_comm ((10 : ℚ) ^ p.toNat)]
  exact_mod_cast Iff.rfl

/-- A point of the grid is inside if it lies in the interval. -/
theorem inside_iff (hden : 0 < den) (x : ℕ) :
    Inside low high den closed p x
      ↔ Between closed ((low : ℚ) / den) ((high : ℚ) / den) (x * 10 ^ p) := by
  unfold Inside Between
  rw [← not_le (a := (x * 10 ^ p : ℚ)), ← not_le (b := (x * 10 ^ p : ℚ)), div_le_grid_iff hden,
    div_le_grid_iff hden, grid_le_div_iff hden, grid_le_div_iff hden, not_le, not_le]

/-- How fine a grid is can be compared in natural numbers. -/
theorem div_add_grid_lt_div_iff (hden : 0 < den) :
    (low : ℚ) / den + 10 ^ p < high / den
      ↔ low * Nat.pow 10 (-p).toNat + den * Nat.pow 10 p.toNat
        < high * Nat.pow 10 (-p).toNat := by
  have hden' : (0 : ℚ) < den := Nat.cast_pos.2 hden
  have hscale : (0 : ℚ) < 10 ^ (-p).toNat := by positivity
  rw [zpow_eq_div, div_add_div _ _ hden'.ne' hscale.ne', ← mul_div_mul_right (high : ℚ) _ hscale.ne',
    div_lt_div_iff_of_pos_right (mul_pos hden' hscale)]
  exact_mod_cast Iff.rfl

end Grid

/-! ## The shortest decimal -/

theorem value_withoutZeros (c : ℕ) (p : ℤ) :
    ((withoutZeros c p).1 : ℚ) * 10 ^ (withoutZeros c p).2 = c * 10 ^ p := by
  induction c, p using withoutZeros.induct with
  | case1 c p h => rw [withoutZeros, if_pos h]
  | case2 c p h ih =>
    obtain ⟨_, hzero⟩ := not_or.1 h
    have hc : c = c / 10 * 10 := by omega
    rw [withoutZeros, if_neg h, ih, zpow_add_one₀ (by norm_num)]
    conv => rhs; rw [hc]
    push_cast
    ring

/-- The point of the first grid that has one in the interval around a number. -/
def candidate? (m : ℕ) (e : ℤ) : Option (ℕ × ℤ) :=
  let scale := powerOfTwo (e - 2)
  let den := powerOfTwo (2 - e)
  (List.range 17).findSome? fun (n : ℕ) =>
    onGrid? (lowUnits m e * scale) (4 * m * scale) ((4 * m + 2) * scale) den (m % 2 = 0)
      (leadingExponent (4 * m * scale) den - (n : ℤ))

theorem shortest_eq (m : ℕ) (e : ℤ) :
    shortest m e
      = withoutZeros ((candidate? m e).getD (m, 0)).1 ((candidate? m e).getD (m, 0)).2 :=
  rfl

variable {m : ℕ} {e : ℤ}

theorem div_powerOfTwo (n : ℕ) (e : ℤ) :
    ((n * powerOfTwo (e - 2) : ℕ) : ℚ) / powerOfTwo (2 - e) = n * 2 ^ (e - 2) := by
  rw [← mul_powerOfTwo_div, neg_sub]

/-- **Seventeen digits suffice.** -/
theorem exists_candidate? (h : IsFormat m e) (hm : m ≠ 0) : (candidate? m e).isSome := by
  have hm' := h.lt
  have hscale := powerOfTwo_pos (e - 2)
  have hden := powerOfTwo_pos (2 - e)
  have hunit : (0 : ℚ) < 2 ^ (e - 2) := by positivity
  have hlow : lowUnits m e < 4 * m := by
    unfold lowUnits
    split <;> omega
  have hmid : 0 < 4 * m * powerOfTwo (e - 2) := Nat.mul_pos (by omega) hscale
  have hleading := zpow_leadingExponent_le hmid hden
  rw [div_powerOfTwo] at hleading
  generalize hplace : leadingExponent (4 * m * powerOfTwo (e - 2)) (powerOfTwo (2 - e)) = place
    at hleading
  -- in units of the interval, the number is less than its width times ten to the sixteenth
  have hwide : lowUnits m e * 10 ^ 16 + 4 * m < (4 * m + 2) * 10 ^ 16 := by
    unfold lowUnits
    split <;> omega
  have hwide' : (lowUnits m e : ℚ) * 10 ^ 16 + (4 * m : ℕ) < (4 * m + 2 : ℕ) * 10 ^ 16 := by
    exact_mod_cast hwide
  have hgrid : (10 : ℚ) ^ (place - 16) * 10 ^ 16 ≤ (4 * m : ℕ) * 2 ^ (e - 2) := by
    rw [← zpow_natCast (10 : ℚ) 16, ← zpow_add₀ (by norm_num)]
    simpa using hleading
  have hfine : lowUnits m e * (2 : ℚ) ^ (e - 2) + 10 ^ (place - 16)
      < (4 * m + 2 : ℕ) * 2 ^ (e - 2) := by
    have := mul_lt_mul_of_pos_right hwide' hunit
    linarith
  rw [candidate?, List.findSome?_isSome_iff]
  have hlast : 16 ∈ List.range 17 := by decide
  refine ⟨16, hlast, exists_onGrid? (Nat.mul_lt_mul_of_pos_right hlow hscale)
    (Nat.mul_lt_mul_of_pos_right (by omega) hscale) hden ?_⟩
  rw [← div_add_grid_lt_div_iff hden, div_powerOfTwo, div_powerOfTwo, hplace]
  exact hfine

/-- **The shortest decimal of a number rounds to it.** -/
theorem roundsTo_shortest (h : IsFormat m e) (hm : m ≠ 0) :
    RoundsTo ((shortest m e).1 * 10 ^ (shortest m e).2) m e := by
  obtain ⟨⟨c, p⟩, hcandidate⟩ := Option.isSome_iff_exists.1 (exists_candidate? h hm)
  rw [shortest_eq, value_withoutZeros, hcandidate, Option.getD_some]
  obtain ⟨n, _, hgrid⟩ := List.exists_of_findSome?_eq_some hcandidate
  obtain ⟨rfl, hinside⟩ := inside_of_onGrid? hgrid
  rw [inside_iff (powerOfTwo_pos _), div_powerOfTwo, div_powerOfTwo] at hinside
  exact hinside

end InstallerRegistry.Binary64
