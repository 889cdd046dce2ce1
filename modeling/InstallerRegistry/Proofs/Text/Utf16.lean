import InstallerRegistry.Proofs.Except
import InstallerRegistry.Text.Utf16

/-!
# Reading UTF-16 undoes writing it

No character has the number of a surrogate, so a unit says of itself whether it is a character or
half of one, and every text is read back from its bytes (`Utf16.decode_encode`).

Nothing else is read: bytes that are read are the bytes of what is read (`Utf16.decode_eq_ok_iff`),
and what is wrong with all others is that there is an odd number of them, or that half of a
character stands without the other (`Utf16.decode_eq_error_iff`).
-/

namespace InstallerRegistry.Utf16

/-- The number of a character is not that of a surrogate, and at most the last one there is. -/
theorem toNat_bounds (c : Char) :
    c.toNat < 0xD800 ∨ (0xE000 ≤ c.toNat ∧ c.toNat < 0x110000) := by
  have h : c.toNat < 0xD800 ∨ (0xDFFF < c.toNat ∧ c.toNat < 0x110000) := c.valid
  omega

theorem lt_of_mem_unitsOf {c : Char} {u : Nat} (h : u ∈ unitsOf c) : u < 0x10000 := by
  have hc := toNat_bounds c
  unfold unitsOf at h
  dsimp only at h
  split at h
  next hlt =>
    rw [List.mem_singleton.1 h]
    exact hlt
  next =>
    simp only [List.mem_cons, List.not_mem_nil, or_false] at h
    omega

/-- The units of bytes are read back. -/
theorem units_flatMap_bytesOf {us : List Nat} (h : ∀ u ∈ us, u < 0x10000) :
    units (us.flatMap bytesOf) = .ok us := by
  induction us with
  | nil => rfl
  | cons u us ih =>
    have hu := h u List.mem_cons_self
    have hlow : (UInt8.ofNat (u % 0x100)).toNat = u % 0x100 := by
      rw [UInt8.toNat_ofNat', Nat.mod_eq_of_lt (by omega)]
    have hhigh : (UInt8.ofNat (u / 0x100)).toNat = u / 0x100 := by
      rw [UInt8.toNat_ofNat', Nat.mod_eq_of_lt (by omega)]
    rw [List.flatMap_cons, bytesOf, List.cons_append, List.cons_append, List.nil_append, units,
      ih (fun v hv => h v (List.mem_cons_of_mem _ hv)), hlow, hhigh]
    exact congrArg (fun v => Except.ok (v :: us)) (by omega)

/-- The units of a character are read as that character, whatever follows. -/
theorem ofUnits_unitsOf (c : Char) {us : List Nat} {t : Text} (h : ofUnits us = .ok t) :
    ofUnits (unitsOf c ++ us) = .ok (c :: t) := by
  have hc := toNat_bounds c
  unfold unitsOf
  dsimp only
  split
  next hlt =>
    rw [List.singleton_append, ofUnits.eq_def]
    dsimp only
    rw [if_pos (by omega), h, Char.ofNat_toNat]
    rfl
  next hge =>
    -- the pair of surrogates is put together again as the number it was made of
    have hn : 0x10000 + (0xD800 + (c.toNat - 0x10000) / 0x400 - 0xD800) * 0x400
        + (0xDC00 + (c.toNat - 0x10000) % 0x400 - 0xDC00) = c.toNat := by omega
    rw [List.cons_append, List.singleton_append, ofUnits.eq_def]
    dsimp only
    rw [if_neg (by omega), if_pos (by omega), if_pos (by omega), h, hn, Char.ofNat_toNat]
    rfl

theorem ofUnits_flatMap_unitsOf (t : Text) : ofUnits (t.flatMap unitsOf) = .ok t := by
  induction t with
  | nil => rfl
  | cons c t ih => exact ofUnits_unitsOf c ih

/-- **Reading undoes writing.** -/
theorem decode_encode (t : Text) : decode (encode t) = .ok t := by
  have hunits : units (encode t) = .ok (t.flatMap unitsOf) := by
    refine units_flatMap_bytesOf (fun u hu => ?_)
    obtain ⟨c, _, hc⟩ := List.mem_flatMap.1 hu
    exact lt_of_mem_unitsOf hc
  rw [decode, hunits]
  exact ofUnits_flatMap_unitsOf t

/-! ## Units of bytes -/

/-- Bytes are read as units of sixteen bits exactly if they are the bytes of these units. -/
theorem units_eq_ok_iff {bytes : List UInt8} {us : List Nat} :
    units bytes = .ok us ↔ (∀ u ∈ us, u < 0x10000) ∧ bytes = us.flatMap bytesOf := by
  refine ⟨fun h => ?_, fun ⟨h, hbytes⟩ => hbytes ▸ units_flatMap_bytesOf h⟩
  fun_induction units bytes generalizing us with
  | case1 =>
    cases h
    exact ⟨fun u hu => absurd hu List.not_mem_nil, rfl⟩
  | case2 b => exact absurd h nofun
  | case3 low high rest ih =>
    obtain ⟨us, hus, h⟩ := bind_eq_ok_iff.1 h
    cases h
    obtain ⟨hlt, rfl⟩ := ih hus
    have hlow := low.toNat_lt
    have hhigh := high.toNat_lt
    refine ⟨List.forall_mem_cons.2 ⟨by omega, hlt⟩, ?_⟩
    have hbytes : bytesOf (low.toNat + 0x100 * high.toNat) = [low, high] := by
      rw [bytesOf, show (low.toNat + 0x100 * high.toNat) % 0x100 = low.toNat by omega,
        show (low.toNat + 0x100 * high.toNat) / 0x100 = high.toNat by omega, UInt8.ofNat_toNat,
        UInt8.ofNat_toNat]
    rw [List.flatMap_cons, hbytes]
    rfl

/-- Bytes are not read as units exactly if their number is odd. -/
theorem units_eq_error_iff {bytes : List UInt8} {e : Error} :
    units bytes = .error e ↔ bytes.length % 2 = 1 ∧ e = .oddLength := by
  fun_induction units bytes with
  | case1 => exact ⟨nofun, fun h => absurd h.1 (by decide)⟩
  | case2 b => exact ⟨fun h => ⟨rfl, (Except.error.inj h).symm⟩, fun h => h.2 ▸ rfl⟩
  | case3 low high rest ih =>
    have hlength : (low :: high :: rest).length % 2 = rest.length % 2 := by
      rw [List.length_cons, List.length_cons]
      omega
    rw [hlength, ← ih]
    cases units rest with
    | error e' => exact Iff.rfl
    | ok us => exact ⟨nofun, nofun⟩

/-! ## Characters of units -/

/-- Is the unit the first half of a character? -/
def IsHigh (u : Nat) : Prop := 0xD800 ≤ u ∧ u < 0xDC00

/-- Is the unit the second half of a character? -/
def IsLow (u : Nat) : Prop := 0xDC00 ≤ u ∧ u < 0xE000

/-- Does a half stand **without its partner**? -/
def HasLoneSurrogate (us : List Nat) : Prop :=
  ∃ before u behind, us = before ++ u :: behind
    ∧ (IsHigh u ∧ (∀ v ∈ behind.head?, ¬ IsLow v)
      ∨ IsLow u ∧ ∀ v ∈ before.getLast?, ¬ IsHigh v)

namespace HasLoneSurrogate

variable {us : List Nat}

/-- A half stays alone behind a unit that is no first half. -/
theorem behind {v : Nat} (hv : ¬ IsHigh v) (front : List Nat) (h : HasLoneSurrogate us) :
    HasLoneSurrogate (front ++ v :: us) := by
  obtain ⟨before, u, rest, rfl, halone⟩ := h
  refine ⟨front ++ v :: before, u, rest, by rw [List.append_assoc, List.cons_append], ?_⟩
  refine halone.imp_right fun ⟨hlow, hbefore⟩ => ⟨hlow, ?_⟩
  rw [List.getLast?_append_cons]
  cases before with
  | nil => exact fun w hw => Option.some.inj hw ▸ hv
  | cons _ before => exact hbefore

/-- A unit that is no half is not alone, and neither are the two halves of a character. -/
theorem of_append {front : List Nat} (h : HasLoneSurrogate (front ++ us))
    (hfront : (∃ u, front = [u] ∧ ¬ IsHigh u ∧ ¬ IsLow u)
      ∨ ∃ u v, front = [u, v] ∧ IsHigh u ∧ IsLow v) : HasLoneSurrogate us := by
  obtain ⟨before, w, behind, hus, halone⟩ := h
  rcases hfront with ⟨u, rfl, hhigh, hlow⟩ | ⟨u, v, rfl, hhigh, hlow⟩
  · cases before with
    | nil =>
      cases hus
      exact halone.elim (fun h => absurd h.1 hhigh) fun h => absurd h.1 hlow
    | cons u' before =>
      cases hus
      refine ⟨before, w, behind, rfl, halone.imp_right fun ⟨hw, hlast⟩ => ⟨hw, ?_⟩⟩
      cases before with
      | nil => exact fun _ hv => absurd hv (Option.not_mem_none _)
      | cons u' before => exact hlast
  · have hnotLow : ¬ IsLow u := fun h => Nat.not_le.2 hhigh.2 h.1
    have hnotHigh : ¬ IsHigh v := fun h => Nat.not_le.2 h.2 hlow.1
    cases before with
    | nil =>
      cases hus
      exact halone.elim (fun h => absurd hlow (h.2 v rfl)) fun h => absurd h.1 hnotLow
    | cons u' before =>
      cases before with
      | nil =>
        cases hus
        exact halone.elim (fun h => absurd h.1 hnotHigh) fun h => absurd hhigh (h.2 u rfl)
      | cons v' before =>
        cases hus
        refine ⟨before, w, behind, rfl, halone.imp_right fun ⟨hw, hlast⟩ => ⟨hw, ?_⟩⟩
        cases before with
        | nil => exact fun _ hv => absurd hv (Option.not_mem_none _)
        | cons u' before => exact hlast

end HasLoneSurrogate

/-- The units of a character are one that is no half, or two halves. -/
theorem unitsOf_cases (c : Char) :
    (∃ u, unitsOf c = [u] ∧ ¬ IsHigh u ∧ ¬ IsLow u)
      ∨ ∃ u v, unitsOf c = [u, v] ∧ IsHigh u ∧ IsLow v := by
  have hc := toNat_bounds c
  unfold unitsOf IsHigh IsLow
  dsimp only
  split
  next => exact .inl ⟨_, rfl, by omega, by omega⟩
  next => exact .inr ⟨_, _, rfl, by omega, by omega⟩

/-- In the units of a text, no half is without its partner. -/
theorem not_hasLoneSurrogate (t : Text) : ¬ HasLoneSurrogate (t.flatMap unitsOf) := by
  induction t with
  | nil =>
    rintro ⟨before, u, behind, hus, _⟩
    exact absurd hus.symm (List.append_ne_nil_of_right_ne_nil _ (List.cons_ne_nil _ _))
  | cons c t ih => exact fun h => ih (h.of_append (unitsOf_cases c))

/-- The number of a character that is given by its number. -/
theorem toNat_ofNat {n : Nat} (h : n < 0xD800 ∨ 0xE000 ≤ n ∧ n < 0x110000) :
    (Char.ofNat n).toNat = n := by
  have hvalid : n.isValidChar := h.imp_right fun h => ⟨by omega, h.2⟩
  rw [Char.ofNat, dif_pos hvalid]
  rfl

/-- **Units are read** as the text that they are the units of, unless a half stands alone. -/
theorem ofUnits_cases {us : List Nat} (h : ∀ u ∈ us, u < 0x10000) :
    (∃ t, ofUnits us = .ok t ∧ us = t.flatMap unitsOf)
      ∨ ofUnits us = .error .loneSurrogate ∧ HasLoneSurrogate us := by
  fun_induction ofUnits us with
  | case1 => exact .inl ⟨[], rfl, rfl⟩
  | case2 u rest hu ih =>
    obtain ⟨hlt, hrest⟩ := List.forall_mem_cons.1 h
    have hunits : unitsOf (Char.ofNat u) = [u] := by
      rw [unitsOf, toNat_ofNat (by omega)]
      exact if_pos hlt
    obtain ⟨t, ht, hus⟩ | ⟨herror, halone⟩ := ih hrest
    · exact .inl ⟨Char.ofNat u :: t, by rw [ht]; rfl, by rw [List.flatMap_cons, hunits, ← hus]; rfl⟩
    · have hu' : ¬ IsHigh u := fun h => by
        obtain ⟨hle, hgt⟩ := h
        omega
      exact .inr ⟨by rw [herror]; rfl, halone.behind hu' []⟩
  | case3 u hu hhigh v rest hlow ih =>
    obtain ⟨_, hrest⟩ := List.forall_mem_cons.1 h
    have hunits : unitsOf (Char.ofNat (0x10000 + (u - 0xD800) * 0x400 + (v - 0xDC00)))
        = [u, v] := by
      have hu' :
          0xD800 + (0x10000 + (u - 0xD800) * 0x400 + (v - 0xDC00) - 0x10000) / 0x400 = u := by
        omega
      have hv : 0xDC00 + (0x10000 + (u - 0xD800) * 0x400 + (v - 0xDC00) - 0x10000) % 0x400 = v := by
        omega
      rw [unitsOf, toNat_ofNat (by omega), if_neg (by omega), hu', hv]
    obtain ⟨t, ht, hus⟩ | ⟨herror, halone⟩ := ih (List.forall_mem_cons.1 hrest).2
    · exact .inl ⟨_ :: t, by rw [ht]; rfl, by rw [List.flatMap_cons, hunits, ← hus]; rfl⟩
    · have hv : ¬ IsHigh v := fun h => Nat.not_le.2 h.2 hlow.1
      exact .inr ⟨by rw [herror]; rfl, halone.behind hv [u]⟩
  | case4 u hu hhigh v rest hlow =>
    refine .inr ⟨rfl, [], u, v :: rest, rfl, .inl ⟨⟨by omega, hhigh⟩, ?_⟩⟩
    rintro _ ⟨⟩
    exact hlow
  | case5 u hu hhigh =>
    refine .inr ⟨rfl, [], u, [], rfl, .inl ⟨⟨by omega, hhigh⟩, ?_⟩⟩
    exact fun _ hv => absurd hv (Option.not_mem_none _)
  | case6 u rest hu hhigh =>
    refine .inr ⟨rfl, [], u, rest, rfl, .inr ⟨⟨by omega, by omega⟩, ?_⟩⟩
    exact fun _ hv => absurd hv (Option.not_mem_none _)

/-! ## Text of bytes -/

/-- **Bytes are read as a text** exactly if they are its bytes. -/
theorem decode_eq_ok_iff {bytes : List UInt8} {t : Text} :
    decode bytes = .ok t ↔ bytes = encode t := by
  refine ⟨fun h => ?_, fun h => h ▸ decode_encode t⟩
  obtain ⟨us, hus, ht⟩ := bind_eq_ok_iff.1 h
  obtain ⟨hlt, rfl⟩ := units_eq_ok_iff.1 hus
  obtain ⟨t', ht', hus⟩ | ⟨herror, _⟩ := ofUnits_cases hlt
  · obtain rfl : t' = t := Except.ok.inj (ht'.symm.trans ht)
    rw [hus, encode]
  · exact absurd (herror.symm.trans ht) nofun

/-- **The faults of bytes**: their number is odd, or they are those of units among which there is
half of a character without the other. -/
theorem decode_eq_error_iff {bytes : List UInt8} {e : Error} :
    decode bytes = .error e
      ↔ bytes.length % 2 = 1 ∧ e = .oddLength
        ∨ (∃ us, (∀ u ∈ us, u < 0x10000) ∧ bytes = us.flatMap bytesOf ∧ HasLoneSurrogate us)
          ∧ e = .loneSurrogate := by
  rw [← units_eq_error_iff]
  have hdecode : decode bytes = units bytes >>= ofUnits := rfl
  cases hunits : units bytes with
  | error e' =>
    have hread : decode bytes = .error e' := by
      rw [hdecode, hunits]
      rfl
    rw [hread]
    have hsame : (Except.error e' : Except Error Text) = .error e
        ↔ (Except.error e' : Except Error (List Nat)) = .error e := by
      rw [Except.error.injEq, Except.error.injEq]
    rw [hsame]
    refine ⟨.inl, fun h => h.elim id ?_⟩
    rintro ⟨⟨us, hlt, hbytes, _⟩, _⟩
    rw [units_eq_ok_iff.2 ⟨hlt, hbytes⟩] at hunits
    exact absurd hunits nofun
  | ok us =>
    obtain ⟨hlt, hbytes⟩ := units_eq_ok_iff.1 hunits
    have hread : decode bytes = ofUnits us := by
      rw [hdecode, hunits]
      rfl
    rw [hread]
    obtain ⟨t, ht, rfl⟩ | ⟨herror, halone⟩ := ofUnits_cases hlt
    · rw [ht]
      refine ⟨nofun, fun h => h.elim nofun ?_⟩
      rintro ⟨⟨us, hlt', hbytes', halone⟩, _⟩
      have hus : us = t.flatMap unitsOf := by
        have hunits' := units_eq_ok_iff.2 ⟨hlt', hbytes'⟩
        exact Except.ok.inj (hunits'.symm.trans hunits)
      exact absurd (hus ▸ halone) (not_hasLoneSurrogate t)
    · rw [herror]
      refine ⟨fun h => .inr ⟨⟨us, hlt, hbytes, halone⟩, (Except.error.inj h).symm⟩, ?_⟩
      rintro (h | ⟨_, rfl⟩)
      · exact absurd h nofun
      · rfl

end InstallerRegistry.Utf16
