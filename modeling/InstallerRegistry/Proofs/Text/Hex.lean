import InstallerRegistry.Proofs.Text.Utf8
import InstallerRegistry.Text.Blank
import InstallerRegistry.Text.Hex

/-!
# Spellings of bytes and of numbers

A byte sequence has many hexadecimal spellings, since each digit may be written in either case.
`Hex.Spells` says that a text is one of them, digit by digit, and `Hex.decode_eq_ok_iff` that these
and no other texts are read as the bytes. They are what is written of the bytes, in any case
(`Hex.spells_iff`).

A number has numerals of any length (`Hex.Denotes`), since zeros may stand before its first digit.
-/

namespace InstallerRegistry.Hex

/-! ## Digits -/

/-- The digit of a value below sixteen has that value, in either case. -/
theorem digit?_digit : ∀ n < 16, digit? (digit n) = some n := by decide

theorem digit?_toLower_digit : ∀ n < 16, digit? (digit n).toLower = some n := by decide

/-- Where the hexadecimal digits stand among the characters. -/
theorem toNat_of_digit? {c : Char} {n : Nat} (h : digit? c = some n) :
    (0x30 ≤ c.toNat ∧ c.toNat ≤ 0x39) ∨ (0x41 ≤ c.toNat ∧ c.toNat ≤ 0x46)
      ∨ (0x61 ≤ c.toNat ∧ c.toNat ≤ 0x66) := by
  unfold digit? at h
  dsimp only at h
  split at h
  next h₁ => exact .inl h₁
  next =>
    split at h
    next h₂ => exact .inr (.inl h₂)
    next =>
      split at h
      next h₃ => exact .inr (.inr h₃)
      next => exact absurd h (by simp)

theorem ne_of_digit? {c d : Char} {n : Nat} (h : digit? c = some n) (hd : digit? d = none) :
    c ≠ d := by
  rintro rfl
  rw [h] at hd
  exact absurd hd (by simp)

theorem isBlank_of_digit? {c : Char} {n : Nat} (h : digit? c = some n) :
    Text.isBlank c = false := by
  have hc := toNat_of_digit? h
  simp only [Text.isBlank, Bool.or_eq_false_iff, Bool.and_eq_false_iff, decide_eq_false_iff_not,
    beq_eq_false_iff_ne, ne_eq]
  omega

/-! ## Pairs of digits -/

/-- **A spelling of bytes**: two digits for each of them, high half first. -/
inductive Spells : List UInt8 → Text → Prop
  | nil : Spells [] []
  | cons {b : UInt8} {c d : Char} {bytes : List UInt8} {t : Text}
      (high : digit? c = some (b.toNat / 16)) (low : digit? d = some (b.toNat % 16))
      (rest : Spells bytes t) : Spells (b :: bytes) (c :: d :: t)

namespace Spells

variable {bytes : List UInt8} {t : Text}

/-- A spelling is made of digits. -/
theorem digit?_of_mem (h : Spells bytes t) : ∀ c ∈ t, ∃ n, digit? c = some n := by
  induction h with
  | nil => exact fun c hc => absurd hc List.not_mem_nil
  | cons high low _ ih =>
    intro c hc
    rcases List.mem_cons.1 hc with rfl | hc
    · exact ⟨_, high⟩
    · rcases List.mem_cons.1 hc with rfl | hc
      · exact ⟨_, low⟩
      · exact ih c hc

end Spells

/-- What is written spells the bytes. -/
theorem spells_encode (bytes : List UInt8) : Spells bytes (encode bytes) := by
  induction bytes with
  | nil => exact .nil
  | cons b bytes ih =>
    have hb := b.toNat_lt
    exact .cons (digit?_digit _ (by omega)) (digit?_digit _ (by omega)) ih

/-- A digit is one byte of UTF-8, the one of its own number. -/
theorem encodeChar_of_digit? {c : Char} {n : Nat} (h : digit? c = some n) :
    Utf8.encodeChar c = [UInt8.ofNat c.toNat] := by
  have hc := toNat_of_digit? h
  rw [Utf8.encodeChar, if_pos (by omega)]

theorem value_of_digit? {c : Char} {n : Nat} (h : digit? c = some n) (position : Nat) :
    value (UInt8.ofNat c.toNat) position = .ok n := by
  have hc := toNat_of_digit? h
  have hbyte : (UInt8.ofNat c.toNat).toNat = c.toNat := by
    rw [UInt8.toNat_ofNat', Nat.mod_eq_of_lt (by omega)]
  rw [value, hbyte, Char.ofNat_toNat, h]

theorem length_encode_of_spells {bytes : List UInt8} {t : Text} (h : Spells bytes t) :
    (Utf8.encode t).length = 2 * bytes.length := by
  induction h with
  | nil => rfl
  | cons high low _ ih =>
    simp only [Utf8.encode, List.flatMap_cons, encodeChar_of_digit? high,
      encodeChar_of_digit? low, List.length_append, List.length_cons, List.length_nil] at ih ⊢
    omega

theorem pairs_of_spells {bytes : List UInt8} {t : Text} (h : Spells bytes t) (position : Nat) :
    pairs position (Utf8.encode t) = .ok bytes := by
  induction h generalizing position with
  | nil => rfl
  | @cons b c d bytes t high low _ ih =>
    have hbyte : UInt8.ofNat (b.toNat / 16 * 16 + b.toNat % 16) = b := by
      rw [show b.toNat / 16 * 16 + b.toNat % 16 = b.toNat by omega, UInt8.ofNat_toNat]
    have ih := ih (position + 2)
    simp only [Utf8.encode, List.flatMap_cons, encodeChar_of_digit? high,
      encodeChar_of_digit? low, List.cons_append, List.nil_append] at ih ⊢
    rw [pairs, value_of_digit? high, value_of_digit? low, ih]
    exact congrArg (fun b => Except.ok (b :: bytes)) hbyte

/-- **Every spelling is read back** as the bytes it spells. -/
theorem decode_of_spells {bytes : List UInt8} {t : Text} (h : Spells bytes t) :
    decode t = .ok bytes := by
  show (if (Utf8.encode t).length % 2 = 1 then .error .oddLength
    else pairs 0 (Utf8.encode t)) = .ok bytes
  rw [length_encode_of_spells h, if_neg (by omega), pairs_of_spells h]

/-! ## Reading nothing but spellings -/

theorem lt_of_digit? {c : Char} {n : Nat} (h : digit? c = some n) : n < 16 := by
  unfold digit? at h
  dsimp only at h
  split_ifs at h <;> have := Option.some.inj h <;> omega

theorem value_eq_ok_iff {byte : UInt8} {position n : Nat} :
    value byte position = .ok n ↔ digit? (Char.ofNat byte.toNat) = some n := by
  unfold value
  split
  next m h => rw [h, Except.ok.injEq, Option.some.injEq]
  next h =>
    rw [h]
    exact ⟨nofun, nofun⟩

/-- Pairs that are read are a spelling, if each byte is taken as a character. -/
theorem spells_of_pairs {position : Nat} {digits bytes : List UInt8}
    (h : pairs position digits = .ok bytes) :
    Spells bytes (digits.map fun b => Char.ofNat b.toNat) := by
  fun_induction pairs position digits generalizing bytes with
  | case1 =>
    cases h
    exact .nil
  | case2 => exact absurd h nofun
  | case3 position high low rest ih =>
    obtain ⟨m, hm, h⟩ := bind_eq_ok_iff.1 h
    obtain ⟨n, hn, h⟩ := bind_eq_ok_iff.1 h
    obtain ⟨bytes, hbytes, h⟩ := bind_eq_ok_iff.1 h
    cases h
    have hm := value_eq_ok_iff.1 hm
    have hn := value_eq_ok_iff.1 hn
    have hm' := lt_of_digit? hm
    have hn' := lt_of_digit? hn
    have hbyte : (UInt8.ofNat (m * 16 + n)).toNat = m * 16 + n := by
      rw [UInt8.toNat_ofNat', Nat.mod_eq_of_lt (by omega)]
    refine .cons ?_ ?_ (ih hbytes)
    · rwa [hbyte, show (m * 16 + n) / 16 = m by omega]
    · rwa [hbyte, show (m * 16 + n) % 16 = n by omega]

/-- **A text is read as bytes** exactly if it spells them. -/
theorem decode_eq_ok_iff {t : Text} {bytes : List UInt8} :
    decode t = .ok bytes ↔ Spells bytes t := by
  refine ⟨fun h => ?_, decode_of_spells⟩
  have hpairs : pairs 0 (Utf8.encode t) = .ok bytes := by
    unfold decode at h
    dsimp only at h
    split at h
    next => exact absurd h nofun
    next => exact h
  have hspells := spells_of_pairs hpairs
  -- all bytes are digits, so they are ASCII and the text is theirs
  have hascii : IsAscii (Utf8.encode t) := fun b hb => by
    obtain ⟨n, hn⟩ := hspells.digit?_of_mem _ (List.mem_map_of_mem hb)
    have hlt := b.toNat_lt
    have hrange := toNat_of_digit? hn
    rw [Utf16.toNat_ofNat (by omega)] at hrange
    omega
  have htext := Utf8.decode_eq_iff.2 (rfl : Utf8.encode t = Utf8.encode t)
  rw [Utf8.decode_of_isAscii hascii] at htext
  rwa [(Prod.mk.inj htext).1] at hspells

/-! ## The case of digits -/

/-- A letter has the same value in either case. -/
theorem digit?_toUpper (c : Char) : digit? c.toUpper = digit? c := by
  have hall : ∀ k < 0x80, digit? (Char.ofNat k).toUpper = digit? (Char.ofNat k) := by decide
  by_cases h : c.toNat < 0x80
  · have hc := hall c.toNat h
    rwa [Char.ofNat_toNat] at hc
  · have hupper : c.toUpper = c := by
      unfold Char.toUpper
      refine dif_neg fun hc => h ?_
      have hle : c.toNat ≤ 'z'.toNat := hc.2
      exact Nat.lt_of_le_of_lt hle (by decide)
    rw [hupper]

/-- A digit is the capital one of its value, in some case. -/
theorem toUpper_of_digit? {c : Char} {n : Nat} (h : digit? c = some n) : c.toUpper = digit n := by
  have hall : ∀ k < 0x67, ∀ n < 16, digit? (Char.ofNat k) = some n →
      (Char.ofNat k).toUpper = digit n := by decide
  have hrange := toNat_of_digit? h
  have hc := hall c.toNat (by omega) n (lt_of_digit? h)
  rw [Char.ofNat_toNat] at hc
  exact hc h

/-- **A spelling** is what is written, in any case. -/
theorem spells_iff {t : Text} {bytes : List UInt8} :
    Spells bytes t ↔ t.map Char.toUpper = encode bytes := by
  constructor
  · intro h
    induction h with
    | nil => rfl
    | cons high low _ ih =>
      rw [List.map_cons, List.map_cons, toUpper_of_digit? high, toUpper_of_digit? low, ih]
      rfl
  · intro h
    induction bytes generalizing t with
    | nil =>
      rw [List.map_eq_nil_iff.1 h]
      exact .nil
    | cons b bytes ih =>
      have hb := b.toNat_lt
      have hencode : encode (b :: bytes)
          = digit (b.toNat / 16) :: digit (b.toNat % 16) :: encode bytes := rfl
      rw [hencode] at h
      obtain ⟨c, t, rfl, hc, h⟩ := List.map_eq_cons_iff.1 h
      obtain ⟨d, t, rfl, hd, h⟩ := List.map_eq_cons_iff.1 h
      refine .cons ?_ ?_ (ih h)
      · rw [← digit?_toUpper, hc, digit?_digit _ (by omega)]
      · rw [← digit?_toUpper, hd, digit?_digit _ (by omega)]

/-! ## Numerals -/

/-- **A numeral** of a number: digits of either case, the first of which may be zeros. -/
inductive Denotes : Nat → Text → Prop
  | digit {c : Char} {d : Nat} (h : digit? c = some d) : Denotes d [c]
  | concat {n : Nat} {t : Text} {c : Char} {d : Nat} (init : Denotes n t)
      (last : digit? c = some d) : Denotes (n * 16 + d) (t ++ [c])

/-- A numeral is made of digits, and there is at least one. -/
theorem Denotes.digit?_of_mem {n : Nat} {t : Text} (h : Denotes n t) :
    t ≠ [] ∧ ∀ c ∈ t, ∃ d, digit? c = some d := by
  induction h with
  | digit h => exact ⟨List.cons_ne_nil _ _, fun c hc => ⟨_, List.mem_singleton.1 hc ▸ h⟩⟩
  | concat init last ih =>
    refine ⟨List.append_ne_nil_of_right_ne_nil _ (List.cons_ne_nil _ _), fun c hc => ?_⟩
    rcases List.mem_append.1 hc with hc | hc
    · exact ih.2 c hc
    · exact ⟨_, List.mem_singleton.1 hc ▸ last⟩

/-- The number that bytes behind the number `n` make, high byte first. -/
def ofBytes (n : Nat) (bytes : List UInt8) : Nat :=
  bytes.foldl (fun n b => n * 0x100 + b.toNat) n

/-- A numeral goes on with the digits of bytes. -/
theorem Denotes.append {n : Nat} {t : Text} (h : Denotes n t) {bytes : List UInt8} {t' : Text}
    (h' : Spells bytes t') : Denotes (ofBytes n bytes) (t ++ t') := by
  induction h' generalizing n t with
  | nil => rwa [List.append_nil]
  | @cons b c d bytes t' high low _ ih =>
    have hbyte : Denotes (n * 0x100 + b.toNat) (t ++ [c] ++ [d]) := by
      rw [show n * 0x100 + b.toNat = (n * 16 + b.toNat / 16) * 16 + b.toNat % 16 by omega]
      exact (h.concat high).concat low
    have hrest := ih hbyte
    rwa [List.append_assoc, List.append_assoc] at hrest

/-- **A spelling of bytes is a numeral** of the number that they make. -/
theorem Spells.denotes {bytes : List UInt8} {t : Text} (h : Spells bytes t) (hne : bytes ≠ []) :
    Denotes (ofBytes 0 bytes) t := by
  cases h with
  | nil => exact absurd rfl hne
  | @cons b c d bytes t high low rest =>
    have hbyte : Denotes (0 * 0x100 + b.toNat) [c, d] := by
      rw [show 0 * 0x100 + b.toNat = b.toNat / 16 * 16 + b.toNat % 16 by omega]
      exact (Denotes.digit high).concat low
    exact hbyte.append rest

end InstallerRegistry.Hex
