import Mathlib.Data.List.Infix
import Mathlib.Tactic.SplitIfs
import InstallerRegistry.Proofs.Text.Ascii
import InstallerRegistry.Proofs.Text.Utf16

/-!
# Reading UTF-8 undoes writing it

The first byte of a character says how many bytes it has, and the reader lets through only those
that the writer could have put there. So a character is read from its bytes whatever follows
(`Utf8.first?_codes`), and only from them (`Utf8.exists_codes_of_first?`); both are about the
numbers of the bytes (`Utf8.codes`), where they are a matter of quotients and remainders.

For whole texts this means that bytes are read to their end exactly if they are those of a text
(`Utf8.decode_eq_iff`). In other bytes, the reader stops at the first that is invalid, behind the
longest text there is (`Utf8.isValidFront_iff`).
-/

namespace InstallerRegistry.Utf8

/-! ## The bytes of a character, as numbers -/

theorem toNat_ofNat {n : Nat} (h : n < 0x100) : (UInt8.ofNat n).toNat = n := by
  rw [UInt8.toNat_ofNat', Nat.mod_eq_of_lt h]

/-- The numbers of the bytes of a character. -/
def codes (n : Nat) : List Nat :=
  if n < 0x80 then [n]
  else if n < 0x800 then [0xC0 + n / 0x40, 0x80 + n % 0x40]
  else if n < 0x10000 then [0xE0 + n / 0x1000, 0x80 + n / 0x40 % 0x40, 0x80 + n % 0x40]
  else [0xF0 + n / 0x40000, 0x80 + n / 0x1000 % 0x40, 0x80 + n / 0x40 % 0x40, 0x80 + n % 0x40]

theorem map_toNat_encodeChar (c : Char) : (encodeChar c).map UInt8.toNat = codes c.toNat := by
  have hc := Utf16.toNat_bounds c
  unfold encodeChar codes
  dsimp only
  split_ifs with h₁ h₂ h₃
  · rw [List.map_singleton, toNat_ofNat (by omega)]
  · rw [List.map_cons, List.map_singleton, toNat_ofNat (by omega), toNat_ofNat (by omega)]
  · rw [List.map_cons, List.map_cons, List.map_singleton, toNat_ofNat (by omega),
      toNat_ofNat (by omega), toNat_ofNat (by omega)]
  · rw [List.map_cons, List.map_cons, List.map_cons, List.map_singleton, toNat_ofNat (by omega),
      toNat_ofNat (by omega), toNat_ofNat (by omega), toNat_ofNat (by omega)]

theorem isTail_iff {b : Nat} : isTail b = true ↔ 0x80 ≤ b ∧ b ≤ 0xBF := by
  simp [isTail]

theorem isSecondOfThree_iff {a b : Nat} :
    isSecondOfThree a b = true ↔ 0x80 ≤ b ∧ b ≤ 0xBF ∧ (a = 0xE0 → 0xA0 ≤ b)
      ∧ (a = 0xED → b ≤ 0x9F) := by
  unfold isSecondOfThree
  split_ifs <;> simp_all [isTail] <;> omega

theorem isSecondOfFour_iff {a b : Nat} :
    isSecondOfFour a b = true ↔ 0x80 ≤ b ∧ b ≤ 0xBF ∧ (a = 0xF0 → 0x90 ≤ b)
      ∧ (a = 0xF4 → b ≤ 0x8F) := by
  unfold isSecondOfFour
  split_ifs <;> simp_all [isTail] <;> omega

/-- **The bytes of a character** are read as that character, whatever follows. -/
theorem first?_codes {n : Nat} (h : n < 0xD800 ∨ 0xE000 ≤ n ∧ n < 0x110000) (rest : List Nat) :
    first? (codes n ++ rest) = some (Char.ofNat n, (codes n).length) := by
  unfold codes
  split_ifs with h₁ h₂ h₃
  · exact first?_of_lt h₁ rest
  · have hvalue : (0xC0 + n / 0x40) % 0x20 * 0x40 + (0x80 + n % 0x40) % 0x40 = n := by omega
    simp only [List.cons_append, List.nil_append, first?, isTail_iff]
    rw [if_neg (by omega), if_pos (by omega), if_pos (by omega), hvalue]
    rfl
  · have hvalue : (0xE0 + n / 0x1000) % 0x10 * 0x1000 + (0x80 + n / 0x40 % 0x40) % 0x40 * 0x40
        + (0x80 + n % 0x40) % 0x40 = n := by omega
    simp only [List.cons_append, List.nil_append, first?, Bool.and_eq_true, isTail_iff,
      isSecondOfThree_iff]
    rw [if_neg (by omega), if_neg (by omega), if_pos (by omega), if_pos (by omega), hvalue]
    rfl
  · have hvalue : (0xF0 + n / 0x40000) % 0x08 * 0x40000 + (0x80 + n / 0x1000 % 0x40) % 0x40 * 0x1000
        + (0x80 + n / 0x40 % 0x40) % 0x40 * 0x40 + (0x80 + n % 0x40) % 0x40 = n := by omega
    simp only [List.cons_append, List.nil_append, first?, Bool.and_eq_true, isTail_iff,
      isSecondOfFour_iff]
    rw [if_neg (by omega), if_neg (by omega), if_neg (by omega), if_pos (by omega),
      if_pos (by omega), hvalue]
    rfl

theorem codes_two {a b : Nat} (ha : 0xC2 ≤ a ∧ a ≤ 0xDF) (hb : isTail b) :
    codes (a % 0x20 * 0x40 + b % 0x40) = [a, b] := by
  rw [isTail_iff] at hb
  rw [codes, if_neg (by omega), if_pos (by omega)]
  simp only [List.cons.injEq, and_true]
  omega

theorem codes_three {a b c : Nat} (ha : 0xE0 ≤ a ∧ a ≤ 0xEF) (hb : isSecondOfThree a b)
    (hc : isTail c) :
    codes (a % 0x10 * 0x1000 + b % 0x40 * 0x40 + c % 0x40) = [a, b, c] := by
  rw [isTail_iff] at hc
  rw [isSecondOfThree_iff] at hb
  rw [codes, if_neg (by omega), if_neg (by omega), if_pos (by omega)]
  simp only [List.cons.injEq, and_true]
  omega

theorem codes_four {a b c d : Nat} (ha : 0xF0 ≤ a ∧ a ≤ 0xF4) (hb : isSecondOfFour a b)
    (hc : isTail c) (hd : isTail d) :
    codes (a % 0x08 * 0x40000 + b % 0x40 * 0x1000 + c % 0x40 * 0x40 + d % 0x40)
      = [a, b, c, d] := by
  rw [isTail_iff] at hc hd
  rw [isSecondOfFour_iff] at hb
  rw [codes, if_neg (by omega), if_neg (by omega), if_neg (by omega)]
  simp only [List.cons.injEq, and_true]
  omega

/-- **A character that is read** is the one whose bytes are there. -/
theorem exists_codes_of_first? {bytes : List Nat} {c : Char} {k : Nat}
    (h : first? bytes = some (c, k)) :
    ∃ n, (n < 0xD800 ∨ 0xE000 ≤ n ∧ n < 0x110000) ∧ c = Char.ofNat n ∧ k = (codes n).length
      ∧ codes n <+: bytes := by
  unfold first? at h
  split at h
  next => exact absurd h nofun
  next a rest =>
    split_ifs at h with h₁ h₂ h₃ h₄
    · obtain ⟨rfl, rfl⟩ := Prod.mk.inj (Option.some.inj h)
      have hcodes : codes a = [a] := if_pos h₁
      exact ⟨a, by omega, rfl, by rw [hcodes]; rfl, hcodes ▸ ⟨rest, rfl⟩⟩
    · split at h
      next b rest =>
        split_ifs at h with hb
        obtain ⟨rfl, rfl⟩ := Prod.mk.inj (Option.some.inj h)
        have hcodes := codes_two h₂ hb
        rw [isTail_iff] at hb
        exact ⟨_, by omega, rfl, by rw [hcodes]; rfl, hcodes ▸ ⟨rest, rfl⟩⟩
      next => exact absurd h nofun
    · split at h
      next b d rest =>
        split_ifs at h with hbd
        obtain ⟨rfl, rfl⟩ := Prod.mk.inj (Option.some.inj h)
        rw [Bool.and_eq_true] at hbd
        have hcodes := codes_three h₃ hbd.1 hbd.2
        rw [isSecondOfThree_iff, isTail_iff] at hbd
        exact ⟨_, by omega, rfl, by rw [hcodes]; rfl, hcodes ▸ ⟨rest, rfl⟩⟩
      next => exact absurd h nofun
    · split at h
      next b d e rest =>
        split_ifs at h with hbde
        obtain ⟨rfl, rfl⟩ := Prod.mk.inj (Option.some.inj h)
        rw [Bool.and_eq_true, Bool.and_eq_true] at hbde
        have hcodes := codes_four h₄ hbde.1.1 hbde.1.2 hbde.2
        rw [isSecondOfFour_iff, isTail_iff, isTail_iff] at hbde
        exact ⟨_, by omega, rfl, by rw [hcodes]; rfl, hcodes ▸ ⟨rest, rfl⟩⟩
      next => exact absurd h nofun

/-! ## Whole texts -/

theorem length_encodeChar_le (c : Char) : (encodeChar c).length ≤ 4 := by
  rw [← List.length_map UInt8.toNat, map_toNat_encodeChar, codes]
  split_ifs <;> simp

/-- A text in front of other bytes is read, and then these bytes are. -/
theorem decode_encode_append (t : Text) (rest : List UInt8) :
    decode (encode t ++ rest) = (t ++ (decode rest).1, (decode rest).2) := by
  induction t with
  | nil => rfl
  | cons c t ih =>
    have hencode : encode (c :: t) ++ rest = encodeChar c ++ (encode t ++ rest) := by
      rw [encode, List.flatMap_cons, List.append_assoc, encode]
    have hfirst : first? (((encodeChar c ++ (encode t ++ rest)).take 4).map UInt8.toNat)
        = some (c, (encodeChar c).length) := by
      rw [List.take_append, List.take_of_length_le (length_encodeChar_le c), List.map_append,
        map_toNat_encodeChar, first?_codes (Utf16.toNat_bounds c), Char.ofNat_toNat,
        ← map_toNat_encodeChar, List.length_map]
    rw [hencode, decode_of_first? hfirst, List.drop_left, ih, List.cons_append]

/-- A character is read from its own bytes. -/
theorem encodeChar_isPrefix_of_first? {bytes : List UInt8} {c : Char} {n : Nat}
    (h : first? ((bytes.take 4).map UInt8.toNat) = some (c, n)) :
    encodeChar c <+: bytes ∧ (encodeChar c).length = n := by
  obtain ⟨m, hm, rfl, rfl, hfront⟩ := exists_codes_of_first? h
  have hcodes : (encodeChar (Char.ofNat m)).map UInt8.toNat = codes m := by
    rw [map_toNat_encodeChar, Utf16.toNat_ofNat hm]
  have hinjective : Function.Injective UInt8.toNat := fun _ _ => UInt8.toNat_inj.1
  rw [← hcodes, List.prefix_map_iff_of_injective hinjective] at hfront
  exact ⟨hfront.trans (List.take_prefix 4 bytes), by rw [← hcodes, List.length_map]⟩

/-- What is read and what is left are all the bytes. -/
theorem encode_decode_append (bytes : List UInt8) :
    encode (decode bytes).1 ++ (decode bytes).2 = bytes := by
  fun_induction decode bytes with
  | case1 bytes hfirst => rfl
  | case2 bytes c n hfirst t rest hdecode ih =>
    obtain ⟨⟨behind, rfl⟩, rfl⟩ := encodeChar_isPrefix_of_first? hfirst
    rw [hdecode, List.drop_left] at ih
    rw [← ih, encode, List.flatMap_cons, List.append_assoc, encode]

/-- **Bytes are read as a text** exactly if they are its bytes. -/
theorem decode_eq_iff {bytes : List UInt8} {t : Text} :
    decode bytes = (t, []) ↔ bytes = encode t := by
  constructor
  · intro h
    have hbytes := encode_decode_append bytes
    rw [h, List.append_nil] at hbytes
    exact hbytes.symm
  · rintro rfl
    have hnil : decode [] = ([], []) := decode_of_isAscii (List.forall_mem_nil _)
    have hdecode := decode_encode_append t []
    rw [hnil] at hdecode
    rwa [List.append_nil, List.append_nil] at hdecode

/-! ## Bytes that are no text -/

/-- The **valid front** of bytes: the longest part at their start that is a text. The byte behind it
is the first that is invalid. -/
structure IsValidFront (front bytes : List UInt8) : Prop where
  isPrefix : front <+: bytes
  wellFormed : ∃ t, front = encode t
  longest : ∀ t, encode t <+: bytes → encode t <+: front

/-- **What is read of bytes** is their valid front. -/
theorem isValidFront_iff {front bytes : List UInt8} :
    IsValidFront front bytes ↔ front = encode (decode bytes).1 := by
  have hread : IsValidFront (encode (decode bytes).1) bytes := by
    refine ⟨⟨_, encode_decode_append bytes⟩, ⟨_, rfl⟩, ?_⟩
    rintro t ⟨rest, rfl⟩
    rw [decode_encode_append, encode, encode, List.flatMap_append]
    exact List.prefix_append _ _
  refine ⟨fun h => ?_, fun h => h ▸ hread⟩
  obtain ⟨t, rfl⟩ := h.wellFormed
  exact (hread.longest t h.isPrefix).eq_of_length_le (h.longest _ hread.isPrefix).length_le

/-- A byte of a character beyond ASCII is beyond ASCII, too. -/
theorem eq_of_mem_codes {n k : Nat} (h : k ∈ codes n) (hk : k < 0x80) : n = k := by
  unfold codes at h
  split_ifs at h <;> simp only [List.mem_cons, List.not_mem_nil, or_false] at h <;> omega

/-- A text has as many line feeds as its bytes. -/
theorem count_encode (t : Text) : (encode t).count 0x0A = t.count '\n' := by
  induction t with
  | nil => rfl
  | cons c t ih =>
    rw [encode, List.flatMap_cons, List.count_append, ← encode, ih, List.count_cons, Nat.add_comm]
    by_cases hc : c = '\n'
    · subst hc
      rfl
    · have hfree : 0x0A ∉ encodeChar c := fun hmem => by
        have hcodes : (0x0A : UInt8).toNat ∈ codes c.toNat := by
          rw [← map_toNat_encodeChar]
          exact List.mem_map_of_mem hmem
        have hnumber : c.toNat = '\n'.toNat := eq_of_mem_codes hcodes (by decide)
        exact hc (Char.toNat_inj.1 hnumber)
      rw [List.count_eq_zero.2 hfree, if_neg (by simpa using hc)]

/-- No byte of a text is the first of a byte order mark of UTF-16. -/
theorem notMem_encode (t : Text) : 0xFF ∉ encode t := by
  intro hmem
  obtain ⟨c, _, hc⟩ := List.mem_flatMap.1 hmem
  have hcodes : (0xFF : UInt8).toNat ∈ codes c.toNat := by
    rw [← map_toNat_encodeChar]
    exact List.mem_map_of_mem hc
  have hbounds := Utf16.toNat_bounds c
  have hnumber : (0xFF : UInt8).toNat = 0xFF := rfl
  rw [hnumber, codes] at hcodes
  split_ifs at hcodes <;> simp only [List.mem_cons, List.not_mem_nil, or_false] at hcodes <;> omega

end InstallerRegistry.Utf8
