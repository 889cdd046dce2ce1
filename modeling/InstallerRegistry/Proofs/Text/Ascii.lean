import InstallerRegistry.Text.Utf8
import InstallerRegistry.Text.Windows1252

/-!
# Bytes that two encodings read alike

UTF-8 and Windows-1252 read a byte below `0x80` as the character of its number. No other bytes are
read alike by both: in UTF-8 a byte from `0x80` on is one of several that make up one character, so
there are fewer characters than bytes, while Windows-1252 has one character for each byte. So the
texts of a file in the two encodings are the same exactly if the file is ASCII
(`Windows1252.decode_eq_iff`).
-/

namespace InstallerRegistry

/-- Are all bytes those of ASCII characters? -/
def IsAscii (bytes : List UInt8) : Prop :=
  ∀ b ∈ bytes, b.toNat < 0x80

instance (bytes : List UInt8) : Decidable (IsAscii bytes) :=
  inferInstanceAs (Decidable (∀ b ∈ bytes, b.toNat < 0x80))

namespace Utf8

/-! ## The first character -/

theorem first?_of_lt {a : Nat} (h : a < 0x80) (rest : List Nat) :
    first? (a :: rest) = some (Char.ofNat a, 1) :=
  if_pos h

theorem le_length_of_first? {bytes : List Nat} {c : Char} {n : Nat}
    (h : first? bytes = some (c, n)) : n ≤ bytes.length := by
  unfold first? at h
  repeat' split at h
  all_goals simp only [reduceCtorEq, Option.some.injEq, Prod.mk.injEq] at h
  all_goals rw [← h.2]
  all_goals simp only [List.length_cons, Nat.le_add_left]

theorem two_le_of_first? {a : Nat} {rest : List Nat} {c : Char} {n : Nat} (ha : 0x80 ≤ a)
    (h : first? (a :: rest) = some (c, n)) : 2 ≤ n := by
  unfold first? at h
  dsimp only at h
  rw [if_neg (Nat.not_lt.2 ha)] at h
  repeat' split at h
  all_goals simp only [reduceCtorEq, Option.some.injEq, Prod.mk.injEq] at h
  all_goals omega

/-! ## The whole text -/

theorem decode_of_first? {bytes : List UInt8} {c : Char} {n : Nat}
    (h : first? ((bytes.take 4).map UInt8.toNat) = some (c, n)) :
    decode bytes = (c :: (decode (bytes.drop n)).1, (decode (bytes.drop n)).2) := by
  rw [decode]
  split
  next hnone => cases hnone.symm.trans h
  next c' n' hsome =>
    obtain ⟨rfl, rfl⟩ := Prod.mk.inj (Option.some.inj (hsome.symm.trans h))
    rfl

/-- **A text has no more characters than bytes**, and as many only if the bytes are ASCII. -/
theorem length_decode (bytes : List UInt8) :
    (decode bytes).1.length ≤ bytes.length
      ∧ ((decode bytes).1.length = bytes.length → IsAscii bytes) := by
  induction hlength : bytes.length using Nat.strongRecOn generalizing bytes with
  | ind length ih =>
    cases hfirst : first? ((bytes.take 4).map UInt8.toNat) with
    | none =>
      have hnone : decode bytes = ([], bytes) := by
        rw [decode]
        split
        next => rfl
        next hsome => cases hfirst.symm.trans hsome
      rw [hnone]
      refine ⟨Nat.zero_le _, fun h => ?_⟩
      rw [List.eq_nil_of_length_eq_zero (hlength.trans h.symm)]
      exact fun b hb => absurd hb List.not_mem_nil
    | some next =>
      obtain ⟨c, n⟩ := next
      have hpos : 0 < n := first?_pos hfirst
      have hn : n ≤ bytes.length := by
        refine Nat.le_trans (le_length_of_first? hfirst) ?_
        rw [List.length_map, List.length_take]
        exact Nat.min_le_right _ _
      have hdrop : (bytes.drop n).length = bytes.length - n := List.length_drop
      obtain ⟨hle, hascii⟩ := ih (bytes.length - n) (by omega) (bytes.drop n) hdrop
      rw [decode_of_first? hfirst, List.length_cons]
      refine ⟨by omega, fun h => ?_⟩
      -- with as many characters as bytes, the first character has one byte, which is ASCII
      obtain rfl : n = 1 := by omega
      cases bytes with
      | nil => exact absurd hn (by decide)
      | cons b bytes =>
        refine List.forall_mem_cons.2 ⟨?_, hascii (by omega)⟩
        refine Nat.lt_of_not_le fun hb => ?_
        exact absurd (two_le_of_first? hb hfirst) (by decide)

theorem decode_of_isAscii {bytes : List UInt8} (h : IsAscii bytes) :
    decode bytes = (bytes.map fun b => Char.ofNat b.toNat, []) := by
  induction bytes with
  | nil => rw [decode]; rfl
  | cons b bytes ih =>
    obtain ⟨hb, hbytes⟩ := List.forall_mem_cons.1 h
    have hfirst : first? (((b :: bytes).take 4).map UInt8.toNat)
        = some (Char.ofNat b.toNat, 1) := first?_of_lt hb _
    rw [decode_of_first? hfirst]
    show (Char.ofNat b.toNat :: (decode bytes).1, (decode bytes).2) = _
    rw [ih hbytes]
    rfl

/-- A byte sequence that is well formed is read to its end. -/
theorem decode?_eq_some_iff {bytes : List UInt8} {t : Text} :
    decode? bytes = some t ↔ decode bytes = (t, []) := by
  unfold decode?
  split
  next t' h => rw [h, Option.some_inj, Prod.mk.injEq, and_iff_left rfl]
  next t' b rest h =>
    rw [h]
    exact ⟨nofun, nofun⟩

end Utf8

namespace Windows1252

theorem decode_of_isAscii {bytes : List UInt8} (h : IsAscii bytes) :
    decode bytes = bytes.map fun b => Char.ofNat b.toNat := by
  refine List.map_congr_left fun b hb => ?_
  have hb : ¬ (0x80 ≤ b.toNat ∧ b.toNat < 0xA0) := fun hrange =>
    Nat.not_lt.2 hrange.1 (h b hb)
  exact if_neg hb

/-- **The text of UTF-8 bytes is their text in Windows-1252** exactly if they are ASCII. -/
theorem decode_eq_iff {bytes : List UInt8} {t : Text} (h : Utf8.decode? bytes = some t) :
    decode bytes = t ↔ IsAscii bytes := by
  have hdecode := Utf8.decode?_eq_some_iff.1 h
  constructor
  · intro ht
    refine (Utf8.length_decode bytes).2 ?_
    rw [hdecode, ← ht, decode, List.length_map]
  · intro hascii
    rw [Utf8.decode_of_isAscii hascii] at hdecode
    rw [decode_of_isAscii hascii]
    exact (Prod.mk.inj hdecode).1

end Windows1252

end InstallerRegistry
