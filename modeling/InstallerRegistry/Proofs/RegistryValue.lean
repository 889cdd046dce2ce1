import InstallerRegistry.Manifest.Contents
import InstallerRegistry.Proofs.Except
import InstallerRegistry.Proofs.Text.Hex

/-!
# Registry values in a manifest are read back

The value of a manifest that a registry value is written as is read as this registry value
(`RegistryValue.ofYaml_toYaml`), and never as a value with an identifier or a condition of its own
(`Detailed.ofYaml_toYaml`).

There are other ways to write a registry value, since bytes may have their digits in any case and
separated. `RegistryValue.IsFormOf` lists them all, and nothing else is read
(`RegistryValue.ofYaml_iff`).
-/

namespace InstallerRegistry

namespace RegistryValue

open Yaml (Value)

/-- The digits of bytes are read back; none of them separates digits. -/
theorem ofDigits_encode (bytes : List UInt8) :
    ofDigits (Hex.encode bytes) = .ok (binary bytes) := by
  have hspells := Hex.spells_encode bytes
  have hdigits : ∀ c ∈ Hex.encode bytes, (!(c == ' ' || c == ',' || c == '-')) = true := by
    intro c hc
    obtain ⟨n, hn⟩ := hspells.digit?_of_mem c hc
    simp [Hex.ne_of_digit? hn (show Hex.digit? ' ' = none by decide),
      Hex.ne_of_digit? hn (show Hex.digit? ',' = none by decide),
      Hex.ne_of_digit? hn (show Hex.digit? '-' = none by decide)]
  rw [ofDigits, List.filter_eq_self.2 hdigits, Hex.decode_of_spells hspells]

/-- **A registry value is read back** from what it is written as. -/
theorem ofYaml_toYaml (v : RegistryValue) : ofYaml v.toYaml = .ok (some v) := by
  cases v with
  | text t => rfl
  | int32 n =>
    have hrange : -0x80000000 ≤ n.toInt ∧ n.toInt < 0x80000000 := ⟨n.le_toInt, n.toInt_lt⟩
    rw [toYaml, ofYaml, if_pos hrange, Int32.ofInt_toInt]
  | int16 n =>
    have hrange : -0x8000 ≤ n.toInt ∧ n.toInt < 0x8000 := ⟨n.le_toInt, n.toInt_lt⟩
    rw [toYaml, ofYaml, ofPair, if_pos rfl, ofInt16, if_pos hrange, Int16.ofInt_toInt]
    rfl
  | binary bytes =>
    rw [toYaml, ofYaml, ofPair, if_pos rfl, ofDigits_encode]
    rfl

/-! ## Values that are registry values, and the others -/

/-- The text without the blanks, commas and hyphens in it. -/
def withoutSeparators (t : Text) : Text :=
  t.filter fun c => !(c == ' ' || c == ',' || c == '-')

/-- The mapping that announces bytes. -/
def binaryForm (t : Text) : Value :=
  .mapping [(.text binaryKey, .text t)]

/-- The mapping that announces an integer of sixteen bits. -/
def int16Form (n : Yaml.Number) : Value :=
  .mapping [(.text int16Key, .number n)]

/-- **The values of a manifest that are registry values**, each with what it is. Null is a value
that is not set, and the digits of bytes have any case. -/
inductive IsFormOf : Option RegistryValue → Value → Prop
  | unset : IsFormOf none .null
  | text (t : Text) : IsFormOf (some (text t)) (.text t)
  | int32 (n : Int32) : IsFormOf (some (int32 n)) (.number (.integer n.toInt))
  | int16 (n : Int16) : IsFormOf (some (int16 n)) (int16Form (.integer n.toInt))
  | binary {bytes : List UInt8} {t : Text}
      (h : (withoutSeparators t).map Char.toUpper = Hex.encode bytes) :
      IsFormOf (some (binary bytes)) (binaryForm t)

theorem ofDigits_eq_ok_iff {t : Text} {v : RegistryValue} :
    ofDigits t = .ok v
      ↔ ∃ bytes, (withoutSeparators t).map Char.toUpper = Hex.encode bytes ∧ v = binary bytes := by
  have hdecode : ∀ bytes, (withoutSeparators t).map Char.toUpper = Hex.encode bytes
      ↔ Hex.decode (withoutSeparators t) = .ok bytes := fun bytes => by
    rw [Hex.decode_eq_ok_iff, Hex.spells_iff]
  simp only [hdecode]
  unfold ofDigits
  rw [← withoutSeparators]
  cases Hex.decode (withoutSeparators t) with
  | error e => exact ⟨nofun, fun ⟨_, h, _⟩ => absurd h nofun⟩
  | ok bytes =>
    refine ⟨fun h => ⟨bytes, rfl, (Except.ok.inj h).symm⟩, ?_⟩
    rintro ⟨_, ⟨⟩, rfl⟩
    rfl

/-- Text behind the key for bytes is read as bytes, or the digits in it are wrong. -/
theorem ofYaml_binaryForm (t : Text) :
    (∃ v, IsFormOf v (binaryForm t) ∧ ofYaml (binaryForm t) = .ok v)
      ∨ ∃ e, ofYaml (binaryForm t) = .error (.invalidBinary e) := by
  have hread : ofYaml (binaryForm t) = (do return some (← ofDigits t)) := by
    rw [binaryForm, ofYaml, ofPair, if_pos rfl]
  rw [hread]
  cases hdigits : ofDigits t with
  | ok v =>
    obtain ⟨bytes, h, rfl⟩ := ofDigits_eq_ok_iff.1 hdigits
    exact .inl ⟨_, .binary h, rfl⟩
  | error e =>
    unfold ofDigits at hdigits
    split at hdigits
    next => exact absurd hdigits nofun
    next e' _ =>
      cases hdigits
      exact .inr ⟨e', rfl⟩

/-- A number behind the key for integers of sixteen bits is read, if it is one. -/
theorem ofYaml_int16Form (n : Yaml.Number) :
    (∃ v, IsFormOf v (int16Form n) ∧ ofYaml (int16Form n) = .ok v)
      ∨ ∃ u, ofYaml (int16Form n) = .error (.unsupportedValue u) := by
  have hread : ofYaml (int16Form n) = (do return some (← ofInt16 n)) := by
    rw [int16Form, ofYaml, ofPair, if_pos rfl]
  rw [hread]
  cases n with
  | float x => exact .inr ⟨_, rfl⟩
  | integer i =>
    unfold ofInt16
    dsimp only
    split
    next h =>
      have hi : (Int16.ofInt i).toInt = i := Int16.toInt_ofInt_of_le h.1 h.2
      refine .inl ⟨_, ?_, rfl⟩
      have hform := IsFormOf.int16 (Int16.ofInt i)
      rwa [hi] at hform
    next => exact .inr ⟨_, rfl⟩

/-- A mapping of one pair that announces neither is no registry value. -/
theorem ofYaml_pair {key value : Value} (hbinary : ∀ t, .mapping [(key, value)] ≠ binaryForm t)
    (hint16 : ∀ n, .mapping [(key, value)] ≠ int16Form n) :
    ∃ u, ofYaml (.mapping [(key, value)]) = .error (.unsupportedValue u) := by
  cases key with
  | text k =>
    cases value with
    | text t =>
      have hk : k ≠ binaryKey := fun hk => hbinary t (by rw [hk, binaryForm])
      exact ⟨_, by rw [ofYaml, ofPair, if_neg hk]; rfl⟩
    | number n =>
      have hk : k ≠ int16Key := fun hk => hint16 n (by rw [hk, int16Form])
      exact ⟨_, by rw [ofYaml, ofPair, if_neg hk]; rfl⟩
    | _ => exact ⟨_, rfl⟩
  | _ => exact ⟨_, rfl⟩

/-- **Every value of a manifest** is a registry value and read as such, or one of two errors. -/
theorem ofYaml_cases (y : Value) :
    (∃ v, IsFormOf v y ∧ ofYaml y = .ok v)
      ∨ (∃ t, y = binaryForm t) ∧ (∃ e, ofYaml y = .error (.invalidBinary e))
      ∨ (∀ t, y ≠ binaryForm t) ∧ ∃ u, ofYaml y = .error (.unsupportedValue u) := by
  cases y with
  | null => exact .inl ⟨none, .unset, rfl⟩
  | text t => exact .inl ⟨_, .text t, rfl⟩
  | number n =>
    cases n with
    | float x => exact .inr (.inr ⟨nofun, _, rfl⟩)
    | integer i =>
      by_cases h : -0x80000000 ≤ i ∧ i < 0x80000000
      · have hi : (Int32.ofInt i).toInt = i := Int32.toInt_ofInt_of_le h.1 h.2
        have hform := IsFormOf.int32 (Int32.ofInt i)
        rw [hi] at hform
        exact .inl ⟨_, hform, if_pos h⟩
      · exact .inr (.inr ⟨nofun, _, if_neg h⟩)
  | mapping pairs =>
    match pairs with
    | [] => exact .inr (.inr ⟨nofun, _, rfl⟩)
    | _ :: _ :: _ => exact .inr (.inr ⟨nofun, _, rfl⟩)
    | [(key, value)] =>
      by_cases hbinary : ∃ t, .mapping [(key, value)] = binaryForm t
      · obtain ⟨t, ht⟩ := hbinary
        rw [ht]
        exact (ofYaml_binaryForm t).imp_right fun h => .inl ⟨⟨t, rfl⟩, h⟩
      · have hbinary := not_exists.1 hbinary
        by_cases hint16 : ∃ n, .mapping [(key, value)] = int16Form n
        · obtain ⟨n, hn⟩ := hint16
          rw [hn] at hbinary ⊢
          exact (ofYaml_int16Form n).imp_right fun h => .inr ⟨hbinary, h⟩
        · exact .inr (.inr ⟨hbinary, ofYaml_pair hbinary (not_exists.1 hint16)⟩)
  | _ => exact .inr (.inr ⟨nofun, _, rfl⟩)

theorem ofYaml_of_isFormOf {v : Option RegistryValue} {y : Value} (h : IsFormOf v y) :
    ofYaml y = .ok v := by
  cases h with
  | unset => rfl
  | text t => rfl
  | int32 n => exact ofYaml_toYaml (int32 n)
  | int16 n => exact ofYaml_toYaml (int16 n)
  | @binary bytes t h =>
    have hdigits : ofDigits t = .ok (binary bytes) := ofDigits_eq_ok_iff.2 ⟨bytes, h, rfl⟩
    rw [binaryForm, ofYaml, ofPair, if_pos rfl, hdigits]
    rfl

/-- **Exactly the forms of registry values are read**, what is written among them. Of all other
values, bytes with wrong digits are reported as such, and the rest as of no type there is. -/
theorem ofYaml_iff :
    (∀ v : RegistryValue, ofYaml v.toYaml = .ok (some v))
      ∧ ∀ y, (∀ v, ofYaml y = .ok v ↔ IsFormOf v y)
        ∧ ((∃ e, ofYaml y = .error (.invalidBinary e))
          ↔ (∃ t, y = binaryForm t) ∧ ∀ v, ¬ IsFormOf v y)
        ∧ ((∃ u, ofYaml y = .error (.unsupportedValue u))
          ↔ (∀ t, y ≠ binaryForm t) ∧ ∀ v, ¬ IsFormOf v y) := by
  refine ⟨ofYaml_toYaml, fun y => ?_⟩
  have hnone : ∀ {e}, ofYaml y = .error e → ∀ v, ¬ IsFormOf v y := fun he v hform =>
    absurd (he.symm.trans (ofYaml_of_isFormOf hform)) nofun
  obtain ⟨v, hform, hv⟩ | ⟨hbinary, e, he⟩ | ⟨hbinary, u, hu⟩ := ofYaml_cases y
  · refine ⟨fun v' => ⟨fun h => ?_, ofYaml_of_isFormOf⟩, ?_, ?_⟩
    · rwa [← Except.ok.inj (hv.symm.trans h)]
    · exact ⟨fun ⟨e, he⟩ => absurd hform (hnone he v), fun h => absurd hform (h.2 v)⟩
    · exact ⟨fun ⟨u, hu⟩ => absurd hform (hnone hu v), fun h => absurd hform (h.2 v)⟩
  · refine ⟨fun v => ⟨fun h => absurd (he.symm.trans h) nofun, ofYaml_of_isFormOf⟩, ?_, ?_⟩
    · exact iff_of_true ⟨e, he⟩ ⟨hbinary, hnone he⟩
    · refine iff_of_false ?_ ?_
      · rintro ⟨u, hu⟩
        exact absurd (he.symm.trans hu) nofun
      · rintro ⟨hother, _⟩
        exact not_forall_not.2 hbinary hother
  · refine ⟨fun v => ⟨fun h => absurd (hu.symm.trans h) nofun, ofYaml_of_isFormOf⟩, ?_, ?_⟩
    · refine iff_of_false ?_ ?_
      · rintro ⟨e, he⟩
        exact absurd (hu.symm.trans he) nofun
      · rintro ⟨⟨t, ht⟩, _⟩
        exact hbinary t ht
    · exact iff_of_true ⟨u, hu⟩ ⟨hbinary, hnone hu⟩

end RegistryValue

theorem Detailed.ofYaml_toYaml (v : RegistryValue) :
    Detailed.ofYaml v.toYaml = .ok { value := v.toYaml } := by
  cases v <;> rfl

end InstallerRegistry
