import InstallerRegistry.Proofs.Text.Hex
import InstallerRegistry.RegistryValue

/-!
# What is written of a value

Listings and fragments show a value by the name of its type and by a text. Both are said here of the
value itself (`RegistryValue.IsWrittenAs`), without the types that values are sorted into; for each
value there is one such name and one such text, those that the library works with
(`RegistryValue.isWrittenAs_iff`).
-/

namespace InstallerRegistry

theorem Text.ofList_ofInt (n : Int) : String.ofList (ofInt n) = n.repr := by
  cases n with
  | ofNat n => rfl
  | negSucc n => exact String.ofList_cons

/-- An integer is written as the standard library writes it. -/
theorem Text.ofInt_eq_repr (n : Int) : ofInt n = n.repr.toList := by
  rw [← ofList_ofInt, String.toList_ofList]

theorem ValueType.name_injective : Function.Injective ValueType.name := by
  intro a b
  cases a <;> cases b <;> decide

namespace RegistryValue

/-- **What is written of a value**: the name of its type, and a text. A text with a line feed is a
list of strings, any other text with a percent sign is expanded when it is read. Bytes are written
with capital digits. -/
inductive IsWrittenAs : RegistryValue → Text → Text → Prop
  | list {t : Text} (feed : '\n' ∈ t) : IsWrittenAs (text t) "multiString".toList t
  | expandable {t : Text} (noFeed : '\n' ∉ t) (percent : '%' ∈ t) :
    IsWrittenAs (text t) "expandable".toList t
  | string {t : Text} (noFeed : '\n' ∉ t) (noPercent : '%' ∉ t) :
    IsWrittenAs (text t) "string".toList t
  | binary {bytes : List UInt8} {digits : Text} (spells : Hex.Spells bytes digits)
    (capital : digits.map Char.toUpper = digits) :
    IsWrittenAs (binary bytes) "binary".toList digits
  | int16 (n : Int16) : IsWrittenAs (int16 n) "integer".toList n.toInt.repr.toList
  | int32 (n : Int32) : IsWrittenAs (int32 n) "integer".toList n.toInt.repr.toList

variable {v : RegistryValue} {type payload : Text}

theorem isWrittenAs_name_payload (v : RegistryValue) : v.IsWrittenAs v.type.name v.payload := by
  cases v with
  | text t =>
    by_cases hfeed : '\n' ∈ t
    · rw [type, if_pos hfeed]
      exact .list hfeed
    by_cases hpercent : '%' ∈ t
    · rw [type, if_neg hfeed, if_pos hpercent]
      exact .expandable hfeed hpercent
    · rw [type, if_neg hfeed, if_neg hpercent]
      exact .string hfeed hpercent
  | binary bytes =>
    have hspells := Hex.spells_encode bytes
    exact .binary hspells (Hex.spells_iff.1 hspells)
  | int16 n =>
    rw [payload, Text.ofInt_eq_repr]
    exact .int16 n
  | int32 n =>
    rw [payload, Text.ofInt_eq_repr]
    exact .int32 n

/-- **A value is written in one way**: with the name of its type, and its payload. -/
theorem isWrittenAs_iff :
    v.IsWrittenAs type payload ↔ type = v.type.name ∧ payload = v.payload := by
  constructor
  · intro h
    cases h with
    | list hfeed => exact ⟨by rw [RegistryValue.type, if_pos hfeed]; rfl, rfl⟩
    | expandable hfeed hpercent =>
      exact ⟨by rw [RegistryValue.type, if_neg hfeed, if_pos hpercent]; rfl, rfl⟩
    | string hfeed hpercent =>
      exact ⟨by rw [RegistryValue.type, if_neg hfeed, if_neg hpercent]; rfl, rfl⟩
    | binary hspells hcapital => exact ⟨rfl, hcapital.symm.trans (Hex.spells_iff.1 hspells)⟩
    | int16 n => exact ⟨rfl, (Text.ofInt_eq_repr n.toInt).symm⟩
    | int32 n => exact ⟨rfl, (Text.ofInt_eq_repr n.toInt).symm⟩
  · rintro ⟨rfl, rfl⟩
    exact v.isWrittenAs_name_payload

/-- The type of a list of strings is that of a text with a line feed. -/
theorem type_eq_multiString_iff : v.type = .multiString ↔ ∃ t, v = text t ∧ '\n' ∈ t := by
  constructor
  · intro h
    have hwritten := v.isWrittenAs_name_payload
    rw [h] at hwritten
    generalize v.payload = payload at hwritten
    cases hwritten with
    | list hfeed => exact ⟨payload, rfl, hfeed⟩
  · rintro ⟨t, rfl, hfeed⟩
    exact if_pos hfeed

end RegistryValue

end InstallerRegistry
