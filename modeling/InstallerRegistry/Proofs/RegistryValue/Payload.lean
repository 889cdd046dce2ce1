import InstallerRegistry.Listing
import InstallerRegistry.Proofs.Component
import InstallerRegistry.Proofs.RegistryValue.Written
import Mathlib

/-!
# Writing tells values apart

Of an entry, the type and the payload of its value are written (`Entry.written`), in a listing and
in a fragment alike. The payload alone would not say which value it is: `8000` may be text, bytes
or a number. With the type it does, but for one thing: both integers are of one type, and the
digits of a number do not say how many bits it has. So two entries are written alike exactly if
they have the same value, or integers of the same number (`Entry.written_alike_iff`).

The reason is that each payload is read back, bytes by the reader of hexadecimal digits and
integers by the decimal reader of the standard library. What is known of the latter
(`Int.toInt?_repr`) is not in any part of Mathlib by itself, so this module imports all of it.
-/

namespace InstallerRegistry

/-! ## Payloads are read back -/

namespace Hex

theorem decode_encode (bytes : List UInt8) : decode (encode bytes) = .ok bytes :=
  decode_of_spells (spells_encode bytes)

theorem length_encode (bytes : List UInt8) : (encode bytes).length = 2 * bytes.length := by
  induction bytes with
  | nil => rfl
  | cons b bytes ih =>
    rw [encode, List.flatMap_cons, List.length_append, ← encode, ih, List.length_cons]
    show 2 + 2 * bytes.length = 2 * (bytes.length + 1)
    omega

end Hex

/-- The digits of an integer are read as this integer. -/
theorem Text.toInt?_ofInt (n : Int) : (String.ofList (ofInt n)).toInt? = some n := by
  rw [ofList_ofInt, Int.toInt?_repr]

namespace RegistryValue

variable {v w : RegistryValue}

/-- Is the value an **integer** of this number, whatever its width? -/
inductive IsInteger : RegistryValue → Int → Prop
  | int16 (n : Int16) : IsInteger (int16 n) n.toInt
  | int32 (n : Int32) : IsInteger (int32 n) n.toInt

/-- The payload of an integer is read as its number. -/
theorem IsInteger.toInt?_payload {n : Int} (h : v.IsInteger n) :
    (String.ofList v.payload).toInt? = some n := by
  cases h with
  | int16 n => exact Text.toInt?_ofInt n.toInt
  | int32 n => exact Text.toInt?_ofInt n.toInt

theorem IsInteger.type_eq {n : Int} (h : v.IsInteger n) : v.type = .integer := by
  cases h <;> rfl

/-- Integers of one number have one payload. -/
theorem IsInteger.payload_eq {n : Int} (h : v.IsInteger n) : v.payload = Text.ofInt n := by
  cases h <;> rfl

/-! ## What a type says about the value -/

theorem type_text_ne (t : Text) : (text t).type ≠ .binary ∧ (text t).type ≠ .integer := by
  unfold type
  dsimp only
  split
  next => exact ⟨nofun, nofun⟩
  next => split <;> exact ⟨nofun, nofun⟩

theorem exists_of_type_eq_binary (h : v.type = .binary) : ∃ bytes, v = binary bytes := by
  cases v with
  | text t => exact absurd h (type_text_ne t).1
  | binary bytes => exact ⟨bytes, rfl⟩
  | int16 n => exact absurd h nofun
  | int32 n => exact absurd h nofun

theorem exists_isInteger_of_type (h : v.type = .integer) : ∃ n, v.IsInteger n := by
  cases v with
  | text t => exact absurd h (type_text_ne t).2
  | binary bytes => exact absurd h nofun
  | int16 n => exact ⟨n.toInt, .int16 n⟩
  | int32 n => exact ⟨n.toInt, .int32 n⟩

theorem exists_text_of_type (hbinary : v.type ≠ .binary) (hinteger : v.type ≠ .integer) :
    ∃ t, v = text t := by
  cases v with
  | text t => exact ⟨t, rfl⟩
  | binary bytes => exact absurd rfl hbinary
  | int16 n => exact absurd rfl hinteger
  | int32 n => exact absurd rfl hinteger

/-- **Type and payload say which value it is**, up to the width of an integer. -/
theorem type_payload_eq_iff :
    v.type = w.type ∧ v.payload = w.payload ↔ v = w ∨ ∃ n, v.IsInteger n ∧ w.IsInteger n := by
  constructor
  · rintro ⟨htype, hpayload⟩
    by_cases hinteger : v.type = .integer
    · obtain ⟨m, hm⟩ := exists_isInteger_of_type hinteger
      obtain ⟨n, hn⟩ := exists_isInteger_of_type (htype.symm.trans hinteger)
      have hmn : m = n := by
        have hread := hm.toInt?_payload
        rw [hpayload, hn.toInt?_payload] at hread
        exact (Option.some.inj hread).symm
      exact .inr ⟨m, hm, hmn ▸ hn⟩
    by_cases hbinary : v.type = .binary
    · obtain ⟨a, rfl⟩ := exists_of_type_eq_binary hbinary
      obtain ⟨b, rfl⟩ := exists_of_type_eq_binary (htype.symm.trans hbinary)
      have hread := Hex.decode_encode a
      rw [show Hex.encode a = Hex.encode b from hpayload, Hex.decode_encode] at hread
      rw [Except.ok.inj hread]
      exact .inl rfl
    · obtain ⟨s, rfl⟩ := exists_text_of_type hbinary hinteger
      obtain ⟨t, rfl⟩ := exists_text_of_type (htype ▸ hbinary) (htype ▸ hinteger)
      exact .inl (congrArg text hpayload)
  · rintro (rfl | ⟨n, hv, hw⟩)
    · exact ⟨rfl, rfl⟩
    · exact ⟨hv.type_eq.trans hw.type_eq.symm, hv.payload_eq.trans hw.payload_eq.symm⟩

end RegistryValue

/-! ## Entries -/

/-- **What is written of an entry**: the type and the payload of its value, which has to be set. -/
def Entry.written (e : Entry) : Except RegistryError (ValueType × Text) := do
  let v ← e.setValue
  return (v.type, v.payload)

theorem Entry.written_of_value {e : Entry} {v : RegistryValue} (h : e.value = some v) :
    e.written = .ok (v.type, v.payload) :=
  bind_eq_ok_iff.2 ⟨v, Entry.setValue_eq_ok_iff.2 h, rfl⟩

/-- A listing shows what is written of an entry, or fails for the same reason. -/
theorem Listing.Row.map_ofEntry (e : Entry) :
    (ofEntry e).map (fun r => (r.type, r.payload)) = e.written := by
  unfold ofEntry Entry.written
  cases e.setValue <;> rfl

/-- A component has what is written of its entry. -/
theorem Component.written_of_ofEntry {used : List Text} {e : Entry} {c : Component}
    (h : ofEntry used e = .ok c) : e.written = .ok (c.value.type, c.value.payload) := by
  obtain ⟨rfl, hfaithful, _⟩ := ofEntry_ok h
  exact Entry.written_of_value hfaithful.value

/-- **Writing loses nothing but the width of integers.** Entries whose values are set are written
alike exactly if the values are equal, or integers of one number. Bytes have two digits each, from
which they are read back, and so is the number of an integer. -/
theorem Entry.written_alike_iff :
    (∀ (e e' : Entry) (v v' : RegistryValue), e.value = some v → e'.value = some v' →
        ((∃ type payload, e.written = .ok (type, payload) ∧ e'.written = .ok (type, payload))
          ↔ v = v' ∨ ∃ n, v.IsInteger n ∧ v'.IsInteger n))
      ∧ (∀ bytes, Hex.decode (RegistryValue.binary bytes).payload = .ok bytes
        ∧ (RegistryValue.binary bytes).payload.length = 2 * bytes.length)
      ∧ (∀ n : Int16, (String.ofList (RegistryValue.int16 n).payload).toInt? = some n.toInt)
      ∧ ∀ n : Int32, (String.ofList (RegistryValue.int32 n).payload).toInt? = some n.toInt := by
  refine ⟨fun e e' v v' hv hv' => ?_, fun bytes => ?_, fun n => ?_, fun n => ?_⟩
  · rw [← RegistryValue.type_payload_eq_iff, written_of_value hv, written_of_value hv']
    constructor
    · rintro ⟨type, payload, h, h'⟩
      exact Prod.mk.inj (Except.ok.inj (h.trans h'.symm))
    · rintro ⟨htype, hpayload⟩
      exact ⟨v.type, v.payload, rfl, by rw [htype, hpayload]⟩
  · exact ⟨Hex.decode_encode bytes, Hex.length_encode bytes⟩
  · exact (RegistryValue.IsInteger.int16 n).toInt?_payload
  · exact (RegistryValue.IsInteger.int32 n).toInt?_payload

/-- An entry with the least integer of sixteen bits. -/
def narrowEntry : Entry :=
  { name := ['A'], value := some (.int16 (-0x8000)) }

/-- An entry with the same number in thirty-two bits. -/
def wideEntry : Entry :=
  { name := ['B'], value := some (.int32 (-0x8000)) }

/-- An entry with the digits of two bytes. -/
def digitsEntry : Entry :=
  { name := ['C'], value := some (.text "8000".toList) }

/-- An entry with these bytes. -/
def bytesEntry : Entry :=
  { name := ['D'], value := some (.binary [0x80, 0]) }

/-- One number in two widths is written alike, and bytes and their digits are told apart. -/
theorem Entry.written_alike_iff_lookalikes :
    (∃ v v', narrowEntry.value = some v ∧ wideEntry.value = some v'
        ∧ ∃ type payload, narrowEntry.written = .ok (type, payload)
          ∧ wideEntry.written = .ok (type, payload))
      ∧ (∃ v v', digitsEntry.value = some v ∧ bytesEntry.value = some v'
        ∧ v.payload = v'.payload
        ∧ ¬ ∃ type payload, digitsEntry.written = .ok (type, payload)
          ∧ bytesEntry.written = .ok (type, payload)) := by
  have hnumber : RegistryValue.IsInteger (.int16 (-0x8000)) (-0x8000)
      ∧ RegistryValue.IsInteger (.int32 (-0x8000)) (-0x8000) := ⟨.int16 _, .int32 _⟩
  refine ⟨⟨_, _, rfl, rfl, ?_⟩, ⟨_, _, rfl, rfl, rfl, fun halike => ?_⟩⟩
  · exact (written_alike_iff.1 narrowEntry wideEntry _ _ rfl rfl).2 (.inr ⟨_, hnumber⟩)
  · rcases (written_alike_iff.1 digitsEntry bytesEntry _ _ rfl rfl).1 halike with h | ⟨n, h, _⟩
    · exact absurd h nofun
    · cases h

end InstallerRegistry
