import InstallerRegistry.Proofs.Export.Writer
import InstallerRegistry.Proofs.Text.Cutting
import InstallerRegistry.Proofs.Text.Hex
import InstallerRegistry.Proofs.Text.Utf16

/-!
# Reading data

The data that a writer makes of a value is read back as that value (`valueOf_data`). Each form has
its own reason: a quoted string is undone by `Quoted.decode?_encode`, a number by reading its digits
in the order of their weight, bytes because commas count for nothing, and a list of strings because
none of its strings has a NUL and the last one is not empty.
-/

namespace InstallerRegistry.Export

variable (l : Layout)

/-! ## Bytes -/

/-- **A list of bytes**: two digits of either case for each of them, with commas and blanks anywhere
between digits. -/
def Lists (bytes : List UInt8) (t : Text) : Prop :=
  Hex.Spells bytes (t.filter fun c => c != ',' && !Text.isBlank c)

/-- A list of bytes is read as these bytes. -/
theorem bytesOf_of_lists {bytes : List UInt8} {t : Text} (h : Lists bytes t) :
    bytesOf t = .ok bytes := by
  rw [bytesOf, Hex.decode_of_spells h]

namespace Layout

/-- What is left of a list of bytes without its commas. -/
theorem filter_pairs (bytes : List UInt8) :
    (l.pairs [] bytes).filter (fun c => c != ',' && !Text.isBlank c) = bytes.flatMap l.byte := by
  have hdigits : ∀ b, (l.byte b).filter (fun c => c != ',' && !Text.isBlank c) = l.byte b := by
    refine fun b => List.filter_eq_self.2 (fun c hc => ?_)
    have hspells := l.spells_flatMap_byte [b]
    rw [List.flatMap_cons, List.flatMap_nil, List.append_nil] at hspells
    obtain ⟨n, hn⟩ := hspells.digit?_of_mem c hc
    simp [Hex.ne_of_digit? hn (show Hex.digit? ',' = none by decide), Hex.isBlank_of_digit? hn]
  induction bytes with
  | nil => rfl
  | cons b bytes ih =>
    cases bytes with
    | nil => rw [List.flatMap_cons, List.flatMap_nil, List.append_nil, pairs, hdigits]
    | cons b' bytes =>
      have hcomma : ∀ t : Text, (',' :: l.lineBreak none ++ t).filter
          (fun c => c != ',' && !Text.isBlank c)
          = t.filter (fun c => c != ',' && !Text.isBlank c) := fun t => rfl
      rw [pairs_cons_cons, List.append_assoc, List.filter_append, hdigits, List.head?_nil,
        Option.join_none, hcomma, List.tail_nil, ih]
      rfl

end Layout

theorem lists_pairs (bytes : List UInt8) : Lists bytes (l.pairs [] bytes) := by
  rw [Lists, l.filter_pairs]
  exact l.spells_flatMap_byte bytes

/-! ## Numbers -/

/-- A numeral is read digit by digit, since no part of it denotes more than the whole. -/
theorem foldlM_addDigit {n : Nat} {t : Text} (h : Hex.Denotes n t) (hlt : n < 0x100000000) :
    t.foldlM addDigit 0 = .ok n := by
  induction h with
  | @digit c d h =>
    have hadd : addDigit 0 c = .ok (0 * 16 + d) := by
      rw [addDigit, h]
      exact if_pos (by omega)
    rw [List.foldlM_cons, hadd, Nat.zero_mul, Nat.zero_add]
    rfl
  | @concat n t c d init last ih =>
    have hadd : addDigit n c = .ok (n * 16 + d) := by
      rw [addDigit, last]
      exact if_pos hlt
    rw [List.foldlM_append, ih (by omega)]
    show List.foldlM addDigit n [c] = _
    rw [List.foldlM_cons, hadd]
    rfl

/-- **A numeral is read** as its number, if this has thirty-two bits. -/
theorem dword_of_denotes {n : Nat} {t : Text} (h : Hex.Denotes n t) (hlt : n < 0x100000000) :
    dword t = .ok n := by
  obtain ⟨hne, hdigits⟩ := h.digit?_of_mem
  have hplus : '+' ∉ t := fun hmem => by
    -- a sign is no digit
    obtain ⟨d, hd⟩ := hdigits '+' hmem
    exact absurd rfl (Hex.ne_of_digit? hd (show Hex.digit? '+' = none by decide))
  rw [← foldlM_addDigit h hlt]
  unfold dword
  split
  next => exact absurd rfl hne
  next => exact absurd List.mem_cons_self hplus
  next => exact absurd List.mem_cons_self hplus
  next => rfl

theorem ofBytes_bytesOfDword {n : Nat} (h : n < 0x100000000) :
    Hex.ofBytes 0 (Layout.bytesOfDword n) = n := by
  simp only [Hex.ofBytes, Layout.bytesOfDword, List.foldl_cons, List.foldl_nil,
    UInt8.toNat_ofNat']
  omega

/-- The digits of a number are a numeral of it. -/
theorem denotes_dword {n : Nat} (h : n < 0x100000000) : Hex.Denotes n (l.dword n) := by
  have hspells : Hex.Spells (Layout.bytesOfDword n) (l.dword n) := l.spells_flatMap_byte _
  have hdenotes := hspells.denotes (List.cons_ne_nil _ _)
  rwa [ofBytes_bytesOfDword h] at hdenotes

/-! ## Lists of strings -/

/-- The lines of a text as the strings of a list: what is read from their bytes is the text with
NULs for line feeds. -/
theorem stringOf_bytesOfStrings {t : Text} (hnul : '\x00' ∉ t)
    (hlast : t.getLast? ≠ some '\n') :
    stringOf .five (Layout.bytesOfStrings (Text.splitOn '\n' t))
      = .ok (t.map fun c => if c = '\n' then '\x00' else c) := by
  have hnuls : (Text.splitOn '\n' t).flatMap (· ++ ['\x00']) ++ ['\x00']
      = (t.map fun c => if c = '\n' then '\x00' else c) ++ ['\x00', '\x00'] := by
    rw [Text.flatMap_concat_eq_join (Text.splitOn_ne_nil _ _), Text.join_splitOn_eq_map,
      List.append_assoc]
    rfl
  have hend : ∀ c ∈ (t.map fun c => if c = '\n' then '\x00' else c).getLast?,
      (c == '\x00') = false := by
    intro c hc
    rw [List.getLast?_map] at hc
    obtain ⟨d, hd, rfl⟩ := Option.map_eq_some_iff.1 hc
    have hd' : d ≠ '\n' := fun h => hlast (h ▸ hd)
    rw [if_neg hd', beq_eq_false_iff_ne]
    exact fun h => hnul (h ▸ List.mem_of_getLast? hd)
  rw [stringOf, Layout.bytesOfStrings, Utf16.decode_encode]
  dsimp only
  have hall : ∀ c ∈ ['\x00', '\x00'], (c == '\x00') = true :=
    fun c hc => beq_iff_eq.2 (by simpa using hc)
  rw [hnuls, Text.dropEndWhile_append_of_all _ hall, Text.dropEndWhile_eq_self hend]

theorem linesOfList_map {t : Text} (hnul : '\x00' ∉ t) :
    linesOfList (t.map fun c => if c = '\n' then '\x00' else c) = t := by
  rw [linesOfList, Text.join_splitOn_eq_map, List.map_map]
  refine (List.map_congr_left (fun c hc => ?_)).trans (List.map_id t)
  have hc' : c ≠ '\x00' := fun h => hnul (h ▸ hc)
  by_cases h : c = '\n'
  · simp [h]
  · simp [h, hc']

/-! ## Values -/

theorem quotedValue_encode (t : Text) : quotedValue (Quoted.encode t) = .ok (.text t) := by
  have h := Quoted.decode?_encode t []
  rw [List.append_nil] at h
  rw [quotedValue, h]
  rfl

theorem valueOf_encode (version : Version) (t : Text) :
    valueOf version (Quoted.encode t) = .ok (some (.text t)) := by
  have h : valueOf version (Quoted.encode t)
      = (do return some (← quotedValue (Quoted.encode t))) := rfl
  rw [h, quotedValue_encode]
  rfl

theorem valueOf_dword (version : Version) {n : Nat} {t : Text} (h : Hex.Denotes n t)
    (hlt : n < 0x100000000) : valueOf version ("dword:".toList ++ t) = .ok (some (ofDword n)) := by
  have hdigits := Text.after?_append "dword:".toList t
  have hminus : ("dword:".toList ++ t == ['-']) = false := rfl
  have hquote : (("dword:".toList ++ t).head? == some '"') = false := rfl
  simp only [valueOf, hminus, hquote, hdigits, dword_of_denotes h hlt, Bool.false_eq_true,
    if_false]

theorem valueOf_hex (version : Version) {bytes : List UInt8} {t : Text} (h : Lists bytes t) :
    valueOf version ("hex:".toList ++ t) = .ok (some (.binary bytes)) := by
  have hvalue : valueOf version ("hex:".toList ++ t)
      = (do return some (.binary (← bytesOf t))) := rfl
  rw [hvalue, bytesOf_of_lists h]
  rfl

theorem valueOf_list {t : Text} (hnul : '\x00' ∉ t) (hlast : t.getLast? ≠ some '\n') :
    valueOf .five ("hex(7):".toList
        ++ l.pairs [] (Layout.bytesOfStrings (Text.splitOn '\n' t)))
      = .ok (some (.text t)) := by
  have hvalue : ∀ pairs : Text, valueOf .five ("hex(7):".toList ++ pairs)
      = (do return some (← valueOfBytes .five ['7'] (← bytesOf pairs))) := fun _ => rfl
  have hlist : ∀ bytes, valueOfBytes .five ['7'] bytes
      = (do return .text (linesOfList (← stringOf .five bytes))) := fun _ => rfl
  rw [hvalue, bytesOf_of_lists (lists_pairs l _)]
  show (do return some (← valueOfBytes .five ['7'] _)) = _
  rw [hlist, stringOf_bytesOfStrings hnul hlast]
  show Except.ok (some (RegistryValue.text (linesOfList _))) = _
  rw [linesOfList_map hnul]

theorem ofDword_toUInt32 (n : Int32) : ofDword n.toUInt32.toNat = .int32 n := by
  have h : Int32.ofNat n.toUInt32.toNat = n := Int32.toBitVec_inj.1 (by simp)
  rw [ofDword, h]

/-- **The data of a value is read back.** -/
theorem valueOf_data {v : RegistryValue} (h : IsWritableValue v) :
    valueOf .five (l.data [] v) = .ok (some v) := by
  cases v with
  | text t =>
    by_cases hlf : '\n' ∈ t
    · obtain ⟨hnul, hlast⟩ := h hlf
      rw [l.data_list [] hlf]
      exact valueOf_list l hnul hlast
    · rw [l.data_string [] hlf]
      exact valueOf_encode .five t
  | binary bytes => exact valueOf_hex .five (lists_pairs l bytes)
  | int16 n => exact absurd h id
  | int32 n =>
    have hlt := n.toUInt32.toNat_lt
    have hvalue := valueOf_dword .five (denotes_dword l hlt) hlt
    rw [ofDword_toUInt32] at hvalue
    exact hvalue

end InstallerRegistry.Export
