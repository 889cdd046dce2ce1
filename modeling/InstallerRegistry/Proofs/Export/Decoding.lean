import InstallerRegistry.Proofs.Export.Encoding
import InstallerRegistry.Proofs.Text.Utf8

/-!
# The files of a text

A text can be in a file in several ways: as UTF-16 behind its byte order mark, and as UTF-8 with a
byte order mark or without one (`IsFileOf`). The encodings do not get in each other's way, since
UTF-8 has no byte `0xFF`, so each file is read as the text that was written, and whatever else is
read is single-byte text behind the header of version 4. In all other files there is a fault, and
the reader says where (`FaultIn`): a fault in UTF-16 is one of the first line, a fault in UTF-8 is
one of the line that the first invalid byte is in.
-/

namespace InstallerRegistry.Export

/-- **The files of a text.** Without a byte order mark, a text must not look as if it had one or
were one of version 4. -/
inductive IsFileOf : Text → List UInt8 → Prop
  | utf16 (t : Text) : IsFileOf t (utf16Mark ++ Utf16.encode t)
  | markedUtf8 (t : Text) : IsFileOf t (utf8Mark ++ Utf8.encode t)
  | plainUtf8 {t : Text} (hmark : ¬ utf8Mark <+: Utf8.encode t)
      (hfour : ¬ StartsAsFour (Utf8.encode t)) : IsFileOf t (Utf8.encode t)
  | windows1252 {bytes : List UInt8} (hfour : StartsAsFour bytes) :
      IsFileOf (Windows1252.decode bytes) bytes

/-- **The faults of files**, each with the line that it is in: UTF-16 with a byte too many or half a
character, and UTF-8 with an invalid byte. -/
inductive FaultIn : List UInt8 → Nat → Fault → Prop
  | oddLength {bytes : List UInt8} (h : bytes.length % 2 = 1) :
      FaultIn (utf16Mark ++ bytes) 1 (.invalidUtf16 .oddLength)
  | loneSurrogate {us : List Nat} (hunits : ∀ u ∈ us, u < 0x10000)
      (h : Utf16.HasLoneSurrogate us) :
      FaultIn (utf16Mark ++ us.flatMap Utf16.bytesOf) 1 (.invalidUtf16 .loneSurrogate)
  | markedUtf8 {front bytes : List UInt8} (hfront : Utf8.IsValidFront front bytes)
      (h : front ≠ bytes) : FaultIn (utf8Mark ++ bytes) (front.count 0x0A + 1) .invalidUtf8
  | plainUtf8 {front bytes : List UInt8} (hutf16 : ¬ utf16Mark <+: bytes)
      (hmark : ¬ utf8Mark <+: bytes) (hfour : ¬ StartsAsFour bytes)
      (hfront : Utf8.IsValidFront front bytes) (h : front ≠ bytes) :
      FaultIn bytes (front.count 0x0A + 1) .invalidUtf8

/-! ## UTF-8 -/

/-- **Bytes are read as UTF-8** up to the first that is invalid, and the line of this one is found
by counting the line feeds before it. -/
theorem textOfUtf8_cases (bytes : List UInt8) :
    (∃ t, bytes = Utf8.encode t ∧ textOfUtf8 bytes = .ok t)
      ∨ ∃ front, Utf8.IsValidFront front bytes ∧ front ≠ bytes
        ∧ textOfUtf8 bytes = .error (.exportSyntax (front.count 0x0A + 1) .invalidUtf8) := by
  have hbytes := Utf8.encode_decode_append bytes
  have hfront := Utf8.isValidFront_iff.2 (rfl : _ = Utf8.encode (Utf8.decode bytes).1)
  have hcount := Utf8.count_encode (Utf8.decode bytes).1
  unfold textOfUtf8
  split
  next t hdecode => exact .inl ⟨t, Utf8.decode_eq_iff.1 hdecode, rfl⟩
  next t b rest hdecode =>
    rw [hdecode] at hbytes hfront hcount
    refine .inr ⟨Utf8.encode t, hfront, ?_, by rw [hcount]⟩
    intro hall
    rw [← hall] at hbytes
    exact absurd (List.append_right_eq_self.1 hbytes) (List.cons_ne_nil b rest)

theorem textOfUtf8_encode (t : Text) : textOfUtf8 (Utf8.encode t) = .ok t :=
  textOfUtf8_eq_ok_iff.2 (Utf8.decode?_eq_some_iff.2 (Utf8.decode_eq_iff.2 rfl))

theorem textOfUtf8_of_isValidFront {front bytes : List UInt8}
    (hfront : Utf8.IsValidFront front bytes) (h : front ≠ bytes) :
    textOfUtf8 bytes = .error (.exportSyntax (front.count 0x0A + 1) .invalidUtf8) := by
  have hfront := Utf8.isValidFront_iff.1 hfront
  obtain ⟨t, rfl, _⟩ | ⟨front', hfront', _, herror⟩ := textOfUtf8_cases bytes
  · rw [Utf8.decode_eq_iff.2 rfl] at hfront
    exact absurd hfront h
  · rw [herror, hfront, Utf8.isValidFront_iff.1 hfront']

/-! ## The encoding of a file -/

theorem bytesAfter?_append (start rest : List UInt8) :
    bytesAfter? start (start ++ rest) = some rest := by
  rw [bytesAfter?, if_pos (List.isPrefixOf_iff_prefix.2 (List.prefix_append start rest)),
    List.drop_left]

theorem textOf_utf16Mark (rest : List UInt8) :
    textOf (utf16Mark ++ rest)
      = (Utf16.decode rest).mapError fun e => .exportSyntax 1 (.invalidUtf16 e) := by
  unfold textOf
  rw [bytesAfter?_append]
  dsimp only
  cases Utf16.decode rest <;> rfl

theorem textOf_utf8Mark (rest : List UInt8) : textOf (utf8Mark ++ rest) = textOfUtf8 rest := by
  unfold textOf
  rw [bytesAfter?_append]
  rfl

theorem textOf_unmarked {bytes : List UInt8} (hutf16 : ¬ utf16Mark <+: bytes)
    (hmark : ¬ utf8Mark <+: bytes) (hfour : ¬ StartsAsFour bytes) :
    textOf bytes = textOfUtf8 bytes := by
  unfold textOf
  rw [bytesAfter?_eq_none hutf16, bytesAfter?_eq_none hmark, Option.getD_none]
  exact if_neg (mt List.isPrefixOf_iff_prefix.1 hfour)

theorem textOf_startsAsFour {bytes : List UInt8} (h : StartsAsFour bytes) :
    textOf bytes = .ok (Windows1252.decode bytes) := by
  obtain ⟨rest, rfl⟩ := h
  rfl

theorem not_utf16Mark_isPrefix_encode (t : Text) : ¬ utf16Mark <+: Utf8.encode t := by
  rintro ⟨rest, hrest⟩
  refine Utf8.notMem_encode t ?_
  rw [← hrest]
  exact List.mem_cons_self

/-! ## Files that are read and files that are not -/

/-- **A file of a text** is read as the text. -/
theorem textOf_of_isFileOf {t : Text} {bytes : List UInt8} (h : IsFileOf t bytes) :
    textOf bytes = .ok t := by
  cases h with
  | utf16 t => rw [textOf_utf16Mark, Utf16.decode_encode]; rfl
  | markedUtf8 t => rw [textOf_utf8Mark, textOfUtf8_encode]
  | plainUtf8 hmark hfour =>
    rw [textOf_unmarked (not_utf16Mark_isPrefix_encode t) hmark hfour, textOfUtf8_encode]
  | windows1252 hfour => exact textOf_startsAsFour hfour

/-- **A fault in a file** is found in its line. -/
theorem textOf_of_faultIn {bytes : List UInt8} {line : Nat} {fault : Fault}
    (h : FaultIn bytes line fault) : textOf bytes = .error (.exportSyntax line fault) := by
  cases h with
  | oddLength h => rw [textOf_utf16Mark, Utf16.decode_eq_error_iff.2 (.inl ⟨h, rfl⟩)]; rfl
  | loneSurrogate hunits h =>
    rw [textOf_utf16Mark, Utf16.decode_eq_error_iff.2 (.inr ⟨⟨_, hunits, rfl, h⟩, rfl⟩)]
    rfl
  | markedUtf8 hfront h => rw [textOf_utf8Mark, textOfUtf8_of_isValidFront hfront h]
  | plainUtf8 hutf16 hmark hfour hfront h =>
    rw [textOf_unmarked hutf16 hmark hfour, textOfUtf8_of_isValidFront hfront h]

/-- Bytes are a file of a text, or there is a fault in them. -/
theorem isFileOf_or_faultIn (bytes : List UInt8) :
    (∃ t, IsFileOf t bytes) ∨ ∃ line fault, FaultIn bytes line fault := by
  by_cases hutf16 : utf16Mark <+: bytes
  · obtain ⟨rest, rfl⟩ := hutf16
    cases hdecode : Utf16.decode rest with
    | ok t =>
      rw [Utf16.decode_eq_ok_iff.1 hdecode]
      exact .inl ⟨t, .utf16 t⟩
    | error e =>
      obtain ⟨hodd, _⟩ | ⟨⟨us, hunits, rfl, halone⟩, _⟩ := Utf16.decode_eq_error_iff.1 hdecode
      · exact .inr ⟨_, _, .oddLength hodd⟩
      · exact .inr ⟨_, _, .loneSurrogate hunits halone⟩
  · by_cases hfour : StartsAsFour bytes
    · exact .inl ⟨_, .windows1252 hfour⟩
    · by_cases hmark : utf8Mark <+: bytes
      · obtain ⟨rest, rfl⟩ := hmark
        obtain ⟨t, rfl, _⟩ | ⟨front, hfront, h, _⟩ := textOfUtf8_cases rest
        · exact .inl ⟨t, .markedUtf8 t⟩
        · exact .inr ⟨_, _, .markedUtf8 hfront h⟩
      · obtain ⟨t, rfl, _⟩ | ⟨front, hfront, h, _⟩ := textOfUtf8_cases bytes
        · exact .inl ⟨t, .plainUtf8 hmark hfour⟩
        · exact .inr ⟨_, _, .plainUtf8 hutf16 hmark hfour hfront h⟩

/-- **Reading a file undoes writing it and accepts nothing else.** A file is read as a text exactly
if it is a file of this text, and any other has exactly one fault, in the line that is named. -/
theorem textOf_iff (bytes : List UInt8) :
    (∀ t, textOf bytes = .ok t ↔ IsFileOf t bytes)
      ∧ (∀ e, textOf bytes = .error e
        ↔ ∃ line fault, FaultIn bytes line fault ∧ e = .exportSyntax line fault) := by
  obtain ⟨t, ht⟩ | ⟨line, fault, hfault⟩ := isFileOf_or_faultIn bytes
  · have htext := textOf_of_isFileOf ht
    refine ⟨fun t' => ⟨fun h => ?_, textOf_of_isFileOf⟩, fun e => ⟨fun h => ?_, ?_⟩⟩
    · rwa [← Except.ok.inj (htext.symm.trans h)]
    · exact absurd (htext.symm.trans h) nofun
    · rintro ⟨line, fault, hfault, rfl⟩
      exact textOf_of_faultIn hfault
  · have herror := textOf_of_faultIn hfault
    refine ⟨fun t => ⟨fun h => ?_, textOf_of_isFileOf⟩, fun e => ⟨fun h => ?_, ?_⟩⟩
    · exact absurd (herror.symm.trans h) nofun
    · exact ⟨line, fault, hfault, Except.error.inj (h.symm.trans herror)⟩
    · rintro ⟨line, fault, hfault, rfl⟩
      exact textOf_of_faultIn hfault

end InstallerRegistry.Export
