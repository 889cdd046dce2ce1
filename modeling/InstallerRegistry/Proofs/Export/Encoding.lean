import InstallerRegistry.Export.File
import InstallerRegistry.Proofs.Export.Sections
import InstallerRegistry.Proofs.Text.Ascii

/-!
# The version that a file announces, and its encoding

The header of an export is looked for in two places. What chooses the encoding of a file looks for
the header of version 4 at its first byte; what reads the text looks for a header in its first line
that is not blank. So a file that announces version 5 is always read as UTF-8, but one that
announces version 4 behind a blank line, or behind blanks, is read as UTF-8, too, and not as
Windows-1252. The difference shows in every such file that is not ASCII, and in no other
(`Contents.encodes_iff_of_ofFile`).
-/

namespace InstallerRegistry.Export

/-- Does the text **announce** the version? Its first line that is not blank is the header. -/
def Announces (t : Text) (version : Version) : Prop :=
  ∃ header, (linesOf t).find? (!·.text.isEmpty) = some header ∧ header.text = version.header

/-- Is this the text of the bytes in the encoding that goes with the version? Files of version 4
are Windows-1252, those of version 5 UTF-8. -/
def Version.Encodes (version : Version) (bytes : List UInt8) (t : Text) : Prop :=
  match version with
  | four => Windows1252.decode bytes = t
  | five => Utf8.decode? bytes = some t

/-- Do the bytes start with the header of version 4? -/
def StartsAsFour (bytes : List UInt8) : Prop :=
  Utf8.encode Version.four.header <+: bytes

instance (bytes : List UInt8) : Decidable (StartsAsFour bytes) :=
  inferInstanceAs (Decidable (Utf8.encode Version.four.header <+: bytes))

/-! ## What is announced -/

/-- An export that can be read announces a version. -/
theorem exists_announces {t : Text} {c : Contents} (h : Contents.ofText t = .ok c) :
    ∃ version, Announces t version := by
  obtain ⟨version, blank, header, body, hlines, hblank, hheader, _⟩ :=
    exists_eq_append_of_contentsOfLines h
  have hskipped : blank.find? (!·.text.isEmpty) = none :=
    List.find?_eq_none.2 fun line hline => by simp [hblank line hline]
  refine ⟨version, header, ?_, hheader⟩
  rw [hlines, List.find?_append, hskipped, Option.none_or]
  refine List.find?_cons_of_pos ?_
  rw [hheader]
  cases version <;> rfl

/-- A character that is neither blank nor the start of a name starts the first line of its text. -/
theorem exists_linesOf_cons {c : Char} (hblank : Text.isBlank c = false) (hat : c ≠ '@')
    (hquote : c ≠ '"') (t : Text) : ∃ rest lines, linesOf (c :: t) = ⟨1, c :: rest⟩ :: lines := by
  have hfeed : c ≠ '\n' := fun h => by
    rw [h, Text.isBlank_lineFeed] at hblank
    exact absurd hblank (by decide)
  obtain ⟨piece, pieces, hpieces⟩ := List.exists_cons_of_ne_nil (Text.splitOn_ne_nil '\n' t)
  obtain ⟨physical, hphysical⟩ : ∃ physical, physicalLines (c :: t) = (c :: piece) :: physical := by
    unfold physicalLines
    rw [Text.splitOn, if_neg hfeed, hpieces]
    cases pieces with
    | nil => exact ⟨[], rfl⟩
    | cons next pieces =>
      dsimp only
      split
      next => exact ⟨(next :: pieces).dropLast, rfl⟩
      next => exact ⟨next :: pieces, rfl⟩
  have htrim : Text.trim (c :: piece) = c :: Text.trimEnd piece := by
    rw [Text.trim, Text.dropAround, List.dropWhile_cons_of_neg (by simp [hblank]),
      Text.dropEndWhile_cons hblank, Text.trimEnd]
  have hcontinues : (Line.mk 1 (Text.trim (c :: piece))).continues = false := by
    have hassigns : assignsHex (c :: Text.trimEnd piece) = false := by
      unfold assignsHex valueName? Quoted.decode?
      simp [hat, hquote]
    rw [htrim, Line.continues, hassigns, Bool.and_false]
  refine ⟨Text.trimEnd piece, joinFrom 2 none physical, ?_⟩
  rw [linesOf, hphysical, joinFrom_cons hcontinues, htrim]

/-- What starts with the header of version 4 does not announce version 5. -/
theorem not_announces_five {bytes : List UInt8} (h : StartsAsFour bytes) :
    ¬ Announces (Windows1252.decode bytes) .five := by
  obtain ⟨rest, rfl⟩ := h
  show ¬ Announces ('R' :: ("EGEDIT4".toList ++ Windows1252.decode rest)) .five
  obtain ⟨behind, lines, hlines⟩ := exists_linesOf_cons (c := 'R') (by decide) (by decide)
    (by decide) ("EGEDIT4".toList ++ Windows1252.decode rest)
  rintro ⟨header, hfind, hheader⟩
  rw [hlines, List.find?_cons_of_pos rfl] at hfind
  rw [← Option.some.inj hfind] at hheader
  exact absurd (List.cons.inj hheader).1 (by decide)

/-! ## Reading files -/

theorem bytesAfter?_eq_none {start bytes : List UInt8} (h : ¬ start <+: bytes) :
    bytesAfter? start bytes = none :=
  if_neg (mt List.isPrefixOf_iff_prefix.1 h)

theorem textOfUtf8_eq_ok_iff {bytes : List UInt8} {t : Text} :
    textOfUtf8 bytes = .ok t ↔ Utf8.decode? bytes = some t := by
  rw [Utf8.decode?_eq_some_iff]
  unfold textOfUtf8
  split
  next t' h => rw [h, Except.ok.injEq, Prod.mk.injEq, and_iff_left rfl]
  next t' b rest h =>
    rw [h]
    exact ⟨nofun, nofun⟩

/-- **A file without byte order marks** is read as Windows-1252 if it starts with the header of
version 4, and as UTF-8 otherwise. -/
theorem textOf_eq_ok_iff {bytes : List UInt8} {t : Text} (hutf16 : ¬ utf16Mark <+: bytes)
    (hutf8 : ¬ utf8Mark <+: bytes) :
    textOf bytes = .ok t
      ↔ if StartsAsFour bytes then Windows1252.decode bytes = t
        else Utf8.decode? bytes = some t := by
  unfold textOf
  rw [bytesAfter?_eq_none hutf16, bytesAfter?_eq_none hutf8, Option.getD_none,
    ← textOfUtf8_eq_ok_iff]
  dsimp only
  by_cases h : StartsAsFour bytes
  · rw [if_pos h, if_pos (List.isPrefixOf_iff_prefix.2 h), Except.ok.injEq]
  · rw [if_neg h, if_neg (mt List.isPrefixOf_iff_prefix.1 h)]

/-- **The encoding of a file agrees with the version it announces** exactly if this is version 5, or
the header is at the first byte, or nothing in the file is beyond ASCII. -/
theorem Contents.encodes_iff_of_ofFile {root : FileTree} {path : Text} {bytes : List UInt8}
    {c : Contents} (hread : root.read path = .ok bytes) (hutf16 : ¬ utf16Mark <+: bytes)
    (hutf8 : ¬ utf8Mark <+: bytes) (h : Contents.ofFile root path = .ok c) :
    ∃ t, textOf bytes = .ok t ∧ Contents.ofText t = .ok c
      ∧ (∃ version, Announces t version)
      ∧ ∀ version, Announces t version →
        (version.Encodes bytes t ↔ version = .five ∨ StartsAsFour bytes ∨ IsAscii bytes) := by
  unfold Contents.ofFile at h
  rw [hread] at h
  obtain ⟨t, ht, hc⟩ := bind_eq_ok_iff.1 h
  refine ⟨t, ht, hc, exists_announces hc, fun version hversion => ?_⟩
  have htext := (textOf_eq_ok_iff hutf16 hutf8).1 ht
  by_cases hstart : StartsAsFour bytes
  · rw [if_pos hstart] at htext
    cases version with
    | four => exact iff_of_true htext (.inr (.inl hstart))
    | five => exact absurd (htext ▸ hversion) (not_announces_five hstart)
  · rw [if_neg hstart] at htext
    cases version with
    | four =>
      refine (Windows1252.decode_eq_iff htext).trans ⟨fun h => .inr (.inr h), ?_⟩
      rintro (h | h | h)
      · exact absurd h nofun
      · exact absurd h hstart
      · exact h
    | five => exact iff_of_true htext (.inl rfl)

/-- An export of version 4 that starts with a blank line, and has a character beyond ASCII. -/
def lateHeaderText : Text :=
  "\nREGEDIT4\n[HKCU\\k]\n\"n\"=\"é\"\n".toList

/-- What is read from it. -/
def lateHeaderContents : Contents :=
  { entries := [{ key := ['k'], name := ['n'], value := some (.text ['é']) }] }

/-- A directory with the export in a file. -/
def lateHeaderFiles : FileTree :=
  .directory [(['x'], .file (Utf8.encode lateHeaderText))]

theorem decode?_lateHeaderText :
    Utf8.decode? (Utf8.encode lateHeaderText) = some lateHeaderText := by
  decide +kernel

theorem textOf_lateHeaderText : textOf (Utf8.encode lateHeaderText) = .ok lateHeaderText :=
  (textOf_eq_ok_iff (by decide) (by decide)).2 ((if_neg (by decide)).mpr decode?_lateHeaderText)

theorem ofFile_lateHeaderFiles : Contents.ofFile lateHeaderFiles ['x'] = .ok lateHeaderContents := by
  have hread : lateHeaderFiles.read ['x'] = .ok (Utf8.encode lateHeaderText) := by rfl
  unfold Contents.ofFile
  rw [hread]
  exact bind_eq_ok_iff.2 ⟨_, textOf_lateHeaderText, rfl⟩

/-- This file announces version 4, but does not start with its header and is not ASCII. -/
theorem Contents.encodes_iff_of_ofFile_lateHeaderFiles :
    lateHeaderFiles.read ['x'] = .ok (Utf8.encode lateHeaderText)
      ∧ ¬ utf16Mark <+: Utf8.encode lateHeaderText ∧ ¬ utf8Mark <+: Utf8.encode lateHeaderText
      ∧ Contents.ofFile lateHeaderFiles ['x'] = .ok lateHeaderContents
      ∧ ∃ t, textOf (Utf8.encode lateHeaderText) = .ok t
        ∧ Contents.ofText t = .ok lateHeaderContents
        ∧ (∃ version, Announces t version)
        ∧ ∀ version, Announces t version →
          (version.Encodes (Utf8.encode lateHeaderText) t
            ↔ version = .five ∨ StartsAsFour (Utf8.encode lateHeaderText)
              ∨ IsAscii (Utf8.encode lateHeaderText)) := by
  have hread : lateHeaderFiles.read ['x'] = .ok (Utf8.encode lateHeaderText) := by rfl
  have hutf16 : ¬ utf16Mark <+: Utf8.encode lateHeaderText := by decide
  have hutf8 : ¬ utf8Mark <+: Utf8.encode lateHeaderText := by decide
  exact ⟨hread, hutf16, hutf8, ofFile_lateHeaderFiles,
    Contents.encodes_iff_of_ofFile hread hutf16 hutf8 ofFile_lateHeaderFiles⟩

/-- **A file may be read in an encoding that it does not announce**: behind a blank line, the header
of version 4 comes too late to make the file Windows-1252. -/
theorem Contents.not_encodes_lateHeaderFiles :
    lateHeaderFiles.read ['x'] = .ok (Utf8.encode lateHeaderText)
      ∧ ¬ utf16Mark <+: Utf8.encode lateHeaderText ∧ ¬ utf8Mark <+: Utf8.encode lateHeaderText
      ∧ Contents.ofFile lateHeaderFiles ['x'] = .ok lateHeaderContents
      ∧ textOf (Utf8.encode lateHeaderText) = .ok lateHeaderText
      ∧ Announces lateHeaderText .four
      ∧ ¬ Version.four.Encodes (Utf8.encode lateHeaderText) lateHeaderText := by
  refine ⟨by rfl, by decide, by decide, ofFile_lateHeaderFiles, textOf_lateHeaderText,
    ⟨_, rfl, rfl⟩, fun h => ?_⟩
  exact absurd ((Windows1252.decode_eq_iff decode?_lateHeaderText).1 h) (by decide +kernel)

end InstallerRegistry.Export
