import InstallerRegistry.Proofs.Export.RoundTrip
import Mathlib.Data.Int.ModEq
import Mathlib.Data.List.Induction

/-!
# Spellings of one value

An export can say one value in many ways. A number of thirty-two bits is written by its digits or by
its four bytes, bytes stand behind `hex:` or `hex(3):`, and a string is quoted or given by its bytes
under either of two types, with any number of NULs behind it. Under a third type, NULs also stand
between strings, and these are the lines of the value. In a list of bytes, digits have either case,
and commas and blanks may stand anywhere.

`Version.Says` are the spellings of a value. Each of them is read as the value (`valueOf_spelling`),
and so is a line that assigns it (`ofText_spelling`). All ways of writing a number meet on one
integer, which is the number modulo 2³² (`reads_spellings`).
-/

namespace InstallerRegistry

namespace Export

/-! ## Spellings -/

/-- Are these the bytes of a string? They are UTF-16 in version 5, and one byte for each character
in version 4. -/
def Version.StringBytes (version : Version) (s : Text) (bytes : List UInt8) : Prop :=
  match version with
  | four => Windows1252.decode bytes = s
  | five => bytes = Utf16.encode s

/-- What stands before a list of bytes, which may be those of a type. -/
def hexMark : Option Char → Text
  | none => "hex:".toList
  | some kind => "hex(".toList ++ [kind] ++ "):".toList

/-- **What bytes of a type mean**: four bytes are a number, low byte first, a string may be followed
by NULs, and so may strings that NULs separate. -/
inductive Version.Means (version : Version) : Option Char → List UInt8 → RegistryValue → Prop
  | dword {w : ℕ} (hw : w < 0x100000000) :
      Means version (some '4') (Layout.bytesOfDword w).reverse (ofDword w)
  | binary (bytes : List UInt8) : Means version none bytes (.binary bytes)
  | typedBinary (bytes : List UInt8) : Means version (some '3') bytes (.binary bytes)
  | string {kind : Char} {s : Text} {n : ℕ} {bytes : List UInt8} (hkind : kind = '1' ∨ kind = '2')
      (hlast : s.getLast? ≠ some '\x00')
      (hbytes : version.StringBytes (s ++ List.replicate n '\x00') bytes) :
      Means version (some kind) bytes (.text s)
  | strings {s : Text} {n : ℕ} {bytes : List UInt8} (hlast : s.getLast? ≠ some '\x00')
      (hbytes : version.StringBytes (s ++ List.replicate n '\x00') bytes) :
      Means version (some '7') bytes (.text (linesOfList s))

/-- **The spellings of a value.** -/
inductive Version.Says (version : Version) : RegistryValue → Text → Prop
  | dword {w : ℕ} {t : Text} (hw : w < 0x100000000) (h : Hex.Denotes w t) :
      Says version (ofDword w) ("dword:".toList ++ t)
  | quoted (s : Text) : Says version (.text s) (Quoted.encode s)
  | listed {kind : Option Char} {bytes : List UInt8} {v : RegistryValue} {t : Text}
      (h : version.Means kind bytes v) (hlist : Lists bytes t) : Says version v (hexMark kind ++ t)

/-! ## Reading a number -/

theorem dwordOfBytes?_reverse_bytesOfDword {w : ℕ} (hw : w < 0x100000000) :
    dwordOfBytes? (Layout.bytesOfDword w).reverse = some w := by
  simp only [Layout.bytesOfDword, List.reverse_cons, List.reverse_nil, List.nil_append,
    List.cons_append, dwordOfBytes?, UInt8.toNat_ofNat', Option.some.injEq]
  omega

/-! ## Reading bytes -/

/-- The bytes of a string are read as the string, without the NULs behind it. -/
theorem stringOf_of_stringBytes {version : Version} {s : Text} {n : ℕ} {bytes : List UInt8}
    (hlast : s.getLast? ≠ some '\x00')
    (h : version.StringBytes (s ++ List.replicate n '\x00') bytes) :
    stringOf version bytes = .ok s := by
  have hnuls : ∀ c ∈ List.replicate n '\x00', (c == '\x00') = true :=
    fun c hc => beq_iff_eq.2 (List.eq_of_mem_replicate hc)
  have hend : ∀ c ∈ s.getLast?, (c == '\x00') = false :=
    fun c hc => beq_eq_false_iff_ne.2 fun hnul => hlast (hnul ▸ hc)
  have hdrop : Text.dropEndWhile (· == '\x00') (s ++ List.replicate n '\x00') = s := by
    rw [Text.dropEndWhile_append_of_all _ hnuls, Text.dropEndWhile_eq_self hend]
  cases version with
  | four =>
    have hdecode : Windows1252.decode bytes = s ++ List.replicate n '\x00' := h
    rw [stringOf, hdecode, hdrop]
  | five =>
    obtain rfl : bytes = Utf16.encode (s ++ List.replicate n '\x00') := h
    rw [stringOf, Utf16.decode_encode]
    dsimp only
    rw [hdrop]

theorem valueOf_typed (version : Version) {kind : Char} (h : kind ≠ ')') (t : Text) :
    valueOf version (hexMark (some kind) ++ t)
      = (do return some (← valueOfBytes version [kind] (← bytesOf t))) := by
  have hafter := Text.after?_append "hex(".toList ([kind] ++ ("):".toList ++ t))
  have hkind : ')' ∉ [kind] := fun hmem => h (List.mem_singleton.1 hmem).symm
  have hcut : Text.cutAt? "):".toList ([kind] ++ ("):".toList ++ t)) = some ([kind], t) :=
    Text.cutAt?_append hkind [':'] t
  have htyped : typedBytes? (hexMark (some kind) ++ t) = some ([kind], t) := by
    rw [typedBytes?, hexMark, List.append_assoc, List.append_assoc, hafter, Option.bind_some, hcut]
  have hminus : (hexMark (some kind) ++ t == ['-']) = false := rfl
  have hquote : ((hexMark (some kind) ++ t).head? == some '"') = false := rfl
  have hdword : Text.after? "dword:".toList (hexMark (some kind) ++ t) = none := rfl
  have hhex : Text.after? "hex:".toList (hexMark (some kind) ++ t) = none := rfl
  simp only [valueOf, hminus, hquote, hdword, hhex, htyped, Bool.false_eq_true, if_false]

/-- What bytes mean is the value that they stand for. -/
theorem valueOfBytes_of_means {version : Version} {kind : Char} {bytes : List UInt8}
    {v : RegistryValue} (h : version.Means (some kind) bytes v) :
    kind ≠ ')' ∧ valueOfBytes version [kind] bytes = .ok v := by
  cases h with
  | dword hw =>
    refine ⟨by decide, ?_⟩
    unfold valueOfBytes
    rw [dwordOfBytes?_reverse_bytesOfDword hw]
    rfl
  | typedBinary => exact ⟨by decide, rfl⟩
  | string hkind hlast hbytes =>
    have hstring := stringOf_of_stringBytes hlast hbytes
    have htext : valueOfBytes version [kind] bytes
        = (do return .text (← stringOf version bytes)) := by
      rcases hkind with rfl | rfl <;> rfl
    refine ⟨by rcases hkind with rfl | rfl <;> decide, ?_⟩
    rw [htext, hstring]
    rfl
  | strings hlast hbytes =>
    have htext : valueOfBytes version ['7'] bytes
        = (do return .text (linesOfList (← stringOf version bytes))) := rfl
    refine ⟨by decide, ?_⟩
    rw [htext, stringOf_of_stringBytes hlast hbytes]
    rfl

/-- **Bytes of a type are read** as what they mean. -/
theorem valueOf_of_means {version : Version} {kind : Option Char} {bytes : List UInt8}
    {v : RegistryValue} (h : version.Means kind bytes v) {t : Text} (hlist : Lists bytes t) :
    valueOf version (hexMark kind ++ t) = .ok (some v) := by
  have hbytes := bytesOf_of_lists hlist
  cases kind with
  | none =>
    cases h
    have hvalue : valueOf version (hexMark none ++ t)
        = (do return some (.binary (← bytesOf t))) := rfl
    rw [hvalue, hbytes]
    rfl
  | some kind =>
    obtain ⟨hkind, hvalue⟩ := valueOfBytes_of_means h
    rw [valueOf_typed version hkind, hbytes]
    show (do return some (← valueOfBytes version [kind] bytes)) = _
    rw [hvalue]
    rfl

/-- **Every spelling of a value is read** as the value. -/
theorem valueOf_spelling {version : Version} {v : RegistryValue} {t : Text} (h : version.Says v t) :
    valueOf version t = .ok (some v) := by
  cases h with
  | dword hw h => exact valueOf_dword version h hw
  | quoted s => exact valueOf_encode version s
  | listed h hlist => exact valueOf_of_means h hlist

/-! ## Lines that assign a value -/

/-- Blanks behind a list of bytes do not belong to it. -/
theorem Lists.exists_core {bytes : List UInt8} {t : Text} (h : Lists bytes t) :
    ∃ core margin, t = core ++ margin ∧ (∀ c ∈ margin, Text.isBlank c = true) ∧ Lists bytes core
      ∧ ∀ c ∈ core.getLast?, Text.isBlank c = false := by
  induction t using List.reverseRecOn with
  | nil => exact ⟨[], [], rfl, fun _ hc => absurd hc List.not_mem_nil, h, nofun⟩
  | append_singleton t c ih =>
    by_cases hc : Text.isBlank c = true
    · have hfilter : [c].filter (fun c => c != ',' && !Text.isBlank c) = [] := by simp [hc]
      rw [Lists, List.filter_append, hfilter, List.append_nil] at h
      obtain ⟨core, margin, rfl, hmargin, hcore, hlast⟩ := ih h
      refine ⟨core, margin ++ [c], List.append_assoc _ _ _, ?_, hcore, hlast⟩
      exact List.forall_mem_append.2 ⟨hmargin, List.forall_mem_singleton.2 hc⟩
    · refine ⟨t ++ [c], [], (List.append_nil _).symm, fun _ hc => absurd hc List.not_mem_nil, h, ?_⟩
      intro d hd
      rw [List.getLast?_concat] at hd
      exact Option.some.inj hd ▸ Bool.eq_false_iff.2 hc

/-- A list of bytes has digits, commas and blanks in it. -/
theorem Lists.digit?_of_mem {bytes : List UInt8} {t : Text} (h : Lists bytes t) {c : Char}
    (hc : c ∈ t) : c = ',' ∨ Text.isBlank c = true ∨ ∃ n, Hex.digit? c = some n := by
  by_cases hcomma : c = ','
  · exact .inl hcomma
  · by_cases hblank : Text.isBlank c = true
    · exact .inr (.inl hblank)
    · refine .inr (.inr (Hex.Spells.digit?_of_mem h c (List.mem_filter.2 ⟨hc, ?_⟩)))
      simp [hcomma, hblank]

theorem isComplete_hexMark {kind : Option Char} (h : '\n' ∉ hexMark kind) :
    IsComplete (hexMark kind) := by
  obtain ⟨t, ht⟩ : ∃ t, hexMark kind = 'h' :: t ++ [':'] := by
    cases kind with
    | none => exact ⟨"ex".toList, rfl⟩
    | some kind => exact ⟨"ex(".toList ++ [kind, ')'], rfl⟩
  rw [ht] at h ⊢
  have hopening : IsOpening ('h' :: t) :=
    isOpening_cons (by decide) fun h' => h (List.mem_append_left _ h')
  exact hopening.append_complete (isComplete_singleton (by decide) (by decide))

/-- Solid text opens what follows it. -/
theorem IsSolid.isOpening_append {a t : Text} (ha : IsSolid a) (h : '\n' ∉ t) :
    IsOpening (a ++ t) := by
  refine ⟨?_, ?_⟩
  · rw [List.mem_append]
    exact not_or.2 ⟨ha.noLineFeed, h⟩
  · have hhead := ha.head
    obtain ⟨u, c, rfl, _⟩ := ha.last
    cases u with
    | nil => exact hhead
    | cons d u => exact hhead

/-- A list of bytes that does not end with a blank completes its line. -/
theorem Lists.isComplete_append {bytes : List UInt8} {a t : Text} (h : Lists bytes t)
    (ha : IsComplete a) (hfeed : '\n' ∉ t) (hlast : ∀ c ∈ t.getLast?, Text.isBlank c = false) :
    IsComplete (a ++ t) := by
  induction t using List.reverseRecOn with
  | nil => rwa [List.append_nil]
  | append_singleton t c _ =>
    have hblank : Text.isBlank c = false := hlast c List.getLast?_concat
    have hmark : c ≠ '\\' := by
      rcases h.digit?_of_mem (List.mem_append_right t (List.mem_singleton_self c)) with
        hcomma | hblank' | ⟨n, hn⟩
      · exact hcomma ▸ by decide
      · exact absurd (hblank'.symm.trans hblank) (by decide)
      · exact Hex.ne_of_digit? hn (by decide)
    have hopening := ha.isOpening_append fun h' => hfeed (List.mem_append_left [c] h')
    rw [← List.append_assoc]
    exact hopening.append_complete (isComplete_singleton hblank hmark)

theorem mem_encode_of_mem {s : Text} {c : Char} (h : c ∈ s) : c ∈ Quoted.encode s := by
  refine List.mem_append_left _ (List.mem_cons_of_mem _ (List.mem_flatMap.2 ⟨c, h, ?_⟩))
  unfold Quoted.escape
  split
  next => exact List.mem_cons_of_mem _ (List.mem_singleton_self c)
  next => exact List.mem_singleton_self c

/-- Behind a spelling, blanks may stand; what is before them fills its line. -/
theorem Version.Says.exists_core {version : Version} {v : RegistryValue} {t : Text}
    (h : version.Says v t) (hfeed : '\n' ∉ t) :
    ∃ core margin, t = core ++ margin ∧ (∀ c ∈ margin, Text.isBlank c = true)
      ∧ version.Says v core ∧ IsComplete core := by
  have hnone : ∀ c ∈ ([] : Text), Text.isBlank c = true := fun _ hc => absurd hc List.not_mem_nil
  cases h with
  | dword hw h =>
    obtain ⟨hne, hdigits⟩ := h.digit?_of_mem
    exact ⟨_, [], (List.append_nil _).symm, hnone, .dword hw h,
      isOpening_dword.append_complete (isComplete_of_digits hne hdigits)⟩
  | quoted s =>
    exact ⟨_, [], (List.append_nil _).symm, hnone, .quoted s,
      isComplete_encode fun h => hfeed (mem_encode_of_mem h)⟩
  | listed h hlist =>
    obtain ⟨core, margin, rfl, hmargin, hcore, hlast⟩ := hlist.exists_core
    rw [← List.append_assoc, List.mem_append, List.mem_append, not_or, not_or] at hfeed
    exact ⟨_, margin, (List.append_assoc _ _ _).symm, hmargin, .listed h hcore,
      hcore.isComplete_append (isComplete_hexMark hfeed.1.1) hfeed.1.2 hlast⟩

/-- An export that assigns data to a name. -/
def documentOf (l : Layout) (version : Version) (hive : Hive) (key name data : Text) : Text :=
  l.line version.header
    ++ (l.line (Layout.header hive key) ++ l.line (Layout.name name ++ '=' :: data))

theorem isComplete_versionHeader (version : Version) : IsComplete version.header := by
  have hopening : ∀ c t, Text.isBlank c = false → '\n' ∉ c :: t → IsOpening (c :: t) :=
    fun _ _ => isOpening_cons
  cases version with
  | four =>
    exact (hopening 'R' "EGEDIT".toList (by decide) (by decide)).append_complete
      (isComplete_singleton (c := '4') (by decide) (by decide))
  | five =>
    exact (hopening 'W' "indows Registry Editor Version 5.0".toList (by decide)
      (by decide)).append_complete (isComplete_singleton (c := '0') (by decide) (by decide))

/-- The last line of an export, with blanks at its end. -/
theorem joinFrom_lastLine (l : Layout) (n : ℕ) {t margin : Text} (ht : IsComplete t)
    (hmargin : ∀ c ∈ margin, Text.isBlank c = true) (hfeed : '\n' ∉ t ++ margin) :
    joinFrom n none (physicalLines (l.line (t ++ margin))) = [⟨n, t⟩] := by
  have hphysical : physicalLines (l.line (t ++ margin)) = [t ++ margin ++ l.margin] := by
    have hline := l.physicalLines_line hfeed []
    rwa [List.append_nil] at hline
  have htrim : Text.trim (t ++ margin ++ l.margin) = t := by
    have hmargins := ht.trim_margins (a := []) (b := margin ++ l.margin)
      (fun _ hc => absurd hc List.not_mem_nil)
      (List.forall_mem_append.2 ⟨hmargin, fun _ => l.isBlank_of_mem_margin⟩)
    rwa [List.nil_append, ← List.append_assoc] at hmargins
  have hlast := ht.endsWith_append []
  rw [List.nil_append] at hlast
  rw [hphysical, joinFrom]
  simp only [Line.extend, Line.continues, htrim, Option.getD_none, List.nil_append, hlast,
    Bool.false_and, Bool.false_eq_true, if_false, joinFrom, Option.toList_none]

/-- **A line that assigns a spelling** of a value is read as the value. -/
theorem ofText_spelling {version : Version} {v : RegistryValue} {t : Text} (h : version.Says v t)
    (hfeed : '\n' ∉ t) (l : Layout) (hive : Hive) {key name : Text} (hkey : '\n' ∉ key)
    (hname : '\n' ∉ name) :
    Contents.ofText (documentOf l version hive key name t)
      = .ok { entries := [{ hive, key, name, value := some v }] } := by
  obtain ⟨core, margin, rfl, hmargin, hcore, hcomplete⟩ := h.exists_core hfeed
  have hassignment : IsComplete (Layout.name name ++ '=' :: core) := by
    have hcomplete' := (isOpening_name hname).append_complete hcomplete
    rwa [List.append_assoc, List.singleton_append] at hcomplete'
  have hfeed' : '\n' ∉ (Layout.name name ++ '=' :: core) ++ margin := by
    rw [List.mem_append]
    exact not_or.2 ⟨hassignment.noLineFeed, fun h' => hfeed (List.mem_append_right core h')⟩
  have hlines : linesOf (documentOf l version hive key name (core ++ margin))
      = [⟨1, version.header⟩, ⟨2, Layout.header hive key⟩,
        ⟨3, Layout.name name ++ '=' :: core⟩] := by
    have hheader := joinFrom_line l 1 none (.spaces 0) (isComplete_versionHeader version)
      (l.line (Layout.header hive key) ++ l.line (Layout.name name ++ '=' :: core ++ margin))
    have hsection := joinFrom_line l 2 none (.spaces 0) (Layout.isComplete_header hive hkey)
      (l.line (Layout.name name ++ '=' :: core ++ margin))
    rw [joinFrom_lastLine l 3 hassignment hmargin hfeed'] at hsection
    rw [Indentation.text_spaces_zero, List.nil_append] at hheader hsection
    rw [hsection] at hheader
    rw [documentOf, ← List.cons_append, ← List.append_assoc (Layout.name name)]
    exact hheader
  have hcontents : ∀ rest, contentsOfLines (⟨1, version.header⟩ :: rest)
      = contentsFrom version .outside rest := by
    cases version <;> exact fun _ => rfl
  rw [Contents.ofText, hlines, hcontents, contentsFrom_cons (step_header .outside 2 hive key),
    contentsFrom_cons (step_name hcomplete.toIsSolid (valueOf_spelling hcore) 3 hive key name)]
  rfl

/-! ## All together -/

/-- **All spellings of a value are read alike**, as data and in a line of an export; and the integer
that is read from the spellings of a number is this number modulo 2³². -/
theorem reads_spellings :
    (∀ (version : Version) (v : RegistryValue) (t : Text), version.Says v t →
        valueOf version t = .ok (some v)
          ∧ ('\n' ∉ t → ∀ (l : Layout) (hive : Hive) (key name : Text), '\n' ∉ key → '\n' ∉ name →
            Contents.ofText (documentOf l version hive key name t)
              = .ok { entries := [{ hive, key, name, value := some v }] }))
      ∧ ∀ w < 0x100000000, ∃ n : Int32, ofDword w = .int32 n
        ∧ (RegistryValue.int32 n).payload = Text.ofInt n.toInt ∧ n.toInt ≡ w [ZMOD 0x100000000] := by
  refine ⟨fun version v t h => ⟨valueOf_spelling h, ?_⟩, fun w _ => ⟨Int32.ofNat w, rfl, rfl, ?_⟩⟩
  · intro hfeed l hive key name hkey hname
    exact ofText_spelling h hfeed l hive hkey hname
  · rw [Int32.toInt_ofNat']
    exact Int.bmod_emod

theorem says_dword_largest : Version.five.Says (ofDword 0xFFFFFFFF) "dword:0fFFfFFFf".toList := by
  have hspells : Hex.Spells [0xFF, 0xFF, 0xFF, 0xFF] "fFFfFFFf".toList :=
    .cons rfl rfl (.cons rfl rfl (.cons rfl rfl (.cons rfl rfl .nil)))
  have hzero : Hex.Denotes 0 ['0'] := .digit rfl
  exact .dword (by decide) (hzero.append hspells)

theorem says_bytes_largest :
    Version.four.Says (ofDword 0xFFFFFFFF) "hex(4): fF,,FF\tf fFF ".toList := by
  have hlist : Lists [0xFF, 0xFF, 0xFF, 0xFF] " fF,,FF\tf fFF ".toList :=
    .cons rfl rfl (.cons rfl rfl (.cons rfl rfl (.cons rfl rfl .nil)))
  exact .listed (.dword (w := 0xFFFFFFFF) (by decide)) hlist

theorem says_bytes_euro : Version.four.Says (.text ['€']) "hex(2):80,00,00".toList := by
  have hlist : Lists [0x80, 0, 0] "80,00,00".toList :=
    .cons rfl rfl (.cons rfl rfl (.cons rfl rfl .nil))
  have hbytes : Version.four.StringBytes (['€'] ++ List.replicate 2 '\x00') [0x80, 0, 0] := by
    show Windows1252.decode [0x80, 0, 0] = ['€', '\x00', '\x00']
    decide
  exact .listed (.string (.inr rfl) (by decide) hbytes) hlist

/-- The largest number of thirty-two bits in two spellings, and a string in its bytes. -/
theorem reads_spellings_largest :
    valueOf .five "dword:0fFFfFFFf".toList = .ok (some (ofDword 0xFFFFFFFF))
      ∧ valueOf .four "hex(4): fF,,FF\tf fFF ".toList = .ok (some (ofDword 0xFFFFFFFF))
      ∧ valueOf .four "hex(2):80,00,00".toList = .ok (some (.text ['€']))
      ∧ ∃ n : Int32, ofDword 0xFFFFFFFF = .int32 n
        ∧ (RegistryValue.int32 n).payload = Text.ofInt n.toInt
        ∧ n.toInt ≡ (0xFFFFFFFF : ℕ) [ZMOD 0x100000000] :=
  ⟨(reads_spellings.1 _ _ _ says_dword_largest).1, (reads_spellings.1 _ _ _ says_bytes_largest).1,
    (reads_spellings.1 _ _ _ says_bytes_euro).1, reads_spellings.2 0xFFFFFFFF (by decide)⟩

end Export

end InstallerRegistry
