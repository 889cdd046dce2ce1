import InstallerRegistry.Proofs.Export.Data
import InstallerRegistry.Proofs.Export.Lines

/-!
# Reading undoes writing

What `Layout.document` writes is read back as the entries it was written from
(`ofText_document`), whatever their keys, names and texts look like, and however the lists of bytes
are broken into lines.

The proof follows an entry through the layers of the reader. Its two lines are found again as
logical lines, because a header and a quoted name show from their first character on what they
are, and only a list of bytes is ever continued; each line is then taken apart at the places where
the writer joined it; and the section that a header starts is the one that the assignment behind it
is read in.
-/

namespace InstallerRegistry.Export

/-! ## Headers -/

namespace Layout

theorem mem_header_iff {hive : Hive} {key : Text} : '\n' ∈ header hive key ↔ '\n' ∈ key := by
  have hlong : '\n' ∉ hive.longName := by cases hive <;> decide
  unfold header
  split
  next h => simp [hlong, List.isEmpty_iff.1 h]
  next => simp [hlong]

theorem isComplete_header (hive : Hive) {key : Text} (h : '\n' ∉ key) :
    IsComplete (header hive key) := by
  have hopening : IsOpening ('[' :: hive.longName ++ if key.isEmpty then [] else '\\' :: key) :=
    isOpening_cons rfl fun h' => h (mem_header_iff.1 (List.mem_append_left _ h'))
  exact hopening.append_complete (isComplete_singleton (by decide) (by decide))

end Layout

/-- A header is read as the key it was written for. -/
theorem sectionOf_header (n : Nat) (hive : Hive) (key : Text) :
    sectionOf ⟨n, Layout.header hive key⟩ = .ok (.key hive key, {}) := by
  have hlong : '\\' ∉ hive.longName := by cases hive <;> decide
  have hhead : ∃ rest, hive.longName = 'H' :: rest := by cases hive <;> exact ⟨_, rfl⟩
  have hname : Hive.ofName? hive.longName = some hive :=
    Hive.ofName?_of_mem_names (by simp [Hive.names])
  generalize hpath : hive.longName ++ (if key.isEmpty then [] else '\\' :: key) = path
  have hcut : (Text.cut? '\\' path).getD (path, []) = (hive.longName, key) := by
    rw [← hpath]
    split
    next h => rw [List.append_nil, Text.cut?_of_notMem hlong, List.isEmpty_iff.1 h]; rfl
    next => rw [Text.cut?_append hlong]; rfl
  have hheader : headerPath? (Layout.header hive key) = some path := by
    have htext : Layout.header hive key = ['['] ++ (path ++ [']']) := by
      rw [← hpath]
      simp [Layout.header]
    rw [headerPath?, htext, Text.after?_append]
    exact Text.before?_eq_some_iff.2 rfl
  unfold sectionOf
  dsimp only
  rw [hheader]
  split
  next h => exact absurd h (by simp)
  next rest h =>
    -- a path that starts with a minus sign would be a deleted one
    obtain ⟨long, hlong'⟩ := hhead
    rw [← hpath, hlong'] at h
    exact absurd (List.cons.inj (Option.some.inj h)).1 (by decide)
  next h =>
    rw [← Option.some.inj h, hcut]
    dsimp only
    rw [hname]

/-! ## Assignments -/

theorem valueName?_name (t rest : Text) : valueName? (Layout.name t ++ rest) = some (t, rest) := by
  unfold Layout.name
  split
  next h => rw [List.isEmpty_iff.1 h]; rfl
  next => exact Quoted.decode?_encode t rest

theorem assigned?_cons (data : Text) : assigned? ('=' :: data) = some data := by
  rw [assigned?, Text.trimStart, List.dropWhile_cons_of_neg (by decide)]
  exact Text.after?_append ['='] data

/-- A name and solid data are what an equals sign between them assigns. -/
theorem assignment_name (t : Text) {data : Text} (h : IsSolid data) :
    assignment (Layout.name t ++ '=' :: data) = .ok (t, data) := by
  rw [assignment, valueName?_name]
  dsimp only
  rw [assigned?_cons]
  dsimp only
  rw [h.trim_eq]

theorem assignsHex_name (t data : Text) :
    assignsHex (Layout.name t ++ '=' :: ("hex".toList ++ data)) = true := by
  rw [assignsHex, valueName?_name]
  dsimp only
  rw [assigned?_cons]
  rfl

/-! ### What is on an assignment's line -/

theorem lineFeed_notMem_encode {t : Text} (h : '\n' ∉ t) : '\n' ∉ Quoted.encode t := by
  have hescape : ∀ c ∈ t, '\n' ∉ Quoted.escape c := by
    intro c hc h'
    have hne : '\n' ≠ c := fun h'' => h (h'' ▸ hc)
    unfold Quoted.escape at h'
    split at h' <;> simp [hne] at h'
  have hbody : '\n' ∉ t.flatMap Quoted.escape := fun h' => by
    obtain ⟨c, hc, hc'⟩ := List.mem_flatMap.1 h'
    exact hescape c hc hc'
  simp [Quoted.encode, hbody]

theorem isComplete_encode {t : Text} (h : '\n' ∉ t) : IsComplete (Quoted.encode t) := by
  have hopening : IsOpening ('"' :: t.flatMap Quoted.escape) :=
    isOpening_cons rfl fun h' => lineFeed_notMem_encode h (List.mem_append_left _ h')
  exact hopening.append_complete (isComplete_singleton (by decide) (by decide))

theorem isOpening_name {t : Text} (h : '\n' ∉ t) : IsOpening (Layout.name t ++ ['=']) := by
  have hequals : IsOpening ['='] := (isSolid_singleton (by decide)).toIsOpening
  unfold Layout.name
  split
  next => exact (isSolid_singleton (by decide)).append hequals
  next => exact (isComplete_encode h).append hequals

variable (l : Layout)

theorem isComplete_flatMap_byte {bytes : List UInt8} (hne : bytes ≠ []) :
    IsComplete (bytes.flatMap l.byte) := by
  have hspells := l.spells_flatMap_byte bytes
  refine isComplete_of_digits (fun hnil => hne ?_) hspells.digit?_of_mem
  rw [hnil] at hspells
  cases hspells
  rfl

theorem isComplete_pairs {bytes : List UInt8} (hne : bytes ≠ []) :
    IsComplete (l.pairs [] bytes) := by
  induction bytes with
  | nil => exact absurd rfl hne
  | cons b bytes ih =>
    cases bytes with
    | nil => exact l.isComplete_byte b
    | cons b' bytes =>
      have hcomma : IsSolid (l.byte b ++ [',']) :=
        (l.isComplete_byte b).append_solid (isSolid_singleton (by decide))
      have hpairs : l.pairs [] (b :: b' :: bytes)
          = l.byte b ++ [','] ++ l.pairs [] (b' :: bytes) := by
        simp [Layout.pairs_cons_cons, Layout.lineBreak]
      rw [hpairs]
      exact hcomma.append_complete (ih (List.cons_ne_nil _ _))

/-! ### The words that announce data -/

theorem isOpening_dword : IsOpening "dword:".toList := isOpening_cons rfl (by decide)

theorem isComplete_hex : IsComplete "hex:".toList :=
  ⟨⟨isOpening_cons rfl (by decide), ⟨"hex".toList, ':', rfl, by decide⟩⟩, by decide⟩

theorem isOpening_list : IsOpening "hex(7):".toList := isOpening_cons rfl (by decide)

theorem bytesOfStrings_ne_nil (strings : List Text) : Layout.bytesOfStrings strings ≠ [] := by
  simp [Layout.bytesOfStrings, Utf16.encode, Utf16.unitsOf, Utf16.bytesOf]

theorem isComplete_data {v : RegistryValue} (h : IsWritableValue v) :
    IsComplete (l.data [] v) := by
  cases v with
  | text t =>
    by_cases hlf : '\n' ∈ t
    · rw [l.data_list [] hlf]
      exact isOpening_list.append_complete (isComplete_pairs l (bytesOfStrings_ne_nil _))
    · rw [l.data_string [] hlf]
      exact isComplete_encode hlf
  | binary bytes =>
    show IsComplete ("hex:".toList ++ l.pairs [] bytes)
    cases bytes with
    | nil => exact isComplete_hex
    | cons b bytes => exact isComplete_hex.append_complete (isComplete_pairs l (by simp))
  | int16 n => exact absurd h id
  | int32 n =>
    exact isOpening_dword.append_complete (isComplete_flatMap_byte l (List.cons_ne_nil _ _))

/-! ### The line of an assignment -/

/-- Bytes behind a word that starts with `hex` are one logical line with their name. -/
theorem joinFrom_hex (n : Nat) {t w : Text} (ht : '\n' ∉ t) (hw : IsOpening ("hex".toList ++ w))
    (breaks : Breaks) {bytes : List UInt8} (hne : bytes ≠ []) (rest : Text) :
    ∃ n', joinFrom n none (physicalLines
        (l.line (Layout.name t ++ '=' :: ("hex".toList ++ w ++ l.pairs breaks bytes)) ++ rest))
      = ⟨n, Layout.name t ++ '=' :: ("hex".toList ++ w ++ l.pairs [] bytes)⟩
        :: joinFrom n' none (physicalLines rest) := by
  have hx := (isOpening_name ht).append hw
  have hhex : ∀ y, assignsHex (Layout.name t ++ ['='] ++ ("hex".toList ++ w) ++ y) = true := by
    intro y
    have hy := assignsHex_name t (w ++ y)
    simpa only [List.append_assoc, List.cons_append, List.nil_append] using hy
  obtain ⟨n', hn'⟩ := joinFrom_pairs l hne breaks n none (.spaces 0) rfl hx hhex rest
  refine ⟨n', ?_⟩
  simpa only [Indentation.text_spaces_zero, List.append_assoc, List.cons_append,
    List.nil_append] using hn'

theorem assignment_eq {e : Entry} {v : RegistryValue} (hv : e.value = some v) (breaks : Breaks) :
    l.assignment breaks e = Layout.name e.name ++ '=' :: l.data breaks v := by
  rw [Layout.assignment, hv]
  rfl

/-- **An assignment is one logical line**, the one it would be without breaks. -/
theorem joinFrom_assignment (n : Nat) {e : Entry} {v : RegistryValue} (hname : '\n' ∉ e.name)
    (hv : e.value = some v) (h : IsWritableValue v) (breaks : Breaks) (rest : Text) :
    ∃ n', joinFrom n none (physicalLines (l.line (l.assignment breaks e) ++ rest))
      = ⟨n, l.assignment [] e⟩ :: joinFrom n' none (physicalLines rest) := by
  -- data without bytes is not broken at all
  have hline (hdata : l.data breaks v = l.data [] v) :
      ∃ n', joinFrom n none (physicalLines (l.line (l.assignment breaks e) ++ rest))
        = ⟨n, l.assignment [] e⟩ :: joinFrom n' none (physicalLines rest) := by
    have hcomplete := (isOpening_name hname).append_complete (isComplete_data l h)
    rw [List.append_assoc, List.singleton_append] at hcomplete
    rw [assignment_eq l hv, assignment_eq l hv, hdata]
    exact ⟨n + 1, joinFrom_line l n none (.spaces 0) hcomplete rest⟩
  cases v with
  | text t =>
    by_cases hlf : '\n' ∈ t
    · rw [assignment_eq l hv, assignment_eq l hv, l.data_list breaks hlf, l.data_list [] hlf]
      exact joinFrom_hex l n hname isOpening_list breaks (bytesOfStrings_ne_nil _) rest
    · exact hline (by rw [l.data_string breaks hlf, l.data_string [] hlf])
  | binary bytes =>
    cases bytes with
    | nil => exact hline rfl
    | cons b bytes =>
      rw [assignment_eq l hv, assignment_eq l hv]
      exact joinFrom_hex l n hname isComplete_hex.toIsOpening breaks (List.cons_ne_nil _ _) rest
  | int16 k => exact absurd h id
  | int32 k => exact hline rfl

/-! ## Entries -/

/-- The header of a key starts its section, whatever section the line before was in. -/
theorem step_header {version : Version} (s : Section) (n : Nat) (hive : Hive) (key : Text) :
    step version s ⟨n, Layout.header hive key⟩ = .ok (.key hive key, {}) := by
  have hstep : step version s ⟨n, Layout.header hive key⟩
      = sectionOf ⟨n, Layout.header hive key⟩ := rfl
  rw [hstep, sectionOf_header]

/-- An assignment is read as the value that its data stands for. -/
theorem step_name {version : Version} {data : Text} {v : RegistryValue} (hdata : IsSolid data)
    (hvalue : valueOf version data = .ok (some v)) (n : Nat) (hive : Hive) (key name : Text) :
    step version (.key hive key) ⟨n, Layout.name name ++ '=' :: data⟩
      = .ok (.key hive key, { entries := [{ hive, key, name, value := some v }] }) := by
  have hin : valueIn version hive key ⟨n, Layout.name name ++ '=' :: data⟩
      = .ok { entries := [{ hive, key, name, value := some v }] } := by
    rw [valueIn, assignment_name _ hdata]
    dsimp only
    rw [hvalue]
  have hstep : step version (.key hive key) ⟨n, Layout.name name ++ '=' :: data⟩
      = (do return (.key hive key,
          ← valueIn version hive key ⟨n, Layout.name name ++ '=' :: data⟩)) := by
    unfold Layout.name
    split <;> rfl
  rw [hstep, hin]
  rfl

/-- An assignment is read as the entry it was written for. -/
theorem step_assignment (n : Nat) {e : Entry} (h : IsWritable e) :
    step .five (.key e.hive e.key) ⟨n, l.assignment [] e⟩
      = .ok (.key e.hive e.key, { entries := [e] }) := by
  obtain ⟨v, hv, hw⟩ := h.value
  have hentry : { hive := e.hive, key := e.key, name := e.name, value := some v } = e := by
    rcases e with ⟨id, hive, key, name, value, feature, condition, win64⟩
    obtain ⟨_, _, _, rfl, rfl, rfl, rfl⟩ := h
    rw [← show value = some v from hv]
  rw [assignment_eq l hv, step_name (isComplete_data l hw).toIsSolid (valueOf_data l hw), hentry]

/-- A section header with an assignment that is one logical line is read as the entry that the line
gives, and what follows is read in the section. -/
theorem contentsFrom_section {hive : Hive} {key assignment line rest : Text} {e : Entry}
    (hkey : '\n' ∉ key)
    (hline : ∀ n, ∃ n', joinFrom n none (physicalLines (assignment ++ rest))
      = ⟨n, line⟩ :: joinFrom n' none (physicalLines rest))
    (hstep : ∀ n, step .five (.key hive key) ⟨n, line⟩ = .ok (.key hive key, { entries := [e] }))
    (s : Section) (n : Nat) :
    ∃ n', contentsFrom .five s
        (joinFrom n none (physicalLines (l.line (Layout.header hive key) ++ (assignment ++ rest))))
      = (do return { entries := [e] }
          ++ (← contentsFrom .five (.key hive key) (joinFrom n' none (physicalLines rest)))) := by
  have hheader := joinFrom_line l n none (.spaces 0) (Layout.isComplete_header hive hkey)
    (assignment ++ rest)
  obtain ⟨n', hn'⟩ := hline (n + 1)
  have hlines : joinFrom n none
        (physicalLines (l.line (Layout.header hive key) ++ (assignment ++ rest)))
      = ⟨n, Layout.header hive key⟩ :: ⟨n + 1, line⟩ :: joinFrom n' none (physicalLines rest) := by
    rw [← hn']
    exact hheader
  refine ⟨n', ?_⟩
  rw [hlines, contentsFrom_cons (step_header s n hive key), contentsFrom_cons (hstep (n + 1))]
  cases contentsFrom .five (.key hive key) (joinFrom n' none (physicalLines rest)) <;> rfl

/-- **An entry is read back**, and what follows is read in the section of its key. -/
theorem contentsFrom_entry {e : Entry} (h : IsWritable e) (s : Section) (n : Nat)
    (breaks : Breaks) (rest : Text) :
    ∃ n', contentsFrom .five s (joinFrom n none (physicalLines (l.entry breaks e ++ rest)))
      = (do return { entries := [e] }
          ++ (← contentsFrom .five (.key e.hive e.key)
            (joinFrom n' none (physicalLines rest)))) := by
  obtain ⟨v, hv, hw⟩ := h.value
  rw [Layout.entry, List.append_assoc]
  exact contentsFrom_section l h.key (fun n => joinFrom_assignment l n h.name hv hw breaks rest)
    (fun n => step_assignment l n h) s n

theorem contentsFrom_entries (items : List (Entry × Breaks))
    (h : ∀ item ∈ items, IsWritable item.1) (s : Section) (n : Nat) :
    contentsFrom .five s (joinFrom n none
        (physicalLines (items.flatMap fun (e, breaks) => l.entry breaks e)))
      = .ok { entries := items.map Prod.fst } := by
  induction items generalizing s n with
  | nil => rfl
  | cons item items ih =>
    obtain ⟨n', hn'⟩ := contentsFrom_entry l (h item List.mem_cons_self) s n item.2
      (items.flatMap fun (e, breaks) => l.entry breaks e)
    have hrest := ih (fun item' h' => h item' (List.mem_cons_of_mem _ h'))
      (.key item.1.hive item.1.key) n'
    rw [List.flatMap_cons, hn', hrest]
    rfl

/-- Behind the header of version 5, an export is read in no section. -/
theorem ofText_header (t : Text) : Contents.ofText (l.line Version.five.header ++ t)
    = contentsFrom .five .outside (joinFrom 2 none (physicalLines t)) := by
  have hcomplete : IsComplete Version.five.header :=
    ⟨⟨isOpening_cons rfl (by decide), ⟨"Windows Registry Editor Version 5.0".toList, '0', rfl,
      by decide⟩⟩, by decide⟩
  have hlines : linesOf (l.line Version.five.header ++ t)
      = ⟨1, Version.five.header⟩ :: joinFrom 2 none (physicalLines t) :=
    joinFrom_line l 1 none (.spaces 0) hcomplete t
  rw [Contents.ofText, hlines]
  rfl

/-- **Reading undoes writing.** The export of any entries that can be written, in any layout and
with its bytes broken into lines anywhere, is read as these entries in their order, and nothing is
left out. -/
theorem ofText_document (items : List (Entry × Breaks)) (h : ∀ item ∈ items, IsWritable item.1) :
    Contents.ofText (l.document items) = .ok { entries := items.map Prod.fst, notices := [] } := by
  rw [Layout.document, ofText_header, contentsFrom_entries l items h]

/-- Entries whose keys, names and texts look like other parts of an export; the bytes of the second
are broken behind their second comma. -/
def hostileItems : List (Entry × Breaks) :=
  [({ hive := .localMachine, key := "a]\\[-;".toList, name := "@=hex:\"".toList
      value := some (.text ";\\\n\n😀\r".toList) }, []),
    ({ hive := .users, name := [], value := some (.binary [0xDE, 0xAD, 0xBE]) },
      [none, some (.spaces 2)]),
    ({ hive := .users, key := "\\".toList, name := "@".toList, value := some (.int32 (-1)) }, [])]

/-- They are read back all the same. -/
theorem ofText_document_hostileItems :
    (∀ item ∈ hostileItems, IsWritable item.1) ∧
      Contents.ofText (Layout.document {} hostileItems)
        = .ok { entries := hostileItems.map Prod.fst, notices := [] } := by
  have h : ∀ item ∈ hostileItems, IsWritable item.1 := by
    simp only [hostileItems, List.forall_mem_cons]
    refine ⟨?_, ?_, ?_, fun item h => absurd h List.not_mem_nil⟩
    · exact ⟨by decide, by decide, ⟨_, rfl, fun _ => by decide⟩, rfl, rfl, rfl, rfl⟩
    · exact ⟨by decide, by decide, ⟨_, rfl, trivial⟩, rfl, rfl, rfl, rfl⟩
    · exact ⟨by decide, by decide, ⟨_, rfl, trivial⟩, rfl, rfl, rfl, rfl⟩
  exact ⟨h, ofText_document {} hostileItems h⟩

end InstallerRegistry.Export
