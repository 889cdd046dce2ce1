import Mathlib.Data.List.TakeWhile
import InstallerRegistry.Proofs.Except
import InstallerRegistry.Proofs.Export.Concatenation

/-!
# Values and the sections that they are in

A reader carries the section that it is in from line to line. What it reads can be said without
that: a value belongs to the nearest section header before it (`headerOf?`), and it is written
unless the header deletes its key or the value itself is deleted (`isWritten`). The two meet in
`Section.IsOf`, which one step keeps (`isOf_of_step`) and which makes the entries of a whole export
those of its written lines (`Contents.forall₂_gives_of_ofText`).
-/

namespace InstallerRegistry.Export

/-! ## Kinds of lines -/

namespace Line

/-- Does the line start a section? -/
def isHeader (line : Line) : Bool :=
  line.text.head? == some '['

/-- Does the line assign a value? It says something, and starts no section. -/
def isValue (line : Line) : Bool :=
  !isIdle line.text && !line.isHeader

/-- Does the line start a section that deletes its key? -/
def deletesKey (line : Line) : Bool :=
  Text.startsWith "[-".toList line.text

/-- Does the line delete a value? -/
def deletesValue (line : Line) : Bool :=
  match assignment line.text with
  | .ok (_, data) => data == ['-']
  | .error _ => false

end Line

/-- The **nearest section header** in the lines before another. -/
def headerOf? (before : List Line) : Option Line :=
  before.reverse.find? Line.isHeader

/-- The lines, each with all those before it. What is `before` stands before them all. -/
def placedFrom (before : List Line) : List Line → List (List Line × Line)
  | [] => []
  | line :: rest => (before, line) :: placedFrom (before ++ [line]) rest

/-- Is the line, behind those before it, **written**? It assigns a value and does not delete it, and
its section does not delete its key. -/
def isWritten (placed : List Line × Line) : Bool :=
  placed.2.isValue && !placed.2.deletesValue && !(headerOf? placed.1).any Line.deletesKey

/-- The header names a key of a hive: one of the names of the hive, in any case, and behind a
backslash the key, which is empty if there is no backslash. -/
def Names (header : Line) (hive : Hive) (key : Text) : Prop :=
  ∃ root, (∃ name ∈ hive.names, Text.upperCase name = Text.upperCase root) ∧ '\\' ∉ root
    ∧ (header.text = '[' :: root ++ [']'] ∧ key = []
      ∨ header.text = '[' :: (root ++ '\\' :: key) ++ [']'])

/-- The line, behind those before it, **gives** an entry: its name and its value are those of the
line, its hive and its key are those of the nearest header. -/
def Gives (version : Version) (placed : List Line × Line) (e : Entry) : Prop :=
  ∃ header hive key name data v, headerOf? placed.1 = some header ∧ Names header hive key
    ∧ assignment placed.2.text = .ok (name, data) ∧ valueOf version data = .ok (some v)
    ∧ e = { hive, key, name, value := some v }

/-! ## Headers -/

theorem headerOf?_append (a b : List Line) :
    headerOf? (a ++ b) = (headerOf? b).or (headerOf? a) := by
  rw [headerOf?, List.reverse_append, List.find?_append]
  rfl

theorem headerOf?_eq_none {lines : List Line} (h : ∀ line ∈ lines, line.isHeader = false) :
    headerOf? lines = none := by
  rw [headerOf?, List.find?_eq_none]
  intro line hline
  rw [h line (List.mem_reverse.1 hline)]
  exact Bool.false_ne_true

theorem headerOf?_concat_of_isHeader (before : List Line) {line : Line} (h : line.isHeader) :
    headerOf? (before ++ [line]) = some line := by
  rw [headerOf?_append, headerOf?, List.reverse_singleton, List.find?_cons_of_pos h]
  rfl

theorem headerOf?_concat (before : List Line) {line : Line} (h : line.isHeader = false) :
    headerOf? (before ++ [line]) = headerOf? before := by
  rw [headerOf?_append, headerOf?_eq_none (List.forall_mem_singleton.2 h)]
  rfl

theorem isHeader_eq_false_of_isIdle {line : Line} (h : isIdle line.text) :
    line.isHeader = false := by
  unfold Line.isHeader
  cases htext : line.text with
  | nil => rfl
  | cons c rest =>
    rw [htext] at h
    have hc : c = ';' := by simpa [isIdle] using h
    rw [hc]
    rfl

theorem headerPath?_eq_some_iff {t path : Text} :
    headerPath? t = some path ↔ t = '[' :: path ++ [']'] := by
  rw [headerPath?, Option.bind_eq_some_iff]
  constructor
  · rintro ⟨behind, hbehind, hpath⟩
    rw [Text.after?_eq_some_iff.1 hbehind, Text.before?_eq_some_iff.1 hpath]
    rfl
  · rintro rfl
    exact ⟨path ++ [']'], rfl, Text.before?_eq_some_iff.2 rfl⟩

/-- **A header** is read as a deletion, or as the key that it names; it has no entries. -/
theorem sectionOf_eq_ok {line : Line} {s : Section} {c : Contents}
    (h : sectionOf line = .ok (s, c)) :
    c.entries = [] ∧ (line.deletesKey ∧ s = .deleted
      ∨ ¬ line.deletesKey ∧ ∃ hive key, Names line hive key ∧ s = .key hive key) := by
  unfold sectionOf at h
  split at h
  next => cases h
  next path hpath =>
    cases h
    refine ⟨rfl, .inl ⟨?_, rfl⟩⟩
    rw [Line.deletesKey, headerPath?_eq_some_iff.1 hpath]
    rfl
  next path hminus hpath =>
    have htext := headerPath?_eq_some_iff.1 hpath
    have hkept : ¬ line.deletesKey := by
      rw [Line.deletesKey, htext]
      cases path with
      | nil => exact Bool.false_ne_true
      | cons c path =>
        have hc : '-' ≠ c := fun hc => hminus path (by rw [hc])
        simp [Text.startsWith, Text.after?, hc]
    dsimp only at h
    split at h
    next hive hhive =>
      cases h
      refine ⟨rfl, .inr ⟨hkept, hive, _, ?_, rfl⟩⟩
      cases hcut : Text.cut? '\\' path with
      | none =>
        rw [hcut] at hhive
        exact ⟨path, Hive.ofName?_eq_some_iff.1 hhive, Text.notMem_of_cut?_eq_none hcut,
          .inl ⟨htext, rfl⟩⟩
      | some parts =>
        obtain ⟨root, key⟩ := parts
        rw [hcut] at hhive
        refine ⟨root, Hive.ofName?_eq_some_iff.1 hhive, Text.notMem_of_cut? hcut, .inr ?_⟩
        rw [htext, Text.eq_of_cut? hcut]
        rfl
    next => cases h

/-- The section is the one that the nearest header starts. -/
def Section.IsOf (s : Section) : Option Line → Prop
  | none => s = .outside
  | some header => ∃ c, sectionOf header = .ok (s, c)

namespace Section.IsOf

variable {header? : Option Line}

theorem any_deletesKey (h : Section.deleted.IsOf header?) : header?.any Line.deletesKey := by
  cases header? with
  | none => exact absurd h nofun
  | some header =>
    obtain ⟨c, hc⟩ := h
    obtain ⟨hdeletes, _⟩ | ⟨_, _, _, _, hkey⟩ := (sectionOf_eq_ok hc).2
    · exact hdeletes
    · exact absurd hkey nofun

theorem eq_deleted {s : Section} (h : s.IsOf header?) (hdeletes : header?.any Line.deletesKey) :
    s = .deleted := by
  cases header? with
  | none => exact absurd hdeletes Bool.false_ne_true
  | some header =>
    obtain ⟨c, hc⟩ := h
    obtain ⟨_, hs⟩ | ⟨hkept, _⟩ := (sectionOf_eq_ok hc).2
    · exact hs
    · exact absurd hdeletes hkept

theorem exists_names {hive : Hive} {key : Text} (h : (Section.key hive key).IsOf header?) :
    ∃ header, header? = some header ∧ Names header hive key ∧ ¬ header.deletesKey := by
  cases header? with
  | none => exact absurd h nofun
  | some header =>
    obtain ⟨c, hc⟩ := h
    obtain ⟨_, hs⟩ | ⟨hkept, hive', key', hnames, hs⟩ := (sectionOf_eq_ok hc).2
    · exact absurd hs nofun
    · cases hs
      exact ⟨header, rfl, hnames, hkept⟩

end Section.IsOf

/-! ## Values -/

/-- A lone minus sign, and no other data, deletes a value. -/
theorem valueOf_eq_ok_none_iff {version : Version} {data : Text} :
    valueOf version data = .ok none ↔ data = ['-'] := by
  constructor
  · intro h
    unfold valueOf at h
    split at h
    next hdata => exact beq_iff_eq.1 hdata
    next =>
      split at h
      next =>
        obtain ⟨v, _, h⟩ := bind_eq_ok_iff.1 h
        exact absurd h nofun
      next =>
        split at h
        next => split at h <;> exact absurd h nofun
        next =>
          split at h
          next =>
            obtain ⟨bytes, _, h⟩ := bind_eq_ok_iff.1 h
            exact absurd h nofun
          next =>
            split at h
            next =>
              obtain ⟨bytes, _, h⟩ := bind_eq_ok_iff.1 h
              obtain ⟨v, _, h⟩ := bind_eq_ok_iff.1 h
              exact absurd h nofun
            next => exact absurd h nofun
  · rintro rfl
    rfl

variable {version : Version}

/-- **A value** is read as its entry, or as a deletion. -/
theorem valueIn_eq_ok {hive : Hive} {key : Text} {line : Line} {c : Contents}
    (h : valueIn version hive key line = .ok c) :
    line.deletesValue ∧ c.entries = []
      ∨ ¬ line.deletesValue ∧ ∃ name data v, assignment line.text = .ok (name, data)
        ∧ valueOf version data = .ok (some v)
        ∧ c.entries = [{ hive, key, name, value := some v }] := by
  unfold valueIn at h
  unfold Line.deletesValue
  split at h
  next => exact absurd h nofun
  next name data hassignment =>
    rw [hassignment]
    split at h
    next => exact absurd h nofun
    next hnone =>
      cases h
      exact .inl ⟨beq_iff_eq.2 (valueOf_eq_ok_none_iff.1 hnone), rfl⟩
    next v hsome =>
      cases h
      have hdata : data ≠ ['-'] := fun hdata => by
        rw [valueOf_eq_ok_none_iff.2 hdata] at hsome
        exact absurd hsome nofun
      exact .inr ⟨by simpa using hdata, name, data, v, rfl, hsome, rfl⟩

/-! ## Steps and runs -/

section Run

variable {s s' : Section} {before lines : List Line} {line : Line}

/-- **A step** leaves the section of the nearest header to the next line, and contributes the entry
of its line if this is written. -/
theorem isOf_of_step {here : Contents} (hs : s.IsOf (headerOf? before))
    (h : step version s line = .ok (s', here)) :
    s'.IsOf (headerOf? (before ++ [line]))
      ∧ List.Forall₂ (Gives version) ([(before, line)].filter isWritten) here.entries := by
  have hunwritten : isWritten (before, line) = false → here.entries = [] →
      List.Forall₂ (Gives version) ([(before, line)].filter isWritten) here.entries := by
    intro hline hhere
    rw [hhere, List.filter_cons_of_neg (by rw [hline]; exact Bool.false_ne_true)]
    exact .nil
  unfold step at h
  split at h
  next hidle =>
    -- the line says nothing
    cases h
    have hheader := isHeader_eq_false_of_isIdle hidle
    rw [headerOf?_concat before hheader]
    exact ⟨hs, hunwritten (by simp [isWritten, Line.isValue, hidle]) rfl⟩
  next hidle =>
    split at h
    next hheader =>
      rw [headerOf?_concat_of_isHeader before hheader]
      have hheader : line.isHeader = true := hheader
      exact ⟨⟨here, h⟩, hunwritten (by simp [isWritten, Line.isValue, hheader])
        (sectionOf_eq_ok h).1⟩
    next hheader =>
      have hheader : line.isHeader = false := Bool.eq_false_iff.2 hheader
      have hvalue : line.isValue = true := by simp [Line.isValue, hidle, hheader]
      rw [headerOf?_concat before hheader]
      cases s with
      | outside => exact absurd h nofun
      | deleted =>
        cases h
        exact ⟨hs, hunwritten (by simp [isWritten, hs.any_deletesKey]) rfl⟩
      | key hive key =>
        obtain ⟨c, hc, h⟩ := bind_eq_ok_iff.1 h
        cases h
        obtain ⟨header, hnearest, hnames, hkept⟩ := hs.exists_names
        refine ⟨hs, ?_⟩
        obtain ⟨hdeletes, hnone⟩ | ⟨hwrites, name, data, v, hassignment, hv, hentry⟩ :=
          valueIn_eq_ok hc
        · exact hunwritten (by simp [isWritten, hdeletes]) hnone
        · have hwritten : isWritten (before, line) = true := by
            simp [isWritten, hvalue, hwrites, hnearest, hkept]
          rw [hentry, List.filter_cons_of_pos hwritten]
          exact .cons ⟨header, hive, key, name, data, v, hnearest, hnames, hassignment, hv, rfl⟩
            .nil

/-- **A run** contributes the entries of the lines that are written, in their order. -/
theorem forall₂_gives_of_contentsFrom {c : Contents} (hs : s.IsOf (headerOf? before))
    (h : contentsFrom version s lines = .ok c) :
    List.Forall₂ (Gives version) ((placedFrom before lines).filter isWritten) c.entries := by
  induction lines generalizing s before c with
  | nil =>
    cases h
    exact .nil
  | cons line rest ih =>
    obtain ⟨⟨s', here⟩, hstep, h⟩ := bind_eq_ok_iff.1 h
    obtain ⟨behind, hbehind, h⟩ := bind_eq_ok_iff.1 h
    cases h
    obtain ⟨hs', hhere⟩ := isOf_of_step hs hstep
    have hfilter : (placedFrom before (line :: rest)).filter isWritten
        = [(before, line)].filter isWritten
          ++ (placedFrom (before ++ [line]) rest).filter isWritten := by
      rw [← List.filter_append]
      rfl
    rw [hfilter]
    exact List.rel_append hhere (ih hs' hbehind)

end Run

/-! ## Exports -/

/-- An export that can be read has its header in front, and behind it starts in no section. -/
theorem exists_eq_append_of_contentsOfLines {lines : List Line} {c : Contents}
    (h : contentsOfLines lines = .ok c) :
    ∃ version blank header body, lines = blank ++ header :: body
      ∧ (∀ line ∈ blank, line.text = []) ∧ header.text = version.header
      ∧ contentsFrom version .outside body = .ok c := by
  unfold contentsOfLines at h
  split at h
  next => exact absurd h nofun
  next header body hlines =>
    split at h
    next => exact absurd h nofun
    next version hversion =>
      refine ⟨version, lines.takeWhile (·.text.isEmpty), header, body, ?_, ?_, ?_, h⟩
      · rw [← hlines, List.takeWhile_append_dropWhile]
      · intro line hline
        have hempty := List.mem_takeWhile_imp hline
        exact List.isEmpty_iff.1 hempty
      · exact (Version.header_eq_of_ofHeader? hversion).symm

/-- **The entries of an export** are those that its written lines give, each once and in their
order. -/
theorem Contents.forall₂_gives_of_ofText {t : Text} {c : Contents} (h : Contents.ofText t = .ok c) :
    ∃ version blank header body, linesOf t = blank ++ header :: body
      ∧ (∀ line ∈ blank, line.text = []) ∧ header.text = version.header
      ∧ List.Forall₂ (Gives version) ((placedFrom [] body).filter isWritten) c.entries := by
  obtain ⟨version, blank, header, body, hlines, hblank, hheader, hbody⟩ :=
    exists_eq_append_of_contentsOfLines h
  exact ⟨version, blank, header, body, hlines, hblank, hheader,
    forall₂_gives_of_contentsFrom rfl hbody⟩

/-- **An entry of an export** has a value, and nothing is said about how it is installed. -/
theorem Contents.exists_eq_of_mem_ofText {t : Text} {c : Contents} (h : Contents.ofText t = .ok c) :
    ∀ e ∈ c.entries, ∃ v,
      e = { hive := e.hive, key := e.key, name := e.name, value := some v } := by
  intro e he
  obtain ⟨_, _, _, _, _, _, _, hgives⟩ := forall₂_gives_of_ofText h
  obtain ⟨_, _, _, _, _, _, _, v, _, _, _, _, rfl⟩ := exists_left_of_forall₂ hgives he
  exact ⟨v, rfl⟩

end InstallerRegistry.Export
