import InstallerRegistry.Proofs.Export.Lines
import InstallerRegistry.Proofs.Export.Numbering

/-!
# Exports one behind another

The body of an export can be put behind another export, and then it says what it would say behind a
header of its own (`Contents.ofText_append`). All that changes is where its lines are: errors and
notices count them from further up.

Three things could leak from one piece of text into the next: a line that goes on, the section that
the last line is in, and the count of lines. The first is excluded by asking for whole lines in the
first piece (`IsWhole`), the second by asking for a section header at the front of the second
(`StartsSection`), and the third is the shift.
-/

namespace InstallerRegistry.Export

/-! ## Reading lines further down -/

/-- The line, with `n` more lines before it. -/
def Line.later (n : Nat) : Line → Line :=
  Line.renumber (· + n)

/-- What lines contribute, or the fault in them, if they stand `n` lines further down. -/
def furtherDown (n : Nat) : Except RegistryError Contents → Except RegistryError Contents :=
  renumbered (· + n)

/-- The logical lines of a text are the same further down. -/
theorem joinFrom_later (n number : Nat) (pending : Option Line) (physical : List Text) :
    joinFrom (number + n) (pending.map (Line.later n)) physical
      = (joinFrom number pending physical).map (Line.later n) := by
  induction physical generalizing number pending with
  | nil => cases pending <;> rfl
  | cons p physical ih =>
    have hline : ((pending.map (Line.later n)).getD ⟨number + n, []⟩).extend p
        = ((pending.getD ⟨number, []⟩).extend p).later n := by
      cases pending <;> rfl
    have hnext : number + n + 1 = number + 1 + n := Nat.add_right_comm number n 1
    rw [joinFrom, joinFrom, hline, hnext]
    generalize (pending.getD ⟨number, []⟩).extend p = line
    have hcontinues : (line.later n).continues = line.continues := rfl
    rw [hcontinues]
    split
    next => exact ih (number + 1) (some line.dropMark)
    next => exact congrArg _ (ih (number + 1) none)

/-- Lines that are counted from further up contribute the same, only further down. -/
theorem contentsFrom_joinFrom_add (version : Version) (s : Section) (number n : Nat)
    (physical : List Text) :
    contentsFrom version s (joinFrom (number + n) none physical)
      = furtherDown n (contentsFrom version s (joinFrom number none physical)) := by
  rw [show joinFrom (number + n) none physical = _ from joinFrom_later n number none physical]
  exact contentsFrom_renumber (· + n) version s _

/-! ## Whole lines -/

/-- The line that goes on behind some physical lines, if there is one. -/
def pendingAfter (number : Nat) (pending : Option Line) : List Text → Option Line
  | [] => pending
  | physical :: rest =>
    let line := (pending.getD ⟨number, []⟩).extend physical
    pendingAfter (number + 1) (if line.continues then some line.dropMark else none) rest

/-- Does a text consist of **whole lines**? Unless it is empty it ends with a line feed, and its
last line does not go on. -/
structure IsWhole (t : Text) : Prop where
  lineFeed : t = [] ∨ t.getLast? = some '\n'
  complete : pendingAfter 1 none (physicalLines t) = none

theorem pendingAfter_later (n number : Nat) (pending : Option Line) (physical : List Text) :
    pendingAfter (number + n) (pending.map (Line.later n)) physical
      = (pendingAfter number pending physical).map (Line.later n) := by
  induction physical generalizing number pending with
  | nil => rfl
  | cons p physical ih =>
    have hline : ((pending.map (Line.later n)).getD ⟨number + n, []⟩).extend p
        = ((pending.getD ⟨number, []⟩).extend p).later n := by
      cases pending <;> rfl
    have hnext : number + n + 1 = number + 1 + n := Nat.add_right_comm number n 1
    rw [pendingAfter, pendingAfter, hline, hnext, ← ih]
    congr 1
    generalize (pending.getD ⟨number, []⟩).extend p = line
    have hcontinues : (line.later n).continues = line.continues := rfl
    rw [hcontinues]
    split <;> rfl

/-- Whether a line goes on does not depend on its number. -/
theorem IsWhole.pendingAfter_eq_none {t : Text} (h : IsWhole t) (number : Nat) :
    pendingAfter number none (physicalLines t) = none := by
  have hlater : ∀ n, pendingAfter (0 + n) none (physicalLines t)
      = (pendingAfter 0 none (physicalLines t)).map (Line.later n) := fun n =>
    pendingAfter_later n 0 none (physicalLines t)
  have hzero : pendingAfter 0 none (physicalLines t) = none :=
    Option.map_eq_none_iff.1 ((hlater 1).symm.trans h.complete)
  rw [← Nat.zero_add number, hlater, hzero]
  rfl

/-- **Lines behind whole lines** are joined as if they stood alone. -/
theorem joinFrom_append {number : Nat} {pending : Option Line} {physical : List Text}
    (h : pendingAfter number pending physical = none) (behind : List Text) :
    joinFrom number pending (physical ++ behind)
      = joinFrom number pending physical
        ++ joinFrom (number + physical.length) none behind := by
  induction physical generalizing number pending with
  | nil =>
    obtain rfl : pending = none := h
    rfl
  | cons p physical ih =>
    have hlength : number + (p :: physical).length = number + 1 + physical.length := by
      rw [List.length_cons]
      omega
    rw [pendingAfter] at h
    rw [List.cons_append, joinFrom, joinFrom, hlength]
    generalize (pending.getD ⟨number, []⟩).extend p = line at h ⊢
    split
    next hcontinues =>
      rw [if_pos hcontinues] at h
      exact ih h
    next hcontinues =>
      rw [if_neg hcontinues] at h
      rw [ih h, List.cons_append]

/-- The lines of a text behind one that ends with a line feed. -/
theorem physicalLines_append_of_lineFeed {a : Text} (h : a = [] ∨ a.getLast? = some '\n')
    (b : Text) : physicalLines (a ++ b) = physicalLines a ++ physicalLines b := by
  -- the first line of the text is taken off, and the rest is shorter
  induction hlength : a.length using Nat.strongRecOn generalizing a with
  | ind length ih =>
    by_cases hmem : '\n' ∈ a
    · obtain ⟨line, rest, rfl, hline⟩ := List.eq_append_cons_of_mem hmem
      have hrest : rest = [] ∨ rest.getLast? = some '\n' := by
        cases rest with
        | nil => exact .inl rfl
        | cons c rest => exact .inr (by simpa using h)
      have hshorter : rest.length < length := by
        rw [← hlength, List.length_append, List.length_cons]
        omega
      rw [List.append_assoc, List.cons_append, physicalLines_append hline,
        physicalLines_append hline, ih _ hshorter hrest rfl, List.cons_append]
    · have hempty : a = [] := h.resolve_right fun hlast => hmem (List.mem_of_getLast? hlast)
      rw [hempty]
      rfl

/-! ## A section at the front -/

/-- Does the text **start a section**? Its first line that says something is a section header. -/
def StartsSection (t : Text) : Prop :=
  ∀ line ∈ ((physicalLines t).map Text.trim).find? (!isIdle ·), line.head? = some '['

/-- Lines that say nothing and section headers do not go on. -/
theorem continues_eq_false {line : Line} (h : isIdle line.text ∨ line.text.head? = some '[') :
    line.continues = false := by
  have hassigns : assignsHex line.text = false := by
    cases htext : line.text with
    | nil => rfl
    | cons c rest =>
      rw [htext] at h
      have hc : c = ';' ∨ c = '[' := by simpa [isIdle] using h
      rcases hc with rfl | rfl <;> rfl
  rw [Line.continues, hassigns, Bool.and_false]

/-- A physical line that does not go on is a logical line. -/
theorem joinFrom_cons {number : Nat} {p : Text}
    (h : (Line.mk number (Text.trim p)).continues = false) (physical : List Text) :
    joinFrom number none (p :: physical)
      = ⟨number, Text.trim p⟩ :: joinFrom (number + 1) none physical :=
  if_neg (Bool.eq_false_iff.1 h)

/-- What the first line of a text is that says something is not changed by joining lines. -/
theorem find?_joinFrom (number : Nat) {physical : List Text}
    (h : ∀ t ∈ (physical.map Text.trim).find? (!isIdle ·), t.head? = some '[') :
    ∀ line ∈ (joinFrom number none physical).find? (!isIdle ·.text),
      line.text.head? = some '[' := by
  induction physical generalizing number with
  | nil => exact nofun
  | cons p physical ih =>
    rw [List.map_cons] at h
    cases hidle : isIdle (Text.trim p) with
    | true =>
      have hcontinues : (Line.mk number (Text.trim p)).continues = false :=
        continues_eq_false (.inl hidle)
      rw [List.find?_cons_of_neg (by simp [hidle])] at h
      rw [joinFrom_cons hcontinues, List.find?_cons_of_neg (by simp [hidle])]
      exact ih (number + 1) h
    | false =>
      rw [List.find?_cons_of_pos (by simp [hidle])] at h
      have hhead := h _ rfl
      have hcontinues : (Line.mk number (Text.trim p)).continues = false :=
        continues_eq_false (.inr hhead)
      rw [joinFrom_cons hcontinues, List.find?_cons_of_pos (by simp [hidle])]
      rintro _ ⟨⟩
      exact hhead

section Restart

variable (version : Version)

theorem step_of_isIdle (s : Section) {line : Line} (h : isIdle line.text) :
    step version s line = .ok (s, {}) :=
  if_pos h

/-- A section header means the same in every section. -/
theorem step_of_header (s : Section) {line : Line} (h : line.text.head? = some '[') :
    step version s line = sectionOf line := by
  have hidle : ¬ isIdle line.text := by
    cases htext : line.text with
    | nil => rw [htext] at h; exact absurd h nofun
    | cons c rest =>
      rw [htext] at h
      simp [isIdle, Option.some.inj h]
  have hheader : (line.text.head? == some '[') = true := by simp [h]
  exact (if_neg hidle).trans (if_pos hheader)

/-- **A section header takes over** from whatever section the lines before it were in. -/
theorem contentsFrom_eq_of_header {lines : List Line}
    (h : ∀ line ∈ lines.find? (!isIdle ·.text), line.text.head? = some '[') (s s' : Section) :
    contentsFrom version s lines = contentsFrom version s' lines := by
  induction lines with
  | nil => rfl
  | cons line lines ih =>
    rw [contentsFrom, contentsFrom]
    cases hidle : isIdle line.text with
    | true =>
      rw [List.find?_cons_of_neg (by simp [hidle])] at h
      rw [step_of_isIdle version s hidle, step_of_isIdle version s' hidle]
      dsimp only [bind, Except.bind]
      rw [ih h]
    | false =>
      rw [List.find?_cons_of_pos (by simp [hidle])] at h
      rw [step_of_header version s (h line rfl), step_of_header version s' (h line rfl)]

theorem Contents.append_assoc (a b c : Contents) : a ++ b ++ c = a ++ (b ++ c) := by
  show Contents.mk (a.entries ++ b.entries ++ c.entries) (a.notices ++ b.notices ++ c.notices) = _
  rw [List.append_assoc, List.append_assoc]
  rfl

/-- The contents of lines behind others, if they start a section. -/
theorem contentsFrom_append (s : Section) (lines : List Line) {behind : List Line}
    (h : ∀ line ∈ behind.find? (!isIdle ·.text), line.text.head? = some '[') :
    contentsFrom version s (lines ++ behind)
      = (do return (← contentsFrom version s lines)
          ++ (← contentsFrom version .outside behind)) := by
  induction lines generalizing s with
  | nil =>
    rw [List.nil_append, contentsFrom_eq_of_header version h s .outside]
    cases contentsFrom version .outside behind <;> rfl
  | cons line lines ih =>
    rw [List.cons_append, contentsFrom, contentsFrom]
    cases step version s line with
    | error e => rfl
    | ok next =>
      obtain ⟨s', here⟩ := next
      dsimp only [bind, Except.bind]
      rw [ih s']
      cases contentsFrom version s' lines with
      | error e => rfl
      | ok c =>
        cases contentsFrom version .outside behind with
        | error e => rfl
        | ok c' => exact congrArg Except.ok (Contents.append_assoc here c c').symm

end Restart

/-! ## Exports -/

/-- Is the text a line with the header of an export? -/
def IsHeaderLine (t : Text) : Prop :=
  ∃ line version, t = line ++ ['\n'] ∧ '\n' ∉ line
    ∧ Version.ofHeader? (Text.trim line) = some version

theorem Version.header_eq_of_ofHeader? {t : Text} {version : Version}
    (h : Version.ofHeader? t = some version) : version.header = t := by
  simpa using List.find?_some h

/-- Behind its header, an export is read in no section. -/
theorem Contents.exists_ofText_eq {header : Text} (h : IsHeaderLine header) :
    ∃ version, ∀ t, Contents.ofText (header ++ t)
      = contentsFrom version .outside (joinFrom 2 none (physicalLines t)) := by
  obtain ⟨line, version, rfl, hline, hversion⟩ := h
  refine ⟨version, fun t => ?_⟩
  have hheader := Version.header_eq_of_ofHeader? hversion
  have hcontinues : (Line.mk 1 (Text.trim line)).continues = false := by
    rw [← hheader]
    cases version <;> rfl
  have hempty : (Text.trim line).isEmpty = false := by
    rw [← hheader]
    cases version <;> rfl
  rw [Contents.ofText, linesOf, List.append_assoc, List.singleton_append,
    physicalLines_append hline, joinFrom_cons hcontinues, contentsOfLines,
    List.dropWhile_cons_of_neg (by simp [hempty])]
  dsimp only
  rw [hversion]

/-- What starts a section is read behind whole lines as it is read in no section, only further
down. -/
theorem contentsFrom_physicalLines_append {body behind : Text} (hbody : IsWhole body)
    (hbehind : StartsSection behind) (version : Version) (s : Section) (number : Nat) :
    contentsFrom version s (joinFrom number none (physicalLines (body ++ behind)))
      = (do return (← contentsFrom version s (joinFrom number none (physicalLines body)))
          ++ (← furtherDown (physicalLines body).length
            (contentsFrom version .outside (joinFrom number none (physicalLines behind))))) := by
  rw [physicalLines_append_of_lineFeed hbody.lineFeed,
    joinFrom_append (hbody.pendingAfter_eq_none number),
    contentsFrom_append version s _ (find?_joinFrom _ hbehind), contentsFrom_joinFrom_add]

/-- **The body of an export behind another one** says what it says behind a header of its own. If
there is a fault in the first, it is that of both together; and what the second says, or the fault
in it, is only further down by the lines of the body before it. -/
theorem Contents.ofText_append {header body behind : Text} (hheader : IsHeaderLine header)
    (hbody : IsWhole body) (hbehind : StartsSection behind) :
    Contents.ofText (header ++ body ++ behind)
      = (do return (← Contents.ofText (header ++ body))
          ++ (← furtherDown (physicalLines body).length (Contents.ofText (header ++ behind)))) := by
  obtain ⟨version, hversion⟩ := exists_ofText_eq hheader
  rw [List.append_assoc, hversion, hversion, hversion]
  exact contentsFrom_physicalLines_append hbody hbehind version .outside 2

/-- A header with blanks around it. -/
def indentedHeader : Text :=
  " REGEDIT4\r\n".toList

/-- A body with broken bytes in it, and at its end a deleted key with a value of no form. -/
def deletingBody : Text :=
  "[HKCU\\a]\n\"A\"=hex:00,\\\r\n  01\n[-HKCU\\b]\n\"B\"=?\n".toList

/-- A body that does not start with its section at once, and that deletes a value. -/
def lateSectionBody : Text :=
  "\n ; \\\n[HKLM\\b]\n\"C\"=-".toList

/-- One behind the other, they are read as they would be alone. -/
theorem Contents.ofText_append_deletingBody :
    IsHeaderLine indentedHeader ∧ IsWhole deletingBody ∧ StartsSection lateSectionBody
      ∧ Contents.ofText (indentedHeader ++ deletingBody ++ lateSectionBody)
        = (do return (← Contents.ofText (indentedHeader ++ deletingBody))
            ++ (← furtherDown (physicalLines deletingBody).length
              (Contents.ofText (indentedHeader ++ lateSectionBody)))) := by
  have hheader : IsHeaderLine indentedHeader :=
    ⟨" REGEDIT4\r".toList, .four, rfl, by decide, rfl⟩
  have hbody : IsWhole deletingBody := ⟨.inr rfl, rfl⟩
  have hbehind : StartsSection lateSectionBody := by
    rintro _ ⟨⟩
    rfl
  exact ⟨hheader, hbody, hbehind, ofText_append hheader hbody hbehind⟩

/-- Both are counted from the header, the second behind the five lines of the first. -/
example : Contents.ofText (indentedHeader ++ deletingBody ++ lateSectionBody)
    = .ok
      { entries := [{ key := ['a'], name := ['A'], value := some (.binary [0, 1]) }]
        notices := [.deletedKey 5 "HKCU\\b".toList,
          .deletedValue 10 .localMachine ['b'] ['C']] } :=
  rfl

end InstallerRegistry.Export
