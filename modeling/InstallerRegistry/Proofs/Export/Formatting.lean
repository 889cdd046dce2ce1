import InstallerRegistry.Proofs.Export.Deletions

/-!
# Blanks, blank lines and comments

How an export is laid out does not change what it says. Blanks at the ends of a physical line are
gone before it is joined to others (`joinFrom_eq_of_agree`), so a text can be indented, and its
lines can end in any way that a line feed does not take part in.

A line that says nothing is passed over by a run in whatever section it comes
(`contentsFrom_append_of_isIdle`). For a text there is one thing to see to: such a line may only be
added in a gap between two logical lines (`IsGap`), since inside of one it would be taken for data.
It need not look harmless itself, though. A comment never goes on, even if it ends with a backslash
behind hexadecimal data, so it leaves the gap as it was.
-/

namespace InstallerRegistry.Export

/-! ## Blanks around lines -/

/-- Is the second line the first one with blanks around it? -/
def IsPadded (p p' : Text) : Prop :=
  ∃ a b, p' = a ++ p ++ b ∧ (∀ c ∈ a, Text.isBlank c = true) ∧ ∀ c ∈ b, Text.isBlank c = true

/-- Do two lines **agree** up to the blanks at their ends? Both are one text with blanks around
it. -/
def Agree (p p' : Text) : Prop :=
  ∃ core, IsPadded core p ∧ IsPadded core p'

theorem IsPadded.refl (p : Text) : IsPadded p p :=
  ⟨[], [], (List.append_nil p).symm, List.forall_mem_nil _, List.forall_mem_nil _⟩

theorem IsPadded.agree {p p' : Text} (h : IsPadded p p') : Agree p p' :=
  ⟨p, .refl p, h⟩

theorem IsPadded.trim_eq {p p' : Text} (h : IsPadded p p') : Text.trim p' = Text.trim p := by
  obtain ⟨a, b, rfl, ha, hb⟩ := h
  rw [Text.trim, Text.trim, Text.dropAround_margins ha hb]

theorem Agree.trim_eq {p p' : Text} (h : Agree p p') : Text.trim p' = Text.trim p := by
  obtain ⟨core, hp, hp'⟩ := h
  rw [hp.trim_eq, hp'.trim_eq]

/-- Only what is between the blanks around lines is joined. -/
theorem joinFrom_eq_of_agree {physical physical' : List Text}
    (h : List.Forall₂ Agree physical physical') (number : Nat) (pending : Option Line) :
    joinFrom number pending physical' = joinFrom number pending physical := by
  induction h generalizing number pending with
  | nil => rfl
  | @cons p p' _ _ hp _ ih =>
    have hextend : ∀ line : Line, line.extend p' = line.extend p := fun line => by
      rw [Line.extend, Line.extend, hp.trim_eq]
    rw [joinFrom, joinFrom, hextend, ih, ih]

/-- **Blanks around lines** do not count. -/
theorem Contents.ofText_eq_of_agree {t t' : Text}
    (h : List.Forall₂ Agree (physicalLines t) (physicalLines t')) :
    Contents.ofText t' = Contents.ofText t := by
  rw [Contents.ofText, Contents.ofText, linesOf, linesOf, joinFrom_eq_of_agree h]

/-! ## Carriage returns -/

/-- The text with a carriage return before each line feed. -/
def withCarriageReturns (t : Text) : Text :=
  t.flatMap fun c => if c = '\n' then ['\r', '\n'] else [c]

theorem withCarriageReturns_of_notMem {t : Text} (h : '\n' ∉ t) : withCarriageReturns t = t := by
  induction t with
  | nil => rfl
  | cons c t ih =>
    obtain ⟨hc, ht⟩ := not_or.1 (mt List.mem_cons.2 h)
    rw [withCarriageReturns, List.flatMap_cons, if_neg (Ne.symm hc), ← withCarriageReturns, ih ht]
    rfl

theorem withCarriageReturns_append {line : Text} (h : '\n' ∉ line) (rest : Text) :
    withCarriageReturns (line ++ '\n' :: rest)
      = (line ++ ['\r']) ++ '\n' :: withCarriageReturns rest := by
  have hline := withCarriageReturns_of_notMem h
  rw [withCarriageReturns] at hline ⊢
  rw [List.flatMap_append, hline, List.append_assoc]
  rfl

/-- A carriage return is one more blank behind its line. -/
theorem agree_withCarriageReturns (t : Text) :
    List.Forall₂ Agree (physicalLines t) (physicalLines (withCarriageReturns t)) := by
  -- the first line of the text is taken off, and the rest is shorter
  induction hlength : t.length using Nat.strongRecOn generalizing t with
  | ind length ih =>
    by_cases hmem : '\n' ∈ t
    · obtain ⟨line, rest, rfl, hline⟩ := List.eq_append_cons_of_mem hmem
      have hshorter : rest.length < length := by
        rw [← hlength, List.length_append, List.length_cons]
        omega
      have hfree : '\n' ∉ line ++ ['\r'] := by
        rw [List.mem_append]
        exact not_or.2 ⟨hline, by decide⟩
      have hpadded : IsPadded line (line ++ ['\r']) :=
        ⟨[], ['\r'], rfl, List.forall_mem_nil _, List.forall_mem_singleton.2 (by decide)⟩
      rw [withCarriageReturns_append hline, physicalLines_append hline, physicalLines_append hfree]
      exact .cons hpadded.agree (ih _ hshorter rest rfl)
    · rw [withCarriageReturns_of_notMem hmem]
      exact List.forall₂_same.2 fun p _ => (IsPadded.refl p).agree

/-! ## Lines that say nothing -/

/-- Is the line blank, or a comment? If there is anything but blanks in it, that starts with a
semicolon. -/
def SaysNothing (p : Text) : Prop :=
  ∀ c ∈ (Text.trimStart p).head?, c = ';'

theorem isIdle_trim_of_saysNothing {p : Text} (h : SaysNothing p) : isIdle (Text.trim p) := by
  rw [Text.trim, Text.dropAround, ← Text.trimStart]
  unfold SaysNothing at h
  cases hstart : Text.trimStart p with
  | nil => rfl
  | cons c rest =>
    rw [hstart] at h
    obtain rfl : c = ';' := h c rfl
    rw [Text.dropEndWhile_cons (by decide)]
    rfl

section Run

variable {version : Version} {line : Line}

/-- **A run** passes over a line that says nothing. -/
theorem contentsFrom_append_of_isIdle (h : isIdle line.text) (s : Section)
    (before behind : List Line) :
    contentsFrom version s (before ++ line :: behind)
      = contentsFrom version s (before ++ behind) := by
  induction before generalizing s with
  | nil =>
    rw [List.nil_append, List.nil_append, contentsFrom_cons (step_of_isIdle version s h)]
    cases contentsFrom version s behind <;> rfl
  | cons first before ih =>
    rw [List.cons_append, List.cons_append, contentsFrom, contentsFrom]
    cases step version s first with
    | error e => rfl
    | ok next =>
      obtain ⟨s', here⟩ := next
      exact congrArg (fun c => c >>= fun behind => pure (here ++ behind)) (ih s')

/-- Behind its header, an export may have a line that says nothing. -/
theorem contentsOfLines_append_of_isIdle (h : isIdle line.text) {before : List Line}
    (hheader : ∃ header ∈ before, header.text ≠ []) (behind : List Line) :
    contentsOfLines (before ++ line :: behind) = contentsOfLines (before ++ behind) := by
  obtain ⟨header, hmem, hne⟩ := hheader
  obtain ⟨first, rest, hrest⟩ : ∃ first rest,
      before.dropWhile (·.text.isEmpty) = first :: rest := by
    refine List.exists_cons_of_ne_nil fun hnil => hne ?_
    have hall := List.dropWhile_eq_nil_iff.1 hnil header hmem
    exact List.isEmpty_iff.1 hall
  unfold contentsOfLines
  rw [dropWhile_isEmpty_append hrest, dropWhile_isEmpty_append hrest]
  dsimp only
  cases Version.ofHeader? first.text with
  | none => rfl
  | some version => exact contentsFrom_append_of_isIdle h .outside rest behind

end Run

/-- Is there a **gap** behind the physical lines? They do not break off inside of a logical line,
and the header of the export is among them. -/
structure IsGap (before : List Text) : Prop where
  whole : pendingAfter 1 none before = none
  header : ∃ line ∈ joinFrom 1 none before, line.text ≠ []

theorem IsGap.length_pos {before : List Text} (h : IsGap before) : 1 ≤ before.length := by
  obtain ⟨line, hmem, _⟩ := h.header
  have hnumber := number_of_mem_joinFrom_one hmem
  omega

/-- The logical lines of a text with one more line in a gap. -/
theorem IsGap.linesOf_eq {t : Text} {before behind : List Text} (h : IsGap before) {p : Text}
    (hp : SaysNothing p) (ht : physicalLines t = before ++ p :: behind) :
    linesOf t = joinFrom 1 none before ++ ⟨1 + before.length, Text.trim p⟩
      :: (joinFrom 1 none behind).map (Line.later (before.length + 1)) := by
  have hcontinues : (Line.mk (1 + before.length) (Text.trim p)).continues = false :=
    continues_eq_false (.inl (isIdle_trim_of_saysNothing hp))
  rw [linesOf, ht, joinFrom_append h.whole, joinFrom_cons hcontinues, Nat.add_assoc]
  exact congrArg (fun lines => _ ++ _ :: lines) (joinFrom_later (before.length + 1) 1 none behind)

/-- **Lines that say nothing** do not count: with one of them in a gap, an export has the same
entries or the same error, only that what is behind is one line further down. -/
theorem Contents.ofText_eq_of_saysNothing {t t' : Text} {before behind : List Text} {p : Text}
    (ht : physicalLines t = before ++ behind) (ht' : physicalLines t' = before ++ p :: behind)
    (hgap : IsGap before) (hp : SaysNothing p) :
    Contents.ofText t' = renumbered (movedBehind before.length 0 1) (Contents.ofText t) := by
  have hlines : linesOf t = joinFrom 1 none before
      ++ (joinFrom 1 none behind).map (Line.later (before.length + 0)) := by
    rw [linesOf, ht, joinFrom_append hgap.whole]
    exact congrArg _ (joinFrom_later before.length 1 none behind)
  rw [Contents.ofText, Contents.ofText, hgap.linesOf_eq hp ht',
    contentsOfLines_append_of_isIdle (isIdle_trim_of_saysNothing hp) hgap.header,
    ← contentsOfLines_renumber _ (movedBehind_of_le hgap.length_pos _ _), hlines, List.map_append,
    map_renumber_joinFrom, map_renumber_later_joinFrom]

/-- **Layout does not matter.** An export says the same whatever blanks are around its physical
lines, also if each line feed becomes a carriage return and a line feed. And with one more blank
line or comment in a gap it has the same entries or the same error, only that what is behind is one
line further down. -/
theorem Contents.ofText_layout :
    (∀ t t', List.Forall₂ Agree (physicalLines t) (physicalLines t') →
      Contents.ofText t' = Contents.ofText t)
    ∧ (∀ t, Contents.ofText (withCarriageReturns t) = Contents.ofText t)
    ∧ ∀ t t' before behind p, physicalLines t = before ++ behind →
      physicalLines t' = before ++ p :: behind → IsGap before → SaysNothing p →
      Contents.ofText t' = renumbered (movedBehind before.length 0 1) (Contents.ofText t) :=
  ⟨fun _ _ => ofText_eq_of_agree,
    fun t => ofText_eq_of_agree (agree_withCarriageReturns t),
    fun _ _ _ _ _ => ofText_eq_of_saysNothing⟩

/-- Lines in front of a gap, with a value that is broken over two of them. -/
def linesBeforeGap : List Text :=
  ["REGEDIT4".toList, "[HKCU\\a]".toList, "\"A\"=hex:0,\\".toList, "1".toList]

/-- A value without data. -/
def linesBehindGap : List Text :=
  ["\"B\"=".toList]

/-- A comment that looks as if it went on. -/
def commentInGap : Text :=
  "  ; \"C\"=hex:2,\\".toList

/-- The line between an ideographic space and a tabulator. -/
def indented (p : Text) : Text :=
  '\u3000' :: p ++ ['\t']

/-- A broken value and a fault stay what they are, between blanks and behind a comment. -/
theorem Contents.ofText_layout_brokenValue :
    List.Forall₂ Agree (physicalLines (textOfLines (linesBeforeGap ++ linesBehindGap)))
        (physicalLines (textOfLines ((linesBeforeGap ++ linesBehindGap).map indented)))
    ∧ Contents.ofText (textOfLines ((linesBeforeGap ++ linesBehindGap).map indented))
      = Contents.ofText (textOfLines (linesBeforeGap ++ linesBehindGap))
    ∧ IsGap linesBeforeGap ∧ SaysNothing commentInGap
    ∧ Contents.ofText (textOfLines (linesBeforeGap ++ commentInGap :: linesBehindGap))
      = renumbered (movedBehind 4 0 1)
        (Contents.ofText (textOfLines (linesBeforeGap ++ linesBehindGap))) := by
  have hlines : physicalLines (textOfLines ((linesBeforeGap ++ linesBehindGap).map indented))
      = (physicalLines (textOfLines (linesBeforeGap ++ linesBehindGap))).map indented := rfl
  have hagree : List.Forall₂ Agree (physicalLines (textOfLines (linesBeforeGap ++ linesBehindGap)))
      (physicalLines (textOfLines ((linesBeforeGap ++ linesBehindGap).map indented))) := by
    rw [hlines, List.forall₂_map_right_iff]
    refine List.forall₂_same.2 fun p _ => IsPadded.agree ⟨['\u3000'], ['\t'], rfl, ?_, ?_⟩
    · exact List.forall_mem_singleton.2 (by decide)
    · exact List.forall_mem_singleton.2 (by decide)
  have hgap : IsGap linesBeforeGap := ⟨rfl, ⟨1, "REGEDIT4".toList⟩, List.mem_cons_self, by decide⟩
  have hcomment : SaysNothing commentInGap := by
    rintro _ ⟨⟩
    rfl
  exact ⟨hagree, ofText_layout.1 _ _ hagree, hgap, hcomment,
    ofText_layout.2.2 _ _ _ _ _ rfl rfl hgap hcomment⟩

/-- The fault is one line further down. -/
example : Contents.ofText (textOfLines (linesBeforeGap ++ linesBehindGap))
      = .error (.exportSyntax 5 (.unrecognizedData []))
    ∧ Contents.ofText (textOfLines (linesBeforeGap ++ commentInGap :: linesBehindGap))
      = .error (.exportSyntax 6 (.unrecognizedData [])) :=
  ⟨rfl, rfl⟩

end InstallerRegistry.Export
