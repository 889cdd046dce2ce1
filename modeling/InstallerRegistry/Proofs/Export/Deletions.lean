import InstallerRegistry.Proofs.Export.LogicalLines
import InstallerRegistry.Proofs.Export.Sections

/-!
# Deleted sections

What stands in a section that deletes its key is never looked at, so it need not even be
well-formed. A run that has come to the header of such a section is in `Section.deleted`, whatever
is before it (`Section.IsOf.eq_deleted`), and there it passes over every line up to the next header
(`contentsFrom_deleted_append`).

For texts this means that other physical lines may stand in the place of those of the section
(`IsDeleted`): all that changes is how far down the lines behind them are
(`Contents.ofText_eq_of_isDeleted`). The last theorem puts this together with what the entries
outside of such sections are.
-/

namespace InstallerRegistry.Export

/-! ## Runs -/

section Run

variable {version : Version} {s : Section} {before lines inside : List Line}

/-- What stands in a section that deletes its key is not looked at. -/
theorem contentsFrom_deleted_append (h : ∀ line ∈ inside, line.isHeader = false)
    (behind : List Line) :
    contentsFrom version .deleted (inside ++ behind) = contentsFrom version .deleted behind := by
  induction inside with
  | nil => rfl
  | cons line inside ih =>
    obtain ⟨hline, hinside⟩ := List.forall_mem_cons.1 h
    have hstep : step version .deleted line = .ok (.deleted, {}) := by
      unfold step
      rw [← Line.isHeader, hline]
      split <;> rfl
    rw [List.cons_append, contentsFrom_cons hstep, ih hinside]
    cases contentsFrom version .deleted behind <;> rfl

/-- **A run through a deletion**: what it says does not depend on the lines behind a header that
deletes its key. -/
theorem contentsFrom_append_of_deletesKey (hs : s.IsOf (headerOf? before))
    (hdeletes : (headerOf? (before ++ lines)).any Line.deletesKey)
    (hinside : ∀ line ∈ inside, line.isHeader = false) (behind : List Line) :
    contentsFrom version s (lines ++ (inside ++ behind))
      = contentsFrom version s (lines ++ behind) := by
  induction lines generalizing s before with
  | nil =>
    rw [List.append_nil] at hdeletes
    rw [hs.eq_deleted hdeletes]
    exact contentsFrom_deleted_append hinside behind
  | cons line rest ih =>
    rw [List.cons_append, List.cons_append, contentsFrom, contentsFrom]
    cases hstep : step version s line with
    | error e => rfl
    | ok next =>
      obtain ⟨s', here⟩ := next
      rw [List.append_cons] at hdeletes
      have hrest := ih (isOf_of_step hs hstep).1 hdeletes
      exact congrArg (fun c => c >>= fun behind => pure (here ++ behind)) hrest

end Run

/-! ## Lines of an export -/

/-- The header of an export starts no section. -/
theorem isHeader_eq_false_of_version {line : Line} {version : Version}
    (h : Version.ofHeader? line.text = some version) : line.isHeader = false := by
  rw [Line.isHeader, ← Version.header_eq_of_ofHeader? h]
  cases version <;> rfl

/-- More lines behind others do not change which one is the first that is not blank. -/
theorem dropWhile_isEmpty_append {before rest : List Line} {first : Line}
    (h : before.dropWhile (·.text.isEmpty) = first :: rest) (behind : List Line) :
    (before ++ behind).dropWhile (·.text.isEmpty) = first :: (rest ++ behind) := by
  rw [List.dropWhile_append, h]
  rfl

/-- Lines behind a header that deletes its key do not count, whatever is before it. -/
theorem contentsOfLines_append_of_deletesKey {before inside : List Line}
    (hdeletes : (headerOf? before).any Line.deletesKey)
    (hinside : ∀ line ∈ inside, line.isHeader = false) (behind : List Line) :
    contentsOfLines (before ++ (inside ++ behind)) = contentsOfLines (before ++ behind) := by
  have hblank : headerOf? (before.takeWhile (·.text.isEmpty)) = none := by
    refine headerOf?_eq_none fun line hline => isHeader_eq_false_of_isIdle ?_
    have hempty := List.mem_takeWhile_imp hline
    rw [isIdle, hempty]
    rfl
  have hbefore : before.takeWhile (·.text.isEmpty) ++ before.dropWhile (·.text.isEmpty) = before :=
    List.takeWhile_append_dropWhile
  unfold contentsOfLines
  cases hrest : before.dropWhile (·.text.isEmpty) with
  | nil =>
    rw [hrest, List.append_nil] at hbefore
    rw [← hbefore, hblank] at hdeletes
    exact absurd hdeletes Bool.false_ne_true
  | cons line rest =>
    rw [dropWhile_isEmpty_append hrest, dropWhile_isEmpty_append hrest]
    dsimp only
    cases hversion : Version.ofHeader? line.text with
    | none => rfl
    | some version =>
      -- neither the blank lines nor the header of the export are a section header
      have hline : headerOf? [line] = none :=
        headerOf?_eq_none (List.forall_mem_singleton.2 (isHeader_eq_false_of_version hversion))
      have hcons : headerOf? (line :: rest) = headerOf? rest := by
        rw [← List.singleton_append, headerOf?_append, hline, Option.or_none]
      have hnearest : headerOf? before = headerOf? ([] ++ rest) := by
        rw [← hbefore, hrest, headerOf?_append, hblank, Option.or_none, hcons]
        rfl
      have hstart : Section.outside.IsOf (headerOf? []) := rfl
      rw [hnearest] at hdeletes
      exact contentsFrom_append_of_deletesKey hstart hdeletes hinside behind

/-- Logical lines are counted along with the physical ones. -/
theorem number_of_mem_joinFrom_one {physical : List Text} {line : Line}
    (h : line ∈ joinFrom 1 none physical) : 1 ≤ line.number ∧ line.number ≤ physical.length := by
  have hnumber := (makeUp_joinFrom_none 1 physical).number_bounds h
  omega

/-- Do the physical lines `inside` stand in a section that deletes its key? The nearest header in
the lines before them does, they start no section, and the lines around them do not run into
them. -/
structure IsDeleted (before inside behind : List Text) : Prop where
  deletesKey : (headerOf? (joinFrom 1 none before)).any Line.deletesKey
  noHeader : ∀ line ∈ joinFrom 1 none inside, line.isHeader = false
  wholeBefore : pendingAfter 1 none before = none
  whole : behind = [] ∨ pendingAfter 1 none inside = none

/-- The number of a line once `k'` lines stand in the place of the `k` lines behind the first
`n`. -/
def movedBehind (n k k' line : Nat) : Nat :=
  if line ≤ n then line else line - k + k'

theorem movedBehind_of_le {n line : Nat} (h : line ≤ n) (k k' : Nat) :
    movedBehind n k k' line = line :=
  if_pos h

theorem movedBehind_add {line : Nat} (h : 1 ≤ line) (n k k' : Nat) :
    movedBehind n k k' (line + (n + k)) = line + (n + k') := by
  have hbehind : ¬ line + (n + k) ≤ n := by omega
  rw [movedBehind, if_neg hbehind]
  omega

/-- Lines before a place are not moved. -/
theorem map_renumber_joinFrom (before : List Text) (k k' : Nat) :
    (joinFrom 1 none before).map (Line.renumber (movedBehind before.length k k'))
      = joinFrom 1 none before := by
  refine (List.map_congr_left fun line hline => ?_).trans (List.map_id _)
  exact congrArg (Line.mk · line.text)
    (movedBehind_of_le (number_of_mem_joinFrom_one hline).2 k k')

/-- Lines behind a place are moved with it. -/
theorem map_renumber_later_joinFrom (behind : List Text) (n k k' : Nat) :
    ((joinFrom 1 none behind).map (Line.later (n + k))).map (Line.renumber (movedBehind n k k'))
      = (joinFrom 1 none behind).map (Line.later (n + k')) := by
  rw [List.map_map]
  refine List.map_congr_left fun line hline => ?_
  exact congrArg (Line.mk · line.text)
    (movedBehind_add (number_of_mem_joinFrom_one hline).1 n k k')

theorem IsDeleted.exists_linesOf {t : Text} {before inside behind : List Text}
    (h : IsDeleted before inside behind) (ht : physicalLines t = before ++ inside ++ behind) :
    ∃ deleted, (∀ line ∈ deleted, line.isHeader = false)
      ∧ linesOf t = joinFrom 1 none before ++ (deleted
        ++ (joinFrom 1 none behind).map (Line.later (before.length + inside.length))) := by
  have hinside := joinFrom_later before.length 1 none inside
  have hbehind := joinFrom_later (before.length + inside.length) 1 none behind
  refine ⟨(joinFrom 1 none inside).map (Line.later before.length), ?_, ?_⟩
  · intro line hline
    obtain ⟨alone, halone, rfl⟩ := List.mem_map.1 hline
    exact h.noHeader alone halone
  · rw [linesOf, ht, List.append_assoc, joinFrom_append h.wholeBefore, ← hbehind, ← hinside]
    refine congrArg _ ?_
    rcases h.whole with rfl | hwhole
    · rw [List.append_nil]
      exact (List.append_nil _).symm
    · have hpending : pendingAfter (1 + before.length) none inside = none := by
        have hlater := pendingAfter_later before.length 1 none inside
        rwa [hwhole] at hlater
      rw [joinFrom_append hpending, Nat.add_assoc]
      rfl

/-- **What stands in a deleted section** cannot be told from what is read: with other lines in its
place, an export has the same entries or the same error, only that what is behind is at another
line. -/
theorem Contents.ofText_eq_of_isDeleted {t t' : Text} {before inside inside' behind : List Text}
    (ht : physicalLines t = before ++ inside ++ behind)
    (ht' : physicalLines t' = before ++ inside' ++ behind)
    (h : IsDeleted before inside behind) (h' : IsDeleted before inside' behind) :
    Contents.ofText t'
      = renumbered (movedBehind before.length inside.length inside'.length)
        (Contents.ofText t) := by
  obtain ⟨deleted, hdeleted, hlines⟩ := h.exists_linesOf ht
  obtain ⟨deleted', hdeleted', hlines'⟩ := h'.exists_linesOf ht'
  have hfirst : 1 ≤ before.length := by
    cases before with
    | nil => exact absurd h.deletesKey Bool.false_ne_true
    | cons p before => exact Nat.succ_pos _
  rw [Contents.ofText, Contents.ofText, hlines, hlines',
    contentsOfLines_append_of_deletesKey h.deletesKey hdeleted,
    contentsOfLines_append_of_deletesKey h.deletesKey hdeleted',
    ← contentsOfLines_renumber _ (movedBehind_of_le hfirst _ _), List.map_append,
    map_renumber_joinFrom, map_renumber_later_joinFrom]

/-- **Values belong to their own section, and deleted sections are inert.** Behind its header, the
entries of an export are those of its written lines, each once and in their order, under the hive
and the key of the nearest section header. And whatever stands in a section that deletes its key,
other lines in its place change nothing but the numbers of the lines behind. -/
theorem Contents.ofText_sections :
    (∀ t c, Contents.ofText t = .ok c →
      ∃ version blank header body, linesOf t = blank ++ header :: body
        ∧ (∀ line ∈ blank, line.text = []) ∧ header.text = version.header
        ∧ List.Forall₂ (Gives version) ((placedFrom [] body).filter isWritten) c.entries)
    ∧ ∀ t t' before inside inside' behind, physicalLines t = before ++ inside ++ behind →
      physicalLines t' = before ++ inside' ++ behind → IsDeleted before inside behind →
      IsDeleted before inside' behind →
      Contents.ofText t'
        = renumbered (movedBehind before.length inside.length inside'.length)
          (Contents.ofText t) :=
  ⟨fun _ _ => forall₂_gives_of_ofText, fun _ _ _ _ _ _ => ofText_eq_of_isDeleted⟩

/-- Lines that end with the header of a deleted key. -/
def linesBeforeDeleted : List Text :=
  ["REGEDIT4".toList, "[HKCU\\a]".toList, "\"A\"=\"1\"".toList, "\"B\"=-".toList,
    "[-HKCU\\b]".toList]

/-- A value without data. -/
def linesDeleted : List Text :=
  ["\"C\"=".toList]

/-- Lines that are no values, and a value that is broken over two of them. -/
def otherLinesDeleted : List Text :=
  ["?".toList, "\"D\"=hex:0,\\".toList, "[ ".toList, "; \\".toList]

/-- The section of a whole hive. -/
def linesBehindDeleted : List Text :=
  ["[HKLM]".toList, "@=\"2\"".toList]

/-- The export in whose deleted section `inside` stands. -/
def withDeleted (inside : List Text) : Text :=
  (linesBeforeDeleted ++ inside ++ linesBehindDeleted).flatMap (· ++ ['\n'])

/-- Malformed lines in a deleted section give nothing, and neither do other ones. -/
theorem Contents.ofText_sections_malformedLines :
    (∃ c, Contents.ofText (withDeleted linesDeleted) = .ok c
      ∧ ∃ version blank header body, linesOf (withDeleted linesDeleted) = blank ++ header :: body
        ∧ (∀ line ∈ blank, line.text = []) ∧ header.text = version.header
        ∧ List.Forall₂ (Gives version) ((placedFrom [] body).filter isWritten) c.entries)
    ∧ IsDeleted linesBeforeDeleted linesDeleted linesBehindDeleted
    ∧ IsDeleted linesBeforeDeleted otherLinesDeleted linesBehindDeleted
    ∧ Contents.ofText (withDeleted otherLinesDeleted)
      = renumbered (movedBehind 5 1 4) (Contents.ofText (withDeleted linesDeleted)) := by
  have hdeleted : IsDeleted linesBeforeDeleted linesDeleted linesBehindDeleted :=
    ⟨rfl, by decide, rfl, .inr rfl⟩
  have hother : IsDeleted linesBeforeDeleted otherLinesDeleted linesBehindDeleted :=
    ⟨rfl, by decide, rfl, .inr rfl⟩
  have hread : ∃ c, Contents.ofText (withDeleted linesDeleted) = .ok c := ⟨_, rfl⟩
  obtain ⟨c, hc⟩ := hread
  exact ⟨⟨c, hc, ofText_sections.1 _ c hc⟩, hdeleted, hother,
    ofText_sections.2 _ _ _ _ _ _ rfl rfl hdeleted hother⟩

/-- The values around the deleted section are those of their own sections. -/
example : Contents.ofText (withDeleted otherLinesDeleted)
    = .ok
      { entries := [{ key := ['a'], name := ['A'], value := some (.text ['1']) },
          { hive := .localMachine, name := [], value := some (.text ['2']) }]
        notices := [.deletedValue 4 .currentUser ['a'] ['B'],
          .deletedKey 5 "HKCU\\b".toList] } :=
  rfl

end InstallerRegistry.Export
