import InstallerRegistry.Export.Contents
import InstallerRegistry.Proofs.Text.Cutting
import Mathlib.Data.Finset.Max
import Mathlib.Data.List.Nodup

/-!
# Logical lines are made of physical ones

The logical lines of a text cut its physical lines into stretches, one behind the other and none
left out (`MakeUp`). The lines of a stretch are put together without the blanks around them, and
each time the text put together so far goes on, the backslash at its end is dropped
(`Accumulates`). Whether it goes on is a matter of this text alone: it ends with a backslash, and it
assigns data that starts with `hex` (`GoesOn`).

So a physical line belongs to the last logical line that starts at it or before it, and the next
one belongs there, too, exactly if what has been put together up to it goes on
(`linesOf_partition`). The backslash that is dropped is that of the physical line itself, unless
this is blank and has none: behind a line with two backslashes at its end, a blank line goes on, and
the other backslash is dropped there (`not_isConcatenation_blankLine`).
-/

namespace InstallerRegistry

namespace Export

/-! ## Putting physical lines together -/

/-- **Does a text go on** in the next physical line? It ends with a backslash, and it is an
assignment of data that starts with `hex`. -/
def GoesOn (t : Text) : Prop :=
  t.getLast? = some '\\' ∧ ∃ name data, assignment t = .ok (name, "hex".toList ++ data)

/-- Texts that **stand alone**: comments, section headers and assignments of strings. -/
def StandsAlone (t : Text) : Prop :=
  t.head? = some ';' ∨ t.head? = some '['
    ∨ ∃ name data, assignment t = .ok (name, '"' :: data)

/-- **What physical lines accumulate to**, one behind the other. Blanks around a line do not count,
and before a line is added, the text so far loses the backslash that says it goes on. -/
inductive Accumulates : List Text → Text → Prop
  | first (p : Text) : Accumulates [p] (Text.trim p)
  | next {own : List Text} {t : Text} (h : Accumulates own (t ++ ['\\']))
      (goesOn : GoesOn (t ++ ['\\'])) (p : Text) : Accumulates (own ++ [p]) (t ++ Text.trim p)

/-- **What is left of a text** behind which no line follows: the text itself, unless it goes on.
Then the backslash that says so is dropped here, too. -/
inductive Leaves : Text → Text → Prop
  | whole {t : Text} (ends : ¬ GoesOn t) : Leaves t t
  | brokenOff {t : Text} (goesOn : GoesOn (t ++ ['\\'])) : Leaves (t ++ ['\\']) t

/-- **Physical lines make up logical lines**: what the first stretch of them accumulates to leaves
the text of the first line, and so forth. Only what the last stretch accumulates to may go on. -/
inductive MakeUp : Nat → List Text → List Line → Prop
  | nil {first : Nat} : MakeUp first [] []
  | line {first : Nat} {own rest : List Text} {acc t : Text} {lines : List Line}
      (accumulates : Accumulates own acc) (leaves : Leaves acc t) (ends : rest ≠ [] → ¬ GoesOn acc)
      (behind : MakeUp (first + own.length) rest lines) :
      MakeUp first (own ++ rest) (⟨first, t⟩ :: lines)

/-! ### What goes on -/

/-- Data starts with `hex` if it does behind the blanks before it. -/
theorem startsWith_hex_iff (t : Text) :
    Text.startsWith "hex".toList (Text.trimStart t) ↔ ∃ data, Text.trim t = "hex".toList ++ data := by
  rw [Text.startsWith, Option.isSome_iff_exists]
  constructor
  · rintro ⟨rest, h⟩
    refine ⟨Text.dropEndWhile Text.isBlank rest, ?_⟩
    have hstart : t.dropWhile Text.isBlank = 'h' :: 'e' :: 'x' :: rest := Text.after?_eq_some_iff.1 h
    rw [Text.trim, Text.dropAround, hstart, Text.dropEndWhile_cons rfl, Text.dropEndWhile_cons rfl,
      Text.dropEndWhile_cons rfl]
    rfl
  · rintro ⟨data, h⟩
    obtain ⟨behind, hbehind⟩ := Text.dropEndWhile_isPrefix Text.isBlank (Text.trimStart t)
    refine ⟨data ++ behind, Text.after?_eq_some_iff.2 ?_⟩
    rw [← hbehind, ← List.append_assoc, ← h]
    rfl

theorem continues_iff_goesOn (line : Line) : line.continues ↔ GoesOn line.text := by
  rw [Line.continues, Bool.and_eq_true, GoesOn]
  refine and_congr beq_iff_eq ?_
  unfold assignsHex assignment
  cases valueName? line.text with
  | none => exact iff_of_false Bool.false_ne_true (by rintro ⟨_, _, ⟨⟩⟩)
  | some found =>
    obtain ⟨name, rest⟩ := found
    dsimp only
    cases assigned? rest with
    | none => exact iff_of_false Bool.false_ne_true (by rintro ⟨_, _, ⟨⟩⟩)
    | some data =>
      dsimp only
      rw [startsWith_hex_iff]
      constructor
      · rintro ⟨data', h⟩
        exact ⟨name, data', by rw [h]⟩
      · rintro ⟨_, data', h⟩
        exact ⟨data', (Prod.mk.inj (Except.ok.inj h)).2⟩

/-- What stands alone does not go on. -/
theorem GoesOn.not_standsAlone {t : Text} (h : GoesOn t) : ¬ StandsAlone t := by
  obtain ⟨_, name, data, hassign⟩ := h
  rintro (hcomment | hheader | ⟨name', data', hstring⟩)
  · obtain ⟨rest, rfl⟩ := List.head?_eq_some_iff.1 hcomment
    exact absurd hassign nofun
  · obtain ⟨rest, rfl⟩ := List.head?_eq_some_iff.1 hheader
    exact absurd hassign nofun
  · have hdata := (Prod.mk.inj (Except.ok.inj (hassign.symm.trans hstring))).2
    exact absurd (List.cons.inj hdata).1 (by decide)

/-! ### What accumulates -/

theorem Accumulates.length_pos {own : List Text} {t : Text} (h : Accumulates own t) :
    0 < own.length := by
  cases h <;> simp

/-- What some but not all of the lines accumulate to goes on. -/
theorem Accumulates.take {own : List Text} {t : Text} (h : Accumulates own t) {j : Nat}
    (hj : 0 < j) (hlength : j < own.length) :
    ∃ acc, Accumulates (own.take j) acc ∧ GoesOn acc := by
  induction h with
  | first p => exact absurd hlength (by rw [List.length_singleton]; omega)
  | @next own t haccumulates goesOn p ih =>
    rw [List.length_append, List.length_singleton] at hlength
    rw [List.take_append_of_le_length (by omega)]
    obtain hlast | hbefore : j = own.length ∨ j < own.length := by omega
    · exact ⟨_, by rwa [hlast, List.take_length], goesOn⟩
    · exact ih hbefore

/-- If a text goes on behind a line that is not blank, the backslash is that of the line itself. -/
theorem Accumulates.getLast?_of_goesOn {own : List Text} {acc p : Text} (h : Accumulates own acc)
    (goesOn : GoesOn acc) (hp : p ∈ own.getLast?) (hblank : Text.trim p ≠ []) :
    (Text.trim p).getLast? = some '\\' := by
  cases h with
  | first q =>
    obtain rfl : q = p := Option.some.inj hp
    exact goesOn.1
  | next _ _ q =>
    obtain rfl : q = p := by simpa using hp
    have hlast := goesOn.1
    rwa [List.getLast?_append_of_ne_nil _ hblank] at hlast

/-! ## What lines are joined to -/

/-- The line that is pending behind some physical lines, the first of which has the number `first`:
none if they are none, and else one that goes on, already without its backslash. -/
inductive Pending (first : Nat) : List Text → Option Line → Prop
  | none : Pending first [] none
  | some {own : List Text} {t : Text} (accumulates : Accumulates own (t ++ ['\\']))
      (goesOn : GoesOn (t ++ ['\\'])) : Pending first own (some ⟨first, t⟩)

/-- One more physical line behind the pending one. -/
theorem Pending.extend {first : Nat} {own : List Text} {pending : Option Line}
    (h : Pending first own pending) (p : Text) :
    ∃ acc, (pending.getD ⟨first + own.length, []⟩).extend p = ⟨first, acc⟩
      ∧ Accumulates (own ++ [p]) acc := by
  cases h with
  | none => exact ⟨Text.trim p, rfl, .first p⟩
  | some haccumulates goesOn => exact ⟨_, rfl, .next haccumulates goesOn p⟩

/-- **Joining** physical lines behind a pending line: together with the lines that are pending, they
make up the lines that it gives. -/
theorem makeUp_joinFrom {first : Nat} {own : List Text} {pending : Option Line}
    (h : Pending first own pending) (physical : List Text) :
    MakeUp first (own ++ physical) (joinFrom (first + own.length) pending physical) := by
  induction physical generalizing first own pending with
  | nil =>
    cases h with
    | none => exact .nil
    | some haccumulates goesOn =>
      exact .line haccumulates (.brokenOff goesOn) (absurd rfl) .nil
  | cons p physical ih =>
    obtain ⟨acc, hline, haccumulates⟩ := h.extend p
    have hlength : first + (own ++ [p]).length = first + own.length + 1 := by simp [Nat.add_assoc]
    rw [joinFrom, hline, List.append_cons]
    split
    next hcontinues =>
      have goesOn : GoesOn acc := (continues_iff_goesOn _).1 hcontinues
      obtain ⟨t, rfl⟩ := List.getLast?_eq_some_iff.1 goesOn.1
      have hdrop : Line.dropMark ⟨first, t ++ ['\\']⟩ = ⟨first, t⟩ := by simp [Line.dropMark]
      rw [hdrop, ← hlength]
      exact ih (.some haccumulates goesOn)
    next hcontinues =>
      have hends : ¬ GoesOn acc := fun goesOn => hcontinues ((continues_iff_goesOn _).2 goesOn)
      rw [← hlength]
      exact .line haccumulates (.whole hends) (fun _ => hends) (ih .none)

/-- Behind no pending line, it is the physical lines alone that make up the lines. -/
theorem makeUp_joinFrom_none (first : Nat) (physical : List Text) :
    MakeUp first physical (joinFrom first none physical) :=
  makeUp_joinFrom .none physical

/-! ## Where lines start -/

section Numbers

variable {first : Nat} {physical : List Text} {lines : List Line}

/-- The first line starts where the physical lines start. -/
theorem MakeUp.exists_eq_cons (h : MakeUp first physical lines) (hne : physical ≠ []) :
    ∃ t rest, lines = ⟨first, t⟩ :: rest := by
  cases h with
  | nil => exact absurd rfl hne
  | line => exact ⟨_, _, rfl⟩

/-- Lines start at physical lines. -/
theorem MakeUp.number_bounds (h : MakeUp first physical lines) {line : Line}
    (hline : line ∈ lines) : first ≤ line.number ∧ line.number < first + physical.length := by
  induction h with
  | nil => exact absurd hline List.not_mem_nil
  | line haccumulates _ _ _ ih =>
    have hpos := haccumulates.length_pos
    rw [List.length_append]
    rcases List.mem_cons.1 hline with rfl | hline
    · dsimp only
      omega
    · have := ih hline
      omega

/-- Each line starts behind the lines before it. -/
theorem MakeUp.pairwise_number (h : MakeUp first physical lines) :
    lines.Pairwise fun line other => line.number < other.number := by
  induction h with
  | nil => exact .nil
  | line haccumulates _ _ hbehind ih =>
    refine .cons (fun other hother => ?_) ih
    have hpos := haccumulates.length_pos
    have := (hbehind.number_bounds hother).1
    dsimp only
    omega

/-- **Where a line stands** among the lines that are made up together with it: `own` are its own
physical lines, and `before` and `behind` are those of the others. -/
structure StandsAt (first : Nat) (lines : List Line) (line : Line)
    (before own behind : List Text) : Prop where
  number_eq : line.number = first + before.length
  text : ∃ acc, Accumulates own acc ∧ Leaves acc line.text ∧ (behind ≠ [] → ¬ GoesOn acc)
  apart : ∀ other ∈ lines,
    other.number ≤ line.number ∨ line.number + own.length ≤ other.number
  next : behind ≠ [] → ∃ other ∈ lines, other.number = line.number + own.length

/-- A line stands where it did if more lines are put before it. -/
theorem StandsAt.cons {line other : Line} {front before own behind : List Text}
    (h : StandsAt (first + front.length) lines line before own behind)
    (hother : other.number = first) :
    StandsAt first (other :: lines) line (front ++ before) own behind where
  number_eq := by rw [h.number_eq, List.length_append, Nat.add_assoc]
  text := h.text
  apart := by
    refine List.forall_mem_cons.2 ⟨.inl ?_, h.apart⟩
    rw [h.number_eq]
    omega
  next hne := by
    obtain ⟨other, hmem, hnumber⟩ := h.next hne
    exact ⟨other, List.mem_cons_of_mem _ hmem, hnumber⟩

theorem MakeUp.exists_standsAt (h : MakeUp first physical lines) {line : Line}
    (hline : line ∈ lines) :
    ∃ before own behind, physical = before ++ own ++ behind
      ∧ StandsAt first lines line before own behind := by
  induction h with
  | nil => exact absurd hline List.not_mem_nil
  | @line first own rest acc t lines haccumulates hleaves hends hbehind ih =>
    rcases List.mem_cons.1 hline with rfl | hline
    · refine ⟨[], own, rest, rfl, rfl, ⟨acc, haccumulates, hleaves, hends⟩, ?_, fun hne => ?_⟩
      · exact List.forall_mem_cons.2
          ⟨.inl le_rfl, fun other hother => .inr (hbehind.number_bounds hother).1⟩
      · obtain ⟨t', lines', rfl⟩ := hbehind.exists_eq_cons hne
        exact ⟨_, List.mem_cons_of_mem _ List.mem_cons_self, rfl⟩
    · obtain ⟨before, own', behind, rfl, hstands⟩ := ih hline
      exact ⟨own ++ before, own', behind, by simp only [List.append_assoc], hstands.cons rfl⟩

end Numbers

/-! ## Which physical lines belong to a line -/

/-- The physical line `n` **belongs to** a line: of the lines that start at it or before it, this one
starts last. -/
structure BelongsTo (physical : List Text) (lines : List Line) (n : Nat) (line : Line) : Prop where
  mem : line ∈ lines
  le_length : n ≤ physical.length
  number_le : line.number ≤ n
  last : ∀ other ∈ lines, other.number ≤ n → other.number ≤ line.number

/-- The physical lines from the start of a line to the one with the number `n`. -/
def stretch (physical : List Text) (line : Line) (n : Nat) : List Text :=
  (physical.take n).drop (line.number - 1)

/-- The physical lines of a line are **joined up to** the one with the number `n`, and `acc` is what
they accumulate to. -/
structure JoinedUpTo (physical : List Text) (lines : List Line) (n : Nat) (line : Line)
    (acc : Text) : Prop where
  accumulates : Accumulates (stretch physical line n) acc
  /-- The next physical line belongs to the same line exactly if the text so far goes on. -/
  next : BelongsTo physical lines (n + 1) line ↔ n < physical.length ∧ GoesOn acc
  /-- If it does not belong there, nothing follows. -/
  leaves : ¬ BelongsTo physical lines (n + 1) line → Leaves acc line.text
  /-- A backslash that is dropped is that of the physical line itself, unless this is blank. -/
  mark : GoesOn acc → ∀ p ∈ (stretch physical line n).getLast?, Text.trim p ≠ [] →
    (Text.trim p).getLast? = some '\\'
  /-- Nothing is joined to a comment, a section header or a string. -/
  alone : BelongsTo physical lines (n + 1) line → ¬ StandsAlone acc

/-- **Lines partition physical lines**, which count from one. -/
structure IsPartition (physical : List Text) (lines : List Line) : Prop where
  /-- Each line starts behind the one before it. -/
  increasing : lines.Pairwise fun line other => line.number < other.number
  /-- The first line starts at the first physical line. -/
  head : physical ≠ [] → ∃ t rest, lines = ⟨1, t⟩ :: rest
  /-- Every line has the physical line that it starts at. -/
  start : ∀ line ∈ lines, 1 ≤ line.number ∧ BelongsTo physical lines line.number line
  /-- Every physical line belongs to exactly one line. -/
  owner : ∀ n, 1 ≤ n → n ≤ physical.length → ∃! line, BelongsTo physical lines n line
  /-- A line is what its physical lines are joined to. -/
  joined : ∀ n line, BelongsTo physical lines n line →
    ∃ acc, JoinedUpTo physical lines n line acc

section Belonging

variable {physical : List Text} {lines : List Line} {line : Line}

/-- The physical lines that belong to a line are those of its stretch. -/
theorem StandsAt.belongsTo_iff {before own behind : List Text} (hmem : line ∈ lines)
    (h : StandsAt 1 lines line before own behind) (n : Nat) :
    BelongsTo (before ++ own ++ behind) lines n line
      ↔ line.number ≤ n ∧ n < line.number + own.length := by
  have hnumber := h.number_eq
  have hpos : 0 < own.length := by
    obtain ⟨_, haccumulates, _⟩ := h.text
    exact haccumulates.length_pos
  have hlength : (before ++ own ++ behind).length
      = before.length + own.length + behind.length := by simp [Nat.add_assoc]
  constructor
  · intro hn
    refine ⟨hn.number_le, Nat.lt_of_not_le fun hle => ?_⟩
    have hbehind : behind ≠ [] := by
      rintro rfl
      have := hn.le_length
      rw [hlength, List.length_nil] at this
      omega
    obtain ⟨other, hother, hnext⟩ := h.next hbehind
    have := hn.last other hother (by omega)
    omega
  · rintro ⟨hle, hlt⟩
    refine ⟨hmem, by omega, hle, fun other hother hn => ?_⟩
    rcases h.apart other hother with hbefore | hbehind <;> omega

/-- A stretch of the physical lines is a stretch of the line's own ones. -/
theorem StandsAt.stretch_eq {before own behind : List Text}
    (h : StandsAt 1 lines line before own behind) {n : Nat} (hle : line.number ≤ n)
    (hlt : n < line.number + own.length) :
    stretch (before ++ own ++ behind) line n = own.take (n + 1 - line.number) := by
  have hnumber := h.number_eq
  obtain ⟨j, rfl⟩ : ∃ j, n = before.length + j := ⟨n - before.length, by omega⟩
  have hstart : line.number - 1 = before.length := by omega
  have hcount : before.length + j + 1 - line.number = j := by omega
  rw [stretch, hstart, hcount, List.append_assoc, List.take_length_add_append,
    List.drop_left, List.take_append_of_le_length (by omega)]

/-- What the physical lines of a line accumulate to goes on up to the last of them, and there it
leaves the text of the line. -/
theorem StandsAt.exists_accumulates {before own behind : List Text} (hmem : line ∈ lines)
    (h : StandsAt 1 lines line before own behind) {n : Nat} (hle : line.number ≤ n)
    (hlt : n < line.number + own.length) :
    ∃ acc, Accumulates (stretch (before ++ own ++ behind) line n) acc
      ∧ (BelongsTo (before ++ own ++ behind) lines (n + 1) line
          ↔ n < (before ++ own ++ behind).length ∧ GoesOn acc)
      ∧ (¬ BelongsTo (before ++ own ++ behind) lines (n + 1) line → Leaves acc line.text) := by
  have hnumber := h.number_eq
  have hlength : (before ++ own ++ behind).length
      = before.length + own.length + behind.length := by simp only [List.length_append]
  obtain ⟨acc, haccumulates, hleaves, hends⟩ := h.text
  rw [h.stretch_eq hle hlt, h.belongsTo_iff hmem, hlength]
  obtain hinner | hlast : n + 1 < line.number + own.length ∨ n + 1 = line.number + own.length := by
    omega
  · obtain ⟨inner, hinnerAcc, goesOn⟩ :=
      haccumulates.take (j := n + 1 - line.number) (by omega) (by omega)
    have hnext : line.number ≤ n + 1 ∧ n + 1 < line.number + own.length := ⟨by omega, hinner⟩
    exact ⟨inner, hinnerAcc, iff_of_true hnext ⟨by omega, goesOn⟩, (absurd hnext ·)⟩
  · have hall : n + 1 - line.number = own.length := by omega
    rw [hall, List.take_length]
    refine ⟨acc, haccumulates, iff_of_false (by omega) ?_, fun _ => hleaves⟩
    rintro ⟨hbehind, goesOn⟩
    exact hends (List.length_pos_iff.1 (by omega)) goesOn

/-- Of the lines that start at a physical line or before it, one starts last. -/
theorem exists_belongsTo {n : Nat} (hmem : line ∈ lines) (hle : line.number ≤ n)
    (hlength : n ≤ physical.length) : ∃ owner, BelongsTo physical lines n owner := by
  have hne : (lines.toFinset.filter (·.number ≤ n)).Nonempty :=
    ⟨line, Finset.mem_filter.2 ⟨List.mem_toFinset.2 hmem, hle⟩⟩
  obtain ⟨owner, howner, hlast⟩ := Finset.exists_max_image _ Line.number hne
  rw [Finset.mem_filter, List.mem_toFinset] at howner
  refine ⟨owner, howner.1, hlength, howner.2, fun other hother hn => ?_⟩
  exact hlast other (Finset.mem_filter.2 ⟨List.mem_toFinset.2 hother, hn⟩)

end Belonging

/-- **Lines that are made up of physical lines partition them.** -/
theorem MakeUp.isPartition {physical : List Text} {lines : List Line}
    (h : MakeUp 1 physical lines) : IsPartition physical lines where
  increasing := h.pairwise_number
  head := h.exists_eq_cons
  start line hline := by
    have hbounds := h.number_bounds hline
    exact ⟨hbounds.1, hline, by omega, le_rfl, fun _ _ hle => hle⟩
  owner n hpos hlength := by
    obtain ⟨t, rest, rfl⟩ := h.exists_eq_cons (List.ne_nil_of_length_pos (by omega))
    have hfirst : (⟨1, t⟩ : Line) ∈ ⟨1, t⟩ :: rest := List.mem_cons_self
    obtain ⟨owner, howner⟩ := exists_belongsTo hfirst hpos hlength
    have hnodup := List.pairwise_map.2 (h.pairwise_number.imp Nat.ne_of_lt)
    refine ⟨owner, howner, fun other hother => ?_⟩
    exact List.inj_on_of_nodup_map hnodup hother.mem howner.mem
      (le_antisymm (howner.last other hother.mem hother.number_le)
        (hother.last owner howner.mem howner.number_le))
  joined n line hline := by
    obtain ⟨before, own, behind, rfl, hstands⟩ := h.exists_standsAt hline.mem
    obtain ⟨hle, hlt⟩ := (hstands.belongsTo_iff hline.mem n).1 hline
    obtain ⟨acc, haccumulates, hnext, hleaves⟩ := hstands.exists_accumulates hline.mem hle hlt
    exact ⟨acc, haccumulates, hnext, hleaves,
      fun goesOn _ hp hblank => haccumulates.getLast?_of_goesOn goesOn hp hblank,
      fun hline => (hnext.1 hline).2.not_standsAlone⟩

/-- **The logical lines of a text partition its physical lines**, and two physical lines are joined
exactly if what has been put together up to the first of them goes on. -/
theorem linesOf_partition (t : Text) : IsPartition (physicalLines t) (linesOf t) :=
  (makeUp_joinFrom_none 1 (physicalLines t)).isPartition

/-! ## Blank lines -/

/-- A physical line without the blanks around it, and without a backslash at its end. -/
def withoutMark (p : Text) : Text :=
  if (Text.trim p).getLast? = some '\\' then (Text.trim p).dropLast else Text.trim p

/-- Is a text the **concatenation** of physical lines, each but the last without the backslash at its
own end? If the text breaks off, the last is without it, too. -/
def IsConcatenation (own : List Text) (t : Text) : Prop :=
  t = own.dropLast.flatMap withoutMark ++ own.getLast?.elim [] Text.trim
    ∨ t = own.flatMap withoutMark

/-- A blank line behind a line that ends with two backslashes. -/
def blankLineExport : Text :=
  "REGEDIT4\n[HKCU\\k]\n\"a\"=hex:00,\\\\\n\n01\n".toList

/-- **A blank line goes on without a backslash of its own**, and takes that of the line before it: the
text of a line is not always the concatenation of its physical lines. -/
theorem not_isConcatenation_blankLine :
    ¬ ∀ n line, BelongsTo (physicalLines blankLineExport) (linesOf blankLineExport) n line →
      ¬ BelongsTo (physicalLines blankLineExport) (linesOf blankLineExport) (n + 1) line →
        IsConcatenation (stretch (physicalLines blankLineExport) line n) line.text := by
  have hphysical : physicalLines blankLineExport
      = ["REGEDIT4".toList, "[HKCU\\k]".toList, "\"a\"=hex:00,\\\\".toList, [], "01".toList] := by
    decide
  have hlines : linesOf blankLineExport
      = [⟨1, "REGEDIT4".toList⟩, ⟨2, "[HKCU\\k]".toList⟩, ⟨3, "\"a\"=hex:00,01".toList⟩] := by
    decide
  have hlast : BelongsTo (physicalLines blankLineExport) (linesOf blankLineExport) 5
      ⟨3, "\"a\"=hex:00,01".toList⟩ := by
    rw [hphysical, hlines]
    exact ⟨by simp, by decide, by decide, by simp⟩
  intro h
  have hconcat := h 5 _ hlast fun hnext => absurd hnext.le_length (by rw [hphysical]; decide)
  rw [hphysical] at hconcat
  rcases hconcat with hwhole | hbrokenOff
  · exact absurd hwhole (by decide)
  · exact absurd hbrokenOff (by decide)

end Export

end InstallerRegistry
