import InstallerRegistry.Proofs.Export.Writer
import InstallerRegistry.Proofs.Text.Cutting
import InstallerRegistry.Proofs.Text.Hex

/-!
# Lines that a writer has broken

A reader sees physical lines and has to find the logical ones. This module follows it through what
`Layout` writes: a line that is not broken is a logical line of its own (`joinFrom_line`), and a
line that assigns bytes is one logical line however it is broken (`joinFrom_pairs`).

Both are stated for a physical line in the middle of a text: behind a pending line or none, and
with any lines after it.
-/

namespace InstallerRegistry.Export

/-! ## Physical lines -/

theorem physicalLines_append {a : Text} (h : '\n' ∉ a) (b : Text) :
    physicalLines (a ++ '\n' :: b) = a :: physicalLines b := by
  unfold physicalLines
  obtain ⟨p, ps, hp⟩ := List.exists_cons_of_ne_nil (Text.splitOn_ne_nil '\n' b)
  rw [Text.splitOn_append h, hp]
  dsimp only
  rw [List.getLast?_cons_cons]
  split <;> rfl

/-- No physical line has a line feed in it. -/
theorem lineFeed_notMem_of_mem_physicalLines {t p : Text} (h : p ∈ physicalLines t) : '\n' ∉ p := by
  unfold physicalLines at h
  dsimp only at h
  split at h
  next => exact Text.notMem_of_mem_splitOn (List.mem_of_mem_dropLast h)
  next => exact Text.notMem_of_mem_splitOn h

/-- The text that some physical lines make up. -/
def textOfLines (physical : List Text) : Text :=
  physical.flatMap (· ++ ['\n'])

theorem physicalLines_textOfLines {physical : List Text} (h : ∀ p ∈ physical, '\n' ∉ p) :
    physicalLines (textOfLines physical) = physical := by
  induction physical with
  | nil => rfl
  | cons p physical ih =>
    obtain ⟨hp, hphysical⟩ := List.forall_mem_cons.1 h
    have hfront : textOfLines (p :: physical) = p ++ '\n' :: textOfLines physical := by
      rw [textOfLines, List.flatMap_cons, List.append_assoc]
      rfl
    rw [hfront, physicalLines_append hp, ih hphysical]

namespace Layout

variable (l : Layout)

theorem isBlank_of_mem_margin {c : Char} (h : c ∈ l.margin) : Text.isBlank c = true := by
  unfold margin at h
  split at h
  next =>
    rw [List.mem_singleton.1 h]
    decide
  next => exact absurd h List.not_mem_nil

theorem lineFeed_notMem_margin : '\n' ∉ l.margin := by
  unfold margin
  split <;> decide

theorem physicalLines_line {t : Text} (h : '\n' ∉ t) (rest : Text) :
    physicalLines (l.line t ++ rest) = (t ++ l.margin) :: physicalLines rest := by
  have hline : l.line t ++ rest = (t ++ l.margin) ++ '\n' :: rest := by
    simp [line]
  have hfree : '\n' ∉ t ++ l.margin := by
    rw [List.mem_append]
    exact not_or.2 ⟨h, l.lineFeed_notMem_margin⟩
  rw [hline, physicalLines_append hfree]

end Layout

/-! ## What fills a line -/

/-- Text that can stand at the front of what a line holds. -/
structure IsOpening (t : Text) : Prop where
  noLineFeed : '\n' ∉ t
  head : ∀ c ∈ t.head?, Text.isBlank c = false

/-- Text that fills a line: no blank stands at its ends. -/
structure IsSolid (t : Text) : Prop extends IsOpening t where
  last : ∃ a c, t = a ++ [c] ∧ Text.isBlank c = false

/-- Text behind which no line goes on. -/
structure IsComplete (t : Text) : Prop extends IsSolid t where
  unmarked : t.getLast? ≠ some '\\'

theorem isOpening_nil : IsOpening [] := ⟨List.not_mem_nil, fun _ h => absurd h (by simp)⟩

theorem isOpening_cons {c : Char} {t : Text} (hc : Text.isBlank c = false) (h : '\n' ∉ c :: t) :
    IsOpening (c :: t) :=
  ⟨h, fun _ hd => Option.some.inj hd ▸ hc⟩

namespace IsSolid

variable {t : Text}

/-- Solid text is all that is left of a line between its indentation and its end. -/
theorem trim_margins (h : IsSolid t) {a b : Text} (ha : ∀ c ∈ a, Text.isBlank c = true)
    (hb : ∀ c ∈ b, Text.isBlank c = true) : Text.trim (a ++ t ++ b) = t := by
  obtain ⟨u, c, hu, hc⟩ := h.last
  have hlast : ∀ d ∈ t.getLast?, Text.isBlank d = false := by
    intro d hd
    rw [hu, List.getLast?_concat] at hd
    rw [← Option.some.inj hd, hc]
  exact (Text.dropAround_margins ha hb).trans (Text.dropAround_eq_self h.head hlast)

theorem trim_eq (h : IsSolid t) : Text.trim t = t := by
  simpa using h.trim_margins (a := []) (b := []) (by simp) (by simp)

end IsSolid

namespace IsOpening

variable {a t : Text}

theorem append (ha : IsOpening a) (h : IsOpening t) : IsOpening (a ++ t) where
  noLineFeed := by
    rw [List.mem_append]
    exact not_or.2 ⟨ha.noLineFeed, h.noLineFeed⟩
  head := by
    cases a with
    | nil => exact h.head
    | cons c a => exact ha.head

theorem append_solid (ha : IsOpening a) (h : IsSolid t) : IsSolid (a ++ t) where
  toIsOpening := ha.append h.toIsOpening
  last := by
    obtain ⟨u, c, rfl, hc⟩ := h.last
    exact ⟨a ++ u, c, (List.append_assoc _ _ _).symm, hc⟩

theorem append_complete (ha : IsOpening a) (h : IsComplete t) : IsComplete (a ++ t) where
  toIsSolid := ha.append_solid h.toIsSolid
  unmarked := by
    obtain ⟨u, c, rfl, _⟩ := h.last
    have hc := h.unmarked
    rw [List.getLast?_concat] at hc
    rw [← List.append_assoc, List.getLast?_concat]
    exact hc

end IsOpening

/-- Complete text does not end with a backslash, whatever stands before it. -/
theorem IsComplete.endsWith_append {t : Text} (h : IsComplete t) (a : Text) :
    Text.endsWith '\\' (a ++ t) = false := by
  obtain ⟨u, c, rfl, _⟩ := h.last
  have hc := h.unmarked
  rw [List.getLast?_concat] at hc
  rw [Text.endsWith, ← List.append_assoc, List.getLast?_concat]
  exact beq_eq_false_iff_ne.2 hc

/-- One character fills a line if it is not blank. -/
theorem isSolid_singleton {c : Char} (h : Text.isBlank c = false) : IsSolid [c] where
  noLineFeed := fun h' => by
    rw [← List.mem_singleton.1 h'] at h
    exact absurd h (by decide)
  head := fun d hd => by rw [← Option.some.inj hd, h]
  last := ⟨[], c, rfl, h⟩

theorem isComplete_singleton {c : Char} (h : Text.isBlank c = false) (h' : c ≠ '\\') :
    IsComplete [c] where
  toIsSolid := isSolid_singleton h
  unmarked := fun h'' => h' (Option.some.inj h'')

/-! ## Logical lines -/

section Joining

variable (l : Layout) (n : Nat) (pending : Option Line) (i : Indentation) {t : Text}

theorem physicalLines_indented (h : IsSolid t) (rest : Text) :
    physicalLines (i.text ++ l.line t ++ rest)
      = (i.text ++ t ++ l.margin) :: physicalLines rest := by
  have hline : i.text ++ l.line t ++ rest = l.line (i.text ++ t) ++ rest := by
    simp [Layout.line]
  have hfree : '\n' ∉ i.text ++ t := by
    rw [List.mem_append]
    exact not_or.2 ⟨i.noLineFeed, h.noLineFeed⟩
  rw [hline, l.physicalLines_line hfree]

/-- **A line that is not broken** ends the logical line that it is part of. -/
theorem joinFrom_line (ht : IsComplete t) (rest : Text) :
    joinFrom n pending (physicalLines (i.text ++ l.line t ++ rest))
      = ⟨(pending.getD ⟨n, []⟩).number, (pending.getD ⟨n, []⟩).text ++ t⟩
        :: joinFrom (n + 1) none (physicalLines rest) := by
  have htrim := ht.trim_margins i.isBlank (fun _ => l.isBlank_of_mem_margin)
  have hlast := ht.endsWith_append (pending.getD ⟨n, []⟩).text
  rw [physicalLines_indented l i ht.toIsSolid, joinFrom]
  simp only [Line.extend, Line.continues, htrim, hlast, Bool.false_and, Bool.false_eq_true,
    if_false]

/-- **A broken line** goes on in the next one, without the backslash at its end. -/
theorem joinFrom_brokenLine (ht : IsSolid (t ++ ['\\']))
    (hhex : assignsHex ((pending.getD ⟨n, []⟩).text ++ (t ++ ['\\'])) = true) (rest : Text) :
    joinFrom n pending (physicalLines (i.text ++ l.line (t ++ ['\\']) ++ rest))
      = joinFrom (n + 1)
          (some ⟨(pending.getD ⟨n, []⟩).number, (pending.getD ⟨n, []⟩).text ++ t⟩)
          (physicalLines rest) := by
  have htrim := ht.trim_margins i.isBlank (fun _ => l.isBlank_of_mem_margin)
  have hlast : Text.endsWith '\\' ((pending.getD ⟨n, []⟩).text ++ (t ++ ['\\'])) = true := by
    simp [Text.endsWith, ← List.append_assoc]
  rw [physicalLines_indented l i ht, joinFrom]
  simp only [Line.extend, Line.continues, htrim, hlast, hhex, Bool.true_and, if_true,
    Line.dropMark]
  rw [← List.append_assoc, List.dropLast_concat]

end Joining

/-! ## Lists of bytes -/

theorem isComplete_of_digits {t : Text} (hne : t ≠ [])
    (h : ∀ c ∈ t, ∃ n, Hex.digit? c = some n) : IsComplete t := by
  have hblank : ∀ c ∈ t, Text.isBlank c = false := fun c hc => by
    obtain ⟨n, hn⟩ := h c hc
    exact Hex.isBlank_of_digit? hn
  refine ⟨⟨⟨fun hfeed => ?_, fun c hc => hblank c (List.mem_of_head? hc)⟩, ?_⟩, fun hmark => ?_⟩
  · exact absurd (hblank _ hfeed) (by decide)
  · exact ⟨t.dropLast, t.getLast hne, (List.dropLast_concat_getLast hne).symm,
      hblank _ (List.getLast_mem hne)⟩
  · obtain ⟨n, hn⟩ := h _ (List.mem_of_getLast? hmark)
    exact absurd rfl (Hex.ne_of_digit? hn (show Hex.digit? '\\' = none by decide))

theorem Layout.isComplete_byte (l : Layout) (b : UInt8) : IsComplete (l.byte b) :=
  isComplete_of_digits (List.cons_ne_nil _ _) (by
    simpa using (l.spells_flatMap_byte [b]).digit?_of_mem)

/-- **A list of bytes is one logical line**, however it is broken. The list starts behind the text
`x` of the line it is in, and `s` is what earlier lines have left pending. -/
theorem joinFrom_pairs (l : Layout) {bytes : List UInt8} (hne : bytes ≠ []) (breaks : Breaks)
    (n : Nat) (pending : Option Line) (i : Indentation) {k : Nat} {s x : Text}
    (hp : pending.getD ⟨n, []⟩ = ⟨k, s⟩) (hx : IsOpening x)
    (hhex : ∀ y, assignsHex (s ++ x ++ y) = true) (rest : Text) :
    ∃ n', joinFrom n pending
        (physicalLines (i.text ++ l.line (x ++ l.pairs breaks bytes) ++ rest))
      = ⟨k, s ++ x ++ l.pairs [] bytes⟩ :: joinFrom n' none (physicalLines rest) := by
  -- `x` takes in the bytes that stay on the line; at a break it is handed over to `s`
  induction bytes generalizing breaks n pending i s x with
  | nil => exact absurd rfl hne
  | cons b bytes ih =>
    have hend := hx.append_complete (l.isComplete_byte b)
    cases bytes with
    | nil =>
      have hline := joinFrom_line l n pending i hend rest
      rw [hp, ← List.append_assoc] at hline
      exact ⟨n + 1, hline⟩
    | cons b' bytes =>
      have hcomma : IsSolid (x ++ l.byte b ++ [',']) :=
        hend.append_solid (isSolid_singleton (by decide))
      have hmark : IsSolid (x ++ l.byte b ++ [','] ++ ['\\']) :=
        hcomma.append_solid (isSolid_singleton (by decide))
      have hhex' : ∀ y, assignsHex (s ++ (x ++ l.byte b ++ [',']) ++ y) = true := fun y => by
        have hy := hhex (l.byte b ++ [','] ++ y)
        simpa only [List.append_assoc] using hy
      rw [l.pairs_cons_cons, l.pairs_cons_cons]
      cases breaks.head?.join with
      | none =>
        -- the line goes on behind the comma
        obtain ⟨n', hn'⟩ := ih (List.cons_ne_nil _ _) breaks.tail n pending i hp
          hcomma.toIsOpening hhex'
        refine ⟨n', ?_⟩
        simpa [Layout.lineBreak] using hn'
      | some j =>
        -- the comma is the last thing on the line, and the next line starts with its margin
        have hhex₁ := hhex' ['\\']
        rw [List.append_assoc] at hhex₁
        have hbroken := joinFrom_brokenLine l n pending i hmark (by rw [hp]; exact hhex₁)
          (j.text ++ l.line (l.pairs breaks.tail (b' :: bytes)) ++ rest)
        obtain ⟨n', hn'⟩ := ih (List.cons_ne_nil _ _) breaks.tail (n + 1)
          (some ⟨k, s ++ (x ++ l.byte b ++ [','])⟩) j rfl isOpening_nil
          (fun y => by simpa only [List.append_nil] using hhex' y)
        refine ⟨n', ?_⟩
        rw [hp] at hbroken
        simpa [Layout.lineBreak, Layout.line] using hbroken.trans hn'

end InstallerRegistry.Export
