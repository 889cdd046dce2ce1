import InstallerRegistry.Proofs.Text.Cutting
import Mathlib.Data.List.DropRight

/-!
# Lines

A line ends at a line feed, or where the text ends. So behind the last line feed there is one more
line only if something stands there, and the empty text has no line. This is where the lines differ
from the pieces that a text is split into, of which the last is there even if it is empty
(`Text.lines_concat_lineFeed`); without a line feed at the end, they are the same
(`Text.lines_eq_splitOn`).

A text can list strings, one in each line (`Text.listed`). Joined by line feeds, strings are listed
again if none is empty or has anything in it that belongs to the end of a line
(`Text.listed_join`).
-/

namespace InstallerRegistry.Text

/-- The **lines** of a text. -/
def lines : Text → List Text
  | [] => []
  | '\n' :: t => [] :: lines t
  | c :: t => (c :: (lines t).headD []) :: (lines t).tail

/-- The **strings that a text lists**, one in each line. Carriage returns at the end of a line do
not belong to the string. -/
def listed (t : Text) : List Text :=
  t.lines.map (List.rdropWhile (· == '\r'))

variable {t : Text}

/-! ## Lines and pieces -/

theorem lines_cons_of_ne {c : Char} (h : c ≠ '\n') (t : Text) :
    lines (c :: t) = (c :: (lines t).headD []) :: (lines t).tail := by
  rw [lines]
  exact h

/-- A line feed at the end ends the last piece. -/
theorem lines_concat_lineFeed (t : Text) : lines (t ++ ['\n']) = splitOn '\n' t := by
  induction t with
  | nil => rfl
  | cons c t ih =>
    rw [List.cons_append]
    by_cases hc : c = '\n'
    · rw [hc, lines, ih, splitOn_cons_self]
    · rw [lines_cons_of_ne hc, ih, splitOn_cons_of_ne hc]

/-- **Pieces are lines** if the last one ends with the text. -/
theorem lines_eq_splitOn (hne : t ≠ []) (hlast : t.getLast? ≠ some '\n') :
    lines t = splitOn '\n' t := by
  induction t with
  | nil => exact absurd rfl hne
  | cons c t ih =>
    cases t with
    | nil =>
      have hc : c ≠ '\n' := fun hc => hlast (congrArg some hc)
      rw [lines_cons_of_ne hc, splitOn_cons_of_ne hc]
      rfl
    | cons d t =>
      have hpieces := ih (List.cons_ne_nil d t) hlast
      by_cases hc : c = '\n'
      · rw [hc, lines, hpieces, splitOn_cons_self]
      · rw [lines_cons_of_ne hc, hpieces, splitOn_cons_of_ne hc]

/-- The lines of a text are the pieces of what stands before the line feed at its end. -/
theorem lines_eq_splitOn_before (hne : t ≠ []) :
    lines t = splitOn '\n' ((before? ['\n'] t).getD t) := by
  cases hbefore : before? ['\n'] t with
  | none =>
    refine lines_eq_splitOn hne fun hlast => ?_
    obtain ⟨rest, rfl⟩ := List.getLast?_eq_some_iff.1 hlast
    have hrest := before?_eq_some_iff.2 (show rest ++ ['\n'] = rest ++ ['\n'] from rfl)
    exact absurd (hbefore.symm.trans hrest) nofun
  | some rest =>
    rw [before?_eq_some_iff.1 hbefore]
    exact lines_concat_lineFeed rest

/-! ## Strings -/

/-- **A text lists a string more than it has line feeds**, not counting one at its end. -/
theorem length_listed (hne : t ≠ []) :
    t.listed.length = t.count '\n' + 1 - if t.getLast? = some '\n' then 1 else 0 := by
  rw [listed, List.length_map]
  split
  next hlast =>
    obtain ⟨rest, rfl⟩ := List.getLast?_eq_some_iff.1 hlast
    rw [lines_concat_lineFeed, length_splitOn, List.count_append]
    rfl
  next hlast => rw [lines_eq_splitOn hne hlast, length_splitOn, Nat.sub_zero]

/-- **Joined strings are listed again** if none is empty or has anything in it that belongs to the
end of a line. -/
theorem listed_join {strings : List Text} (hne : strings ≠ [])
    (h : ∀ s ∈ strings, s ≠ [] ∧ '\n' ∉ s ∧ s.getLast? ≠ some '\r') :
    listed (join ['\n'] strings) = strings := by
  obtain ⟨last, hlast, heq⟩ := exists_getLast?_join '\n' hne fun s hs => (h s hs).1
  have hend : (join ['\n'] strings).getLast? ≠ some '\n' := by
    rw [heq]
    exact fun hfeed => (h last hlast).2.1 (List.mem_of_getLast? hfeed)
  have hfilled : join ['\n'] strings ≠ [] := by
    intro hempty
    rw [hempty, eq_comm, List.getLast?_nil, List.getLast?_eq_none_iff] at heq
    exact (h last hlast).1 heq
  have hkept : ∀ s ∈ strings, s.rdropWhile (· == '\r') = s := by
    intro s hs
    rw [List.rdropWhile_eq_self_iff]
    intro hs' hreturn
    rw [beq_iff_eq] at hreturn
    exact (h s hs).2.2 (by rw [List.getLast?_eq_some_getLast hs', hreturn])
  rw [listed, lines_eq_splitOn hfilled hend, splitOn_join hne fun s hs => (h s hs).2.1,
    List.map_congr_left hkept, List.map_id']

end InstallerRegistry.Text
