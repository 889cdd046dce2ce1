import InstallerRegistry.Export.Contents

/-!
# The numbers of lines

A reader counts lines only to say where a fault is, or what it has left out. So if the lines of a
text carry other numbers, all that changes in the contents is where its error and its notices point
to (`contentsOfLines_renumber`).
-/

namespace InstallerRegistry

/-- The error, with another number for each line. -/
def RegistryError.renumber (f : Nat → Nat) : RegistryError → RegistryError
  | .exportSyntax line fault => .exportSyntax (f line) fault
  | e => e

/-- What is read from lines with other numbers, if this changes a success by `g`. -/
def renumberWith {α : Type} (f : Nat → Nat) (g : α → α) :
    Except RegistryError α → Except RegistryError α
  | .ok a => .ok (g a)
  | .error e => .error (e.renumber f)

namespace Export

/-- The notice, with another number for each line. -/
def Notice.renumber (f : Nat → Nat) : Notice → Notice
  | .deletedKey line path => .deletedKey (f line) path
  | .deletedValue line hive key name => .deletedValue (f line) hive key name

/-- The line, with another number. -/
def Line.renumber (f : Nat → Nat) (line : Line) : Line :=
  { line with number := f line.number }

/-- The contents of lines that have other numbers. -/
def Contents.renumber (f : Nat → Nat) (c : Contents) : Contents :=
  { c with notices := c.notices.map (Notice.renumber f) }

/-- What lines contribute, or the fault in them, if they have other numbers. -/
def renumbered (f : Nat → Nat) : Except RegistryError Contents → Except RegistryError Contents :=
  renumberWith f (Contents.renumber f)

section Renumber

variable (f : Nat → Nat) (version : Version)

theorem Contents.renumber_append (a b : Contents) :
    (a ++ b).renumber f = a.renumber f ++ b.renumber f := by
  show Contents.mk _ ((a.notices ++ b.notices).map (Notice.renumber f)) = _
  rw [List.map_append]
  rfl

theorem sectionOf_renumber (line : Line) :
    sectionOf (line.renumber f)
      = renumberWith f (Prod.map id (Contents.renumber f)) (sectionOf line) := by
  unfold sectionOf
  dsimp only [Line.renumber]
  split
  next => rfl
  next => rfl
  next => split <;> rfl

theorem inLine_renumber (number : Nat) (e : DataError) :
    e.inLine (f number) = (e.inLine number).renumber f := by
  cases e <;> rfl

theorem valueIn_renumber (hive : Hive) (key : Text) (line : Line) :
    valueIn version hive key (line.renumber f)
      = renumbered f (valueIn version hive key line) := by
  unfold valueIn
  dsimp only [Line.renumber]
  split
  next => rfl
  next =>
    split
    next e _ => exact congrArg Except.error (inLine_renumber f line.number e)
    next => rfl
    next => rfl

/-- **A line with another number** contributes the same, and leaves the same section to the next
one. -/
theorem step_renumber (s : Section) (line : Line) :
    step version s (line.renumber f)
      = renumberWith f (Prod.map id (Contents.renumber f)) (step version s line) := by
  have htext : (line.renumber f).text = line.text := rfl
  unfold step
  rw [htext]
  split
  next => rfl
  next =>
    split
    next => exact sectionOf_renumber f line
    next =>
      cases s with
      | outside => rfl
      | deleted => rfl
      | key hive key =>
        dsimp only
        rw [valueIn_renumber]
        cases valueIn version hive key line <;> rfl

theorem contentsFrom_renumber (s : Section) (lines : List Line) :
    contentsFrom version s (lines.map (Line.renumber f))
      = renumbered f (contentsFrom version s lines) := by
  induction lines generalizing s with
  | nil => rfl
  | cons line lines ih =>
    rw [List.map_cons, contentsFrom, contentsFrom, step_renumber]
    cases step version s line with
    | error e => rfl
    | ok next =>
      obtain ⟨s', here⟩ := next
      show (do return here.renumber f
          ++ (← contentsFrom version s' (lines.map (Line.renumber f))))
        = renumbered f (do return here ++ (← contentsFrom version s' lines))
      rw [ih]
      cases contentsFrom version s' lines with
      | error e => rfl
      | ok behind => exact congrArg Except.ok (Contents.renumber_append f here behind).symm

/-- **What lines say does not depend on their numbers**, apart from where they are said to be. A
header that is missing altogether is missed in the first line, whatever the numbers are. -/
theorem contentsOfLines_renumber (hf : f 1 = 1) (lines : List Line) :
    contentsOfLines (lines.map (Line.renumber f)) = renumbered f (contentsOfLines lines) := by
  unfold contentsOfLines
  have hblank : (fun line : Line => line.text.isEmpty) ∘ Line.renumber f
      = fun line => line.text.isEmpty := rfl
  rw [List.dropWhile_map, hblank]
  cases lines.dropWhile fun line => line.text.isEmpty with
  | nil =>
    show Except.error (RegistryError.exportSyntax 1 .missingHeader)
      = Except.error (RegistryError.exportSyntax (f 1) .missingHeader)
    rw [hf]
  | cons line rest =>
    have htext : (line.renumber f).text = line.text := rfl
    rw [List.map_cons]
    dsimp only
    rw [htext]
    cases Version.ofHeader? line.text with
    | none => rfl
    | some version => exact contentsFrom_renumber f version .outside rest

end Renumber

end Export

end InstallerRegistry
