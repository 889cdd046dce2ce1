import InstallerRegistry.Manifest.Contents
import InstallerRegistry.Proofs.Files.Expansion

/-!
# A manifest in another directory

The patterns of a manifest are taken from the directory that it is in. So it should not matter where
this directory is: what the manifest holds is what it would hold if the directory were the working
directory. This is so for patterns that stay inside, if no name on the way to the directory has a
wildcard in it (`Manifest.contents_relocated_iff`).

The path of the directory and the pattern are put together before either is read as a pattern. So a
directory whose name looks like a pattern stands for others, or for none: in one whose name has a
bracket in it, no pattern finds anything (`Manifest.not_contents_bracketedDirectory`).
-/

namespace InstallerRegistry

open Pattern (StaysInside IsLiteral Mirrors)

variable {root tree : FileTree} {d : List Text} {atStart : Bool}

namespace Export

theorem Contents.ofFile_eq_of_mirrors (hplaced : root.IsPlacedBelow d tree) {p q : Text}
    (h : Mirrors d atStart p q) : Contents.ofFile tree p = Contents.ofFile root q := by
  rw [ofFile, ofFile, h.read_eq hplaced]

/-- A directory holds no export. -/
theorem Contents.ofFile_ne_ok_of_isDirectory {path : Text} (h : root.isDirectory path = true)
    (c : Contents) : Contents.ofFile root path ≠ .ok c := by
  have hread : root.read path = .error .isDirectory := by
    unfold FileTree.isDirectory at h
    unfold FileTree.read
    cases hfollow : root.follow path with
    | error e =>
      rw [hfollow] at h
      exact absurd h Bool.false_ne_true
    | ok spot =>
      rw [hfollow] at h
      cases spot with
      | outside => rfl
      | inside names t =>
        cases t with
        | file bytes => exact absurd h Bool.false_ne_true
        | directory entries => rfl
  rw [ofFile, hread]
  exact nofun

end Export

namespace ExportFiles

variable {e : ExportFiles} {c : Export.Contents}

theorem paths_eq_ok_iff {base : Text} {ps : List Text} :
    e.paths root base = .ok ps
      ↔ Pattern.expand root (Pattern.joinPath base e.path) = .ok ps ∧ ps ≠ [] := by
  rw [paths]
  cases Pattern.expand root (Pattern.joinPath base e.path) with
  | error error => exact ⟨nofun, nofun⟩
  | ok found => cases found <;> cases ps <;> simp

/-- **Export files can be read** if their pattern is one and matches something, and if everything
that it matches can be read. -/
theorem contents_eq_ok_iff {base : Text} :
    e.contents root base = .ok c
      ↔ ∃ paths files, Pattern.expand root (Pattern.joinPath base e.path) = .ok paths ∧ paths ≠ []
        ∧ paths.mapM (Export.Contents.ofFile root) = .ok files
        ∧ c = { Export.Contents.concat files with
          entries := (Export.Contents.concat files).entries.map e.place } := by
  rw [contents, bind_eq_ok_iff]
  simp only [paths_eq_ok_iff, bind_eq_ok_iff]
  constructor
  · rintro ⟨ps, ⟨hexpand, hne⟩, files, hfiles, ⟨⟩⟩
    exact ⟨ps, files, hexpand, hne, hfiles, rfl⟩
  · rintro ⟨ps, files, hexpand, hne, hfiles, rfl⟩
    exact ⟨ps, ⟨hexpand, hne⟩, files, hfiles, rfl⟩

/-- The empty pattern finds no file: in the working directory it matches nothing, and behind the
path of another one it matches this directory. -/
theorem contents_ne_ok_of_path_eq_nil (hplaced : root.IsPlacedBelow d tree) (h : e.path = []) :
    e.contents root (Text.join ['/'] d) ≠ .ok c ∧ e.contents tree [] ≠ .ok c := by
  constructor
  · intro hc
    obtain ⟨paths, files, hexpand, hne, hfiles, _⟩ := contents_eq_ok_iff.1 hc
    rw [h, Pattern.joinPath_join hplaced rfl] at hexpand
    obtain ⟨path, rest, rfl⟩ := List.exists_cons_of_ne_nil hne
    have hdirectory := Pattern.isDirectory_of_mem_expand (Pattern.isAbsolute_join hplaced [])
      List.getLast?_concat hexpand path List.mem_cons_self
    obtain ⟨file, hfile, _⟩ := bind_eq_ok_iff.1 hfiles
    exact Export.Contents.ofFile_ne_ok_of_isDirectory hdirectory file hfile
  · intro hc
    obtain ⟨paths, files, hexpand, hne, _⟩ := contents_eq_ok_iff.1 hc
    rw [h, show Pattern.joinPath [] [] = [] from rfl, Pattern.expand_nil] at hexpand
    exact hne (Except.ok.inj hexpand).symm

/-- **Export files in another directory** hold the same. -/
theorem contents_join_iff (hplaced : root.IsPlacedBelow d tree)
    (hd : ∀ name ∈ d, IsLiteral name) (he : StaysInside e.path) (c : Export.Contents) :
    e.contents root (Text.join ['/'] d) = .ok c ↔ e.contents tree [] = .ok c := by
  by_cases hne : e.path = []
  · exact iff_of_false (contents_ne_ok_of_path_eq_nil hplaced hne).1
      (contents_ne_ok_of_path_eq_nil hplaced hne).2
  · have hhere : Pattern.joinPath [] e.path = e.path := by
      rw [Pattern.joinPath, he.relative]
      rfl
    rw [contents_eq_ok_iff, contents_eq_ok_iff, hhere]
    rcases Pattern.expand_joinPath hplaced hd he hne with
      ⟨error, error', htree, hroot⟩ | ⟨atStart, ps, qs, htree, hroot, hpaths⟩
    · rw [htree, hroot]
      exact iff_of_false (by rintro ⟨_, _, ⟨⟩, _⟩) (by rintro ⟨_, _, ⟨⟩, _⟩)
    · have hfiles := mapM_eq_mapM_of_forall₂ (hpaths.imp fun p q hpq =>
        Export.Contents.ofFile_eq_of_mirrors hplaced hpq)
      have hnil : qs = [] ↔ ps = [] := by
        constructor
        · rintro rfl
          exact List.forall₂_nil_right_iff.1 hpaths
        · rintro rfl
          exact List.forall₂_nil_left_iff.1 hpaths
      rw [htree, hroot]
      constructor
      · rintro ⟨_, files, ⟨⟩, hqs, hread, hc⟩
        exact ⟨ps, files, rfl, mt hnil.2 hqs, hfiles.trans hread, hc⟩
      · rintro ⟨_, files, ⟨⟩, hps, hread, hc⟩
        exact ⟨qs, files, rfl, mt hnil.1 hps, hfiles.symm.trans hread, hc⟩

end ExportFiles

namespace Manifest

/-- **A manifest in another directory holds the same**, its entries being in the same order, and it
can be read there exactly if it could be read in the working directory. Its patterns have to stay
inside, and no name of the directory may have a wildcard in it. -/
theorem contents_relocated_iff {m : Manifest} (hplaced : root.IsPlaced d tree)
    (hd : ∀ name ∈ d, IsLiteral name) (hm : ∀ e ∈ m.exportFiles, StaysInside e.path)
    (c : Export.Contents) :
    m.contents root (Text.join ['/'] d) = .ok c ↔ m.contents tree [] = .ok c := by
  by_cases hne : d = []
  · obtain rfl : root = tree := by
      have hfound := hplaced.found
      rw [hne] at hfound
      exact Option.some.inj hfound
    rw [hne]
    rfl
  · have hbelow : root.IsPlacedBelow d tree := ⟨hplaced, hne⟩
    have hexported : ∀ exported,
        m.exportFiles.mapM (ExportFiles.contents root (Text.join ['/'] d)) = .ok exported
          ↔ m.exportFiles.mapM (ExportFiles.contents tree []) = .ok exported := by
      intro exported
      rw [mapM_eq_ok_iff, mapM_eq_ok_iff]
      have heach : ∀ e ∈ m.exportFiles, ∀ c, e.contents root (Text.join ['/'] d) = .ok c
          ↔ e.contents tree [] = .ok c := fun e he =>
        ExportFiles.contents_join_iff hbelow hd (hm e he)
      constructor
      · intro h
        have h' := (List.forall₂_and_left m.exportFiles exported).2 ⟨heach, h⟩
        exact h'.imp fun e c hec => (hec.1 c).1 hec.2
      · intro h
        have h' := (List.forall₂_and_left m.exportFiles exported).2 ⟨heach, h⟩
        exact h'.imp fun e c hec => (hec.1 c).2 hec.2
    rw [contents, contents]
    simp only [bind_eq_ok_iff, hexported]

/-- A directory with an export in it. -/
def exportDirectory : FileTree :=
  .directory [("x.reg".toList, .file (Utf8.encode "REGEDIT4\n[HKCU\\k]\n\"n\"=\"v\"\n".toList))]

/-- The manifest that imports the exports that a pattern matches. -/
def importing (pattern : Text) : Manifest :=
  { exportFiles := [{ path := pattern }] }

/-- A pattern that starts at the directory itself, and goes to any depth. -/
def deepPattern : Text :=
  "./**/?.reg".toList

theorem exists_contents_importing (pattern : Text)
    (h : ((importing pattern).contents exportDirectory []).isOk = true) :
    ∃ c, (importing pattern).contents exportDirectory [] = .ok c := by
  cases hc : (importing pattern).contents exportDirectory [] with
  | ok c => exact ⟨c, rfl⟩
  | error e =>
    rw [hc] at h
    exact absurd h Bool.false_ne_true

/-- The directory behind odd names, with files beside it. -/
def surroundings : FileTree :=
  .directory [("x.reg".toList, .file []),
    (".]".toList, .directory [("y.reg".toList, .file []), ("!-".toList, exportDirectory)])]

/-- It holds there what it holds alone. -/
theorem contents_relocated_iff_surroundings :
    surroundings.IsPlaced [".]".toList, "!-".toList] exportDirectory
      ∧ (∀ name ∈ [".]".toList, "!-".toList], IsLiteral name)
      ∧ (∀ e ∈ (importing deepPattern).exportFiles, StaysInside e.path)
      ∧ ∃ c, (importing deepPattern).contents surroundings ".]/!-".toList = .ok c
        ∧ (importing deepPattern).contents exportDirectory [] = .ok c := by
  have hplaced : surroundings.IsPlaced [".]".toList, "!-".toList] exportDirectory :=
    ⟨by decide, rfl, ⟨_, rfl⟩, by decide⟩
  have hliteral : ∀ name ∈ [".]".toList, "!-".toList], IsLiteral name := by decide
  have hinside : ∀ e ∈ (importing deepPattern).exportFiles, StaysInside e.path := by
    with_unfolding_all decide
  obtain ⟨c, hc⟩ := exists_contents_importing deepPattern (by with_unfolding_all rfl)
  exact ⟨hplaced, hliteral, hinside, c,
    (contents_relocated_iff hplaced hliteral hinside c).2 hc, hc⟩

/-! ## Directories with wildcards in their names -/

/-- The directory behind a name that is a pattern for another one. -/
def bracketedDirectory : FileTree :=
  .directory [("a[b]".toList, exportDirectory)]

/-- **A directory may not find its own files**: with a bracket in its name, the same manifest holds
nothing that could be read. -/
theorem not_contents_bracketedDirectory :
    bracketedDirectory.IsPlaced ["a[b]".toList] exportDirectory
      ∧ (∀ e ∈ (importing "x.reg".toList).exportFiles, StaysInside e.path)
      ∧ (∃ c, (importing "x.reg".toList).contents exportDirectory [] = .ok c)
      ∧ ∀ c, (importing "x.reg".toList).contents bracketedDirectory "a[b]".toList ≠ .ok c := by
  refine ⟨⟨by decide, rfl, ⟨_, rfl⟩, by decide⟩, by with_unfolding_all decide,
    exists_contents_importing _ (by with_unfolding_all rfl), fun c hc => ?_⟩
  have hfails : ((importing "x.reg".toList).contents bracketedDirectory "a[b]".toList).isOk
      = false := by with_unfolding_all rfl
  rw [hc] at hfails
  exact absurd hfails.symm Bool.false_ne_true

end Manifest

end InstallerRegistry
