import InstallerRegistry.Proofs.Files.Paths

/-!
# Writing a file

What a tree holds is seen name by name: behind some names there is a directory, a file with its
bytes, or nothing (`FileTree.item?`). Writing a file changes what is seen behind the names of this
one file and behind no others (`FileTree.IsWritten`).

So the names that led to the file before it was written still lead there afterwards
(`FileTree.IsWritten.foldlM_step`), although every directory on the way holds another tree. It
follows that the path that was written to leads to the written file (`FileTree.write_eq_ok`).
-/

namespace InstallerRegistry

namespace FileTree

/-- What is seen of a tree without looking into it: that it is a directory, or the bytes of the
file that it is. -/
inductive Item where
  | directory
  | file (bytes : List UInt8)
deriving DecidableEq, Repr

/-- What is seen of a tree. -/
def item : FileTree → Item
  | file bytes => .file bytes
  | directory _ => .directory

/-- What is seen behind some names. -/
def item? (t : FileTree) (names : List Text) : Option Item :=
  (t.find? names).map item

/-- **A file has been written** behind some names: there it is, where there was no directory, and
everything else is what it was. -/
structure IsWritten (root after : FileTree) (names : List Text) (bytes : List UInt8) : Prop where
  found : after.find? names = some (.file bytes)
  noDirectory : root.item? names ≠ some .directory
  others : ∀ other, other ≠ names → after.item? other = root.item? other

/-! ## Putting a file into a tree -/

theorem lookup_cons_eq_ite (n' : Text) (t : FileTree) (rest : List (Text × FileTree)) (n : Text) :
    ((n', t) :: rest).lookup n = if n = n' then some t else rest.lookup n := by
  rw [List.lookup_cons]
  by_cases h : n = n'
  · rw [if_pos h, beq_iff_eq.2 h]
  · rw [if_neg h, beq_eq_false_iff_ne.2 h]

theorem lookup_setEntry (name : Text) (new : FileTree) (entries : List (Text × FileTree)) (n : Text) :
    (setEntry name new entries).lookup n = if n = name then some new else entries.lookup n := by
  induction entries with
  | nil => exact lookup_cons_eq_ite name new [] n
  | cons first rest ih =>
    obtain ⟨n', t⟩ := first
    rw [setEntry, lookup_cons_eq_ite]
    by_cases hname : n' = name
    · rw [if_pos hname, lookup_cons_eq_ite, hname]
      by_cases h : n = name
      · rw [if_pos h, if_pos h]
      · rw [if_neg h, if_neg h, if_neg h]
    · rw [if_neg hname, lookup_cons_eq_ite, ih]
      by_cases h : n = n'
      · have hne : n ≠ name := h ▸ hname
        rw [if_pos h, if_neg hne, if_pos h]
      · rw [if_neg h, if_neg h]

theorem entry?_put (t : FileTree) (name : Text) (names : List Text) (new : FileTree) (n : Text) :
    entry? n (t.put (name :: names) new)
      = if n = name then some (((t.entry? name).getD empty).put names new) else t.entry? n := by
  cases t <;> exact lookup_setEntry name _ _ n

theorem find?_put (t : FileTree) (names : List Text) (new : FileTree) :
    (t.put names new).find? names = some new := by
  induction names generalizing t with
  | nil => rfl
  | cons name names ih =>
    rw [find?, entry?_put, if_pos rfl, Option.bind_some]
    exact ih _

/-- Behind the entries of a tree one sees what one sees in them. -/
theorem item?_cons (t : FileTree) (name : Text) (names : List Text) :
    t.item? (name :: names) = (t.entry? name).bind fun u => u.item? names := by
  unfold item?
  rw [find?, Option.map_bind]
  rfl

theorem item?_nil_eq_directory {t u : FileTree} {name : Text} (h : t.entry? name = some u) :
    t.item? [] = some .directory := by
  cases t with
  | file bytes => exact absurd h nofun
  | directory entries => rfl

/-- Behind a file there is nothing. -/
theorem item?_cons_of_ne_directory {t : FileTree} (h : t.item? [] ≠ some .directory) (name : Text)
    (names : List Text) : t.item? (name :: names) = none := by
  cases t with
  | file bytes => rfl
  | directory entries => exact absurd rfl h

/-- **Putting a file** into a directory, where none is, writes it. -/
theorem isWritten_put {root : FileTree} {parents : List Text} {entries : List (Text × FileTree)}
    {last : Text} (h : root.find? parents = some (.directory entries))
    (hlast : root.item? (parents ++ [last]) ≠ some .directory) (bytes : List UInt8) :
    IsWritten root (root.put (parents ++ [last]) (.file bytes)) (parents ++ [last]) bytes := by
  refine ⟨find?_put _ _ _, hlast, ?_⟩
  -- On the way to the directory, all entries but one are the same, and this one is a directory.
  induction parents generalizing root with
  | nil =>
    obtain rfl : root = .directory entries := Option.some.inj h
    intro other hother
    match other with
    | [] => rfl
    | [n] =>
      have hn : n ≠ last := fun hn => hother (hn ▸ rfl)
      rw [List.nil_append, item?_cons, item?_cons, entry?_put, if_neg hn]
    | n :: n' :: rest =>
      rw [List.nil_append, item?_cons, item?_cons, entry?_put]
      by_cases hn : n = last
      · rw [if_pos hn, hn]
        show none = _
        rw [List.nil_append, item?_cons] at hlast
        cases hu : FileTree.entry? last (.directory entries) with
        | none => rfl
        | some u =>
          rw [hu] at hlast
          exact (item?_cons_of_ne_directory hlast n' rest).symm
      · rw [if_neg hn]
  | cons parent parents ih =>
    obtain ⟨u, hu, hfind⟩ := Option.bind_eq_some_iff.1 h
    rw [List.cons_append, item?_cons, hu] at hlast
    intro other hother
    match other with
    | [] => exact (item?_nil_eq_directory hu).symm ▸ rfl
    | n :: rest =>
      rw [List.cons_append, item?_cons, item?_cons, entry?_put]
      by_cases hn : n = parent
      · rw [if_pos hn, hn, hu]
        exact ih hfind hlast rest fun hrest => hother (by rw [hn, hrest]; rfl)
      · rw [if_neg hn]

/-! ## Where names lead before and after -/

theorem find?_concat_of_directory {root : FileTree} {above : List Text}
    {entries : List (Text × FileTree)} (h : root.find? above = some (.directory entries))
    (name : Text) : root.find? (above ++ [name]) = entries.lookup name := by
  rw [find?_append, h, Option.bind_some, find?]
  exact Option.bind_fun_some _

/-- Outside, no name leads inside. -/
theorem foldlM_step_outside {root : FileTree} {names : List Text} {spot : Spot}
    (h : names.foldlM (step root) .outside = .ok spot) : spot = .outside := by
  induction names with
  | nil => exact (Except.ok.inj h).symm
  | cons name names ih =>
    rw [List.foldlM_cons] at h
    obtain ⟨next, hstep, h⟩ := bind_eq_ok_iff.1 h
    unfold step at hstep
    dsimp only at hstep
    split at hstep
    next => exact ih (Except.ok.inj hstep ▸ h)
    next => exact absurd hstep nofun

theorem find?_dropLast {root t : FileTree} {names : List Text} (h : root.find? names = some t) :
    ∃ u, root.find? names.dropLast = some u := by
  induction names using List.reverseRecOn with
  | nil => exact ⟨t, h⟩
  | append_singleton names name _ =>
    rw [find?_append] at h
    obtain ⟨u, hu, _⟩ := Option.bind_eq_some_iff.1 h
    exact ⟨u, by rwa [List.dropLast_concat]⟩

/-- **A step inside a directory** leads to the directory itself, to the one around it, or to one of
its entries. -/
theorem step_inside_cases {root : FileTree} {above : List Text} {entries : List (Text × FileTree)}
    {name : Text} {spot : Spot} (h : step root (.inside above (.directory entries)) name = .ok spot) :
    (name ≠ ['.', '.'] ∧ (name.isEmpty || name == ['.']) = true
        ∧ spot = .inside above (.directory entries))
      ∨ (name = ['.', '.'] ∧ above = [] ∧ spot = .outside)
      ∨ (name = ['.', '.'] ∧ above ≠ []
        ∧ spot = .inside above.dropLast ((root.find? above.dropLast).getD empty))
      ∨ (name ≠ ['.', '.'] ∧ ¬ (name.isEmpty || name == ['.']) = true
        ∧ ¬ nameLimit < Utf8.size name
        ∧ ∃ t, entries.lookup name = some t ∧ spot = .inside (above ++ [name]) t) := by
  by_cases hup : name = ['.', '.']
  · subst hup
    cases above with
    | nil => exact .inr (.inl ⟨rfl, rfl, (Except.ok.inj h).symm⟩)
    | cons parent parents =>
      exact .inr (.inr (.inl ⟨rfl, List.cons_ne_nil _ _, (Except.ok.inj h).symm⟩))
  · rw [step_directory root above entries hup] at h
    split at h
    next hidle => exact .inl ⟨hup, hidle, (Except.ok.inj h).symm⟩
    next hidle =>
      refine .inr (.inr (.inr ⟨hup, hidle, ?_⟩))
      split at h
      next => exact absurd h nofun
      next hsize =>
        refine ⟨hsize, ?_⟩
        split at h
        next => exact absurd h nofun
        next t hlookup => exact ⟨t, hlookup, (Except.ok.inj h).symm⟩

theorem step_up (root : FileTree) {above : List Text} (h : above ≠ [])
    (entries : List (Text × FileTree)) :
    step root (.inside above (.directory entries)) ['.', '.']
      = .ok (.inside above.dropLast ((root.find? above.dropLast).getD empty)) := by
  cases above with
  | nil => exact absurd rfl h
  | cons parent parents => rfl

theorem step_down {root t : FileTree} {above : List Text} {entries : List (Text × FileTree)}
    {name : Text} (h : root.find? above = some (.directory entries)) (hup : name ≠ ['.', '.'])
    (hidle : ¬ (name.isEmpty || name == ['.']) = true) (hsize : ¬ nameLimit < Utf8.size name)
    (ht : root.find? (above ++ [name]) = some t) :
    step root (.inside above (.directory entries)) name = .ok (.inside (above ++ [name]) t) := by
  have hlookup : entries.lookup name = some t := (find?_concat_of_directory h name).symm.trans ht
  rw [step_directory root above entries hup, if_neg hidle, if_neg hsize, hlookup]

/-- **A step** notes down the names of the tree it leads to. -/
theorem find?_of_step_inside {root t t' : FileTree} {above next : List Text} {name : Text}
    (ht : root.find? above = some t) (hstep : step root (.inside above t) name = .ok (.inside next t')) :
    root.find? next = some t' := by
  cases t with
  | file bytes => exact absurd hstep nofun
  | directory entries =>
    obtain ⟨_, _, hspot⟩ | ⟨_, _, hspot⟩ | ⟨_, _, hspot⟩ | ⟨_, _, _, v, hv, hspot⟩ :=
      step_inside_cases hstep
    · cases hspot
      exact ht
    · exact absurd hspot nofun
    · obtain ⟨parent, hparent⟩ := find?_dropLast ht
      rw [hparent, Option.getD_some] at hspot
      cases hspot
      exact hparent
    · cases hspot
      exact (find?_concat_of_directory ht name).trans hv

/-- **A run** notes down the names of the tree it leads to. -/
theorem find?_of_foldlM_step {root t t' : FileTree} {above final way : List Text}
    (ht : root.find? above = some t)
    (hrun : way.foldlM (step root) (.inside above t) = .ok (.inside final t')) :
    root.find? final = some t' := by
  induction way generalizing above t with
  | nil =>
    cases hrun
    exact ht
  | cons name way ih =>
    rw [List.foldlM_cons] at hrun
    obtain ⟨spot, hstep, hrun⟩ := bind_eq_ok_iff.1 hrun
    cases spot with
    | outside => exact absurd (foldlM_step_outside hrun) nofun
    | inside next u => exact ih (find?_of_step_inside ht hstep) hrun

namespace IsWritten

variable {root after : FileTree} {names : List Text} {bytes : List UInt8}

/-- Nothing has gone. -/
theorem exists_find? (h : IsWritten root after names bytes) {other : List Text} {t : FileTree}
    (ht : root.find? other = some t) : ∃ u, after.find? other = some u := by
  by_cases hother : other = names
  · exact ⟨_, hother ▸ h.found⟩
  · have hitem : after.item? other = some t.item := by
      rw [h.others other hother, item?, ht, Option.map_some]
    obtain ⟨u, hu, _⟩ := Option.map_eq_some_iff.1 hitem
    exact ⟨u, hu⟩

/-- A directory has stayed one. -/
theorem exists_directory (h : IsWritten root after names bytes) {other : List Text}
    {entries : List (Text × FileTree)} (ht : root.find? other = some (.directory entries)) :
    ∃ entries', after.find? other = some (.directory entries') := by
  have hroot : root.item? other = some .directory := by
    rw [item?, ht]
    rfl
  have hother : other ≠ names := by
    rintro rfl
    exact h.noDirectory hroot
  have hitem : after.item? other = some .directory := (h.others other hother).trans hroot
  obtain ⟨u, hu, hdirectory⟩ := Option.map_eq_some_iff.1 hitem
  cases u with
  | file bytes => exact absurd hdirectory nofun
  | directory entries' => exact ⟨entries', hu⟩

/-- **A step** leads to the same names afterwards. -/
theorem step_inside (h : IsWritten root after names bytes) {above next : List Text} {t t' u : FileTree}
    {name : Text} (ht : root.find? above = some t) (hu : after.find? above = some u)
    (hstep : step root (.inside above t) name = .ok (.inside next t')) :
    ∃ u', after.find? next = some u' ∧ step after (.inside above u) name = .ok (.inside next u') := by
  obtain ⟨u', hu'⟩ := h.exists_find? (find?_of_step_inside ht hstep)
  refine ⟨u', hu', ?_⟩
  cases t with
  | file bytes => exact absurd hstep nofun
  | directory entries =>
    obtain ⟨entries', hentries'⟩ := h.exists_directory ht
    obtain rfl : u = .directory entries' := Option.some.inj (hu.symm.trans hentries')
    obtain ⟨hup, hidle, hspot⟩ | ⟨_, _, hspot⟩ | ⟨rfl, hne, hspot⟩ | ⟨hup, hidle, hsize, v, _, hspot⟩ :=
      step_inside_cases hstep
    · cases hspot
      rw [step_directory after _ _ hup, if_pos hidle, Option.some.inj (hu.symm.trans hu')]
    · exact absurd hspot nofun
    · cases hspot
      rw [step_up after hne, hu', Option.getD_some]
    · cases hspot
      exact step_down hu hup hidle hsize hu'

/-- **Names that led to a spot** inside lead to the same names afterwards. -/
theorem foldlM_step (h : IsWritten root after names bytes) {above final way : List Text}
    {t t' u : FileTree} (ht : root.find? above = some t) (hu : after.find? above = some u)
    (hrun : way.foldlM (step root) (.inside above t) = .ok (.inside final t')) :
    ∃ u', after.find? final = some u'
      ∧ way.foldlM (step after) (.inside above u) = .ok (.inside final u') := by
  induction way generalizing above t u with
  | nil =>
    cases hrun
    exact ⟨u, hu, rfl⟩
  | cons name way ih =>
    rw [List.foldlM_cons] at hrun
    obtain ⟨spot, hstep, hrun⟩ := bind_eq_ok_iff.1 hrun
    cases spot with
    | outside => exact absurd (foldlM_step_outside hrun) nofun
    | inside next v =>
      obtain ⟨v', hv', hstep'⟩ := h.step_inside ht hu hstep
      rw [List.foldlM_cons, hstep']
      exact ih (find?_of_step_inside ht hstep) hv' hrun

end IsWritten

/-! ## Writing -/

theorem exists_namesOf_eq_concat (path : Text) : ∃ way last, namesOf path = way ++ [last] :=
  ⟨_, _, (List.dropLast_append_getLast (Text.splitOn_ne_nil '/' path)).symm⟩

/-- **A file is written** only into a directory, under a name that a file can have and that is not
the one of a directory. Outside, nothing of it is seen. -/
theorem write_cases {root after : FileTree} {path : Text} {bytes : List UInt8}
    (h : root.write path bytes = .ok after) :
    after = root
      ∨ ∃ way last parents entries, '\x00' ∉ path ∧ path.isEmpty = false ∧ isAbsolute path = false
        ∧ namesOf path = way ++ [last]
        ∧ way.foldlM (step root) (.inside [] root) = .ok (.inside parents (.directory entries))
        ∧ last ≠ ['.', '.'] ∧ ¬ (last.isEmpty || last == ['.']) = true
        ∧ ¬ nameLimit < Utf8.size last
        ∧ (∀ entries', entries.lookup last ≠ some (.directory entries'))
        ∧ after = root.put (parents ++ [last]) (.file bytes) := by
  obtain ⟨way, last, hnames⟩ := exists_namesOf_eq_concat path
  unfold write at h
  simp only [hnames, List.dropLast_concat, List.getLast?_concat, Option.getD_some] at h
  split at h
  next => exact absurd h nofun
  next hnul =>
    split at h
    next => exact absurd h nofun
    next hempty =>
      obtain ⟨spot, hrun, h⟩ := bind_eq_ok_iff.1 h
      match spot with
      | .outside =>
        dsimp only at h
        split at h
        next => exact absurd h nofun
        next => exact .inl (Except.ok.inj h).symm
      | .inside parents (.file _) => exact absurd h nofun
      | .inside parents (.directory entries) =>
        dsimp only at h
        have hrelative : isAbsolute path = false := by
          refine Bool.eq_false_iff.2 fun habsolute => ?_
          rw [if_pos habsolute] at hrun
          exact absurd (foldlM_step_outside hrun) nofun
        rw [hrelative] at hrun
        split at h
        next => exact absurd h nofun
        next hlast =>
          obtain ⟨hidle, hup⟩ := not_or.1 (fun h' => hlast (Bool.or_eq_true_iff.2 h'))
          split at h
          next => exact absurd h nofun
          next hsize =>
            split at h
            next => exact absurd h nofun
            next hfile =>
              exact .inr ⟨way, last, parents, entries, hnul, Bool.eq_false_iff.2 hempty, hrelative,
                hnames, hrun, mt beq_iff_eq.2 hup, hidle, hsize, hfile, (Except.ok.inj h).symm⟩

/-- **Writing a file** changes nothing, or only the one file that the path leads to afterwards. This
file is new, or the path led to it already. -/
theorem write_eq_ok {root after : FileTree} {path : Text} {bytes : List UInt8}
    (h : root.write path bytes = .ok after) :
    after = root
      ∨ ∃ names, IsWritten root after names bytes
        ∧ after.follow path = .ok (.inside names (.file bytes))
        ∧ (root.item? names = none ∨ root.pathExists path = true) := by
  obtain rfl | ⟨way, last, parents, entries, hnul, hempty, hrelative, hnames, hrun, hup, hidle, hsize,
    hlast, rfl⟩ := write_cases h
  · exact .inl rfl
  · have hparents : root.find? parents = some (.directory entries) :=
      find?_of_foldlM_step (t := root) rfl hrun
    have hlookup : root.find? (parents ++ [last]) = entries.lookup last :=
      find?_concat_of_directory hparents last
    have hfollow : ∀ t : FileTree, t.follow path = (way ++ [last]).foldlM (step t) (.inside [] t) := by
      intro t
      rw [follow, if_neg hnul, hempty, hrelative, ← hnames]
      rfl
    have hnone : root.item? (parents ++ [last]) ≠ some .directory := by
      rw [item?, hlookup]
      intro hdirectory
      obtain ⟨u, hu, hitem⟩ := Option.map_eq_some_iff.1 hdirectory
      cases u with
      | file bytes => cases hitem
      | directory entries' => exact hlast entries' hu
    have hwritten := isWritten_put hparents hnone bytes
    refine .inr ⟨_, hwritten, ?_, ?_⟩
    · obtain ⟨entries', hentries'⟩ := hwritten.exists_directory hparents
      obtain ⟨u, hu, hrun'⟩ := hwritten.foldlM_step (t := root) rfl rfl hrun
      obtain rfl : u = .directory entries' := Option.some.inj (hu.symm.trans hentries')
      rw [hfollow, List.foldlM_append, hrun']
      show List.foldlM (step _) _ [last] = _
      rw [List.foldlM_cons, step_down hu hup hidle hsize hwritten.found]
      rfl
    · cases hfound : root.find? (parents ++ [last]) with
      | none => exact .inl (by rw [item?, hfound, Option.map_none])
      | some t =>
        refine .inr ?_
        rw [pathExists, hfollow, List.foldlM_append, hrun]
        show (List.foldlM (step root) _ [last]).isOk = true
        rw [List.foldlM_cons, step_down hparents hup hidle hsize hfound]
        rfl

end FileTree

end InstallerRegistry
