import InstallerRegistry.Files.Matching
import InstallerRegistry.Proofs.Except
import InstallerRegistry.Proofs.Text.Cutting

/-!
# Following paths

Where a path leads is decided by its names alone (`FileTree.follow_eq_followNames`). As long as none
of them leads up, what happens on the way is decided by the tree in which it starts, wherever this
tree is (`FileTree.foldlM_step_inside`): the directories around it only count for the names that are
noted down on the way.

All this is about the names a file can have (`FileTree.IsFileName`). What a path is one name further
on is said about its names, too (`Pattern.namesOf_extend`).
-/

namespace InstallerRegistry

namespace FileTree

/-! ## Names of files -/

/-- Can a file have the name? -/
structure IsFileName (name : Text) : Prop where
  ne_nil : name ≠ []
  ne_dot : name ≠ ['.']
  ne_dots : name ≠ ['.', '.']
  noSlash : '/' ∉ name
  noNul : '\x00' ∉ name
  size : Utf8.size name ≤ nameLimit

instance (name : Text) : Decidable (IsFileName name) :=
  decidable_of_iff (name ≠ [] ∧ name ≠ ['.'] ∧ name ≠ ['.', '.'] ∧ '/' ∉ name ∧ '\x00' ∉ name
      ∧ Utf8.size name ≤ nameLimit)
    ⟨fun ⟨h₁, h₂, h₃, h₄, h₅, h₆⟩ => ⟨h₁, h₂, h₃, h₄, h₅, h₆⟩,
      fun ⟨h₁, h₂, h₃, h₄, h₅, h₆⟩ => ⟨h₁, h₂, h₃, h₄, h₅, h₆⟩⟩

/-- Everything in the tree has a name that a file can have. -/
def IsNamed (t : FileTree) : Prop :=
  ∀ names ∈ t.descendants, ∀ name ∈ names, IsFileName name

instance (t : FileTree) : Decidable t.IsNamed :=
  inferInstanceAs (Decidable (∀ names ∈ t.descendants, ∀ name ∈ names, IsFileName name))

theorem mem_descendantsOf {entries : List (Text × FileTree)} {entry : Text × FileTree}
    (h : entry ∈ entries) :
    [entry.1] ∈ descendantsOf entries
      ∧ ∀ names ∈ entry.2.descendants, entry.1 :: names ∈ descendantsOf entries := by
  induction entries with
  | nil => exact absurd h List.not_mem_nil
  | cons first rest ih =>
    rw [descendantsOf]
    simp only [List.mem_append, List.mem_cons, List.mem_map]
    rcases List.mem_cons.1 h with rfl | h
    · exact ⟨.inl (.inl rfl), fun names hnames => .inl (.inr ⟨names, hnames, rfl⟩)⟩
    · exact ⟨.inr (ih h).1, fun names hnames => .inr ((ih h).2 names hnames)⟩

theorem ne_nil_of_mem_descendants {t : FileTree} {names : List Text} (h : names ∈ t.descendants) :
    names ≠ [] := by
  cases t with
  | file bytes => exact absurd h List.not_mem_nil
  | directory entries =>
    rw [descendants] at h
    induction entries with
    | nil => exact absurd h List.not_mem_nil
    | cons first rest ih =>
      rw [descendantsOf] at h
      rcases List.mem_append.1 h with h | h
      · rcases List.mem_cons.1 h with rfl | h
        · exact List.cons_ne_nil _ _
        · obtain ⟨behind, _, rfl⟩ := List.mem_map.1 h
          exact List.cons_ne_nil _ _
      · exact ih h

theorem mem_of_lookup {entries : List (Text × FileTree)} {name : Text} {t : FileTree}
    (h : entries.lookup name = some t) : (name, t) ∈ entries := by
  induction entries with
  | nil => exact absurd h nofun
  | cons first rest ih =>
    obtain ⟨n, u⟩ := first
    rw [List.lookup_cons] at h
    split at h
    next hn =>
      rw [← Option.some.inj h, beq_iff_eq.1 hn]
      exact List.mem_cons_self
    next => exact List.mem_cons_of_mem _ (ih h)

namespace IsNamed

variable {t u : FileTree}

theorem of_entry? (h : t.IsNamed) {name : Text} (hu : t.entry? name = some u) : u.IsNamed := by
  cases t with
  | file bytes => exact absurd hu nofun
  | directory entries =>
    intro names hnames n hn
    exact h _ ((mem_descendantsOf (mem_of_lookup hu)).2 names hnames) n (List.mem_cons_of_mem _ hn)

theorem childNames (h : t.IsNamed) : ∀ name ∈ t.childNames, IsFileName name := by
  cases t with
  | file bytes => exact fun name hname => absurd hname List.not_mem_nil
  | directory entries =>
    intro name hname
    obtain ⟨entry, hentry, rfl⟩ := List.mem_map.1 hname
    exact h _ (mem_descendantsOf hentry).1 _ List.mem_cons_self

end IsNamed

/-! ## Steps and runs -/

theorem step_directory (root : FileTree) (above : List Text) (entries : List (Text × FileTree))
    {name : Text} (h : name ≠ ['.', '.']) :
    step root (.inside above (.directory entries)) name
      = if name.isEmpty || name == ['.'] then .ok (.inside above (.directory entries))
        else if nameLimit < Utf8.size name then .error .nameTooLong
        else
          match entries.lookup name with
          | none => .error .notFound
          | some t => .ok (.inside (above ++ [name]) t) := by
  have hup : ¬ (name == ['.', '.']) = true := by simpa using h
  unfold step
  dsimp only
  exact if_congr Iff.rfl rfl (if_neg hup)

/-- **A step** that does not go up depends only on the tree it starts in: it fails in any case, or it
leads to the tree itself or to one of its entries. -/
theorem step_inside (t : FileTree) {name : Text} (h : name ≠ ['.', '.']) :
    (∃ e, ∀ root above, step root (.inside above t) name = .error e)
      ∨ ∃ more u, (u = t ∨ t.entry? name = some u)
        ∧ ∀ root above, step root (.inside above t) name = .ok (.inside (above ++ more) u) := by
  cases t with
  | file bytes => exact .inl ⟨.notDirectory, fun _ _ => rfl⟩
  | directory entries =>
    simp only [step_directory _ _ entries h]
    split
    next => exact .inr ⟨[], .directory entries, .inl rfl, fun _ _ => by rw [List.append_nil]⟩
    next =>
      split
      next => exact .inl ⟨.nameTooLong, fun _ _ => rfl⟩
      next =>
        cases hlookup : entries.lookup name with
        | none => exact .inl ⟨.notFound, fun _ _ => rfl⟩
        | some u => exact .inr ⟨[name], u, .inr hlookup, fun _ _ => rfl⟩

/-- **A run** that does not go up depends only on the tree it starts in. -/
theorem foldlM_step_inside {t : FileTree} (ht : t.IsNamed) {names : List Text}
    (h : ['.', '.'] ∉ names) :
    (∃ e, ∀ root above, names.foldlM (step root) (.inside above t) = .error e)
      ∨ ∃ more u, u.IsNamed
        ∧ ∀ root above, names.foldlM (step root) (.inside above t) = .ok (.inside (above ++ more) u) := by
  induction names generalizing t with
  | nil => exact .inr ⟨[], t, ht, fun root above => by rw [List.append_nil]; rfl⟩
  | cons name names ih =>
    obtain ⟨hname, hnames⟩ := not_or.1 (fun h' => h (List.mem_cons.2 h'))
    obtain ⟨e, hstep⟩ | ⟨more, u, hu, hstep⟩ := step_inside t (Ne.symm hname)
    · refine .inl ⟨e, fun root above => ?_⟩
      rw [List.foldlM_cons, hstep]
      rfl
    · have hnamed : u.IsNamed := by
        rcases hu with rfl | hu
        · exact ht
        · exact ht.of_entry? hu
      obtain ⟨e, hrun⟩ | ⟨more', u', hu', hrun⟩ := ih hnamed hnames
      · refine .inl ⟨e, fun root above => ?_⟩
        rw [List.foldlM_cons, hstep]
        exact hrun root _
      · refine .inr ⟨more ++ more', u', hu', fun root above => ?_⟩
        rw [List.foldlM_cons, hstep, ← List.append_assoc]
        exact hrun root _

theorem find?_append (t : FileTree) (a b : List Text) :
    t.find? (a ++ b) = (t.find? a).bind fun u => u.find? b := by
  induction a generalizing t with
  | nil => rfl
  | cons name a ih =>
    rw [List.cons_append, find?, find?, Option.bind_assoc]
    exact Option.bind_congr fun u _ => ih u

/-- Names that lead to a tree are followed there. -/
theorem foldlM_step_of_find? {t u : FileTree} {names : List Text}
    (hnames : ∀ name ∈ names, IsFileName name) (h : t.find? names = some u) (root : FileTree)
    (above : List Text) :
    names.foldlM (step root) (.inside above t) = .ok (.inside (above ++ names) u) := by
  induction names generalizing t above with
  | nil =>
    rw [List.append_nil, ← Option.some.inj h]
    rfl
  | cons name names ih =>
    obtain ⟨hname, hnames⟩ := List.forall_mem_cons.1 hnames
    obtain ⟨next, hnext, hu⟩ := Option.bind_eq_some_iff.1 h
    cases t with
    | file bytes => exact absurd hnext nofun
    | directory entries =>
      have hlookup : entries.lookup name = some next := hnext
      have hidle : ¬ (name.isEmpty || name == ['.']) = true := by
        simpa using ⟨hname.ne_nil, hname.ne_dot⟩
      have hsize : ¬ nameLimit < Utf8.size name := Nat.not_lt.2 hname.size
      rw [List.foldlM_cons, step_directory root above entries hname.ne_dots, if_neg hidle,
        if_neg hsize, hlookup]
      have hrun := ih hnames hu (above ++ [name])
      rwa [List.append_assoc] at hrun

/-- Single dots lead nowhere. -/
theorem foldlM_step_dots (root : FileTree) (above : List Text) (entries : List (Text × FileTree))
    (n : Nat) :
    (List.replicate n ['.']).foldlM (step root) (.inside above (.directory entries))
      = .ok (.inside above (.directory entries)) := by
  induction n with
  | zero => rfl
  | succ n ih =>
    rw [List.replicate_succ, List.foldlM_cons]
    exact ih

/-! ## Paths -/

theorem nul_mem_iff (path : Text) :
    '\x00' ∈ path ↔ ∃ name ∈ namesOf path, '\x00' ∈ name := by
  rw [namesOf, Text.mem_splitOn_iff]
  exact ⟨fun h => ⟨h, by decide⟩, fun h => h.1⟩

theorem isAbsolute_eq_false {path : Text} (h : (namesOf path).head? ≠ some []) :
    isAbsolute path = false := by
  cases path with
  | nil => rfl
  | cons c path =>
    refine beq_eq_false_iff_ne.2 fun hc => h ?_
    rw [Option.some.inj hc]
    rfl

/-- **Where a path leads** is decided by its names, if the first of them is not empty. -/
theorem follow_eq_followNames (root : FileTree) {path : Text}
    (h : (namesOf path).head? ≠ some []) :
    root.follow path
      = if '\x00' ∈ path then .error .nulInPath else root.followNames (namesOf path) := by
  have hne : path.isEmpty = false := by
    cases path with
    | nil => exact absurd rfl h
    | cons c path => rfl
  rw [follow, hne, isAbsolute_eq_false h]
  rfl

theorem pathExists_of_find? {root u : FileTree} {path : Text}
    (hnames : ∀ name ∈ namesOf path, IsFileName name) (h : root.find? (namesOf path) = some u) :
    root.pathExists path = true := by
  have hhead : (namesOf path).head? ≠ some [] := fun hhead =>
    (hnames [] (List.mem_of_head? hhead)).ne_nil rfl
  have hnul : '\x00' ∉ path := by
    rw [nul_mem_iff]
    rintro ⟨name, hname, hnul⟩
    exact (hnames name hname).noNul hnul
  rw [pathExists, follow_eq_followNames root hhead, if_neg hnul, followNames,
    foldlM_step_of_find? hnames h root []]
  rfl

end FileTree

namespace Pattern

/-- Behind a path that ends with a name, what comes next stands behind a slash. -/
theorem extend_eq_append {path : Text} (h : (FileTree.namesOf path).getLast? ≠ some [])
    (behind : Text) : extend path behind = path ++ '/' :: behind := by
  induction path using List.reverseRecOn with
  | nil => exact absurd rfl h
  | append_singleton path c _ =>
    have hne : (path ++ [c]).isEmpty = false := by simp
    have hc : c ≠ '/' := by
      rintro rfl
      rw [FileTree.namesOf, Text.splitOn_append_cons] at h
      exact h (by simp [Text.splitOn])
    have hlast : ¬ (some c == some '/') = true := by simpa using hc
    rw [extend, hne, List.getLast?_concat, Bool.false_or, if_neg hlast]

/-- The names of a path that is one name longer. -/
def namesBehind (names : List Text) (name : Text) : List Text :=
  if names.getLast? = some [] then names.dropLast ++ [name] else names ++ [name]

theorem namesBehind_append (a : List Text) {b : List Text} (hb : b ≠ []) (name : Text) :
    namesBehind (a ++ b) name = a ++ namesBehind b name := by
  unfold namesBehind
  rw [List.getLast?_append_of_ne_nil a hb, List.dropLast_append_of_ne_nil hb]
  split <;> rw [List.append_assoc]

theorem exists_namesBehind_cons {first : Text} (h : first ≠ []) (rest : List Text) (name : Text) :
    ∃ rest', namesBehind (first :: rest) name = first :: rest' := by
  cases rest with
  | nil =>
    have hlast : [first].getLast? ≠ some [] := by simpa using h
    exact ⟨[name], if_neg hlast⟩
  | cons second rest => exact ⟨_, namesBehind_append [first] (List.cons_ne_nil second rest) name⟩

theorem mem_namesBehind {names : List Text} {name n : Text} (h : n ∈ namesBehind names name) :
    n ∈ names ∨ n = name := by
  unfold namesBehind at h
  split at h <;> rw [List.mem_append, List.mem_singleton] at h
  next => exact h.imp_left fun hmem => (List.dropLast_sublist names).subset hmem
  next => exact h

theorem namesOf_extend (path : Text) {name : Text} (h : '/' ∉ name) :
    FileTree.namesOf (extend path name) = namesBehind (FileTree.namesOf path) name := by
  have hname : Text.splitOn '/' name = [name] := Text.splitOn_of_notMem h
  unfold extend namesBehind FileTree.namesOf
  induction path using List.reverseRecOn with
  | nil => exact hname
  | append_singleton path c _ =>
    have hne : (path ++ [c]).isEmpty = false := by simp
    rw [hne, List.getLast?_concat, Bool.false_or]
    by_cases hc : c = '/'
    · rw [hc, if_pos (beq_self_eq_true _), List.append_assoc, List.singleton_append,
        Text.splitOn_append_cons, Text.splitOn_append_cons, hname]
      simp [Text.splitOn]
    · have hlast := Text.getLast?_splitOn_concat hc path
      have hc' : ¬ (some c == some '/') = true := by simpa using hc
      rw [if_neg hc', Text.splitOn_append_cons, hname, if_neg hlast]

end Pattern

end InstallerRegistry
