import Mathlib.Data.List.Forall2
import InstallerRegistry.Proofs.Files.Paths
import InstallerRegistry.Proofs.Pattern

/-!
# Directories in other places

What a pattern matches in a directory does not depend on where the directory is. Following the
pattern from the directory itself, and following it behind the path of the directory from further
up, leads through paths that mirror each other (`Pattern.Mirrors`): the one behind the path of the
directory has its names in front, and then the same names. Such paths lead to the same file
(`Pattern.Mirrors.follow`) and are in the same order (`Pattern.Mirrors.pathLe_eq`), and every step
of a pattern leads from paths that mirror each other to such paths again
(`Pattern.Mirrors.forall₂_from`).

The two are not alike as long as nothing but single dots has been followed. Then the path from the
directory itself is a single dot, which is left out before the next name. So a flag says whether
paths may still be at the start; and a step is safe (`Pattern.Step.IsSafe`) if it does not go up,
and does not follow an empty name from the start.
-/

namespace InstallerRegistry

open FileTree (IsFileName)

/-- The directory `tree` is found in another one, behind the names `d`. -/
structure FileTree.IsPlaced (root : FileTree) (d : List Text) (tree : FileTree) : Prop where
  names : ∀ name ∈ d, IsFileName name
  found : root.find? d = some tree
  isDirectory : ∃ entries, tree = .directory entries
  named : tree.IsNamed

/-- The directory `tree` is found in another one that is not itself. -/
structure FileTree.IsPlacedBelow (root : FileTree) (d : List Text) (tree : FileTree) : Prop
    extends root.IsPlaced d tree where
  ne_nil : d ≠ []

namespace Pattern

/-! ## The order of paths -/

theorem keyLe_append (a b c : List (Nat × Text)) : keyLe (a ++ b) (a ++ c) = keyLe b c := by
  induction a with
  | nil => rfl
  | cons x a ih =>
    rw [List.cons_append, List.cons_append, keyLe, if_neg (Nat.lt_irrefl _), if_neg (Nat.lt_irrefl _),
      if_pos (beq_self_eq_true _), ih]

theorem orderKey_of_namesOf {path first : Text} {rest : List Text}
    (h : FileTree.namesOf path = first :: rest) (hne : first ≠ []) (hdot : first ≠ ['.']) :
    orderKey path = (first :: rest).filterMap (rank false) := by
  have hfirst : rank true first = rank false first := by
    simp [rank, hne, hdot]
  rw [orderKey, h]
  dsimp only
  rw [hfirst, List.filterMap_cons]
  cases rank false first <;> rfl

theorem rank_of_isFileName {name : Text} (h : IsFileName name) : rank false name = some (3, name) := by
  simp [rank, h.ne_nil, h.ne_dot, h.ne_dots]

theorem orderKey_append {d rest : List Text} (hne : d ≠ []) (hd : ∀ name ∈ d, IsFileName name)
    {path : Text} (h : FileTree.namesOf path = d ++ rest) :
    orderKey path = d.map (fun name => (3, name)) ++ rest.filterMap (rank false) := by
  have hkeys : d.filterMap (rank false) = d.map fun name => (3, name) := by
    rw [← List.filterMap_eq_map]
    exact List.filterMap_congr fun name hname => rank_of_isFileName (hd name hname)
  obtain ⟨first, others, rfl⟩ := List.exists_cons_of_ne_nil hne
  obtain ⟨hfirst, _⟩ := List.forall_mem_cons.1 hd
  have hnames : FileTree.namesOf path = first :: (others ++ rest) := h
  rw [orderKey_of_namesOf hnames hfirst.ne_nil hfirst.ne_dot, ← hkeys, ← List.cons_append,
    List.filterMap_append]

theorem filterMap_rank_dots (n : Nat) (rest : List Text) :
    (List.replicate n ['.'] ++ rest).filterMap (rank false) = rest.filterMap (rank false) := by
  induction n with
  | zero => rfl
  | succ n ih =>
    rw [List.replicate_succ, List.cons_append, List.filterMap_cons]
    exact ih

theorem orderKey_startPath : orderKey startPath = [(1, [])] := by
  decide

/-! ## Paths that mirror each other -/

/-- The path `q` is the path `p` from a directory, seen from where the directory has the names `d`.
If the paths may be at the start, `p` may be the directory itself. -/
inductive Mirrors (d : List Text) : Bool → Text → Text → Prop
  | start {n : Nat} {q : Text} (hq : FileTree.namesOf q = d ++ List.replicate n ['.']) :
      Mirrors d true startPath q
  | inside {atStart : Bool} {n : Nat} {p q first : Text} {rest : List Text}
      (hp : FileTree.namesOf p = first :: rest) (hne : first ≠ []) (hdot : first ≠ ['.'])
      (hup : ['.', '.'] ∉ FileTree.namesOf p)
      (hq : FileTree.namesOf q = d ++ (List.replicate n ['.'] ++ FileTree.namesOf p)) :
      Mirrors d atStart p q

namespace Mirrors

variable {root tree : FileTree} {d : List Text} {atStart atStart' : Bool} {p q p' q' name : Text}

/-- The key of a path inside starts with a name. -/
theorem orderKey_eq_cons {first : Text} {rest : List Text}
    (hp : FileTree.namesOf p = first :: rest) (hne : first ≠ []) (hdot : first ≠ ['.'])
    (hup : ['.', '.'] ∉ FileTree.namesOf p) :
    orderKey p = (3, first) :: rest.filterMap (rank false) := by
  have hdots : first ≠ ['.', '.'] := fun h => hup (by rw [hp, h]; exact List.mem_cons_self)
  have hrank : rank false first = some (3, first) := by simp [rank, hne, hdot, hdots]
  rw [orderKey_of_namesOf hp hne hdot, List.filterMap_cons, hrank]

/-- The order among paths that mirror each other is that of what is behind the directory; for the
directory itself, this is nothing. -/
theorem exists_orderKey (hplaced : root.IsPlacedBelow d tree) (h : Mirrors d atStart p q) :
    ∃ key, orderKey q = d.map (fun name => (3, name)) ++ key
      ∧ (orderKey p = [(1, [])] ∧ key = []
        ∨ ∃ first rest, orderKey p = (3, first) :: rest ∧ key = (3, first) :: rest) := by
  cases h with
  | start hq =>
    refine ⟨[], ?_, .inl ⟨orderKey_startPath, rfl⟩⟩
    rw [orderKey_append hplaced.ne_nil hplaced.names hq, ← List.append_nil (List.replicate _ _),
      filterMap_rank_dots]
    rfl
  | inside hp hne hdot hup hq =>
    have hkey := orderKey_eq_cons hp hne hdot hup
    refine ⟨orderKey p, ?_, .inr ⟨_, _, hkey, hkey⟩⟩
    rw [orderKey_append hplaced.ne_nil hplaced.names hq, filterMap_rank_dots, hp,
      orderKey_of_namesOf hp hne hdot]

/-- **Paths that mirror each other are in the same order.** -/
theorem pathLe_eq (hplaced : root.IsPlacedBelow d tree) (h : Mirrors d atStart p q)
    (h' : Mirrors d atStart' p' q') : pathLe q q' = pathLe p p' := by
  obtain ⟨key, hq, hp⟩ := h.exists_orderKey hplaced
  obtain ⟨key', hq', hp'⟩ := h'.exists_orderKey hplaced
  rw [pathLe, pathLe, hq, hq', keyLe_append]
  obtain ⟨hp, rfl⟩ | ⟨first, rest, hp, rfl⟩ := hp <;>
    obtain ⟨hp', rfl⟩ | ⟨first', rest', hp', rfl⟩ := hp' <;> rw [hp, hp'] <;> rfl

/-! ### Going on -/

theorem orderKey_ne (hplaced : root.IsPlacedBelow d tree) (h : Mirrors d atStart p q) :
    orderKey q ≠ orderKey startPath := by
  obtain ⟨key, hq, _⟩ := h.exists_orderKey hplaced
  obtain ⟨first, rest, hd⟩ := List.exists_cons_of_ne_nil hplaced.ne_nil
  rw [hq, hd, orderKey_startPath]
  exact fun h => absurd (List.cons.inj h).1 (by simp)

theorem child_eq_extend {path : Text} (h : orderKey path ≠ orderKey startPath) (name : Text) :
    child path name = extend path name :=
  if_neg (by simpa using h)

/-- **One name on**, paths still mirror each other; they are at the start only if they were, and if
the name is a single dot. -/
theorem child (hplaced : root.IsPlacedBelow d tree) (h : Mirrors d atStart p q) (hslash : '/' ∉ name)
    (hup : name ≠ ['.', '.']) (hne : atStart = true → name ≠ []) :
    Mirrors d (atStart && name == ['.']) (child p name) (child q name) := by
  rw [child_eq_extend (h.orderKey_ne hplaced)]
  cases h with
  | @start n q hq =>
    have hchild : Pattern.child startPath name = name := if_pos (beq_self_eq_true _)
    have hlast : (d ++ List.replicate n ['.']).getLast? ≠ some [] := by
      intro hlast
      rcases List.mem_append.1 (List.mem_of_getLast? hlast) with hmem | hmem
      · exact (hplaced.names [] hmem).ne_nil rfl
      · exact absurd (List.eq_of_mem_replicate hmem) nofun
    have hnames : FileTree.namesOf (extend q name) = d ++ (List.replicate n ['.'] ++ [name]) := by
      rw [namesOf_extend q hslash, hq, namesBehind, if_neg hlast, List.append_assoc]
    rw [hchild, Bool.true_and]
    by_cases hdot : name = ['.']
    · subst hdot
      rw [beq_self_eq_true]
      rw [← List.replicate_succ'] at hnames
      exact .start hnames
    · have hname : FileTree.namesOf name = [name] := Text.splitOn_of_notMem hslash
      rw [← hname] at hnames
      exact .inside hname (hne rfl) hdot (by simpa [hname] using Ne.symm hup) hnames
  | @inside _ n p q first rest hp hfirst hdot hup' hq =>
    have hkey : orderKey p ≠ orderKey startPath := by
      rw [orderKey_eq_cons hp hfirst hdot hup', orderKey_startPath]
      exact fun h => absurd (List.cons.inj h).1 (by simp)
    have hnames := namesOf_extend p hslash
    obtain ⟨rest', hrest'⟩ := exists_namesBehind_cons hfirst rest name
    have hup'' : ['.', '.'] ∉ FileTree.namesOf (extend p name) := by
      rw [hnames]
      intro hmem
      rcases mem_namesBehind hmem with hmem | hmem
      · exact hup' hmem
      · exact hup hmem.symm
    have hne' : FileTree.namesOf p ≠ [] := by
      rw [hp]
      exact List.cons_ne_nil _ _
    rw [child_eq_extend hkey]
    have hq' : FileTree.namesOf (extend q name)
        = d ++ (List.replicate n ['.'] ++ FileTree.namesOf (extend p name)) := by
      rw [namesOf_extend q hslash, hq, hnames, ← List.append_assoc, namesBehind_append _ hne',
        List.append_assoc]
    exact .inside (by rw [hnames, hp, hrest']) hfirst hdot hup'' hq'

/-- Below a name that a file can have, paths are no longer at the start. -/
theorem child_of_isFileName (hplaced : root.IsPlacedBelow d tree) (h : Mirrors d atStart p q)
    (hname : IsFileName name) : Mirrors d false (Pattern.child p name) (Pattern.child q name) := by
  have hchild := h.child hplaced hname.noSlash hname.ne_dots fun _ => hname.ne_nil
  rwa [beq_eq_false_iff_ne.2 hname.ne_dot, Bool.and_false] at hchild

theorem foldl_child (hplaced : root.IsPlacedBelow d tree) {names : List Text}
    (h : Mirrors d atStart p q) (hnames : ∀ name ∈ names, IsFileName name) (hne : names ≠ []) :
    Mirrors d false (names.foldl Pattern.child p) (names.foldl Pattern.child q) := by
  induction names generalizing atStart p q with
  | nil => exact absurd rfl hne
  | cons name names ih =>
    obtain ⟨hname, hnames⟩ := List.forall_mem_cons.1 hnames
    have hchild := h.child_of_isFileName hplaced hname
    cases names with
    | nil => exact hchild
    | cons next names => exact ih hchild hnames (List.cons_ne_nil _ _)

/-! ### Where the paths lead -/

/-- What is behind the directory, and nothing else, decides where a path with its names in front
leads. -/
theorem follow_eq (hplaced : root.IsPlacedBelow d tree) {n : Nat} {rest : List Text}
    (hq : FileTree.namesOf q = d ++ (List.replicate n ['.'] ++ rest)) :
    ('\x00' ∈ q ↔ ∃ name ∈ rest, '\x00' ∈ name)
      ∧ root.follow q = if '\x00' ∈ q then .error .nulInPath
        else rest.foldlM (FileTree.step root) (.inside d tree) := by
  obtain ⟨entries, htree⟩ := hplaced.isDirectory
  have hd : d.foldlM (FileTree.step root) (.inside [] root) = .ok (.inside d tree) :=
    FileTree.foldlM_step_of_find? hplaced.names hplaced.found root []
  have hhead : (FileTree.namesOf q).head? ≠ some [] := by
    obtain ⟨first, others, hfirst⟩ := List.exists_cons_of_ne_nil hplaced.ne_nil
    have hne := (hplaced.names first (by rw [hfirst]; exact List.mem_cons_self)).ne_nil
    rw [hq, hfirst]
    simpa using hne
  have hrun : root.followNames (FileTree.namesOf q)
      = rest.foldlM (FileTree.step root) (.inside d tree) := by
    rw [FileTree.followNames, hq, List.foldlM_append, hd, htree]
    show (List.replicate n ['.'] ++ rest).foldlM (FileTree.step root) _ = _
    rw [List.foldlM_append, FileTree.foldlM_step_dots]
    rfl
  refine ⟨?_, by rw [FileTree.follow_eq_followNames root hhead, hrun]⟩
  rw [FileTree.nul_mem_iff, hq]
  constructor
  · rintro ⟨name, hname, hnul⟩
    rcases List.mem_append.1 hname with hname | hname
    · exact absurd hnul (hplaced.names name hname).noNul
    · rcases List.mem_append.1 hname with hname | hname
      · rw [List.eq_of_mem_replicate hname] at hnul
        exact absurd hnul (by decide)
      · exact ⟨name, hname, hnul⟩
  · rintro ⟨name, hname, hnul⟩
    exact ⟨name, List.mem_append_right _ (List.mem_append_right _ hname), hnul⟩

/-- **Paths that mirror each other lead to the same**, or to nothing for the same reason. -/
theorem follow (hplaced : root.IsPlacedBelow d tree) (h : Mirrors d atStart p q) :
    (∃ e, tree.follow p = .error e ∧ root.follow q = .error e)
      ∨ ∃ names u, u.IsNamed ∧ tree.follow p = .ok (.inside names u)
        ∧ root.follow q = .ok (.inside (d ++ names) u) := by
  cases h with
  | @start n q hq =>
    obtain ⟨entries, htree⟩ := hplaced.isDirectory
    rw [← List.append_nil (List.replicate _ _)] at hq
    obtain ⟨hnul, hfollow⟩ := follow_eq hplaced hq
    have hfree : '\x00' ∉ q := fun h => by simpa using hnul.1 h
    refine .inr ⟨[], tree, hplaced.named, ?_, ?_⟩
    · rw [htree]
      rfl
    · rw [hfollow, if_neg hfree, List.append_nil]
      rfl
  | @inside _ n p q first rest hp hne hdot hup hq =>
    obtain ⟨hnul, hfollow⟩ := follow_eq hplaced hq
    have hhead : (FileTree.namesOf p).head? ≠ some [] := by
      rw [hp]
      simpa using hne
    rw [← FileTree.nul_mem_iff] at hnul
    rw [hfollow, FileTree.follow_eq_followNames tree hhead]
    by_cases hp' : '\x00' ∈ p
    · rw [if_pos hp', if_pos (hnul.2 hp')]
      exact .inl ⟨_, rfl, rfl⟩
    · rw [if_neg hp', if_neg (mt hnul.1 hp')]
      obtain ⟨e, hrun⟩ | ⟨names, u, hu, hrun⟩ := FileTree.foldlM_step_inside hplaced.named hup
      · exact .inl ⟨e, hrun tree [], hrun root d⟩
      · exact .inr ⟨names, u, hu, hrun tree [], hrun root d⟩

theorem pathExists_eq (hplaced : root.IsPlacedBelow d tree) (h : Mirrors d atStart p q) :
    root.pathExists q = tree.pathExists p := by
  unfold FileTree.pathExists
  rcases h.follow hplaced with ⟨e, hp, hq⟩ | ⟨names, u, _, hp, hq⟩ <;> rw [hp, hq]
  rfl

theorem isDirectory_eq (hplaced : root.IsPlacedBelow d tree) (h : Mirrors d atStart p q) :
    root.isDirectory q = tree.isDirectory p := by
  unfold FileTree.isDirectory
  rcases h.follow hplaced with ⟨e, hp, hq⟩ | ⟨names, u, _, hp, hq⟩
  · rw [hp, hq]
  · rw [hp, hq]
    cases u <;> rfl

theorem read_eq (hplaced : root.IsPlacedBelow d tree) (h : Mirrors d atStart p q) :
    root.read q = tree.read p := by
  unfold FileTree.read
  rcases h.follow hplaced with ⟨e, hp, hq⟩ | ⟨names, u, _, hp, hq⟩
  · rw [hp, hq]
  · rw [hp, hq]
    cases u <;> rfl

theorem contents_eq (hplaced : root.IsPlacedBelow d tree) (h : Mirrors d atStart p q) :
    root.contents q = tree.contents p ∧ (tree.contents p).IsNamed := by
  unfold FileTree.contents
  rcases h.follow hplaced with ⟨e, hp, hq⟩ | ⟨names, u, hu, hp, hq⟩
  · rw [hp, hq]
    exact ⟨rfl, fun names hnames => absurd hnames List.not_mem_nil⟩
  · rw [hp, hq]
    exact ⟨rfl, hu⟩

end Mirrors

/-! ## Steps -/

/-- A step that can be taken in any place: it does not go up, and does not follow an empty name from
the start. -/
def Step.IsSafe (atStart : Bool) : Step → Prop
  | .literal given => '/' ∉ given ∧ given ≠ ['.', '.'] ∧ (atStart = true → given ≠ [])
  | .name parts => parts.head? = some (.char '.') →
      isMatch parts ['.'] = false ∧ isMatch parts ['.', '.'] = false
  | .deepName _ => True
  | .deep => True

/-- Does the step lead from the start to the start again? -/
def Step.staysAtStart : Step → Bool
  | .literal given => given == ['.']
  | .name _ => false
  | .deepName _ => false
  | .deep => false

/-- Steps that can be taken one after another in any place. -/
def AreSafe : Bool → List Step → Prop
  | _, [] => True
  | atStart, step :: rest => step.IsSafe atStart ∧ AreSafe (atStart && step.staysAtStart) rest

namespace Mirrors

variable {root tree : FileTree} {d : List Text} {atStart : Bool} {p q : Text}

theorem forall₂_foldl_child (hplaced : root.IsPlacedBelow d tree) (h : Mirrors d atStart p q)
    {l : List (List Text)} (hl : ∀ names ∈ l, names ≠ [] ∧ ∀ name ∈ names, IsFileName name) :
    List.Forall₂ (Mirrors d false) (l.map (·.foldl Pattern.child p))
      (l.map (·.foldl Pattern.child q)) := by
  rw [List.forall₂_map_left_iff, List.forall₂_map_right_iff, List.forall₂_same]
  intro names hnames
  exact h.foldl_child hplaced (hl names hnames).2 (hl names hnames).1

/-- **A safe step** leads from paths that mirror each other to such paths, one by one. -/
theorem forall₂_from (hplaced : root.IsPlacedBelow d tree) (h : Mirrors d atStart p q) {step : Step}
    (hsafe : step.IsSafe atStart) :
    List.Forall₂ (Mirrors d (atStart && step.staysAtStart)) (step.from tree p)
      (step.from root q) := by
  obtain ⟨hcontents, hnamed⟩ := h.contents_eq hplaced
  have hdescendants : ∀ names ∈ (tree.contents p).descendants,
      names ≠ [] ∧ ∀ name ∈ names, IsFileName name := fun names hnames =>
    ⟨FileTree.ne_nil_of_mem_descendants hnames, hnamed names hnames⟩
  cases step with
  | literal given =>
    obtain ⟨hslash, hup, hne⟩ := hsafe
    have hnext := h.child hplaced hslash hup hne
    unfold Step.from
    dsimp only
    rw [h.isDirectory_eq hplaced, hnext.pathExists_eq hplaced]
    generalize (if given == ['.'] || given == ['.', '.'] then tree.isDirectory p
      else tree.pathExists (Pattern.child p given)) = there
    cases there with
    | true => exact .cons hnext .nil
    | false => exact .nil
  | name parts =>
    have hspecials : ∀ there : Bool, (if parts.head? == some (.char '.') && there then
        [['.'], ['.', '.']].filter (isMatch parts) else []) = [] := by
      intro there
      split
      next hhead =>
        obtain ⟨hdot, hdots⟩ := hsafe (by simpa using (Bool.and_eq_true_iff.1 hhead).1)
        simp [hdot, hdots]
      next => rfl
    have hnames : List.Forall₂ (Mirrors d false)
        (((tree.contents p).childNames.filter (isMatch parts)).map (Pattern.child p))
        (((tree.contents p).childNames.filter (isMatch parts)).map (Pattern.child q)) := by
      rw [List.forall₂_map_left_iff, List.forall₂_map_right_iff, List.forall₂_same]
      intro name hname
      exact h.child_of_isFileName hplaced (hnamed.childNames name (List.mem_of_mem_filter hname))
    unfold Step.from
    dsimp only
    rw [hcontents, hspecials, hspecials, Step.staysAtStart, Bool.and_false, List.map_nil,
      List.map_nil, List.append_nil, List.append_nil]
    exact hnames
  | deepName parts =>
    unfold Step.from
    dsimp only
    rw [hcontents, Step.staysAtStart, Bool.and_false]
    exact h.forall₂_foldl_child hplaced fun names hnames =>
      hdescendants names (List.mem_of_mem_filter hnames)
  | deep =>
    have hpaths := h.forall₂_foldl_child hplaced hdescendants
    unfold Step.from
    dsimp only
    rw [hcontents, Step.staysAtStart, Bool.and_false]
    refine List.rel_filter (fun p q hpq => ?_) hpaths
    show tree.isDirectory p = true ↔ root.isDirectory q = true
    rw [hpq.isDirectory_eq hplaced]

end Mirrors

variable {root tree : FileTree} {d : List Text} {atStart : Bool}

/-- **Safe steps one after another** lead from paths that mirror each other to such paths. -/
theorem forall₂_mirrors_foldl (hplaced : root.IsPlacedBelow d tree) {steps : List Step}
    {ps qs : List Text} (h : List.Forall₂ (Mirrors d atStart) ps qs)
    (hsafe : AreSafe atStart steps) :
    ∃ atStart', List.Forall₂ (Mirrors d atStart')
      (steps.foldl (fun paths step => paths.flatMap (step.from tree)) ps)
      (steps.foldl (fun paths step => paths.flatMap (step.from root)) qs) := by
  induction steps generalizing atStart ps qs with
  | nil => exact ⟨atStart, h⟩
  | cons step steps ih =>
    obtain ⟨hstep, hsteps⟩ := hsafe
    exact ih (List.rel_flatMap h fun p q hpq => hpq.forall₂_from hplaced hstep) hsteps

end Pattern

end InstallerRegistry
