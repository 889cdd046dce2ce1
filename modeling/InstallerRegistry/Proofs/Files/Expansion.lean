import InstallerRegistry.Proofs.Files.Relocation
import Mathlib.Data.Char
import Mathlib.Data.List.Lex
import Mathlib.Data.Prod.Lex

/-!
# Patterns taken from a directory

A relative pattern is put behind the path of the directory that it is taken from, and then it is
followed like any other. As long as the path has no wildcards, its names are looked up one after
another (`Pattern.exists_foldl_literal`), and from there on the pattern is followed as it would be
from the directory itself. So what it matches behind the path mirrors what it matches in the
directory, in the same order (`Pattern.expand_joinPath`).

This holds of patterns that stay inside (`Pattern.StaysInside`). A name that starts with a dot can
also match two dots, and then it leads out of the directory; and an empty name behind single dots is
nothing from the directory itself, but the directory once more from further up.
-/

namespace InstallerRegistry.Pattern

open FileTree (IsFileName)

/-- Can a name of a pattern lead out of the directory? It starts with a dot that is given, and it
matches two dots. -/
def goesUp (name : Text) : Bool :=
  match ofText? name with
  | .ok parts => parts.head? == some (.char '.') && isMatch parts ['.', '.']
  | .error _ => false

/-- A relative pattern that does not lead out of the directory it is taken from: none of its names
goes up, and behind the single dots that it may start with no name is empty. -/
structure StaysInside (t : Text) : Prop where
  relative : FileTree.isAbsolute t = false
  noUp : ∀ name ∈ namesOf t, goesUp name = false
  noEmpty : ((namesOf t).dropWhile (· == ['.'])).head? ≠ some []

instance (t : Text) : Decidable (StaysInside t) :=
  decidable_of_iff (FileTree.isAbsolute t = false ∧ (∀ name ∈ namesOf t, goesUp name = false)
      ∧ ((namesOf t).dropWhile (· == ['.'])).head? ≠ some [])
    ⟨fun ⟨h, h', h''⟩ => ⟨h, h', h''⟩, fun ⟨h, h', h''⟩ => ⟨h, h', h''⟩⟩

theorem isMatch_dots_eq_false {name : Text} (h : goesUp name = false) {parts : List Part}
    (hparts : ofText? name = .ok parts) (hhead : parts.head? = some (.char '.')) :
    isMatch parts ['.', '.'] = false := by
  rw [goesUp, hparts] at h
  simpa [hhead] using h

/-! ## Names of a pattern -/

theorem notMem_of_mem_namesOf {t name : Text} (h : name ∈ namesOf t) : '/' ∉ name := by
  unfold namesOf at h
  dsimp only at h
  split at h
  next => exact Text.notMem_of_mem_splitOn ((List.dropLast_sublist _).subset h)
  next => exact Text.notMem_of_mem_splitOn h

theorem namesOf_append (a t : Text) : namesOf (a ++ '/' :: t) = FileTree.namesOf a ++ namesOf t := by
  have hne : FileTree.namesOf t ≠ [] := Text.splitOn_ne_nil '/' t
  unfold namesOf
  dsimp only
  rw [FileTree.namesOf, Text.splitOn_append_cons]
  show (if (FileTree.namesOf a ++ FileTree.namesOf t).getLast? == some [] then
    (FileTree.namesOf a ++ FileTree.namesOf t).dropLast
    else FileTree.namesOf a ++ FileTree.namesOf t) = _
  rw [List.getLast?_append_of_ne_nil _ hne, List.dropLast_append_of_ne_nil hne]
  split <;> rfl

theorem namesOf_ne_nil {t : Text} (h : t ≠ []) : namesOf t ≠ [] := by
  have hjoin : Text.join ['/'] (FileTree.namesOf t) = t := Text.join_splitOn '/' t
  unfold namesOf
  dsimp only
  split
  next hlast =>
    intro hnil
    obtain ⟨front, hfront⟩ := List.getLast?_eq_some_iff.1 (beq_iff_eq.1 hlast)
    rw [hfront, List.dropLast_concat] at hnil
    rw [hfront, hnil] at hjoin
    exact h hjoin.symm
  next => exact Text.splitOn_ne_nil '/' t

/-! ## Steps of a pattern -/

/-- **The steps of a pattern that stays inside are safe.** The start is left for good with the first
name that is not a single dot, or with any names at all. -/
theorem areSafe_stepsOf {names : List Text} {parts : List (List Part)}
    (h : List.Forall₂ (fun name parts => ofText? name = .ok parts) names parts)
    (hslash : ∀ name ∈ names, '/' ∉ name)
    (hup : ∀ name ∈ names, goesUp name = false) (deep : Bool) {atStart : Bool}
    (hstart : atStart = true → deep = false →
      (names.dropWhile (· == ['.'])).head? ≠ some []) :
    AreSafe atStart (stepsOf deep parts) := by
  induction h generalizing deep atStart with
  | nil => cases deep <;> simp [stepsOf, AreSafe, Step.IsSafe]
  | @cons name parts names rest hname _ ih =>
    obtain ⟨hslash, hslash'⟩ := List.forall_mem_cons.1 hslash
    obtain ⟨hup, hup'⟩ := List.forall_mem_cons.1 hup
    rw [stepsOf]
    split
    next => exact ih hslash' hup' true nofun
    next =>
      cases deep with
      | true => exact ⟨trivial, ih hslash' hup' false (by simp [Step.staysAtStart])⟩
      | false =>
        cases hliteral : literal? parts with
        | none =>
          refine ⟨fun hhead => ⟨?_, isMatch_dots_eq_false hup hname hhead⟩,
            ih hslash' hup' false (by simp [Step.staysAtStart])⟩
          refine Bool.eq_false_iff.2 fun hdot => ?_
          have hdots := isMatch_dots_of_isMatch_dot hhead hliteral hdot
          rw [isMatch_dots_eq_false hup hname hhead] at hdots
          exact absurd hdots Bool.false_ne_true
        | some given =>
          obtain rfl : given = name := eq_of_literal? hname hliteral
          have hdots : given ≠ ['.', '.'] := by
            rintro rfl
            obtain rfl := literal?_eq_some_iff.1 hliteral
            exact absurd (isMatch_dots_eq_false hup hname rfl) (by decide)
          have hne : atStart = true → given ≠ [] := by
            rintro hatStart rfl
            exact hstart hatStart rfl rfl
          refine ⟨⟨hslash, hdots, hne⟩, ih hslash' hup' false fun hstays _ => ?_⟩
          have hrest := hstart (Bool.and_eq_true_iff.1 hstays).1 rfl
          have hdot : (given == ['.']) = true := (Bool.and_eq_true_iff.1 hstays).2
          rwa [List.dropWhile_cons_of_pos (by exact hdot)] at hrest

/-- Literal names at the front of a pattern are looked up. -/
theorem stepsOf_append (d : List Text) (parts : List (List Part)) :
    stepsOf false (d.map (List.map .char) ++ parts) = d.map .literal ++ stepsOf false parts := by
  induction d with
  | nil => rfl
  | cons name d ih =>
    have hnames : (name.map Part.char == [.anyNames]) = false := by
      cases name <;> simp
    rw [List.map_cons, List.cons_append, stepsOf, hnames, literal?_eq_some_iff.2 rfl, ih]
    rfl

/-! ## Looking up the directory -/

/-- The names of a directory lead to one path, which has these names. -/
theorem exists_foldl_literal {root u : FileTree} {d : List Text} (hne : d ≠ [])
    (hnames : ∀ name ∈ d, IsFileName name) (h : root.find? d = some u) :
    ∃ q, FileTree.namesOf q = d ∧ (d.map Step.literal).foldl
      (fun paths step => paths.flatMap (step.from root)) [startPath] = [q] := by
  induction d using List.reverseRecOn generalizing u with
  | nil => exact absurd rfl hne
  | append_singleton d name ih =>
    obtain ⟨hd, hname⟩ := List.forall_mem_append.1 hnames
    have hname := hname name (List.mem_singleton_self name)
    have hgiven : (name == ['.'] || name == ['.', '.']) = false := by
      simpa using ⟨hname.ne_dot, hname.ne_dots⟩
    -- a path that has the names before leads on to the one with this name
    have hstep : ∀ path, FileTree.namesOf (child path name) = d ++ [name] →
        [path].flatMap ((Step.literal name).from root) = [child path name] := by
      intro path hchild
      have hexists : root.pathExists (child path name) = true :=
        FileTree.pathExists_of_find? (by rwa [hchild]) (by rwa [hchild])
      rw [List.flatMap_singleton, Step.from]
      simp [hgiven, hexists]
    cases d with
    | nil =>
      have hchild : FileTree.namesOf (child startPath name) = [] ++ [name] :=
        Text.splitOn_of_notMem hname.noSlash
      exact ⟨child startPath name, hchild, hstep startPath hchild⟩
    | cons first d =>
      rw [FileTree.find?_append] at h
      obtain ⟨t, ht, _⟩ := Option.bind_eq_some_iff.1 h
      obtain ⟨q, hq, hfoldl⟩ := ih (List.cons_ne_nil _ _) hd ht
      have hkey : orderKey q ≠ orderKey startPath := by
        rw [← List.append_nil (first :: d)] at hq
        rw [orderKey_append (List.cons_ne_nil _ _) hd hq, orderKey_startPath]
        exact fun h => absurd (List.cons.inj h).1 (by simp)
      have hlast : (first :: d).getLast? ≠ some [] := fun hlast =>
        (hd [] (List.mem_of_getLast? hlast)).ne_nil rfl
      have hchild : FileTree.namesOf (child q name) = first :: d ++ [name] := by
        rw [Mirrors.child_eq_extend hkey, namesOf_extend q hname.noSlash, hq, namesBehind,
          if_neg hlast]
      refine ⟨child q name, hchild, ?_⟩
      rw [List.map_append, List.foldl_append, hfoldl]
      exact hstep q hchild

/-! ## The order of paths -/

theorem cons_le_cons_iff {α : Type} [LinearOrder α] {a b : α} {s t : List α} :
    a :: s ≤ b :: t ↔ a < b ∨ a = b ∧ s ≤ t := by
  rw [← not_lt, List.cons_lt_cons_iff]
  rcases lt_trichotomy a b with h | rfl | h
  · simp [h, h.not_gt, h.ne']
  · simp
  · simp [h, h.not_gt, h.ne']

theorem textLe_iff {a b : Text} : textLe a b = true ↔ a ≤ b := by
  induction a generalizing b with
  | nil => exact iff_of_true rfl (not_lt.1 (List.not_lt_nil b))
  | cons c a ih =>
    cases b with
    | nil => exact iff_of_false Bool.false_ne_true (not_le.2 (List.nil_lt_cons c a))
    | cons d b => rw [textLe, cons_le_cons_iff, ← ih]; simp

/-- What paths are compared by, as lists of a linear order: first the kind of a name counts, then
its characters. -/
def pathOrder (path : Text) : List (ℕ ×ₗ Text) :=
  (orderKey path).map toLex

theorem keyLe_iff {a b : List (ℕ × Text)} : keyLe a b = true ↔ a.map toLex ≤ b.map toLex := by
  induction a generalizing b with
  | nil => exact iff_of_true rfl (not_lt.1 (List.not_lt_nil _))
  | cons x a ih =>
    obtain ⟨i, s⟩ := x
    cases b with
    | nil => exact iff_of_false Bool.false_ne_true (not_le.2 (List.nil_lt_cons _ _))
    | cons y b =>
      obtain ⟨j, t⟩ := y
      rw [keyLe, List.map_cons, List.map_cons, cons_le_cons_iff, Prod.Lex.toLex_lt_toLex,
        toLex_inj, Prod.mk.injEq, ← ih]
      rcases lt_trichotomy i j with h | rfl | h
      · simp [h]
      · rcases eq_or_ne s t with rfl | hne
        · simp
        · simp [hne, textLe_iff, le_iff_lt_or_eq]
      · simp [h, h.not_gt, h.ne']

/-- **Paths are compared name by name.** -/
theorem pathLe_iff {p q : Text} : pathLe p q = true ↔ pathOrder p ≤ pathOrder q :=
  keyLe_iff

/-- **What a pattern matches is in ascending order.** -/
theorem pairwise_expand {root : FileTree} {t : Text} {paths : List Text}
    (h : expand root t = .ok paths) : paths.Pairwise fun p q => pathOrder p ≤ pathOrder q := by
  obtain ⟨whole, _, h⟩ := bind_eq_ok_iff.1 h
  obtain ⟨parts, _, h⟩ := bind_eq_ok_iff.1 h
  cases h
  simp only [← pathLe_iff]
  refine List.pairwise_mergeSort (fun p q r hpq hqr => ?_) (fun p q => ?_) _
  · rw [pathLe_iff] at hpq hqr ⊢
    exact hpq.trans hqr
  · rw [Bool.or_eq_true, pathLe_iff, pathLe_iff]
    exact le_total _ _

/-! ## Matching -/

/-- What a relative pattern reaches, given the parts of its names, before it is put in order. -/
def reached (root : FileTree) (t : Text) (parts : List (List Part)) : List Text :=
  let found := (stepsOf false parts).foldl
    (fun paths step => paths.flatMap (step.from root)) [startPath]
  if t.getLast? == some '/' then found.filter root.isDirectory else found

theorem expand_nil (root : FileTree) : expand root [] = .ok [] := by
  rw [expand, ofText?, partsFrom]
  show Except.ok (([] : List Text).mergeSort pathLe) = Except.ok []
  rw [List.mergeSort_nil]

theorem expand_eq (root : FileTree) {t : Text} (hrelative : FileTree.isAbsolute t = false)
    (hne : t ≠ []) :
    expand root t = (do
      let _ ← ofText? t
      let parts ← (namesOf t).mapM ofText?
      return (reached root t parts).mergeSort pathLe) := by
  unfold expand
  rw [hrelative]
  cases ofText? t with
  | error e => rfl
  | ok whole =>
    show ((namesOf t).mapM ofText? >>= fun parts => _) = (namesOf t).mapM ofText? >>= fun parts => _
    cases hparts : (namesOf t).mapM ofText? with
    | error e => rfl
    | ok parts =>
      have hempty : parts.isEmpty = false := by
        rw [List.isEmpty_eq_false_iff]
        rintro rfl
        exact namesOf_ne_nil hne (List.forall₂_nil_right_iff.1 (mapM_eq_ok_iff.1 hparts))
      show Except.ok _ = Except.ok _
      rw [hempty]
      rfl

theorem mapM_append_literal {d : List Text} (hd : ∀ name ∈ d, IsLiteral name) (names : List Text) :
    (d ++ names).mapM ofText?
      = (do return d.map (List.map .char) ++ (← names.mapM ofText?)) := by
  induction d with
  | nil =>
    rw [List.nil_append]
    cases names.mapM ofText? <;> rfl
  | cons name d ih =>
    obtain ⟨hname, hd⟩ := List.forall_mem_cons.1 hd
    rw [List.cons_append, List.mapM_cons, ofText?_of_isLiteral hname, ih hd]
    cases names.mapM ofText? <;> rfl

/-- A pattern that ends with a slash matches directories only. -/
theorem isDirectory_of_mem_expand {root : FileTree} {t : Text}
    (hrelative : FileTree.isAbsolute t = false) (hlast : t.getLast? = some '/') {paths : List Text}
    (h : expand root t = .ok paths) : ∀ path ∈ paths, root.isDirectory path = true := by
  have hne : t ≠ [] := by
    rintro rfl
    exact absurd hlast nofun
  rw [expand_eq root hrelative hne] at h
  obtain ⟨_, _, h⟩ := bind_eq_ok_iff.1 h
  obtain ⟨parts, _, h⟩ := bind_eq_ok_iff.1 h
  cases h
  intro path hpath
  rw [List.mem_mergeSort, reached, hlast] at hpath
  exact (List.mem_filter.1 hpath).2

variable {root tree : FileTree} {d : List Text} {t : Text}

theorem namesOf_join (hplaced : root.IsPlacedBelow d tree) :
    FileTree.namesOf (Text.join ['/'] d) = d :=
  Text.splitOn_join hplaced.ne_nil fun name hname => (hplaced.names name hname).noSlash

theorem joinPath_join (hplaced : root.IsPlacedBelow d tree) (ht : FileTree.isAbsolute t = false) :
    joinPath (Text.join ['/'] d) t = Text.join ['/'] d ++ '/' :: t := by
  have hlast : (FileTree.namesOf (Text.join ['/'] d)).getLast? ≠ some [] := by
    rw [namesOf_join hplaced]
    exact fun hlast => (hplaced.names [] (List.mem_of_getLast? hlast)).ne_nil rfl
  rw [joinPath, ht, extend_eq_append hlast]
  rfl

theorem isLiteral_join (hplaced : root.IsPlacedBelow d tree) (hd : ∀ name ∈ d, IsLiteral name) :
    IsLiteral (Text.join ['/'] d) := by
  have hfree : ∀ c, c ≠ '/' → (∀ name ∈ d, c ∉ name) → c ∉ Text.join ['/'] d := by
    intro c hc hnames hmem
    obtain ⟨name, hname, hmem⟩ := (Text.mem_splitOn_iff _).2 ⟨hmem, hc⟩
    have hname : name ∈ FileTree.namesOf (Text.join ['/'] d) := hname
    rw [namesOf_join hplaced] at hname
    exact hnames name hname hmem
  exact ⟨hfree '?' (by decide) fun name hname => (hd name hname).noMark,
    hfree '*' (by decide) fun name hname => (hd name hname).noStar,
    hfree '[' (by decide) fun name hname => (hd name hname).noBracket⟩

theorem isAbsolute_join (hplaced : root.IsPlacedBelow d tree) (t : Text) :
    FileTree.isAbsolute (Text.join ['/'] d ++ '/' :: t) = false := by
  refine FileTree.isAbsolute_eq_false fun hhead => ?_
  obtain ⟨first, rest, rfl⟩ := List.exists_cons_of_ne_nil hplaced.ne_nil
  have hnames : FileTree.namesOf (Text.join ['/'] (first :: rest) ++ '/' :: t)
      = first :: (rest ++ FileTree.namesOf t) := by
    rw [FileTree.namesOf, Text.splitOn_append_cons]
    exact congrArg (· ++ FileTree.namesOf t) (namesOf_join hplaced)
  rw [hnames] at hhead
  exact (hplaced.names first List.mem_cons_self).ne_nil (Option.some.inj hhead)

/-- What is reached behind the path of a directory mirrors what is reached in the directory. -/
theorem forall₂_reached (hplaced : root.IsPlacedBelow d tree) (ht : StaysInside t) (hne : t ≠ [])
    {parts : List (List Part)} (hparts : (namesOf t).mapM ofText? = .ok parts) :
    ∃ atStart, List.Forall₂ (Mirrors d atStart) (reached tree t parts)
      (reached root (Text.join ['/'] d ++ '/' :: t) (d.map (List.map .char) ++ parts)) := by
  have hlast : (Text.join ['/'] d ++ '/' :: t).getLast? = t.getLast? := by
    obtain ⟨c, rest, rfl⟩ := List.exists_cons_of_ne_nil hne
    rw [List.getLast?_append_of_ne_nil _ (List.cons_ne_nil _ _), List.getLast?_cons_cons]
  have hsafe : AreSafe true (stepsOf false parts) :=
    areSafe_stepsOf (mapM_eq_ok_iff.1 hparts) (fun name hname => notMem_of_mem_namesOf hname)
      ht.noUp false fun _ _ => ht.noEmpty
  obtain ⟨q, hq, hfoldl⟩ := exists_foldl_literal hplaced.ne_nil hplaced.names hplaced.found
  have hstart : Mirrors d true startPath q := by
    rw [← List.append_nil d] at hq
    exact .start (n := 0) hq
  obtain ⟨atStart, hfound⟩ := forall₂_mirrors_foldl hplaced (.cons hstart .nil) hsafe
  refine ⟨atStart, ?_⟩
  unfold reached
  rw [hlast, stepsOf_append, List.foldl_append, hfoldl]
  dsimp only
  split
  next =>
    refine List.rel_filter (fun p q hpq => ?_) hfound
    show tree.isDirectory p = true ↔ root.isDirectory q = true
    rw [hpq.isDirectory_eq hplaced]
  next => exact hfound

/-- **What a pattern matches behind the path of a directory** mirrors what it matches in the
directory, in the same order; or it is no pattern, in neither place. -/
theorem expand_joinPath (hplaced : root.IsPlacedBelow d tree) (hd : ∀ name ∈ d, IsLiteral name)
    (ht : StaysInside t) (hne : t ≠ []) :
    (∃ e e', expand tree t = .error e
        ∧ expand root (joinPath (Text.join ['/'] d) t) = .error e')
      ∨ ∃ atStart ps qs, expand tree t = .ok ps
        ∧ expand root (joinPath (Text.join ['/'] d) t) = .ok qs
        ∧ List.Forall₂ (Mirrors d atStart) ps qs := by
  have hnames : namesOf (Text.join ['/'] d ++ '/' :: t) = d ++ namesOf t := by
    rw [namesOf_append, namesOf_join hplaced]
  have hpattern := exists_ofText?_append_iff (t := t) (isLiteral_join hplaced hd)
  rw [joinPath_join hplaced ht.relative, expand_eq tree ht.relative hne,
    expand_eq root (isAbsolute_join hplaced t) (by simp), hnames, mapM_append_literal hd]
  cases hwhole : ofText? t with
  | error e =>
    cases hwhole' : ofText? (Text.join ['/'] d ++ '/' :: t) with
    | error e' => exact .inl ⟨e, e', rfl, rfl⟩
    | ok whole' =>
      obtain ⟨whole, h⟩ := hpattern.1 ⟨whole', hwhole'⟩
      rw [hwhole] at h
      exact absurd h nofun
  | ok whole =>
    obtain ⟨whole', hwhole'⟩ := hpattern.2 ⟨whole, hwhole⟩
    rw [hwhole']
    cases hparts : (namesOf t).mapM ofText? with
    | error e => exact .inl ⟨e, e, rfl, rfl⟩
    | ok parts =>
      obtain ⟨atStart, hreached⟩ := forall₂_reached hplaced ht hne hparts
      exact .inr ⟨atStart, _, _, rfl, rfl, forall₂_mergeSort hreached
        fun p q p' q' h h' => (h.pathLe_eq hplaced h').symm⟩

end InstallerRegistry.Pattern
