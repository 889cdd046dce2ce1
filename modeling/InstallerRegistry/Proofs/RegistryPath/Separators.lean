import InstallerRegistry.Proofs.RegistryPath
import Mathlib.Data.List.TakeWhile

/-!
# Separators of a path

A path is read by the name that it starts with and what stands behind this name
(`RegistryPath.parse_eq`). Every key that is read is normal, and a path that is written for a normal
key is read as this key, so reading and writing settle after one turn
(`RegistryPath.parse_normalForm`).

Separators at the end of a path do not count, and neither do those in front of a key. But a path
that starts with a separator starts with an empty name, which is that of no hive: the name of a hive
behind it is part of the key, under the current user (`RegistryPath.parse_surrounded_iff`).
-/

namespace InstallerRegistry.RegistryPath

/-! ## The name a path starts with -/

/-- Does the character stand between names? -/
def isSeparator (c : Char) : Bool :=
  c == '/' || c == '\\'

/-- The name that a path starts with. -/
def firstName (path : Text) : Text :=
  path.takeWhile fun c => !isSeparator c

/-- What stands behind the first name of a path, from the separator on. -/
def behindFirstName (path : Text) : Text :=
  path.dropWhile fun c => !isSeparator c

/-- Does a path start with the name of a hive, or with one that looks like one? -/
def StartsWithHive (path : Text) : Prop :=
  Hive.ofName? (firstName path) ≠ none ∨ looksLikeHive (firstName path) = true

instance (path : Text) : Decidable (StartsWithHive path) :=
  inferInstanceAs (Decidable (_ ∨ _))

theorem firstName_append_behindFirstName (path : Text) :
    firstName path ++ behindFirstName path = path :=
  List.takeWhile_append_dropWhile

theorem isSeparator_of_mem_firstName {path : Text} :
    ∀ c ∈ firstName path, isSeparator c = false := by
  intro c h
  simpa using List.mem_takeWhile_imp h

theorem backslash_notMem_firstName (path : Text) : '\\' ∉ firstName path :=
  fun h => absurd (isSeparator_of_mem_firstName _ h) (by decide)

/-- Behind the first name there is nothing, or a separator. -/
theorem isSeparator_of_mem_head? (path : Text) :
    ∀ c ∈ (behindFirstName path).head?, isSeparator c = true := by
  intro c hc
  have hhead := List.head?_dropWhile_not (fun c => !isSeparator c) path
  rw [← behindFirstName, hc] at hhead
  simpa using hhead

/-- The first name ends where the first separator stands. -/
theorem firstName_append {first behind : Text} (hfirst : ∀ c ∈ first, isSeparator c = false)
    (hbehind : ∀ c ∈ behind.head?, isSeparator c = true) :
    firstName (first ++ behind) = first ∧ behindFirstName (first ++ behind) = behind := by
  have hname : ∀ c ∈ first, (!isSeparator c) = true := fun c hc => by rw [hfirst c hc]; rfl
  have hstop : ∀ c ∈ behind.head?, (!isSeparator c) = false := fun c hc => by
    rw [hbehind c hc]; rfl
  exact Text.span_append hname hstop

theorem normalize_append (a b : Text) : normalize (a ++ b) = normalize a ++ normalize b :=
  List.map_append

theorem normalize_cons_of_isSeparator {c : Char} (h : isSeparator c = true) (rest : Text) :
    normalize (c :: rest) = '\\' :: normalize rest := by
  rcases Bool.or_eq_true_iff.1 h with h | h <;> rw [beq_iff_eq.1 h] <;> rfl

theorem eq_backslash_of_mem_normalize {a : Text} (ha : ∀ c ∈ a, isSeparator c = true) :
    ∀ c ∈ normalize a, (c == '\\') = true := by
  induction a with
  | nil => exact nofun
  | cons c a ih =>
    obtain ⟨hc, ha⟩ := List.forall_mem_cons.1 ha
    rw [normalize_cons_of_isSeparator hc]
    exact List.forall_mem_cons.2 ⟨rfl, ih ha⟩

/-- Separators around a key do not count. -/
theorem trim_normalize_surrounded {a b : Text} (ha : ∀ c ∈ a, isSeparator c = true)
    (hb : ∀ c ∈ b, isSeparator c = true) (key : Text) :
    trim (normalize (a ++ key ++ b)) = trim (normalize key) := by
  rw [normalize_append, normalize_append]
  exact Text.dropAround_margins (eq_backslash_of_mem_normalize ha)
    (eq_backslash_of_mem_normalize hb)

/-- The first name of a path has no slash to be changed. -/
theorem normalize_eq (path : Text) :
    normalize path = firstName path ++ normalize (behindFirstName path) := by
  have hfirst : normalize (firstName path) = firstName path :=
    normalize_eq_self fun h => absurd (isSeparator_of_mem_firstName _ h) (by decide)
  calc normalize path
      = normalize (firstName path ++ behindFirstName path) := by
        rw [firstName_append_behindFirstName]
    _ = normalize (firstName path) ++ normalize (behindFirstName path) := normalize_append _ _
    _ = firstName path ++ normalize (behindFirstName path) := by rw [hfirst]

/-- **A path is read by its first name**: that of a hive leads to what stands behind it, one that
only looks like one leads nowhere, and with any other the path is a key of the current user. -/
theorem parse_eq (path : Text) :
    parse path = match Hive.ofName? (firstName path) with
      | some hive => .ok (hive, trim (normalize (behindFirstName path)))
      | none =>
        if looksLikeHive (firstName path) then
          .error (.configuration (.unknownHive (firstName path)))
        else .ok (.currentUser, trim (normalize path)) := by
  have hcut : ∃ rest, (Text.cut? '\\' (normalize path)).getD (normalize path, [])
      = (firstName path, rest) ∧ trim rest = trim (normalize (behindFirstName path)) := by
    rw [normalize_eq]
    cases h : behindFirstName path with
    | nil =>
      refine ⟨[], ?_, rfl⟩
      rw [normalize, List.map_nil, List.append_nil,
        Text.cut?_of_notMem (backslash_notMem_firstName path)]
      rfl
    | cons c rest =>
      have hc : isSeparator c = true := isSeparator_of_mem_head? path c (by rw [h]; rfl)
      rw [normalize_cons_of_isSeparator hc, Text.cut?_append (backslash_notMem_firstName path)]
      exact ⟨normalize rest, rfl, rfl⟩
  obtain ⟨rest, hcut, htrim⟩ := hcut
  rw [parse]
  dsimp only
  rw [hcut]
  cases Hive.ofName? (firstName path) with
  | some hive => exact congrArg (fun key => Except.ok (hive, key)) htrim
  | none => rfl

/-! ## Normal keys -/

/-- **Every key that is read is normal.** -/
theorem isNormal_of_parse {path key : Text} {hive : Hive} (h : parse path = .ok (hive, key)) :
    IsNormal key := by
  rw [parse_eq] at h
  split at h
  next =>
    cases h
    exact isNormal_trim_normalize _
  next =>
    split at h
    next => cases h
    next =>
      cases h
      exact isNormal_trim_normalize _

/-- **Keys that are written are read again**: a key that a path leads to is normal, and the path of
an entry leads to the hive and the key of the entry exactly if the key is normal. -/
theorem parse_normalForm :
    (∀ path hive key, parse path = .ok (hive, key) → IsNormal key
        ∧ ∀ e : Entry, e.hive = hive → e.key = key → parse e.path = .ok (hive, key))
      ∧ ∀ e : Entry, parse e.path = .ok (e.hive, e.key) ↔ IsNormal e.key := by
  have hpath : ∀ e : Entry, parse e.path = .ok (e.hive, e.key) ↔ IsNormal e.key := by
    intro e
    rw [Entry.path, parse_pathOf, Except.ok.injEq, Prod.mk.injEq, and_iff_right rfl]
    exact trim_normalize_eq_self_iff
  refine ⟨fun path hive key h => ⟨isNormal_of_parse h, ?_⟩, hpath⟩
  rintro e rfl rfl
  exact (hpath e).2 (isNormal_of_parse h)

/-- A key of the current user that could be taken for one of another hive is read and written, and
so is one of the current configuration whose first name only looks like that of a hive. -/
theorem parse_normalForm_nested :
    (parse "\\HKLM/a\\".toList = .ok (.currentUser, "HKLM\\a".toList)
      ∧ IsNormal "HKLM\\a".toList
      ∧ parse (Entry.path { hive := .currentUser, key := "HKLM\\a".toList, name := [] })
        = .ok (.currentUser, "HKLM\\a".toList))
      ∧ IsNormal "HKXX\\a".toList
      ∧ parse (Entry.path { hive := .currentConfig, key := "HKXX\\a".toList, name := [] })
        = .ok (.currentConfig, "HKXX\\a".toList) := by
  have hread : parse "\\HKLM/a\\".toList = .ok (.currentUser, "HKLM\\a".toList) := by rfl
  have hnormal : IsNormal "HKXX\\a".toList := by decide
  obtain ⟨hkey, hagain⟩ := parse_normalForm.1 _ _ _ hread
  exact ⟨⟨hread, hkey, hagain _ rfl rfl⟩, hnormal, (parse_normalForm.2 _).2 hnormal⟩

/-! ## Separators around a path -/

section Surrounded

variable {a b : Text}

/-- Separators at the end of a path do not count. -/
theorem parse_append_separators (hb : ∀ c ∈ b, isSeparator c = true) (path : Text) :
    parse (path ++ b) = parse path := by
  have hpath : path ++ b = firstName path ++ (behindFirstName path ++ b) := by
    rw [← List.append_assoc, firstName_append_behindFirstName]
  have hhead : ∀ c ∈ (behindFirstName path ++ b).head?, isSeparator c = true := by
    cases h : behindFirstName path with
    | nil => exact fun c hc => hb c (List.mem_of_mem_head? hc)
    | cons c rest =>
      rintro _ ⟨⟩
      exact isSeparator_of_mem_head? path c (by rw [h]; rfl)
  obtain ⟨hfirst, hbehind⟩ := firstName_append isSeparator_of_mem_firstName hhead
  have htrim : ∀ t, trim (normalize (t ++ b)) = trim (normalize t) :=
    trim_normalize_surrounded (a := []) nofun hb
  rw [parse_eq (path ++ b), htrim, hpath, hfirst, hbehind, htrim, ← parse_eq]

/-- **A separator in front leads to the current user**, whatever stands behind it. -/
theorem parse_separators_append (ha : ∀ c ∈ a, isSeparator c = true) (hne : a ≠ [])
    (path : Text) : parse (a ++ path) = .ok (.currentUser, trim (normalize path)) := by
  have hhead : ∀ c ∈ (a ++ path).head?, isSeparator c = true := by
    obtain ⟨c, a, rfl⟩ := List.exists_cons_of_ne_nil hne
    rintro _ ⟨⟩
    exact ha c List.mem_cons_self
  have hnone : ∀ c ∈ ([] : Text), isSeparator c = false := nofun
  have hfirst : firstName (a ++ path) = [] := (firstName_append hnone hhead).1
  have htrim := trim_normalize_surrounded (b := []) ha nofun path
  rw [List.append_nil] at htrim
  rw [parse_eq, hfirst, htrim]
  rfl

/-- A first name stays in front of a key. -/
theorem trim_normalize_behindFirstName_ne {path : Text} (h : firstName path ≠ []) :
    trim (normalize (behindFirstName path)) ≠ trim (normalize path) := by
  -- trimming takes away backslashes only, and there are none in the name
  intro heq
  have hname : ∀ c ∈ firstName path, (!(c == '\\')) = true := by
    intro c hc
    rw [Bool.not_eq_true', beq_eq_false_iff_ne]
    exact fun hslash => backslash_notMem_firstName path (hslash ▸ hc)
  have hkept := congrArg (List.filter fun c => !(c == '\\')) heq
  rw [trim, trim, Text.filter_dropAround, Text.filter_dropAround, normalize_eq path,
    List.filter_append, List.filter_eq_self.2 hname] at hkept
  exact h (List.self_eq_append_left.1 hkept)

/-- A path is that of a key of the current user unless it starts with a hive. -/
theorem parse_eq_currentUser_iff (path : Text) :
    parse path = .ok (.currentUser, trim (normalize path)) ↔ ¬ StartsWithHive path := by
  rw [parse_eq, StartsWithHive]
  cases hname : Hive.ofName? (firstName path) with
  | some hive =>
    have hne : firstName path ≠ [] := fun h => by
      rw [h] at hname
      exact absurd hname nofun
    refine iff_of_false (fun h => ?_) fun h => h (.inl nofun)
    exact trim_normalize_behindFirstName_ne hne (Prod.mk.inj (Except.ok.inj h)).2
  | none =>
    dsimp only
    split
    next h => exact iff_of_false nofun fun h' => h' (.inr h)
    next h => exact iff_of_true rfl fun h' => h'.elim (fun hnone => hnone rfl) h

/-- **Separators around a path do not count** unless they stand in front of the name of a hive, or
of one that looks like one: with any separator in front, a path leads to the current user. -/
theorem parse_surrounded_iff (ha : ∀ c ∈ a, isSeparator c = true)
    (hb : ∀ c ∈ b, isSeparator c = true) (path : Text) :
    (parse (a ++ path ++ b) = parse path ↔ a = [] ∨ ¬ StartsWithHive path)
      ∧ (a ≠ [] → parse (a ++ path ++ b) = .ok (.currentUser, trim (normalize path))) := by
  rw [parse_append_separators hb]
  refine ⟨?_, fun hne => parse_separators_append ha hne path⟩
  by_cases hne : a = []
  · rw [hne, List.nil_append]
    exact iff_of_true rfl (.inl rfl)
  · rw [parse_separators_append ha hne, eq_comm, parse_eq_currentUser_iff, or_iff_right hne]

end Surrounded

/-- A path of the current user with separators around it, one of each kind in front, leads where it
leads without them. -/
theorem parse_surrounded_iff_ofUser :
    (∀ c ∈ "/\\".toList, isSeparator c = true) ∧ (∀ c ∈ "\\".toList, isSeparator c = true)
      ∧ ¬ StartsWithHive "Users2/HKLM".toList ∧ "/\\".toList ≠ []
      ∧ parse ("/\\".toList ++ "Users2/HKLM".toList ++ "\\".toList)
        = parse "Users2/HKLM".toList
      ∧ parse ("/\\".toList ++ "Users2/HKLM".toList ++ "\\".toList)
        = .ok (.currentUser, trim (normalize "Users2/HKLM".toList)) := by
  have ha : ∀ c ∈ "/\\".toList, isSeparator c = true := List.all_eq_true.1 rfl
  have hb : ∀ c ∈ "\\".toList, isSeparator c = true := List.all_eq_true.1 rfl
  have hpath : ¬ StartsWithHive "Users2/HKLM".toList := by decide
  have hne : "/\\".toList ≠ [] := by decide
  obtain ⟨hiff, huser⟩ := parse_surrounded_iff ha hb "Users2/HKLM".toList
  exact ⟨ha, hb, hpath, hne, hiff.2 (.inr hpath), huser hne⟩

/-- **A slash in front of a hive counts**: the key is looked for under another hive. -/
theorem parse_slashedHive_ne :
    (∀ c ∈ "/".toList, isSeparator c = true) ∧ (∀ c ∈ ([] : Text), isSeparator c = true)
      ∧ parse "HKLM/X".toList = .ok (.localMachine, "X".toList)
      ∧ parse ("/".toList ++ "HKLM/X".toList ++ []) = .ok (.currentUser, "HKLM\\X".toList)
      ∧ parse ("/".toList ++ "HKLM/X".toList ++ []) ≠ parse "HKLM/X".toList := by
  have hread : parse "HKLM/X".toList = .ok (.localMachine, "X".toList) := rfl
  have hslashed : parse ("/".toList ++ "HKLM/X".toList ++ [])
      = .ok (.currentUser, "HKLM\\X".toList) := rfl
  exact ⟨List.all_eq_true.1 rfl, nofun, hread, hslashed, by rw [hread, hslashed]; exact nofun⟩

end InstallerRegistry.RegistryPath
