import InstallerRegistry.Text.UpperCase

/-!
# Hives

The registry is a handful of trees, its **hives**. A hive has a short name, a long name and a bare
one; in a registry path and in an export they are recognised in any mixture of cases
(`Hive.ofName?`), in the spelling of a manifest only as they are given here (`Hive.ofSpelling?`).

An installer writes to every hive but one: the current configuration is not among the roots its
database knows.
-/

namespace InstallerRegistry

/-- The root of the tree an entry is written under. -/
inductive Hive where
  | currentUser
  | localMachine
  | classesRoot
  | users
  | currentConfig
deriving DecidableEq, Repr

namespace Hive

/-- The hive of an entry that names none. -/
instance : Inhabited Hive := ⟨currentUser⟩

/-- Every hive. -/
def all : List Hive :=
  [currentUser, localMachine, classesRoot, users, currentConfig]

/-- The short name, which manifests and listings use. -/
def shortName : Hive → Text
  | currentUser => "HKCU".toList
  | localMachine => "HKLM".toList
  | classesRoot => "HKCR".toList
  | users => "HKU".toList
  | currentConfig => "HKCC".toList

/-- The long name, which exports use. -/
def longName : Hive → Text
  | currentUser => "HKEY_CURRENT_USER".toList
  | localMachine => "HKEY_LOCAL_MACHINE".toList
  | classesRoot => "HKEY_CLASSES_ROOT".toList
  | users => "HKEY_USERS".toList
  | currentConfig => "HKEY_CURRENT_CONFIG".toList

/-- The name without the letters that mark it as a hive. -/
def bareName : Hive → Text
  | currentUser => "CurrentUser".toList
  | localMachine => "LocalMachine".toList
  | classesRoot => "ClassesRoot".toList
  | users => "Users".toList
  | currentConfig => "CurrentConfig".toList

/-- The names of a hive. -/
def names (h : Hive) : List Text :=
  [h.shortName, h.longName, h.bareName]

/-- The hive of a name, whatever the case of its letters. -/
def ofName? (t : Text) : Option Hive :=
  let t := Text.upperCase t
  all.find? fun h => h.names.any fun name => Text.upperCase name == t

/-- The hive of a name in its own spelling. -/
def ofSpelling? (t : Text) : Option Hive :=
  all.find? fun h => h.names.contains t

/-- The root that an installer writes the hive under. -/
def installerRoot? : Hive → Option Text
  | currentConfig => none
  | h => some h.shortName

theorem mem_all (h : Hive) : h ∈ all := by
  cases h <;> decide

/-- An installer writes to every hive but the current configuration, and names it by its short
name. -/
theorem installerRoot?_eq_some_iff {h : Hive} {root : Text} :
    h.installerRoot? = some root ↔ h ≠ currentConfig ∧ root = h.shortName := by
  cases h <;> simp [installerRoot?, eq_comm]

theorem exists_installerRoot?_iff {h : Hive} :
    (∃ root, h.installerRoot? = some root) ↔ h ≠ currentConfig := by
  simp [installerRoot?_eq_some_iff]

/-- No two hives have a name in common, whatever the case of its letters. -/
theorem eq_of_upperCase_eq {h h' : Hive} {name name' : Text} (hname : name ∈ h.names)
    (hname' : name' ∈ h'.names) (heq : Text.upperCase name = Text.upperCase name') : h = h' := by
  have hdistinct : ∀ h ∈ all, ∀ h' ∈ all, ∀ name ∈ h.names, ∀ name' ∈ h'.names,
      Text.upperCase name = Text.upperCase name' → h = h' := by decide
  exact hdistinct h h.mem_all h' h'.mem_all name hname name' hname' heq

theorem eq_of_shortName_eq {h h' : Hive} (heq : h.shortName = h'.shortName) : h = h' :=
  eq_of_upperCase_eq List.mem_cons_self List.mem_cons_self (congrArg Text.upperCase heq)

/-- **A text is recognised as a hive** exactly if it is one of the hive's names, in any case. -/
theorem ofName?_eq_some_iff {h : Hive} {t : Text} :
    ofName? t = some h ↔ ∃ name ∈ h.names, Text.upperCase name = Text.upperCase t := by
  have hnamed : ∀ {h : Hive}, ofName? t = some h →
      ∃ name ∈ h.names, Text.upperCase name = Text.upperCase t := by
    intro h hfind
    have hany := List.find?_some (p := fun h : Hive =>
      h.names.any fun name => Text.upperCase name == Text.upperCase t) hfind
    simpa using hany
  refine ⟨hnamed, ?_⟩
  rintro ⟨name, hname, heq⟩
  cases hfind : ofName? t with
  | none =>
    have hnone : ∀ name ∈ h.names, Text.upperCase name ≠ Text.upperCase t := by
      simpa using List.find?_eq_none.1 hfind h h.mem_all
    exact absurd heq (hnone name hname)
  | some h' =>
    obtain ⟨name', hname', heq'⟩ := hnamed hfind
    rw [eq_of_upperCase_eq hname' hname (heq'.trans heq.symm)]

/-- Every name of a hive is recognised as its own. -/
theorem ofName?_of_mem_names {h : Hive} {t : Text} (ht : t ∈ h.names) : ofName? t = some h :=
  ofName?_eq_some_iff.2 ⟨t, ht, rfl⟩

end Hive

end InstallerRegistry
