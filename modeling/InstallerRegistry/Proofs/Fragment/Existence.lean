import InstallerRegistry.Fragment
import InstallerRegistry.Proofs.Component.Choice

/-!
# When there is a fragment

A manifest has a fragment with some entries exactly if each of its properties can be searched for,
each of the entries can be written, and the identifiers that entries bring can be used
(`Manifest.exists_fragmentOf_iff`). Of these, only the last depends on the order of the entries.

So for entries that can be written, distinct identifiers are what it takes for some order of them to
have a fragment, but not for every order (`Manifest.exists_fragmentOf_iff_of_isWritable`): an
identifier that is derived early does not give way to one that is brought later.
-/

namespace InstallerRegistry

/-- Can the installer search for the value of the property? Its key has to lead to a hive that an
installer knows. -/
def Property.IsSearchable (p : Property) : Prop :=
  ∃ hive key, RegistryPath.parse p.key = .ok (hive, key) ∧ hive ≠ .currentConfig

theorem Property.exists_toXml_iff {p : Property} : (∃ x, p.toXml = .ok x) ↔ p.IsSearchable := by
  constructor
  · rintro ⟨x, h⟩
    obtain ⟨⟨hive, key⟩, hparse, h⟩ := bind_eq_ok_iff.1 h
    refine ⟨hive, key, hparse, ?_⟩
    rintro rfl
    exact absurd h nofun
  · rintro ⟨hive, key, hparse, hhive⟩
    obtain ⟨root, hroot⟩ := Hive.exists_installerRoot?_iff.2 hhive
    rw [toXml, hparse]
    dsimp only [bind, Except.bind]
    rw [hroot]
    exact ⟨_, rfl⟩

namespace Manifest

/-- **There is a fragment** if the properties can be searched for, the entries can be written, and
the identifiers they bring are distinct and none of them has been derived before. -/
theorem exists_fragmentOf_iff {m : Manifest} {entries : List Entry} :
    (∃ doc, m.fragmentOf entries = .ok doc)
      ↔ (∀ p ∈ m.properties, p.IsSearchable) ∧ (∀ e ∈ entries, e.IsWritable)
        ∧ Entry.HaveDistinctIds entries ∧ Entry.NoneDerivedBefore entries := by
  have hproperties : (∃ xs, m.properties.mapM Property.toXml = .ok xs)
      ↔ ∀ p ∈ m.properties, p.IsSearchable := by
    rw [exists_mapM_eq_ok_iff]
    exact forall₂_congr fun p _ => Property.exists_toXml_iff
  rw [← hproperties, ← Component.exists_list_iff]
  constructor
  · rintro ⟨doc, h⟩
    obtain ⟨tree, htree, _⟩ := bind_eq_ok_iff.1 h
    obtain ⟨xs, hxs, htree⟩ := bind_eq_ok_iff.1 htree
    obtain ⟨cs, hcs, _⟩ := bind_eq_ok_iff.1 htree
    exact ⟨⟨xs, hxs⟩, ⟨cs, hcs⟩⟩
  · rintro ⟨⟨xs, hxs⟩, ⟨cs, hcs⟩⟩
    have htree : m.treeOf entries = .ok (m.root xs cs) :=
      bind_eq_ok_iff.2 ⟨xs, hxs, bind_eq_ok_iff.2 ⟨cs, hcs, rfl⟩⟩
    exact ⟨_, bind_eq_ok_iff.2 ⟨_, htree, rfl⟩⟩

/-- **Entries that can be written have a fragment** exactly if their own identifiers are distinct
and none of them has been derived before. They are distinct exactly if the entries have a fragment
in some order. -/
theorem exists_fragmentOf_iff_of_isWritable {m : Manifest} (hm : m.properties = [])
    {entries : List Entry} (h : ∀ e ∈ entries, e.IsWritable) :
    ((∃ doc, m.fragmentOf entries = .ok doc)
        ↔ Entry.HaveDistinctIds entries ∧ Entry.NoneDerivedBefore entries)
      ∧ (Entry.HaveDistinctIds entries
        ↔ ∃ entries', entries'.Perm entries ∧ ∃ doc, m.fragmentOf entries' = .ok doc) := by
  have hproperties : ∀ p ∈ m.properties, p.IsSearchable := by
    rw [hm]
    exact fun p hp => absurd hp List.not_mem_nil
  refine ⟨?_, fun hdistinct => ?_, ?_⟩
  · rw [exists_fragmentOf_iff]
    exact ⟨fun h' => h'.2.2, fun h' => ⟨hproperties, h, h'⟩⟩
  · have hperm := Entry.explicitFirst_perm entries
    exact ⟨_, hperm, exists_fragmentOf_iff.2 ⟨hproperties, fun e he => h e (hperm.subset he),
      hdistinct.perm hperm, Entry.noneDerivedBefore_explicitFirst entries⟩⟩
  · rintro ⟨entries', hperm, hdoc⟩
    exact (exists_fragmentOf_iff.1 hdoc).2.2.1.perm hperm.symm

/-- An entry that brings no identifier, and one that brings the identifier derived for it. -/
def lateEntries : List Entry :=
  [{ name := ['A'], value := some (.text ['a']) },
    { id := some "RegValue_A".toList, name := ['X'], value := some (.text ['x']) }]

theorem isWritable_lateEntries : ∀ e ∈ lateEntries, e.IsWritable := by
  simp only [lateEntries, List.forall_mem_cons]
  exact ⟨⟨nofun, nofun⟩, ⟨nofun, nofun⟩, nofun⟩

theorem exists_fragmentOf_iff_lateEntries :
    (∀ e ∈ lateEntries, e.IsWritable)
      ∧ ((∃ doc, fragmentOf {} lateEntries = .ok doc)
          ↔ Entry.HaveDistinctIds lateEntries ∧ Entry.NoneDerivedBefore lateEntries)
      ∧ (Entry.HaveDistinctIds lateEntries
        ↔ ∃ entries', entries'.Perm lateEntries ∧ ∃ doc, fragmentOf {} entries' = .ok doc) :=
  ⟨isWritable_lateEntries, exists_fragmentOf_iff_of_isWritable rfl isWritable_lateEntries⟩

/-- **Distinct identifiers are not enough in every order**: the one that is brought late has been
derived before, while in the other order the derived one gives way. -/
theorem fragmentOf_lateEntries_eq_error :
    (∀ e ∈ lateEntries, e.IsWritable) ∧ Entry.HaveDistinctIds lateEntries
      ∧ fragmentOf {} lateEntries = .error (.configuration (.duplicateId "RegValue_A".toList))
      ∧ ∃ doc, fragmentOf {} lateEntries.reverse = .ok doc := by
  have hdistinct : Entry.HaveDistinctIds lateEntries := by
    refine ⟨?_, by decide⟩
    simp only [lateEntries, List.forall_mem_cons]
    exact ⟨nofun, by decide, nofun⟩
  exact ⟨isWritable_lateEntries, hdistinct, rfl, ⟨_, rfl⟩⟩

end Manifest

end InstallerRegistry
