import InstallerRegistry.Command.Run
import InstallerRegistry.Proofs.Fragment.Existence

/-!
# What a valid manifest still lacks

Validating a manifest succeeds exactly if it can be loaded, its entries can be made, and each of
them can be written (`Command.validated_eq_ok_iff`). Generating its fragment takes more: the
properties have to lead to hives that an installer knows, and the identifiers that entries bring
have to be usable. Nothing else is missing, so these two conditions tell which manifests that are
reported as valid have a fragment (`Command.exitCode_generate_eq_zero_iff`).
-/

namespace InstallerRegistry.Command

open FileTree (parentPath)

/-! ## Success -/

theorem Outcome.exitCode_ofResult_eq_zero_iff {root : FileTree} {r : Result} :
    (Outcome.ofResult root r).exitCode = 0 ↔ ∃ a, r = .ok a := by
  cases r with
  | error f => exact ⟨fun h => absurd (show (1 : UInt8) = 0 from h) (by decide), nofun⟩
  | ok a => exact ⟨fun _ => ⟨a, rfl⟩, fun _ => rfl⟩

theorem load_eq_ok_iff {root : FileTree} {path : Text} {m : Manifest} :
    load root path = .ok m ↔ Manifest.ofFile root path = .ok m :=
  mapError_eq_ok_iff

theorem checkEntry_eq_ok_iff {e : Entry} : checkEntry e = .ok () ↔ e.IsWritable := by
  constructor
  · intro h
    obtain ⟨v, hvalue, h⟩ := bind_eq_ok_iff.1 h
    obtain ⟨root, hroot, _⟩ := bind_eq_ok_iff.1 h
    exact ⟨Entry.exists_setValue_iff.1 ⟨v, hvalue⟩, Entry.exists_root_iff.1 ⟨root, hroot⟩⟩
  · rintro ⟨hvalue, hhive⟩
    obtain ⟨v, hvalue⟩ := Entry.exists_setValue_iff.2 hvalue
    obtain ⟨root, hroot⟩ := Entry.exists_root_iff.2 hhive
    exact bind_eq_ok_iff.2 ⟨v, hvalue, bind_eq_ok_iff.2 ⟨root, hroot, rfl⟩⟩

/-- **A manifest is valid** if it can be loaded, and its entries can be made and written. -/
theorem validated_eq_ok_iff {root : FileTree} {path : Text} {m : Manifest} {entries : List Entry} :
    validated root path = .ok (m, entries)
      ↔ Manifest.ofFile root path = .ok m
        ∧ (∃ c, m.contents root (parentPath path) = .ok c ∧ c.entries = entries)
        ∧ ∀ e ∈ entries, e.IsWritable := by
  have hchecked : ∀ es : List Entry, orFail (es.forM checkEntry) = .ok ()
      ↔ ∀ e ∈ es, e.IsWritable := by
    intro es
    rw [orFail, mapError_eq_ok_iff, forM_eq_ok_iff]
    exact forall₂_congr fun e _ => checkEntry_eq_ok_iff
  constructor
  · intro h
    obtain ⟨m', hm, h⟩ := bind_eq_ok_iff.1 h
    obtain ⟨c, hc, h⟩ := bind_eq_ok_iff.1 h
    obtain ⟨_, hentries, h⟩ := bind_eq_ok_iff.1 h
    cases h
    exact ⟨load_eq_ok_iff.1 hm, ⟨c, mapError_eq_ok_iff.1 hc, rfl⟩, (hchecked _).1 hentries⟩
  · rintro ⟨hm, ⟨c, hc, rfl⟩, hentries⟩
    exact bind_eq_ok_iff.2 ⟨m, load_eq_ok_iff.2 hm, bind_eq_ok_iff.2 ⟨c, mapError_eq_ok_iff.2 hc,
      bind_eq_ok_iff.2 ⟨(), (hchecked _).2 hentries, rfl⟩⟩⟩

theorem exitCode_validate_eq_zero_iff {root : FileTree} {path : Text} {verbose : Bool} :
    (outcome root (.validate path verbose)).exitCode = 0
      ↔ ∃ m entries, validated root path = .ok (m, entries) := by
  show (runValidate root path verbose).exitCode = 0 ↔ _
  unfold runValidate
  cases validated root path with
  | error f => exact ⟨fun h => absurd (show (1 : UInt8) = 0 from h) (by decide), nofun⟩
  | ok a => exact ⟨fun _ => ⟨a.1, a.2, rfl⟩, fun _ => rfl⟩

theorem runGenerate_eq_ok_iff {root : FileTree} {path : Text} {r : Text × FileTree} :
    runGenerate root path none = .ok r
      ↔ ∃ m doc, Manifest.ofFile root path = .ok m
        ∧ m.generate root (parentPath path) = .ok doc ∧ r = (doc, root) := by
  constructor
  · intro h
    obtain ⟨m, hm, h⟩ := bind_eq_ok_iff.1 h
    obtain ⟨doc, hdoc, h⟩ := bind_eq_ok_iff.1 h
    exact ⟨m, doc, load_eq_ok_iff.1 hm, mapError_eq_ok_iff.1 hdoc, (Except.ok.inj h).symm⟩
  · rintro ⟨m, doc, hm, hdoc, rfl⟩
    exact bind_eq_ok_iff.2 ⟨m, load_eq_ok_iff.2 hm,
      bind_eq_ok_iff.2 ⟨doc, mapError_eq_ok_iff.2 hdoc, rfl⟩⟩

theorem exists_runGenerate_iff {root : FileTree} {path : Text} :
    (∃ r, runGenerate root path none = .ok r)
      ↔ ∃ m doc, Manifest.ofFile root path = .ok m
        ∧ m.generate root (parentPath path) = .ok doc := by
  simp only [runGenerate_eq_ok_iff]
  exact ⟨fun ⟨_, m, doc, hm, hdoc, _⟩ => ⟨m, doc, hm, hdoc⟩,
    fun ⟨m, doc, hm, hdoc⟩ => ⟨_, m, doc, hm, hdoc, rfl⟩⟩

/-- **What a valid manifest needs to have a fragment**: properties that can be searched for, and
identifiers that are distinct and have not been derived before they are brought. -/
theorem exitCode_generate_eq_zero_iff {root : FileTree} {path : Text} {verbose : Bool}
    (h : (outcome root (.validate path verbose)).exitCode = 0) :
    ∃ m c, Manifest.ofFile root path = .ok m ∧ m.contents root (parentPath path) = .ok c
      ∧ ((outcome root (.generate path none)).exitCode = 0
        ↔ (∀ p ∈ m.properties, p.IsSearchable)
          ∧ Entry.HaveDistinctIds c.entries ∧ Entry.NoneDerivedBefore c.entries) := by
  obtain ⟨m, entries, hvalid⟩ := exitCode_validate_eq_zero_iff.1 h
  obtain ⟨hm, ⟨c, hc, rfl⟩, hwritable⟩ := validated_eq_ok_iff.1 hvalid
  refine ⟨m, c, hm, hc, ?_⟩
  have hgenerate : (∃ r, runGenerate root path none = .ok r)
      ↔ ∃ doc, m.fragmentOf c.entries = .ok doc := by
    rw [exists_runGenerate_iff]
    constructor
    · rintro ⟨m', doc, hm', hdoc⟩
      obtain rfl : m = m' := Except.ok.inj (hm.symm.trans hm')
      obtain ⟨c', hc', hdoc⟩ := bind_eq_ok_iff.1 hdoc
      obtain rfl : c = c' := Except.ok.inj (hc.symm.trans hc')
      exact ⟨doc, hdoc⟩
    · rintro ⟨doc, hdoc⟩
      exact ⟨m, doc, hm, bind_eq_ok_iff.2 ⟨c, hc, hdoc⟩⟩
  show (Outcome.ofResult root (runGenerate root path none)).exitCode = 0 ↔ _
  rw [Outcome.exitCode_ofResult_eq_zero_iff, hgenerate, Manifest.exists_fragmentOf_iff]
  exact ⟨fun ⟨hproperties, _, hids⟩ => ⟨hproperties, hids⟩,
    fun ⟨hproperties, hids⟩ => ⟨hproperties, hwritable, hids⟩⟩

/-- A directory with a manifest file. -/
def filesWith (manifest : String) : FileTree :=
  .directory [("m".toList, .file (Utf8.encode manifest.toList))]

/-- A manifest with an identifier that looks like a derived one, and with a property. -/
def searchingFiles : FileTree :=
  filesWith ("registry:\n- key: HKCU/a\n  values:\n    A: x\n    B:\n      value: y\n"
    ++ "      id: RegValue_A_2\nproperties:\n- id: P\n  key: HKLM/a\n")

/-- It is valid, so these conditions tell whether it has a fragment. -/
theorem exitCode_generate_eq_zero_iff_searchingFiles :
    (outcome searchingFiles (.validate ['m'] false)).exitCode = 0
      ∧ ∃ m c, Manifest.ofFile searchingFiles ['m'] = .ok m
        ∧ m.contents searchingFiles (parentPath ['m']) = .ok c
        ∧ ((outcome searchingFiles (.generate ['m'] none)).exitCode = 0
          ↔ (∀ p ∈ m.properties, p.IsSearchable)
            ∧ Entry.HaveDistinctIds c.entries ∧ Entry.NoneDerivedBefore c.entries) := by
  have h : (outcome searchingFiles (.validate ['m'] false)).exitCode = 0 := by decide +kernel
  exact ⟨h, exitCode_generate_eq_zero_iff h⟩

/-- A manifest with a property under the current configuration. -/
def unsearchableFiles : FileTree :=
  filesWith "properties:\n- id: P\n  key: HKCC/a\n"

/-- **A valid manifest may have no fragment**: nothing has looked at its property. -/
theorem exitCode_generate_unsearchableFiles_ne_zero :
    (outcome unsearchableFiles (.validate ['m'] false)).exitCode = 0
      ∧ (outcome unsearchableFiles (.generate ['m'] none)).exitCode ≠ 0 := by
  decide +kernel

end InstallerRegistry.Command
