import InstallerRegistry.Manifest.Check
import InstallerRegistry.Proofs.Except
import Mathlib.Data.List.Nodup

/-!
# The first fault of a manifest

What can be wrong with a manifest is wrong at a place: in one of the groups of things that are
checked one after another, and there with one of its elements (`Manifest.HasFault`). A manifest
without a fault is well formed (`Manifest.IsWellFormed`), which says nothing about places, and of
any faults the one that is reported is the first in the first group that has one
(`Manifest.check_outcome`).

Two of the groups are looked along with the identifiers of the elements before in mind. What is kept
in mind there is only which identifiers they have, and so the fault is one of the element and those
before it in the list (`error_iff_of_distinct`).
-/

namespace InstallerRegistry

/-! ## Well-formed manifests and faults -/

namespace Manifest

/-- Is the feature one that something may be installed with? -/
def Knows (m : Manifest) (feature : Text) : Prop :=
  feature = defaultFeature ∨ feature ∈ m.features.map Feature.id

/-- A **well-formed** manifest: nothing that is needed is empty, no two features and no two
properties have one identifier, and everything is installed with a feature that is known. -/
structure IsWellFormed (m : Manifest) : Prop where
  fragment : m.fragment ≠ []
  directory : m.directory ≠ []
  featureIds : ∀ f ∈ m.features, f.id ≠ []
  featuresDiffer : (m.features.map Feature.id).Nodup
  blockFeatures : ∀ b ∈ m.registry, ∀ feature ∈ b.feature, m.Knows feature
  exportFeatures : ∀ e ∈ m.exportFiles, ∀ feature ∈ e.feature, m.Knows feature
  blockKeys : ∀ b ∈ m.registry, b.key ≠ []
  exportPaths : ∀ e ∈ m.exportFiles, e.path ≠ []
  propertyIds : ∀ p ∈ m.properties, p.id ≠ []
  propertyKeys : ∀ p ∈ m.properties, p.key ≠ []
  propertiesDiffer : (m.properties.map Property.id).Nodup
  conditions : ∀ c ∈ m.launchConditions, c.condition ≠ []
  messages : ∀ c ∈ m.launchConditions, c.message ≠ []

/-- **The faults of a manifest**, by the group of the element that is at fault and its position in
this group. The groups are the names of the fragment (0), the features (1), the features that blocks
(2) and export files (3) are installed with, the keys of the blocks (4), the paths of the export
files (5), the properties (6) and the launch conditions (7). -/
inductive HasFault (m : Manifest) : ℕ → ℕ → RegistryError → Prop
  | fragment : m.fragment = [] → HasFault m 0 0 (.missingField .fragment)
  | directory : m.directory = [] → HasFault m 0 1 (.missingField .directory)
  | featureId {i f} : m.features[i]? = some f → f.id = [] →
      HasFault m 1 i (.missingField .featureId)
  | sameFeature {i f} : m.features[i]? = some f → f.id ≠ [] →
      f.id ∈ (m.features.take i).map Feature.id →
      HasFault m 1 i (.configuration (.duplicateFeature f.id))
  | blockFeature {i b feature} : m.registry[i]? = some b → b.feature = some feature →
      ¬ m.Knows feature → HasFault m 2 i (.unknownFeature feature)
  | exportFeature {i e feature} : m.exportFiles[i]? = some e → e.feature = some feature →
      ¬ m.Knows feature → HasFault m 3 i (.unknownFeature feature)
  | blockKey {i b} : m.registry[i]? = some b → b.key = [] →
      HasFault m 4 i (.missingField .registryKey)
  | exportPath {i e} : m.exportFiles[i]? = some e → e.path = [] →
      HasFault m 5 i (.missingField .exportPath)
  | propertyId {i p} : m.properties[i]? = some p → p.id = [] →
      HasFault m 6 i (.missingField .propertyId)
  | propertyKey {i p} : m.properties[i]? = some p → p.id ≠ [] → p.key = [] →
      HasFault m 6 i (.missingField .propertyKey)
  | sameProperty {i p} : m.properties[i]? = some p → p.id ≠ [] → p.key ≠ [] →
      p.id ∈ (m.properties.take i).map Property.id →
      HasFault m 6 i (.configuration (.duplicateProperty p.id))
  | condition {i c} : m.launchConditions[i]? = some c → c.condition = [] →
      HasFault m 7 i (.missingField .launchCondition)
  | message {i c} : m.launchConditions[i]? = some c → c.condition ≠ [] → c.message = [] →
      HasFault m 7 i (.missingField .launchMessage)

end Manifest

/-! ## Looking along a list -/

section Distinct

variable {α ε : Type} (key : α → Text)

/-- Elements that are looked at with the keys of those before in mind report the first one that
fails its own check, or passes it and has the key of one before. -/
theorem error_iff_of_distinct (check : α → Except ε Unit) (again : α → ε)
    {go : List Text → List α → Except ε Unit} (hnil : ∀ seen, go seen [] = .ok ())
    (hcons : ∀ seen a l, go seen (a :: l) = check a >>= fun _ =>
      if key a ∈ seen then .error (again a) else go (key a :: seen) l)
    {seen : List Text} {l : List α} {e : ε} :
    go seen l = .error e ↔ FirstError (fun i e => ∃ a, l[i]? = some a ∧ (check a = .error e
      ∨ check a = .ok () ∧ (key a ∈ seen ∨ key a ∈ (l.take i).map key) ∧ e = again a)) e := by
  induction l generalizing seen with
  | nil =>
    rw [hnil]
    exact ⟨nofun, fun ⟨_, ⟨_, h, _⟩, _⟩ => absurd h nofun⟩
  | cons a l ih =>
    -- the key of the first element is among those seen before, or among those of the front
    have hseen : ∀ (i : ℕ) (b : α), (key b ∈ key a :: seen ∨ key b ∈ (l.take i).map key)
        ↔ key b ∈ seen ∨ key b ∈ ((a :: l).take (i + 1)).map key := by
      intro i b
      rw [List.take_succ_cons, List.map_cons, List.mem_cons, List.mem_cons, or_assoc,
        or_left_comm]
    rw [hcons, bind_eq_error_iff, firstError_iff]
    simp only [List.getElem?_cons_zero, Option.some_inj, exists_eq_left', List.getElem?_cons_succ,
      List.take_zero, List.map_nil, List.not_mem_nil, or_false, ← hseen, ← ih]
    cases hcheck : check a with
    | error e' => simp
    | ok u =>
      by_cases hkey : key a ∈ seen <;> simp [hkey, eq_comm]

/-- Keys are pairwise different if no element has the key of one before. -/
theorem nodup_map_iff_getElem? {l : List α} :
    (l.map key).Nodup ↔ ∀ i a, l[i]? = some a → key a ∉ (l.take i).map key := by
  induction l with
  | nil => exact ⟨fun _ _ _ h => absurd h nofun, fun _ => List.nodup_nil⟩
  | cons a l ih =>
    rw [List.map_cons, List.nodup_cons, ih]
    constructor
    · rintro ⟨hnew, hrest⟩ (_ | i) b hb
      · exact List.not_mem_nil
      · rw [List.take_succ_cons, List.map_cons, List.mem_cons, not_or]
        refine ⟨fun hkey => hnew ?_, hrest i b hb⟩
        rw [← hkey]
        exact List.mem_map_of_mem (List.mem_of_getElem? hb)
    · refine fun h => ⟨fun hmem => ?_, fun i b hb => ?_⟩
      · obtain ⟨b, hb, hkey⟩ := List.mem_map.1 hmem
        obtain ⟨i, hi⟩ := List.mem_iff_getElem?.1 hb
        exact h (i + 1) b hi (hkey ▸ List.mem_cons_self)
      · exact fun hmem => h (i + 1) b hb (List.mem_cons_of_mem _ hmem)

end Distinct

/-! ## What the checks report -/

theorem checkFilled_iff {field : RequiredField} {t : Text} :
    checkFilled field t = .ok () ↔ t ≠ [] := by
  unfold checkFilled
  split
  next h => exact ⟨nofun, fun h' => absurd (List.isEmpty_iff.1 h) h'⟩
  next h => exact ⟨fun _ h' => h (List.isEmpty_iff.2 h'), fun _ => rfl⟩

theorem checkFilled_eq_error_iff {field : RequiredField} {t : Text} {e : RegistryError} :
    checkFilled field t = .error e ↔ t = [] ∧ e = .missingField field := by
  cases t with
  | nil => exact ⟨fun h => ⟨rfl, (Except.error.inj h).symm⟩, fun ⟨_, h⟩ => h ▸ rfl⟩
  | cons c t => exact ⟨nofun, fun h => absurd h.1 nofun⟩

/-- Two fields that must not be empty are looked at one after the other. -/
theorem checkFilled_checkFilled_eq_error_iff {field field' : RequiredField} {t t' : Text}
    {e : RegistryError} :
    (checkFilled field t >>= fun _ => checkFilled field' t') = .error e
      ↔ t = [] ∧ e = .missingField field ∨ t ≠ [] ∧ t' = [] ∧ e = .missingField field' := by
  rw [bind_eq_error_iff, checkFilled_eq_error_iff]
  refine or_congr_right ⟨fun ⟨_, h, h'⟩ => ?_, fun ⟨h, h'⟩ => ?_⟩
  · exact ⟨checkFilled_iff.1 h, checkFilled_eq_error_iff.1 h'⟩
  · exact ⟨(), checkFilled_iff.2 h, checkFilled_eq_error_iff.2 h'⟩

namespace Manifest

variable {m : Manifest} {e : RegistryError}

theorem checkReference_eq_error_iff {feature : Text} :
    m.checkReference feature = .error e ↔ ¬ m.Knows feature ∧ e = .unknownFeature feature := by
  unfold checkReference
  split
  next h => exact ⟨nofun, fun h' => absurd h h'.1⟩
  next h => exact ⟨fun h' => ⟨h, (Except.error.inj h').symm⟩, fun h' => h'.2 ▸ rfl⟩

/-- The check of a group. -/
def groupCheck (m : Manifest) : ℕ → Except RegistryError Unit
  | 0 => checkFilled .fragment m.fragment >>= fun _ => checkFilled .directory m.directory
  | 1 => checkFeatures [] m.features
  | 2 => (m.registry.filterMap Block.feature).forM m.checkReference
  | 3 => (m.exportFiles.filterMap ExportFiles.feature).forM m.checkReference
  | 4 => m.registry.forM fun b => checkFilled .registryKey b.key
  | 5 => m.exportFiles.forM fun e => checkFilled .exportPath e.path
  | 6 => checkProperties [] m.properties
  | 7 => m.launchConditions.forM checkLaunchCondition
  | _ => .ok ()

/-- A manifest is checked group by group. -/
theorem check_eq_forM : m.check = (List.range 8).forM m.groupCheck := by
  have hgroups : List.range 8 = [0, 1, 2, 3, 4, 5, 6, 7] := rfl
  have hlast : (m.launchConditions.forM checkLaunchCondition >>= fun _ => pure ())
      = m.launchConditions.forM checkLaunchCondition := bind_pure _
  simp only [List.forM_eq_forM] at hlast
  simp only [check, references, hgroups, groupCheck, List.forM_eq_forM, List.forM_append,
    List.forM_cons, List.forM_nil, bind_assoc, hlast]

/-! ### Groups -/

theorem checkNames_eq_error_iff :
    (checkFilled .fragment m.fragment >>= fun _ => checkFilled .directory m.directory) = .error e
      ↔ FirstError (m.HasFault 0) e := by
  rw [checkFilled_checkFilled_eq_error_iff]
  constructor
  · rintro (⟨h, rfl⟩ | ⟨h, h', rfl⟩)
    · exact ⟨0, .fragment h, fun j hj => absurd hj (Nat.not_lt_zero j)⟩
    · refine ⟨1, .directory h', fun j hj e' hfault => ?_⟩
      cases hfault with
      | fragment h'' => exact h h''
      | directory => exact absurd hj (Nat.lt_irrefl 1)
  · rintro ⟨i, hfault, hbefore⟩
    cases hfault with
    | fragment h => exact .inl ⟨h, rfl⟩
    | directory h => exact .inr ⟨fun h' => hbefore 0 Nat.one_pos _ (.fragment h'), h, rfl⟩

theorem checkFeatures_eq_error_iff :
    checkFeatures [] m.features = .error e ↔ FirstError (m.HasFault 1) e := by
  rw [error_iff_of_distinct Feature.id (fun f => checkFilled .featureId f.id)
    (fun f => .configuration (.duplicateFeature f.id)) (fun _ => rfl)
    fun _ _ _ => by rw [checkFeatures]]
  refine firstError_congr fun i e => ⟨?_, fun h => ?_⟩
  · rintro ⟨f, hf, h | ⟨hfilled, hsame, rfl⟩⟩
    · obtain ⟨hid, rfl⟩ := checkFilled_eq_error_iff.1 h
      exact .featureId hf hid
    · exact .sameFeature hf (checkFilled_iff.1 hfilled) (hsame.resolve_left List.not_mem_nil)
  · cases h with
    | featureId hf hid => exact ⟨_, hf, .inl (checkFilled_eq_error_iff.2 ⟨hid, rfl⟩)⟩
    | sameFeature hf hid hsame =>
      exact ⟨_, hf, .inr ⟨checkFilled_iff.2 hid, .inr hsame, rfl⟩⟩

theorem checkProperties_eq_error_iff :
    checkProperties [] m.properties = .error e ↔ FirstError (m.HasFault 6) e := by
  rw [error_iff_of_distinct Property.id
    (fun p => checkFilled .propertyId p.id >>= fun _ => checkFilled .propertyKey p.key)
    (fun p => .configuration (.duplicateProperty p.id)) (fun _ => rfl)
    fun _ _ _ => by rw [checkProperties, bind_assoc]]
  refine firstError_congr fun i e => ⟨?_, fun h => ?_⟩
  · rintro ⟨p, hp, h | ⟨hfilled, hsame, rfl⟩⟩
    · rcases checkFilled_checkFilled_eq_error_iff.1 h with ⟨hid, rfl⟩ | ⟨hid, hkey, rfl⟩
      · exact .propertyId hp hid
      · exact .propertyKey hp hid hkey
    · obtain ⟨_, hid, hkey⟩ := bind_eq_ok_iff.1 hfilled
      exact .sameProperty hp (checkFilled_iff.1 hid) (checkFilled_iff.1 hkey)
        (hsame.resolve_left List.not_mem_nil)
  · cases h with
    | propertyId hp hid =>
      exact ⟨_, hp, .inl (checkFilled_checkFilled_eq_error_iff.2 (.inl ⟨hid, rfl⟩))⟩
    | propertyKey hp hid hkey =>
      exact ⟨_, hp, .inl (checkFilled_checkFilled_eq_error_iff.2 (.inr ⟨hid, hkey, rfl⟩))⟩
    | sameProperty hp hid hkey hsame =>
      exact ⟨_, hp, .inr ⟨bind_eq_ok_iff.2 ⟨(), checkFilled_iff.2 hid, checkFilled_iff.2 hkey⟩,
        .inr hsame, rfl⟩⟩

/-- Looking at the features that something is installed with reports the first unknown one. -/
theorem checkReferences_eq_error_iff {α : Type} {l : List α} {feature : α → Option Text} :
    (l.filterMap feature).forM m.checkReference = .error e
      ↔ FirstError (fun i e => ∃ a t, l[i]? = some a ∧ feature a = some t ∧ ¬ m.Knows t
        ∧ e = .unknownFeature t) e := by
  rw [forM_filterMap, forM_eq_error_iff]
  refine firstError_congr fun i e => exists_congr fun a => ?_
  rw [exists_and_left]
  refine and_congr_right fun _ => ?_
  cases feature a with
  | none => exact ⟨nofun, fun ⟨_, h, _⟩ => absurd h nofun⟩
  | some t => simp [checkReference_eq_error_iff]

/-- Looking at a field that must not be empty reports the first element in which it is. -/
theorem forM_checkFilled_eq_error_iff {α : Type} {l : List α} {field : α → RequiredField}
    {text : α → Text} :
    (l.forM fun a => checkFilled (field a) (text a)) = .error e
      ↔ FirstError
        (fun i e => ∃ a, l[i]? = some a ∧ text a = [] ∧ e = .missingField (field a)) e := by
  simp only [forM_eq_error_iff, checkFilled_eq_error_iff]

theorem checkLaunchConditions_eq_error_iff :
    m.launchConditions.forM checkLaunchCondition = .error e ↔ FirstError (m.HasFault 7) e := by
  rw [forM_eq_error_iff]
  refine firstError_congr fun i e => ⟨?_, fun h => ?_⟩
  · rintro ⟨c, hc, hcheck⟩
    rcases checkFilled_checkFilled_eq_error_iff.1 hcheck with ⟨h, rfl⟩ | ⟨h, h', rfl⟩
    · exact .condition hc h
    · exact .message hc h h'
  · cases h with
    | condition hc h =>
      exact ⟨_, hc, checkFilled_checkFilled_eq_error_iff.2 (.inl ⟨h, rfl⟩)⟩
    | message hc h h' =>
      exact ⟨_, hc, checkFilled_checkFilled_eq_error_iff.2 (.inr ⟨h, h', rfl⟩)⟩

/-- **A group is checked** for its faults, and the first of them is reported. -/
theorem groupCheck_eq_error_iff (g : ℕ) :
    m.groupCheck g = .error e ↔ FirstError (m.HasFault g) e := by
  match g with
  | 0 => exact checkNames_eq_error_iff
  | 1 => exact checkFeatures_eq_error_iff
  | 2 =>
    refine checkReferences_eq_error_iff.trans (firstError_congr fun i e => ⟨?_, fun h => ?_⟩)
    · rintro ⟨b, feature, hb, hfeature, hunknown, rfl⟩
      exact .blockFeature hb hfeature hunknown
    · cases h with
      | blockFeature hb hfeature hunknown => exact ⟨_, _, hb, hfeature, hunknown, rfl⟩
  | 3 =>
    refine checkReferences_eq_error_iff.trans (firstError_congr fun i e => ⟨?_, fun h => ?_⟩)
    · rintro ⟨f, feature, hf, hfeature, hunknown, rfl⟩
      exact .exportFeature hf hfeature hunknown
    · cases h with
      | exportFeature hf hfeature hunknown => exact ⟨_, _, hf, hfeature, hunknown, rfl⟩
  | 4 =>
    refine forM_checkFilled_eq_error_iff.trans (firstError_congr fun i e => ⟨?_, fun h => ?_⟩)
    · rintro ⟨b, hb, hkey, rfl⟩
      exact .blockKey hb hkey
    · cases h with
      | blockKey hb hkey => exact ⟨_, hb, hkey, rfl⟩
  | 5 =>
    refine forM_checkFilled_eq_error_iff.trans (firstError_congr fun i e => ⟨?_, fun h => ?_⟩)
    · rintro ⟨f, hf, hpath, rfl⟩
      exact .exportPath hf hpath
    · cases h with
      | exportPath hf hpath => exact ⟨_, hf, hpath, rfl⟩
  | 6 => exact checkProperties_eq_error_iff
  | 7 => exact checkLaunchConditions_eq_error_iff
  | g + 8 =>
    -- there are no more groups
    exact ⟨nofun, fun ⟨_, h, _⟩ => nomatch h⟩

/-! ## The whole check -/

/-- **What is reported** is the first fault of the first group that has one. -/
theorem check_eq_error_iff :
    m.check = .error e ↔ FirstError (fun g => FirstError (m.HasFault g)) e := by
  rw [check_eq_forM, forM_eq_error_iff]
  refine firstError_congr fun g e => ?_
  rw [← groupCheck_eq_error_iff]
  constructor
  · rintro ⟨g', hg', h⟩
    obtain ⟨hlt, rfl⟩ := List.getElem?_eq_some_iff.1 hg'
    rwa [List.getElem_range] at h
  · intro h
    refine ⟨g, List.getElem?_range (Nat.lt_of_not_le fun hle => ?_), h⟩
    obtain ⟨k, rfl⟩ := Nat.exists_eq_add_of_le' hle
    exact nomatch h

/-- A well-formed manifest has no fault. -/
theorem IsWellFormed.not_hasFault (h : m.IsWellFormed) (g i : ℕ) (e : RegistryError) :
    ¬ m.HasFault g i e := by
  intro hfault
  cases hfault with
  | fragment hempty => exact h.fragment hempty
  | directory hempty => exact h.directory hempty
  | featureId hf hempty => exact h.featureIds _ (List.mem_of_getElem? hf) hempty
  | sameFeature hf _ hsame => exact (nodup_map_iff_getElem? _).1 h.featuresDiffer _ _ hf hsame
  | blockFeature hb hfeature hunknown =>
    exact hunknown (h.blockFeatures _ (List.mem_of_getElem? hb) _ hfeature)
  | exportFeature hf hfeature hunknown =>
    exact hunknown (h.exportFeatures _ (List.mem_of_getElem? hf) _ hfeature)
  | blockKey hb hempty => exact h.blockKeys _ (List.mem_of_getElem? hb) hempty
  | exportPath hf hempty => exact h.exportPaths _ (List.mem_of_getElem? hf) hempty
  | propertyId hp hempty => exact h.propertyIds _ (List.mem_of_getElem? hp) hempty
  | propertyKey hp _ hempty => exact h.propertyKeys _ (List.mem_of_getElem? hp) hempty
  | sameProperty hp _ _ hsame =>
    exact (nodup_map_iff_getElem? _).1 h.propertiesDiffer _ _ hp hsame
  | condition hc hempty => exact h.conditions _ (List.mem_of_getElem? hc) hempty
  | message hc _ hempty => exact h.messages _ (List.mem_of_getElem? hc) hempty

/-- **A manifest without a fault** is a well-formed one. -/
theorem isWellFormed_iff : m.IsWellFormed ↔ ∀ g i e, ¬ m.HasFault g i e := by
  refine ⟨IsWellFormed.not_hasFault, fun h => ?_⟩
  -- an element of a list is at fault at its position
  have hforall : ∀ {α : Type} {l : List α} {P : α → Prop},
      (∀ (i : ℕ) (a : α), l[i]? = some a → P a) → ∀ a ∈ l, P a := by
    intro α l P hP a ha
    obtain ⟨i, hi⟩ := List.mem_iff_getElem?.1 ha
    exact hP i a hi
  have hfeatures : ∀ f ∈ m.features, f.id ≠ [] :=
    hforall fun i f hf hempty => h 1 i _ (.featureId hf hempty)
  have hpropertyIds : ∀ p ∈ m.properties, p.id ≠ [] :=
    hforall fun i p hp hempty => h 6 i _ (.propertyId hp hempty)
  have hpropertyKeys : ∀ p ∈ m.properties, p.key ≠ [] := hforall fun i p hp hempty =>
    h 6 i _ (.propertyKey hp (hpropertyIds p (List.mem_of_getElem? hp)) hempty)
  have hconditions : ∀ c ∈ m.launchConditions, c.condition ≠ [] :=
    hforall fun i c hc hempty => h 7 i _ (.condition hc hempty)
  exact {
    fragment := fun hempty => h 0 0 _ (.fragment hempty)
    directory := fun hempty => h 0 1 _ (.directory hempty)
    featureIds := hfeatures
    featuresDiffer := (nodup_map_iff_getElem? _).2 fun i f hf hsame =>
      h 1 i _ (.sameFeature hf (hfeatures f (List.mem_of_getElem? hf)) hsame)
    blockFeatures := hforall fun i b hb feature hfeature => by
      by_contra hunknown
      exact h 2 i _ (.blockFeature hb hfeature hunknown)
    exportFeatures := hforall fun i f hf feature hfeature => by
      by_contra hunknown
      exact h 3 i _ (.exportFeature hf hfeature hunknown)
    blockKeys := hforall fun i b hb hempty => h 4 i _ (.blockKey hb hempty)
    exportPaths := hforall fun i f hf hempty => h 5 i _ (.exportPath hf hempty)
    propertyIds := hpropertyIds
    propertyKeys := hpropertyKeys
    propertiesDiffer := (nodup_map_iff_getElem? _).2 fun i p hp hsame =>
      h 6 i _ (.sameProperty hp (hpropertyIds p (List.mem_of_getElem? hp))
        (hpropertyKeys p (List.mem_of_getElem? hp)) hsame)
    conditions := hconditions
    messages := hforall fun i c hc hempty =>
      h 7 i _ (.message hc (hconditions c (List.mem_of_getElem? hc)) hempty) }

/-- **A manifest is accepted** exactly if it is well formed: any fault would lead to a first one,
which would be reported. -/
theorem check_eq_ok_iff : m.check = .ok () ↔ m.IsWellFormed := by
  have hnone : (∀ e, ¬ FirstError (fun g => FirstError (m.HasFault g)) e)
      ↔ ∀ g i e, ¬ m.HasFault g i e := by
    simp only [← not_exists, exists_firstError_iff]
  rw [eq_ok_iff_forall_ne_error, isWellFormed_iff, ← hnone]
  exact forall_congr' fun e => not_congr check_eq_error_iff

/-- **Checking a manifest** accepts exactly the well-formed ones, and of any faults it reports the
first in the first group that has one. -/
theorem check_outcome (m : Manifest) :
    (m.check = .ok () ↔ m.IsWellFormed)
      ∧ ∀ e, m.check = .error e ↔ FirstError (fun g => FirstError (m.HasFault g)) e :=
  ⟨check_eq_ok_iff, fun _ => check_eq_error_iff⟩

/-- **The features of an accepted manifest** are pairwise different, and everything that names one
names one that is known. -/
theorem check_features (h : m.check = .ok ()) :
    (m.features.map Feature.id).Nodup ∧ ∀ feature ∈ m.references, m.Knows feature := by
  have hwell := check_eq_ok_iff.1 h
  refine ⟨hwell.featuresDiffer, List.forall_mem_append.2 ⟨fun feature hmem => ?_,
    fun feature hmem => ?_⟩⟩
  · obtain ⟨b, hb, hfeature⟩ := List.mem_filterMap.1 hmem
    exact hwell.blockFeatures b hb feature hfeature
  · obtain ⟨f, hf, hfeature⟩ := List.mem_filterMap.1 hmem
    exact hwell.exportFeatures f hf feature hfeature

end Manifest

end InstallerRegistry
