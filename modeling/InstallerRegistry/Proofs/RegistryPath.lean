import InstallerRegistry.Entry
import InstallerRegistry.Proofs.Text.Cutting
import InstallerRegistry.RegistryPath

/-!
# Paths of keys

The path that names a key together with its hive leads to this key (`RegistryPath.parse_pathOf`),
but only up to what a path cannot say: slashes separate names as backslashes do, and backslashes at
the ends do not count. The keys that are led to as they stand are the normal ones
(`RegistryPath.trim_normalize_eq_self_iff`).
-/

namespace InstallerRegistry.RegistryPath

/-- A **normal key** has no slash, and no backslash at its ends. -/
structure IsNormal (key : Text) : Prop where
  slash : '/' ∉ key
  head : key.head? ≠ some '\\'
  last : key.getLast? ≠ some '\\'

instance (key : Text) : Decidable (IsNormal key) :=
  decidable_of_iff ('/' ∉ key ∧ key.head? ≠ some '\\' ∧ key.getLast? ≠ some '\\')
    ⟨fun ⟨h, h', h''⟩ => ⟨h, h', h''⟩, fun ⟨h, h', h''⟩ => ⟨h, h', h''⟩⟩

theorem slash_notMem_normalize (path : Text) : '/' ∉ normalize path := by
  intro h
  obtain ⟨c, _, hc⟩ := List.mem_map.1 h
  split at hc
  next => exact absurd hc (by decide)
  next hne => exact hne hc

theorem normalize_eq_self {path : Text} (h : '/' ∉ path) : normalize path = path := by
  have hkept : ∀ c ∈ path, (if c = '/' then '\\' else c) = c :=
    fun c hc => if_neg fun (hslash : c = '/') => h (hslash ▸ hc)
  rw [normalize, List.map_congr_left hkept, List.map_id']

/-- What is left of a key is normal. -/
theorem isNormal_trim_normalize (key : Text) : IsNormal (trim (normalize key)) where
  slash h := slash_notMem_normalize key (Text.mem_of_mem_dropAround h)
  head h := absurd (Text.head?_dropAround _ _ _ h) (by decide)
  last h := absurd (Text.getLast?_dropAround _ _ _ h) (by decide)

/-- **A key stays as it is** exactly if it is normal. -/
theorem trim_normalize_eq_self_iff {key : Text} : trim (normalize key) = key ↔ IsNormal key := by
  constructor
  · intro h
    rw [← h]
    exact isNormal_trim_normalize key
  · intro h
    have hne : ∀ c : Char, some c ≠ some '\\' → (c == '\\') = false :=
      fun c hc => beq_eq_false_iff_ne.2 fun h' => hc (congrArg some h')
    rw [normalize_eq_self h.slash]
    exact Text.dropAround_eq_self
      (fun c hc => hne c fun h' => h.head (h' ▸ hc)) (fun c hc => hne c fun h' => h.last (h' ▸ hc))

/-- **The path of a key leads to it**, up to its slashes and the backslashes at its ends. -/
theorem parse_pathOf (hive : Hive) (key : Text) :
    parse (Entry.pathOf hive key) = .ok (hive, trim (normalize key)) := by
  have hname : Hive.ofName? hive.shortName = some hive :=
    Hive.ofName?_of_mem_names List.mem_cons_self
  have hslash : normalize hive.shortName = hive.shortName := by cases hive <;> decide
  have hshort : '\\' ∉ hive.shortName := by cases hive <;> decide
  have hcut : ∀ path, normalize (Entry.pathOf hive key) = path →
      (Text.cut? '\\' path).getD (path, []) = (hive.shortName, normalize key) := by
    rintro path rfl
    unfold Entry.pathOf
    split
    next h => rw [hslash, Text.cut?_of_notMem hshort, List.isEmpty_iff.1 h]; rfl
    next =>
      have hpath : normalize (hive.shortName ++ '\\' :: key)
          = normalize hive.shortName ++ '\\' :: normalize key := by
        simp [normalize]
      rw [hpath, hslash, Text.cut?_append hshort]
      rfl
  rw [parse]
  dsimp only
  rw [hcut _ rfl]
  dsimp only
  rw [hname]

end InstallerRegistry.RegistryPath
