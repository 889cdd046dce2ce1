import InstallerRegistry.Manifest.Contents
import InstallerRegistry.Proofs.Except

/-!
# Where the entries of a manifest come from

An entry of a manifest is installed with the feature of the block or the export files it comes from,
so the features that entries name are among those the manifest refers to
(`Manifest.feature_of_mem_contents`).
-/

namespace InstallerRegistry

/-- The entries of a block are installed with its feature. -/
theorem Block.feature_of_mem_entries {b : Block} {l : List Entry} (h : b.entries = .ok l) :
    ∀ e ∈ l, e.feature = b.feature := by
  obtain ⟨⟨hive, key⟩, _, h⟩ := bind_eq_ok_iff.1 h
  have hentry : ∀ pair e, b.entry hive key pair = .ok e → e.feature = b.feature := by
    intro pair e he
    obtain ⟨name, _, he⟩ := bind_eq_ok_iff.1 he
    obtain ⟨detailed, _, he⟩ := bind_eq_ok_iff.1 he
    obtain ⟨value, _, he⟩ := bind_eq_ok_iff.1 he
    cases he
    rfl
  intro e he
  obtain ⟨pair, _, hpair⟩ := exists_of_mem_mapM h he
  exact hentry pair e hpair

/-- The entries of export files are installed with their feature. -/
theorem ExportFiles.feature_of_mem_contents {root : FileTree} {base : Text} {f : ExportFiles}
    {c : Export.Contents} (h : f.contents root base = .ok c) :
    ∀ e ∈ c.entries, e.feature = f.feature := by
  obtain ⟨paths, _, h⟩ := bind_eq_ok_iff.1 h
  obtain ⟨files, _, h⟩ := bind_eq_ok_iff.1 h
  cases h
  intro e he
  obtain ⟨e', _, rfl⟩ := List.mem_map.1 he
  rfl

/-- An entry of contents one after another is an entry of some of them. -/
theorem Export.mem_entries_concat {parts : List Export.Contents} {e : Entry}
    (h : e ∈ (Export.Contents.concat parts).entries) : ∃ c ∈ parts, e ∈ c.entries := by
  induction parts with
  | nil => exact absurd h List.not_mem_nil
  | cons c parts ih =>
    rcases List.mem_append.1 (show e ∈ c.entries ++ (Export.Contents.concat parts).entries from h)
      with h | h
    · exact ⟨c, List.mem_cons_self, h⟩
    · obtain ⟨c', hc', he⟩ := ih h
      exact ⟨c', List.mem_cons_of_mem _ hc', he⟩

namespace Manifest

/-- **The feature of an entry** is one that the manifest refers to. -/
theorem feature_of_mem_contents {m : Manifest} {root : FileTree} {base : Text}
    {c : Export.Contents} (h : m.contents root base = .ok c) :
    ∀ e ∈ c.entries, ∀ feature ∈ e.feature, feature ∈ m.references := by
  obtain ⟨inline, hinline, h⟩ := bind_eq_ok_iff.1 h
  obtain ⟨exported, hexported, h⟩ := bind_eq_ok_iff.1 h
  obtain ⟨blocks, hblocks, hinline⟩ := bind_eq_ok_iff.1 hinline
  cases h
  cases hinline
  intro e he feature hfeature
  obtain ⟨part, hpart, he⟩ := Export.mem_entries_concat he
  rcases List.mem_cons.1 hpart with rfl | hpart
  · obtain ⟨l, hl, he⟩ := List.mem_flatten.1 he
    obtain ⟨b, hb, hentries⟩ := exists_of_mem_mapM hblocks hl
    rw [Block.feature_of_mem_entries hentries e he] at hfeature
    exact List.mem_append_left _ (List.mem_filterMap.2 ⟨b, hb, hfeature⟩)
  · obtain ⟨f, hf, hcontents⟩ := exists_of_mem_mapM hexported hpart
    rw [ExportFiles.feature_of_mem_contents hcontents e he] at hfeature
    exact List.mem_append_right _ (List.mem_filterMap.2 ⟨f, hf, hfeature⟩)

end Manifest

end InstallerRegistry
