import InstallerRegistry.Proofs.Export.Sections
import InstallerRegistry.Proofs.Fragment.Existence
import InstallerRegistry.Proofs.Fragment.Features
import InstallerRegistry.Proofs.Manifest.Import
import InstallerRegistry.Proofs.Manifest.RoundTrip

/-!
# An import can be used at once

Whatever an export holds, the manifest of its entries is accepted, can be written and read back,
and has a fragment (`Manifest.generate_ofEntries`). Nothing that a manifest may be refused for can
come out of an import: its entries all have values, bring no identifiers, and are installed with a
feature that is there; and of what a value of a block may look like, an import writes only what can
be written and is read as an entry again.

Only a hive that no installer writes to has to be kept out.
-/

namespace InstallerRegistry

open Yaml (Value IsReadAs)
open Xml (Element)

/-! ## The entries of an export -/

/-- **Every entry of an export has a value.** -/
theorem Export.isSet_of_mem_ofText {t : Text} {c : Export.Contents}
    (h : Export.Contents.ofText t = .ok c) : ∀ e ∈ c.entries, e.value ≠ none := by
  intro e he
  obtain ⟨v, hv⟩ := Export.Contents.exists_eq_of_mem_ofText h e he
  rw [hv]
  exact Option.some_ne_none v

/-! ## Blocks of an import -/

namespace Yaml.Mapping

theorem forall_mem_insert {P Q : Value → Prop} {m : Mapping} {key value : Value}
    (hm : ∀ pair ∈ m, P pair.1 ∧ Q pair.2) (hkey : P key) (hvalue : Q value) :
    ∀ pair ∈ insert m key value, P pair.1 ∧ Q pair.2 := by
  induction m with
  | nil => simpa [insert] using ⟨hkey, hvalue⟩
  | cons first rest ih =>
    obtain ⟨hfirst, hrest⟩ := List.forall_mem_cons.1 hm
    rw [insert]
    split
    · exact List.forall_mem_cons.2 ⟨⟨hfirst.1, hvalue⟩, hrest⟩
    · exact List.forall_mem_cons.2 ⟨hfirst, ih hrest⟩

/-- What holds of the keys of some pairs and of their values holds of a mapping made of them. -/
theorem forall_mem_ofPairs {P Q : Value → Prop} {pairs : List (Value × Value)}
    (h : ∀ pair ∈ pairs, P pair.1 ∧ Q pair.2) : ∀ pair ∈ ofPairs pairs, P pair.1 ∧ Q pair.2 := by
  have hfold : ∀ (l : List (Value × Value)) (m : Mapping), (∀ pair ∈ l, P pair.1 ∧ Q pair.2) →
      (∀ pair ∈ m, P pair.1 ∧ Q pair.2) →
      ∀ pair ∈ l.foldl (fun m pair => insert m pair.1 pair.2) m, P pair.1 ∧ Q pair.2 := by
    intro l
    induction l with
    | nil => exact fun m _ hm => hm
    | cons first l ih =>
      intro m hl hm
      obtain ⟨hfirst, hl⟩ := List.forall_mem_cons.1 hl
      exact ih _ hl (forall_mem_insert hm hfirst.1 hfirst.2)
  exact hfold pairs [] h nofun

end Yaml.Mapping

theorem Entry.pathOf_ne_nil (hive : Hive) (key : Text) : pathOf hive key ≠ [] := by
  unfold pathOf
  split
  · cases hive <;> exact nofun
  · cases hive <;> exact nofun

theorem RegistryValue.isWritable_toYaml (v : RegistryValue) :
    Yaml.Layout.isWritable false v.toYaml = true := by
  cases v <;> rfl

namespace Manifest

variable (feature : Option Text) (entries : List Entry)

theorem isWritable_pairOf (e : Entry) : Yaml.Layout.isWritable false (pairOf e).2 = true := by
  rcases e with ⟨id, hive, key, name, value, feature, condition, win64⟩
  cases value with
  | none => rfl
  | some v => exact v.isWritable_toYaml

/-- The blocks of an import have keys, are installed with its feature, and have values that can be
written. -/
theorem of_mem_registry_ofEntries {b : Block} (h : b ∈ (ofEntries feature entries).registry) :
    b.key ≠ [] ∧ b.feature = feature
      ∧ Yaml.Layout.isWritable false (.mapping b.values) = true := by
  obtain ⟨group, _, hb⟩ := List.mem_filterMap.1 h
  cases group with
  | nil => exact absurd hb nofun
  | cons e rest =>
    cases hb
    refine ⟨Entry.pathOf_ne_nil e.hive e.key, rfl, ?_⟩
    have hpairs : ∀ pair ∈ (e :: rest).map pairOf,
        (∃ t, pair.1 = .text t) ∧ Yaml.Layout.isWritable false pair.2 = true := by
      intro pair hpair
      obtain ⟨x, _, rfl⟩ := List.mem_map.1 hpair
      exact ⟨⟨_, rfl⟩, isWritable_pairOf x⟩
    have hvalues := Yaml.Mapping.forall_mem_ofPairs (P := fun key => ∃ t, key = .text t)
      (Q := fun v => Yaml.Layout.isWritable false v = true) hpairs
    rw [isWritable_mapping_iff fun pair hpair => (hvalues pair hpair).1]
    exact fun pair hpair => (hvalues pair hpair).2

/-- **An import is accepted** if it is installed with a feature that has a name. -/
theorem check_ofEntries (hfeature : ∀ id ∈ feature, id ≠ []) :
    (ofEntries feature entries).check = .ok () := by
  have hids : (ofEntries feature entries).features.map Feature.id = feature.toList := by
    cases feature <;> rfl
  have hblocks := fun b hb => of_mem_registry_ofEntries feature entries (b := b) hb
  exact check_eq_ok_iff.2 {
    fragment := show "RegistryComponents".toList ≠ [] from by decide
    directory := show "INSTALLFOLDER".toList ≠ [] from by decide
    featureIds := fun f hf => hfeature f.id <| Option.mem_toList.1 <| by
      rw [← hids]
      exact List.mem_map_of_mem hf
    featuresDiffer := by
      rw [hids]
      cases feature with
      | none => exact List.nodup_nil
      | some id => exact List.nodup_singleton _
    blockFeatures := fun b hb id hid => by
      refine .inr ?_
      rw [hids, Option.mem_toList, ← (hblocks b hb).2.1]
      exact hid
    exportFeatures := fun _ he => absurd he List.not_mem_nil
    blockKeys := fun b hb => (hblocks b hb).1
    exportPaths := fun _ he => absurd he List.not_mem_nil
    propertyIds := fun _ hp => absurd hp List.not_mem_nil
    propertyKeys := fun _ hp => absurd hp List.not_mem_nil
    propertiesDiffer := List.nodup_nil
    conditions := fun _ hc => absurd hc List.not_mem_nil
    messages := fun _ hc => absurd hc List.not_mem_nil }

theorem exists_toText_ofEntries : ∃ t, (ofEntries feature entries).toText = .ok t :=
  (exists_toText_iff _).2 fun _ hb => (of_mem_registry_ofEntries feature entries hb).2.2

/-! ## Its fragment -/

/-- A document in which every entry asks for a feature that is there installs each of them once. -/
theorem exists_installsOnce {m : Manifest} {entries : List Entry} {doc : Text}
    (hfeatures : (m.features.map Feature.id).Nodup)
    (hasked : ∀ e ∈ entries, m.Knows e.featureId)
    (h : m.fragmentOf entries = .ok doc) :
    ∃ x, Element.ofText? doc = some x ∧ m.InstallsOnce entries x := by
  obtain ⟨cs, x, hcs, hread, properties, components, hproperties, hcomponents, rfl⟩ :=
    m.ofText?_fragmentOf h
  obtain ⟨hentries, _⟩ := Component.listFrom_ok hcs
  rw [← Component.map_fst_items] at hentries
  subst hentries
  have hids : ((Component.items cs).map Prod.snd).Nodup := by
    rw [Component.map_snd_items]
    exact (Component.nodup_listFrom hcs).1
  exact ⟨_, hread, installsOnce_element hfeatures hids
    (fun item hitem => hasked _ (List.mem_map_of_mem hitem)) hproperties hcomponents⟩

/-- What is carried from entries that can be written can be written, brings no identifier, and is
installed with the feature. -/
theorem IsCarriedFrom.isWritable {feature : Option Text} {entries : List Entry} {x : Entry}
    (h : IsCarriedFrom feature entries x) (hentries : ∀ e ∈ entries, e.IsWritable) :
    x.IsWritable ∧ x.id = none ∧ x.feature = feature := by
  obtain ⟨e, he, b, rfl, rfl⟩ := h
  exact ⟨⟨(hentries e he).value, (hentries e he).hive⟩, rfl, rfl⟩

/-- Entries that bring no identifiers have a fragment if they can be written. -/
theorem exists_fragmentOf_of_id_eq_none {m : Manifest} (hm : m.properties = [])
    {entries : List Entry} (h : ∀ e ∈ entries, e.IsWritable) (hid : ∀ e ∈ entries, e.id = none) :
    ∃ doc, m.fragmentOf entries = .ok doc := by
  refine exists_fragmentOf_iff.2 ⟨?_, h, ⟨?_, ?_⟩, ?_⟩
  · rw [hm]
    exact fun p hp => absurd hp List.not_mem_nil
  · intro e he
    rw [hid e he]
    exact nofun
  · rw [List.filterMap_eq_nil_iff.2 hid]
    exact List.nodup_nil
  · intro before e hbefore
    rw [hid e (hbefore.subset (by simp))]
    exact nofun

/-- **An import can be used at once.** The manifest of an export's entries has a text, and is loaded
from it if the text is read as the value it was written for. It has a fragment, with one component
for each entry that the manifest holds, and each of these is installed once, by the feature that was
asked for or else by the default one. -/
theorem generate_ofEntries {text : Text} {c : Export.Contents}
    (hc : Export.Contents.ofText text = .ok c) (hhive : ∀ e ∈ c.entries, e.hive ≠ .currentConfig)
    {feature : Option Text} (hfeature : ∀ id ∈ feature, id ≠ []) {m : Manifest}
    (hm : m = ofEntries feature c.entries) :
    (∃ t, m.toText = .ok t ∧ (IsReadAs t m.toYaml → ofText t = .ok m))
      ∧ ∀ root base, ∃ held doc x, m.contents root base = .ok held
        ∧ m.generate root base = .ok doc ∧ Element.ofText? doc = some x
        ∧ m.InstallsOnce held.entries x
        ∧ ∀ e ∈ held.entries, e.featureId = feature.getD defaultFeature := by
  subst hm
  have hwritable : ∀ e ∈ c.entries, e.IsWritable :=
    fun e he => ⟨Export.isSet_of_mem_ofText hc e he, hhive e he⟩
  have hcheck := check_ofEntries feature c.entries hfeature
  constructor
  · obtain ⟨t, ht⟩ := exists_toText_ofEntries feature c.entries
    exact ⟨t, ht, fun hread => ofText_of_isReadAs hcheck hread⟩
  · intro root base
    obtain ⟨held, hheld, _, hcarried⟩ := exists_contents_ofEntries feature c.entries root base
    -- what the manifest holds has been carried from entries of the export
    have hentries := fun e he => (hcarried e he).isWritable hwritable
    obtain ⟨doc, hdoc⟩ := exists_fragmentOf_of_id_eq_none (m := ofEntries feature c.entries) rfl
      (fun e he => (hentries e he).1) fun e he => (hentries e he).2.1
    obtain ⟨hfeatures, hreferences⟩ := check_features hcheck
    obtain ⟨x, hx, honce⟩ := exists_installsOnce hfeatures
      (fun e he => knows_featureId fun f hf =>
        hreferences f (feature_of_mem_contents hheld e he f hf)) hdoc
    refine ⟨held, doc, x, hheld, bind_eq_ok_iff.2 ⟨held, hheld, hdoc⟩, hx, honce, fun e he => ?_⟩
    rw [Entry.featureId, (hentries e he).2.2]

/-- An export with a default value in a hive itself, names that are written or sanitized alike, and
a key that is empty between slashes. -/
def oddExport : Text :=
  "REGEDIT4\n[HKEY_CURRENT_USER]\n@=\"null\"\n\"@\"=dword:ffffffff\n".toList
    ++ "[HKEY_LOCAL_MACHINE\\//]\n\"a b\"=\"\"\n\"a-b\"=hex:00,ff\n".toList

/-- Its entries. -/
def oddEntries : List Entry :=
  [{ name := [], value := some (.text "null".toList) },
    { name := ['@'], value := some (.int32 (-1)) },
    { hive := .localMachine, key := "//".toList, name := "a b".toList, value := some (.text []) },
    { hive := .localMachine, key := "//".toList, name := "a-b".toList
      value := some (.binary [0, 255]) }]

theorem generate_ofEntries_oddExport :
    ∃ c m, Export.Contents.ofText oddExport = .ok c ∧ c.entries = oddEntries
      ∧ m = ofEntries (some ['~']) oddEntries
      ∧ (∃ t, m.toText = .ok t ∧ IsReadAs t m.toYaml ∧ ofText t = .ok m)
      ∧ ∃ held doc x, m.contents default [] = .ok held ∧ m.generate default [] = .ok doc
        ∧ Element.ofText? doc = some x ∧ m.InstallsOnce held.entries x
        ∧ ∀ e ∈ held.entries, e.featureId = ['~'] := by
  obtain ⟨c, hc, hentries⟩ : ∃ c, Export.Contents.ofText oddExport = .ok c
      ∧ c.entries = oddEntries := ⟨_, rfl, rfl⟩
  have hhive : ∀ e ∈ c.entries, e.hive ≠ .currentConfig := by
    rw [hentries]
    decide
  have hread : ∃ t ∈ Yaml.Layout.document? (ofEntries (some ['~']) oddEntries).toYaml,
      IsReadAs t (ofEntries (some ['~']) oddEntries).toYaml := by decide +kernel
  have hfeature : ∀ id ∈ some ['~'], id ≠ [] := by
    rintro _ ⟨⟩
    exact nofun
  obtain ⟨⟨t, ht, hback⟩, hgenerate⟩ := generate_ofEntries hc hhive hfeature
    (m := ofEntries (some ['~']) oddEntries) (by rw [hentries])
  obtain ⟨t', hwritten, hread⟩ := hread
  have htext : (ofEntries (some ['~']) oddEntries).toText = .ok t' := by
    rw [toText, hwritten]
    rfl
  obtain rfl : t = t' := Except.ok.inj (ht.symm.trans htext)
  exact ⟨c, _, hc, hentries, rfl, ⟨t, ht, hread, hback hread⟩, hgenerate default []⟩

end Manifest

end InstallerRegistry
