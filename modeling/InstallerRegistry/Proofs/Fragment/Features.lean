import InstallerRegistry.Proofs.Fragment.Structure
import InstallerRegistry.Proofs.Manifest.Contents
import InstallerRegistry.Proofs.Manifest.FirstFault

/-!
# Every component is installed once

In the document of an accepted manifest, each component is named by one reference, and this stands
in the feature that its entry asks for (`Manifest.installsOnce_generate`). A component that no
feature names is not installed, and one that two of them name is installed with either.

What has to fit for this are the identifiers of components, of which no two are the same, those of
features, likewise, and the features that entries ask for, all of which are among the features of
the document.
-/

namespace InstallerRegistry

open Xml (Element)

/-! ## Searching a tree -/

namespace Xml.Element

mutual

/-- The elements of a name in a tree, in the order of the document. -/
def named (name : String) : Element → List Element
  | ⟨n, attributes, children⟩ =>
    (if n = name.toList then [⟨n, attributes, children⟩] else []) ++ namedAll name children

/-- The elements of a name in some trees. -/
def namedAll (name : String) : List Element → List Element
  | [] => []
  | x :: xs => named name x ++ namedAll name xs

end

/-- The identifier of an element. -/
def id? (x : Element) : Option Text :=
  x.attributes.lookup "Id".toList

theorem namedAll_eq_flatMap (name : String) (xs : List Element) :
    namedAll name xs = xs.flatMap (named name) := by
  induction xs with
  | nil => rfl
  | cons x xs ih => rw [namedAll, ih, List.flatMap_cons]

theorem named_of (name kind : String) (attributes : List (String × Option Text))
    (children : List Element) :
    (Element.of kind attributes children).named name
      = (if kind.toList = name.toList then [.of kind attributes children] else [])
        ++ children.flatMap (named name) := by
  rw [Element.of, named, namedAll_eq_flatMap]

end Xml.Element

/-! ## Installing once -/

/-- The document installs the entry with the component, and does it once: one reference in the whole
document has the identifier of the component, and it stands in the feature that the entry asks
for. -/
def Entry.InstalledOnce (doc : Element) (e : Entry) (component : Element) : Prop :=
  ∃ id feature reference, e.Describes id component
    ∧ component.id? = some ("Component_".toList ++ id)
    ∧ (doc.named "ComponentRef").filter (fun r => r.id? = component.id?) = [reference]
    ∧ feature ∈ doc.named "Feature" ∧ feature.id? = some e.featureId
    ∧ reference ∈ feature.children

/-- The document of a manifest installs the entries, each of them once, and nothing else. -/
structure Manifest.InstallsOnce (m : Manifest) (entries : List Entry) (doc : Element) : Prop where
  components : List.Forall₂ (Entry.InstalledOnce doc) entries (doc.named "Component")
  references : ∀ r ∈ doc.named "ComponentRef", ∃ c ∈ doc.named "Component", r.id? = c.id?
  features : ((doc.named "Feature").map Element.id?).Nodup
  /-- The features are those of the manifest, and the default one exactly if it is needed and not
  among them. -/
  featureIds : (doc.named "Feature").map Element.id?
    = (m.features.map Feature.id
      ++ if defaultFeature ∉ m.features.map Feature.id ∧ ∃ e ∈ entries, e.featureId = defaultFeature
        then [defaultFeature] else []).map some

/-! ## Searching the document of a manifest -/

section Searching

variable {name : String}

theorem Property.named_eq_nil {p : Property} {x : Element} (h : p.Describes x)
    (hproperty : "Property".toList ≠ name.toList)
    (hsearch : "RegistrySearch".toList ≠ name.toList) : x.named name = [] := by
  obtain ⟨hive, key, stem, _, _, _, rfl⟩ := h
  rw [Element.named_of, if_neg hproperty, List.flatMap_cons, Element.named_of, if_neg hsearch]
  rfl

theorem LaunchCondition.named_eq_nil (c : LaunchCondition) (h : "Launch".toList ≠ name.toList) :
    c.element.named name = [] := by
  rw [element, Element.named_of, if_neg h]
  rfl

/-- There is nothing but strings in a value. -/
theorem Xml.Element.named_value {id root key valueName type payload : Text}
    (h : "MultiStringValue".toList ≠ name.toList) :
    (Element.value id root key valueName type payload).named name
      = if "RegistryValue".toList = name.toList then
          [.value id root key valueName type payload] else [] := by
  have hstrings : ∀ t, (Element.string t).named name = [] := fun t => by
    rw [Element.string, named_of, if_neg h]
    rfl
  have hchildren : (if type = "multiString".toList then payload.listed.map Element.string
      else []).flatMap (named name) = [] := by
    split
    next =>
      rw [List.flatMap_map, List.flatMap_eq_nil_iff]
      exact fun t _ => hstrings t
    next => rfl
  rw [Element.value, named_of, hchildren, List.append_nil]

/-- Nothing in the component of an entry is a component or a feature, or refers to one. -/
theorem Entry.named_eq {e : Entry} {id : Text} {x : Element} (h : e.Describes id x)
    (hvalue : "RegistryValue".toList ≠ name.toList)
    (hstring : "MultiStringValue".toList ≠ name.toList) :
    x.named name = if "Component".toList = name.toList then [x] else [] := by
  obtain ⟨_, ⟨v, type, payload, _, _, _, rfl⟩, rfl⟩ := h
  rw [Element.named_of, List.flatMap_singleton, Element.named_value hstring, if_neg hvalue,
    List.append_nil]

theorem Feature.named_element (f : Feature) (items : List (Entry × Text)) :
    (f.element items).named name
      = (if "Feature".toList = name.toList then [f.element items] else [])
        ++ (f.installed items).flatMap fun item =>
          if "ComponentRef".toList = name.toList then [referenceTo item.2] else [] := by
  rw [element, Element.named_of, List.flatMap_map]
  refine congrArg _ (List.flatMap_congr fun item _ => ?_)
  rw [referenceTo, Element.named_of, List.flatMap_nil, List.append_nil]

theorem Entry.flatMap_named {items : List (Entry × Text)} {components : List Element}
    (h : List.Forall₂ (fun item y => item.1.Describes item.2 y) items components)
    (hvalue : "RegistryValue".toList ≠ name.toList)
    (hstring : "MultiStringValue".toList ≠ name.toList) :
    components.flatMap (Element.named name)
      = if "Component".toList = name.toList then components else [] := by
  induction h with
  | nil => split <;> rfl
  | cons hxy _ ih =>
    rw [List.flatMap_cons, Entry.named_eq hxy hvalue hstring, ih]
    split <;> rfl

/-- What is looked for in the document of a manifest is found in its properties, its components and
its features. -/
theorem Manifest.named_parts (m : Manifest) (properties components : List Element)
    (items : List (Entry × Text))
    (hname : ∀ kind ∈ ["Wix", "Fragment", "Launch", "ComponentGroup"], kind.toList ≠ name.toList) :
    (m.element properties components items).named name
      = properties.flatMap (Element.named name) ++ components.flatMap (Element.named name)
        ++ (m.featuresFor (items.map Prod.fst)).flatMap fun f => (f.element items).named name := by
  simp only [List.forall_mem_cons] at hname
  obtain ⟨hwix, hfragment, hlaunch, hgroup, -⟩ := hname
  have hnoLaunch : (m.launchConditions.map LaunchCondition.element).flatMap (Element.named name)
      = [] := by
    rw [List.flatMap_eq_nil_iff]
    intro x hx
    obtain ⟨c, _, rfl⟩ := List.mem_map.1 hx
    exact c.named_eq_nil hlaunch
  rw [element, Element.named_of, if_neg hwix, List.nil_append, List.flatMap_singleton,
    Element.named_of, if_neg hfragment, List.nil_append, List.flatMap_append, List.flatMap_append,
    List.flatMap_append, hnoLaunch, List.append_nil, List.flatMap_singleton, Element.named_of,
    if_neg hgroup, List.flatMap_map]
  rfl

/-- There is nothing in the properties but themselves and their searches. -/
theorem Manifest.named_element (m : Manifest) {properties components : List Element}
    {items : List (Entry × Text)}
    (hproperties : List.Forall₂ Property.Describes m.properties properties)
    (hname : ∀ kind ∈ ["Wix", "Fragment", "Property", "RegistrySearch", "Launch", "ComponentGroup"],
      kind.toList ≠ name.toList) :
    (m.element properties components items).named name
      = components.flatMap (Element.named name)
        ++ (m.featuresFor (items.map Prod.fst)).flatMap fun f => (f.element items).named name := by
  have hnoProperty : properties.flatMap (Element.named name) = [] := by
    rw [List.flatMap_eq_nil_iff]
    intro x hx
    obtain ⟨p, _, hp⟩ := exists_left_of_forall₂ hproperties hx
    exact Property.named_eq_nil hp (hname "Property" (by decide))
      (hname "RegistrySearch" (by decide))
  have hfewer : ["Wix", "Fragment", "Launch", "ComponentGroup"]
      ⊆ ["Wix", "Fragment", "Property", "RegistrySearch", "Launch", "ComponentGroup"] := by decide
  rw [m.named_parts _ _ _ fun kind hkind => hname kind (hfewer hkind), hnoProperty,
    List.nil_append]

end Searching

namespace Manifest

variable {m : Manifest} {properties components : List Element} {items : List (Entry × Text)}

/-- There is nothing in the features but themselves and their references. -/
theorem flatMap_named_features {name : String} (fs : List Feature)
    (hfeature : "Feature".toList ≠ name.toList) (href : "ComponentRef".toList ≠ name.toList) :
    (fs.flatMap fun f => (f.element items).named name) = [] := by
  rw [List.flatMap_eq_nil_iff]
  intro f _
  rw [Feature.named_element, if_neg hfeature, List.nil_append, List.flatMap_eq_nil_iff]
  exact fun item _ => if_neg href

/-- The components of the document are those that have been put into its group. -/
theorem named_components (hproperties : List.Forall₂ Property.Describes m.properties properties)
    (hcomponents : List.Forall₂ (fun item y => item.1.Describes item.2 y) items components) :
    (m.element properties components items).named "Component" = components := by
  rw [m.named_element hproperties (by decide), flatMap_named_features _ (by decide) (by decide),
    List.append_nil, Entry.flatMap_named hcomponents (by decide) (by decide), if_pos rfl]

/-- The features of the document are those of the manifest, and the default one if it is needed. -/
theorem named_features (hproperties : List.Forall₂ Property.Describes m.properties properties)
    (hcomponents : List.Forall₂ (fun item y => item.1.Describes item.2 y) items components) :
    (m.element properties components items).named "Feature"
      = (m.featuresFor (items.map Prod.fst)).map (Feature.element · items) := by
  have hfeature : ∀ f : Feature, (f.element items).named "Feature" = [f.element items] := by
    intro f
    have hnone : ((f.installed items).flatMap fun item =>
        if "ComponentRef".toList = "Feature".toList then [referenceTo item.2] else []) = [] := by
      rw [List.flatMap_eq_nil_iff]
      exact fun item _ => if_neg (by decide)
    rw [Feature.named_element, if_pos rfl, hnone, List.append_nil]
  rw [m.named_element hproperties (by decide),
    Entry.flatMap_named hcomponents (by decide) (by decide), if_neg (by decide), List.nil_append,
    List.flatMap_congr fun f _ => hfeature f, ← List.map_eq_flatMap]

/-- The references of the document are those of its features. -/
theorem named_references (hproperties : List.Forall₂ Property.Describes m.properties properties)
    (hcomponents : List.Forall₂ (fun item y => item.1.Describes item.2 y) items components) :
    (m.element properties components items).named "ComponentRef"
      = (m.featuresFor (items.map Prod.fst)).flatMap fun f =>
        (f.installed items).map fun item => referenceTo item.2 := by
  rw [m.named_element hproperties (by decide),
    Entry.flatMap_named hcomponents (by decide) (by decide), if_neg (by decide), List.nil_append]
  refine List.flatMap_congr fun f _ => ?_
  rw [Feature.named_element, if_neg (by decide), List.nil_append, List.map_eq_flatMap]
  exact List.flatMap_congr fun item _ => if_pos rfl

/-! ## The features of a manifest -/

/-- Their identifiers. -/
theorem map_id_featuresFor (m : Manifest) (entries : List Entry) :
    (m.featuresFor entries).map Feature.id = m.features.map Feature.id
      ++ if defaultFeature ∉ m.features.map Feature.id
          ∧ ∃ e ∈ entries, e.featureId = defaultFeature
        then [defaultFeature] else [] := by
  have hneeded : (!m.features.any (·.id == defaultFeature)
        && entries.any (·.featureId == defaultFeature)) = true
      ↔ defaultFeature ∉ m.features.map Feature.id
        ∧ ∃ e ∈ entries, e.featureId = defaultFeature := by
    simp
  unfold featuresFor
  by_cases h : defaultFeature ∉ m.features.map Feature.id
      ∧ ∃ e ∈ entries, e.featureId = defaultFeature
  · rw [if_pos h, if_pos (hneeded.2 h), List.map_append]
    rfl
  · rw [if_neg h, if_neg (mt hneeded.1 h), List.append_nil]

/-- They stay pairwise different. -/
theorem nodup_featuresFor (h : (m.features.map Feature.id).Nodup) (entries : List Entry) :
    ((m.featuresFor entries).map Feature.id).Nodup := by
  rw [map_id_featuresFor]
  split
  next hdefault =>
    exact h.append (List.nodup_singleton _) (List.disjoint_singleton.2 hdefault.1)
  next => rwa [List.append_nil]

/-- The feature that an entry is installed with is known, if what it asks for is. -/
theorem knows_featureId {e : Entry} (h : ∀ feature ∈ e.feature, m.Knows feature) :
    m.Knows e.featureId := by
  unfold Entry.featureId
  cases hf : e.feature with
  | none => exact .inl rfl
  | some feature => exact h feature hf

/-- The feature that an entry is installed with is there, if it is known. -/
theorem exists_mem_featuresFor {entries : List Entry} {e : Entry} (he : e ∈ entries)
    (h : m.Knows e.featureId) : ∃ f ∈ m.featuresFor entries, f.id = e.featureId := by
  have hmem : e.featureId ∈ (m.featuresFor entries).map Feature.id := by
    rw [map_id_featuresFor, List.mem_append]
    by_cases hdeclared : e.featureId ∈ m.features.map Feature.id
    · exact .inl hdeclared
    · have hdefault := h.resolve_right hdeclared
      rw [hdefault] at hdeclared ⊢
      rw [if_pos ⟨hdeclared, e, he, hdefault⟩]
      exact .inr (List.mem_singleton_self _)
  exact List.mem_map.1 hmem

/-! ## All together -/

/-- One reference in the document has the identifier of a component. -/
theorem filter_references {fs : List Feature} (hfs : (fs.map Feature.id).Nodup)
    (hids : (items.map Prod.snd).Nodup) {f : Feature} (hf : f ∈ fs) {item : Entry × Text}
    (hitem : item ∈ items) (hfeature : f.id = item.1.featureId) :
    (fs.flatMap fun f => (f.installed items).map fun item => referenceTo item.2).filter
        (fun r => r.id? = some ("Component_".toList ++ item.2)) = [referenceTo item.2] := by
  -- the feature of the entry has the reference, and any other one has none to the component
  have hinstalled : ∀ g : Feature, ((g.installed items).map fun item => referenceTo item.2).filter
        (fun r => r.id? = some ("Component_".toList ++ item.2))
      = if g.id = f.id then [referenceTo item.2] else [] := by
    intro g
    have hid : ∀ i : Entry × Text,
        (referenceTo i.2).id? = some ("Component_".toList ++ item.2) ↔ i.2 = item.2 := by
      intro i
      show some ("Component_".toList ++ i.2) = some ("Component_".toList ++ item.2) ↔ _
      rw [Option.some_inj, List.append_cancel_left_eq]
    have hcomm : (g.installed items).filter
          (fun i => (referenceTo i.2).id? = some ("Component_".toList ++ item.2))
        = (items.filter fun i => i.2 = item.2).filter fun i => i.1.featureId == g.id := by
      rw [Feature.installed, List.filter_filter, List.filter_filter]
      refine List.filter_congr fun i _ => ?_
      rw [decide_eq_decide.2 (hid i), Bool.and_comm]
    rw [List.filter_map, Function.comp_def, hcomm, filter_key_eq_singleton hids hitem, hfeature]
    by_cases hg : g.id = item.1.featureId
    · rw [if_pos hg, List.filter_cons_of_pos (by simp [hg])]
      rfl
    · rw [if_neg hg, List.filter_cons_of_neg (by simpa using Ne.symm hg)]
      rfl
  rw [List.filter_flatMap, List.flatMap_congr fun g _ => hinstalled g]
  exact flatMap_key_eq hfs hf _

theorem map_id?_element (fs : List Feature) (items : List (Entry × Text)) :
    (fs.map (Feature.element · items)).map Element.id? = (fs.map Feature.id).map some := by
  rw [List.map_map, List.map_map]
  rfl

theorem id?_eq_of_describes {e : Entry} {id : Text} {y : Element} (h : e.Describes id y) :
    y.id? = some ("Component_".toList ++ id) := by
  obtain ⟨_, _, rfl⟩ := h
  rfl

/-- **The document installs an entry once** if the identifiers of its components differ, those of
its features differ, and the entry asks for one of the features. -/
theorem installedOnce_element (hfeatures : (m.features.map Feature.id).Nodup)
    (hids : (items.map Prod.snd).Nodup)
    (hproperties : List.Forall₂ Property.Describes m.properties properties)
    (hcomponents : List.Forall₂ (fun item y => item.1.Describes item.2 y) items components)
    {e : Entry} {id : Text} {y : Element} (hitem : (e, id) ∈ items) (hy : e.Describes id y)
    (hasked : m.Knows e.featureId) :
    e.InstalledOnce (m.element properties components items) y := by
  have hfs := nodup_featuresFor hfeatures (items.map Prod.fst)
  have hid := id?_eq_of_describes hy
  obtain ⟨f, hf, hfeature⟩ := exists_mem_featuresFor
    (List.mem_map_of_mem (f := Prod.fst) hitem) hasked
  refine ⟨id, f.element items, referenceTo id, hy, hid, ?_, ?_, ?_, ?_⟩
  · rw [hid, named_references hproperties hcomponents]
    exact filter_references hfs hids hf hitem hfeature
  · rw [named_features hproperties hcomponents]
    exact List.mem_map_of_mem hf
  · rw [← hfeature]
    rfl
  · have hinstalled : (e, id) ∈ f.installed items :=
      List.mem_filter.2 ⟨hitem, beq_iff_eq.2 hfeature.symm⟩
    exact List.mem_map_of_mem (f := fun item => referenceTo item.2) hinstalled

/-- The document installs every entry once if it installs each of them, and refers to no component
that it does not have. -/
theorem installsOnce_element (hfeatures : (m.features.map Feature.id).Nodup)
    (hids : (items.map Prod.snd).Nodup)
    (hasked : ∀ item ∈ items, m.Knows item.1.featureId)
    (hproperties : List.Forall₂ Property.Describes m.properties properties)
    (hcomponents : List.Forall₂ (fun item y => item.1.Describes item.2 y) items components) :
    m.InstallsOnce (items.map Prod.fst) (m.element properties components items) where
  components := by
    rw [named_components hproperties hcomponents, List.forall₂_map_left_iff]
    have hboth := (List.forall₂_and_left items components).2 ⟨fun _ hitem => hitem, hcomponents⟩
    exact hboth.imp fun item y h =>
      installedOnce_element hfeatures hids hproperties hcomponents h.1 h.2 (hasked item h.1)
  references := by
    rw [named_references hproperties hcomponents, named_components hproperties hcomponents]
    intro r hr
    obtain ⟨f, _, hr⟩ := List.mem_flatMap.1 hr
    obtain ⟨item, hitem, rfl⟩ := List.mem_map.1 hr
    obtain ⟨y, hy, hdescribes⟩ := exists_right_of_forall₂ hcomponents (List.mem_filter.1 hitem).1
    exact ⟨y, hy, (id?_eq_of_describes hdescribes).symm⟩
  features := by
    rw [named_features hproperties hcomponents, map_id?_element]
    exact (nodup_featuresFor hfeatures _).map fun _ _ h => Option.some.inj h
  featureIds := by
    rw [named_features hproperties hcomponents, map_id?_element, map_id_featuresFor]

/-- **Every component of an accepted manifest is installed once**, by the feature of its entry. -/
theorem installsOnce_generate (hcheck : m.check = .ok ()) {root : FileTree} {base doc : Text}
    (h : m.generate root base = .ok doc) :
    ∃ c x, m.contents root base = .ok c ∧ Element.ofText? doc = some x
      ∧ m.InstallsOnce c.entries x := by
  obtain ⟨hfeatures, hreferences⟩ := check_features hcheck
  obtain ⟨c, hc, h⟩ := bind_eq_ok_iff.1 h
  obtain ⟨cs, x, hcs, hread, properties, components, hproperties, hcomponents, rfl⟩ :=
    m.ofText?_fragmentOf h
  obtain ⟨hentries, _⟩ := Component.listFrom_ok hcs
  have hids : ((Component.items cs).map Prod.snd).Nodup := by
    rw [Component.map_snd_items]
    exact (Component.nodup_listFrom hcs).1
  rw [← Component.map_fst_items] at hentries
  have hasked : ∀ item ∈ Component.items cs, m.Knows item.1.featureId := by
    intro item hitem
    have he : item.1 ∈ c.entries := hentries ▸ List.mem_map_of_mem hitem
    exact knows_featureId fun feature hfeature =>
      hreferences feature (feature_of_mem_contents hc _ he feature hfeature)
  refine ⟨c, _, hc, hread, ?_⟩
  rw [← hentries]
  exact installsOnce_element hfeatures hids hasked hproperties hcomponents

/-- Two features, a block that asks for one of them, and one that asks for none. -/
def exampleManifest : Manifest :=
  { features := [{ id := "A".toList }, { id := "B".toList }]
    registry := [{ key := "HKLM/a".toList, feature := some "B".toList
                   values := [(.text ['x'], .text ['1']), (.text ['y'], .text ['2'])] },
      { key := "HKCU/a".toList, values := [(.text ['x'], .text ['1'])] }] }

/-- Its values are installed once each, that of the second block by the default feature. -/
theorem installsOnce_generate_exampleManifest :
    ∃ doc c x, exampleManifest.check = .ok () ∧ exampleManifest.generate default [] = .ok doc
      ∧ exampleManifest.contents default [] = .ok c ∧ Element.ofText? doc = some x
      ∧ exampleManifest.InstallsOnce c.entries x := by
  have hcheck : exampleManifest.check = .ok () := rfl
  obtain ⟨doc, hdoc⟩ : ∃ doc, exampleManifest.generate default [] = .ok doc := ⟨_, rfl⟩
  obtain ⟨c, x, h⟩ := installsOnce_generate hcheck hdoc
  exact ⟨doc, c, x, hcheck, hdoc, h⟩

end Manifest

end InstallerRegistry
