import InstallerRegistry.Fragment
import InstallerRegistry.Proofs.Component
import InstallerRegistry.Proofs.Except
import InstallerRegistry.Proofs.RegistryValue.Written
import InstallerRegistry.Proofs.Text.Lines
import InstallerRegistry.Proofs.Xml.Reading

/-!
# What a fragment says

The document of a manifest with some entries is read as one tree (`Manifest.describes_fragmentOf`),
in which every part of the manifest and every entry has its element, with the attributes and the
children that it should have and no others. The strings of a manifest come back as they are,
whatever characters they are made of.

What the elements should be is said here in terms of the manifest and its entries. An attribute is
given by its name and the value it has, if it has one.
-/

namespace InstallerRegistry

open Xml (Element Shows WellNamed)

/-! ## Elements by what they say -/

/-- The attributes that have a value. -/
def given (attributes : List (String × Option Text)) : List Attribute :=
  attributes.filterMap fun (name, value) => value.map (name.toList, ·)

/-- A text, unless it is empty. -/
def filled (t : Text) : Option Text :=
  if t.isEmpty then none else some t

/-- The view of the registry that is asked for. -/
def view (win64 : Bool) : Option Text :=
  if win64 then some "always64".toList else none

/-- An element with the attributes that have a value. -/
def Xml.Element.of (name : String) (attributes : List (String × Option Text))
    (children : List Element) : Element :=
  { name := name.toList, attributes := given attributes, children }

/-- Does the element say what the property is, and where its value is searched for? The search is
identified by the property, with underscores for the characters that no identifier has. -/
def Property.Describes (p : Property) (x : Element) : Prop :=
  ∃ hive key stem, RegistryPath.parse p.key = .ok (hive, key) ∧ hive ≠ .currentConfig
    ∧ List.Forall₂ Identifier.StandsFor p.id stem
    ∧ x = .of "Property" [("Id", some p.id), ("Value", p.value)]
      [.of "RegistrySearch"
        [("Id", some (stem ++ "_Search".toList)), ("Root", some hive.shortName),
          ("Key", some key), ("Name", filled p.name), ("Type", some "raw".toList),
          ("Bitness", view p.win64)] []]

/-- The element of a launch condition. -/
def LaunchCondition.element (c : LaunchCondition) : Element :=
  .of "Launch" [("Condition", some c.condition), ("Message", some c.message)] []

/-- The element of a string in a list. -/
def Xml.Element.string (t : Text) : Element :=
  .of "MultiStringValue" [("Value", some t)] []

/-- The element of a value with its place in the registry, its type and its text. A list has an
element for each of the strings in its text, any other text is an attribute. -/
def Xml.Element.value (id root key name type payload : Text) : Element :=
  .of "RegistryValue"
    [("Id", some id), ("Root", some root), ("Key", some key), ("Name", filled name),
      ("Type", some type),
      ("Value", if type = "multiString".toList then none else some payload),
      ("KeyPath", some "yes".toList)]
    (if type = "multiString".toList then payload.listed.map Element.string else [])

/-- Does the element say what the value of the entry is, and where it goes? -/
def Entry.ShowsValue (e : Entry) (id : Text) (x : Element) : Prop :=
  ∃ v type payload, e.value = some v ∧ v.IsWrittenAs type payload ∧ e.hive ≠ .currentConfig
    ∧ x = .value id e.hive.shortName e.key e.name type payload

/-- Does the element say what is written for the entry, its value having the identifier? -/
def Entry.Describes (e : Entry) (id : Text) (x : Element) : Prop :=
  ∃ y, e.ShowsValue id y
    ∧ x = .of "Component"
      [("Id", some ("Component_".toList ++ id)), ("Guid", some ['*']), ("Condition", e.condition),
        ("Bitness", view e.win64)] [y]

/-- The feature that an entry is installed with. -/
def Entry.featureId (e : Entry) : Text :=
  e.feature.getD defaultFeature

/-- The element that refers to the component of an identifier. -/
def referenceTo (id : Text) : Element :=
  .of "ComponentRef" [("Id", some ("Component_".toList ++ id))] []

/-- The entries that a feature installs, each of them given with its identifier. -/
def Feature.installed (f : Feature) (items : List (Entry × Text)) : List (Entry × Text) :=
  items.filter fun item => item.1.featureId == f.id

/-- The element of a feature that installs those of some entries which ask for it. -/
def Feature.element (f : Feature) (items : List (Entry × Text)) : Element :=
  .of "Feature"
    [("Id", some f.id), ("Title", filled f.title), ("Description", filled f.description),
      ("Level", some f.level.toInt.repr.toList)]
    ((f.installed items).map fun item => referenceTo item.2)

/-- The features that a manifest installs entries with: its own, and the default one if it is
needed and not among them. -/
def Manifest.featuresFor (m : Manifest) (entries : List Entry) : List Feature :=
  if !m.features.any (·.id == defaultFeature) && entries.any (·.featureId == defaultFeature) then
    m.features ++ [{ id := defaultFeature, title := defaultFeature, description := [], level := 1 }]
  else m.features

/-- The element of a manifest, with those of its properties and of the components of entries. -/
def Manifest.element (m : Manifest) (properties components : List Element)
    (items : List (Entry × Text)) : Element :=
  .of "Wix" [("xmlns", some "http://wixtoolset.org/schemas/v4/wxs".toList)]
    [.of "Fragment" []
      (properties ++ m.launchConditions.map LaunchCondition.element
        ++ [.of "ComponentGroup" [("Id", some m.fragment), ("Directory", some m.directory)]
          components]
        ++ (m.featuresFor (items.map Prod.fst)).map (Feature.element · items))]

/-- Does the element say what the manifest does with the entries? Each of them is given with its
identifier. -/
def Manifest.Describes (m : Manifest) (items : List (Entry × Text)) (x : Element) : Prop :=
  ∃ properties components, List.Forall₂ Property.Describes m.properties properties
    ∧ List.Forall₂ (fun item y => item.1.Describes item.2 y) items components
    ∧ x = m.element properties components items

/-! ## Attributes -/

theorem given_append (a b : List (String × Option Text)) : given (a ++ b) = given a ++ given b :=
  List.filterMap_append

theorem always_eq (name : String) (value : Text) :
    Attribute.always name value = given [(name, some value)] :=
  rfl

theorem ifFilled_eq (name : String) (value : Text) :
    Attribute.ifFilled name value = given [(name, filled value)] := by
  unfold Attribute.ifFilled filled
  split <;> rfl

theorem ifGiven_eq (name : String) (value : Option Text) :
    Attribute.ifGiven name value = given [(name, value)] := by
  cases value <;> rfl

theorem bitness_eq (win64 : Bool) : bitness win64 = given [("Bitness", view win64)] := by
  cases win64 <;> rfl

/-- Are these the name of an element and names of its attributes, no two of them the same? -/
def areNames (name : String) (names : List String) : Bool :=
  Xml.isName name.toList && names.all (fun n => Xml.isName n.toList)
    && decide (names.map String.toList).Nodup

/-- The names of the attributes that have a value are among those of all. -/
theorem map_fst_given_sublist (attributes : List (String × Option Text)) :
    ((given attributes).map Prod.fst).Sublist ((attributes.map Prod.fst).map String.toList) := by
  induction attributes with
  | nil => exact .slnil
  | cons a attributes ih =>
    obtain ⟨name, value⟩ := a
    cases value with
    | none => exact ih.cons _
    | some value => exact ih.cons_cons _

theorem wellNamed_given {name : String} {attributes : List (String × Option Text)}
    (h : areNames name (attributes.map Prod.fst)) :
    WellNamed name.toList (given attributes) := by
  obtain ⟨h', hnodup⟩ := Bool.and_eq_true_iff.1 h
  obtain ⟨hname, hnames⟩ := Bool.and_eq_true_iff.1 h'
  have hsublist := map_fst_given_sublist attributes
  refine ⟨hname, fun a ha => ?_, hsublist.nodup (decide_eq_true_iff.1 hnodup)⟩
  obtain ⟨n, hn, hna⟩ := List.mem_map.1 (hsublist.subset (List.mem_map_of_mem ha))
  rw [← hna]
  exact List.all_eq_true.1 hnames n hn

/-! ## What the parts of a fragment show -/

theorem shows_leaf {name : String} {attributes : List (String × Option Text)}
    (h : areNames name (attributes.map Prod.fst)) :
    Shows [.leaf name.toList (given attributes)] [.of name attributes []] :=
  .leaf (wellNamed_given h)

theorem shows_element {name : String} {attributes : List (String × Option Text)} {xs : List Xml}
    {ys : List Element} (h : areNames name (attributes.map Prod.fst)) (hchildren : Shows xs ys) :
    Shows [.element name.toList (given attributes) xs] [.of name attributes ys] :=
  .element (wellNamed_given h) hchildren

theorem LaunchCondition.shows_toXml (c : LaunchCondition) : Shows [c.toXml] [c.element] := by
  rw [toXml, always_eq, always_eq, ← given_append]
  exact shows_leaf (show areNames "Launch" ["Condition", "Message"] from by decide)

/-- The element of a property shows what describes it. -/
theorem Property.shows_toXml {p : Property} {x : Xml} (h : p.toXml = .ok x) :
    ∃ y, Shows [x] [y] ∧ p.Describes y := by
  obtain ⟨⟨hive, key⟩, hparse, h⟩ := bind_eq_ok_iff.1 h
  dsimp only at h
  split at h
  next => cases h
  next root hroot =>
    obtain ⟨hhive, rfl⟩ := Hive.installerRoot?_eq_some_iff.1 hroot
    refine ⟨_, ?_, hive, key, _, hparse, hhive, Identifier.forall₂_standsFor_iff.2 rfl, rfl⟩
    rw [← Except.ok.inj h, always_eq, ifGiven_eq, ← given_append, search, always_eq, always_eq,
      always_eq, ifFilled_eq, always_eq, bitness_eq, ← given_append, ← given_append,
      ← given_append, ← given_append, ← given_append]
    exact shows_element (show areNames "Property" ["Id", "Value"] from by decide)
      (shows_leaf (show areNames "RegistrySearch"
        ["Id", "Root", "Key", "Name", "Type", "Bitness"] from by decide))

/-! ### Components -/

/-- The strings of a list are those that its text lists. -/
theorem Component.strings_eq_listed {t : Text} (h : t ≠ []) : strings t = t.listed := by
  rw [Text.listed, Text.lines_eq_splitOn_before h]
  rfl

/-- The element of a list has its strings as children, and no text of its own. -/
theorem Xml.Element.value_multiString (id root key name payload : Text) :
    Element.value id root key name ValueType.multiString.name payload = .of "RegistryValue"
      [("Id", some id), ("Root", some root), ("Key", some key), ("Name", filled name),
        ("Type", some ValueType.multiString.name), ("Value", none),
        ("KeyPath", some "yes".toList)]
      (payload.listed.map Element.string) := by
  have hname : ValueType.multiString.name = "multiString".toList := rfl
  rw [Element.value, if_pos hname, if_pos hname]

/-- The element of any other value has its text, and no children. -/
theorem Xml.Element.value_of_ne {type : ValueType} (h : type ≠ .multiString)
    (id root key name payload : Text) :
    Element.value id root key name type.name payload = .of "RegistryValue"
      [("Id", some id), ("Root", some root), ("Key", some key), ("Name", filled name),
        ("Type", some type.name), ("Value", some payload), ("KeyPath", some "yes".toList)] [] := by
  have hname : type.name ≠ "multiString".toList := ValueType.name_injective.ne h
  rw [Element.value, if_neg hname, if_neg hname]

theorem Component.shows_valueElement (c : Component) :
    Shows [c.valueElement] [.value c.id c.root c.entry.key c.entry.name c.value.type.name
      c.value.payload] := by
  have hattributes : c.valueAttributes = given [("Id", some c.id), ("Root", some c.root),
      ("Key", some c.entry.key), ("Name", filled c.entry.name),
      ("Type", some c.value.type.name)] := by
    rw [valueAttributes, always_eq, always_eq, always_eq, ifFilled_eq, always_eq, ← given_append,
      ← given_append, ← given_append, ← given_append]
    rfl
  have hnames : areNames "RegistryValue"
      ["Id", "Root", "Key", "Name", "Type", "Value", "KeyPath"] := by decide
  unfold valueElement
  split
  next h =>
    obtain ⟨t, hvalue, hfeed⟩ := RegistryValue.type_eq_multiString_iff.1 h
    have hstrings : Shows ((strings c.value.payload).map stringElement)
        (c.value.payload.listed.map Element.string) := by
      rw [hvalue, RegistryValue.payload, strings_eq_listed (List.ne_nil_of_mem hfeed)]
      refine .map fun t _ => ?_
      rw [stringElement, always_eq]
      exact shows_leaf (show areNames "MultiStringValue" ["Value"] from by decide)
    have hkeyPath : keyPath = given [("Value", none), ("KeyPath", some "yes".toList)] := rfl
    rw [hattributes, hkeyPath, ← given_append, h, Element.value_multiString]
    exact shows_element hnames hstrings
  next h =>
    rw [hattributes, keyPath, always_eq, always_eq, ← given_append, ← given_append,
      Element.value_of_ne h]
    exact shows_leaf hnames

/-- There is one element that shows the value of an entry, with the type and the payload that are
written of it. -/
theorem Entry.showsValue_iff {e : Entry} {id : Text} {x : Element} :
    e.ShowsValue id x ↔ ∃ v, e.value = some v ∧ e.hive ≠ .currentConfig
      ∧ x = .value id e.hive.shortName e.key e.name v.type.name v.payload := by
  constructor
  · rintro ⟨v, type, payload, hv, hwritten, hhive, rfl⟩
    obtain ⟨rfl, rfl⟩ := RegistryValue.isWrittenAs_iff.1 hwritten
    exact ⟨v, hv, hhive, rfl⟩
  · rintro ⟨v, hv, hhive, rfl⟩
    exact ⟨v, _, _, hv, v.isWrittenAs_name_payload, hhive, rfl⟩

/-- The element of a component shows what describes its entry. -/
theorem Component.shows_toXml {c : Component} (h : c.IsFaithful) :
    ∃ y, Shows [c.toXml] [y] ∧ c.entry.Describes c.id y := by
  obtain ⟨hhive, hroot⟩ := Hive.installerRoot?_eq_some_iff.1 h.root
  refine ⟨_, ?_, _, Entry.showsValue_iff.2 ⟨c.value, h.value, hhive, rfl⟩, rfl⟩
  rw [toXml, always_eq, always_eq, ifGiven_eq, bitness_eq, ← given_append, ← given_append,
    ← given_append, ← hroot]
  exact shows_element
    (show areNames "Component" ["Id", "Guid", "Condition", "Bitness"] from by decide)
    c.shows_valueElement

/-- The entries of components with their identifiers. -/
def Component.items (cs : List Component) : List (Entry × Text) :=
  cs.map fun c => (c.entry, c.id)

theorem Component.map_fst_items (cs : List Component) :
    (items cs).map Prod.fst = cs.map Component.entry :=
  List.map_map ..

theorem Component.map_snd_items (cs : List Component) :
    (items cs).map Prod.snd = cs.map Component.id :=
  List.map_map ..

theorem Component.shows_map_toXml {cs : List Component} (h : ∀ c ∈ cs, c.IsFaithful) :
    ∃ components, Shows (cs.map Component.toXml) components
      ∧ List.Forall₂ (fun item y => item.1.Describes item.2 y) (items cs) components := by
  have hcs : List.Forall₂ (fun (c : Component) x => c.IsFaithful ∧ x = c.toXml) cs
      (cs.map Component.toXml) :=
    List.forall₂_map_right_iff.2 (List.forall₂_same.2 fun c hc => ⟨h c hc, rfl⟩)
  obtain ⟨components, hcomponents, hdescribes⟩ := Shows.exists_forall₂
    (fun (c : Component) x (hx : c.IsFaithful ∧ x = c.toXml) =>
      hx.2 ▸ Component.shows_toXml hx.1) hcs
  exact ⟨components, hcomponents, List.forall₂_map_left_iff.2 hdescribes⟩

/-! ### Features -/

theorem Feature.shows_toXml (f : Feature) (cs : List Component) :
    Shows [f.toXml cs] [f.element (Component.items cs)] := by
  have href : Shows ((f.components cs).map Component.referenceElement)
      ((f.installed (Component.items cs)).map fun item => referenceTo item.2) := by
    rw [installed, Component.items, List.filter_map, List.map_map]
    refine .map fun c _ => ?_
    rw [Component.referenceElement, always_eq]
    exact shows_leaf (show areNames "ComponentRef" ["Id"] from by decide)
  rw [toXml, always_eq, ifFilled_eq, ifFilled_eq, always_eq, ← given_append, ← given_append,
    ← given_append, Text.ofInt_eq_repr]
  exact shows_element
    (show areNames "Feature" ["Id", "Title", "Description", "Level"] from by decide) href

namespace Manifest

variable (m : Manifest)

theorem installedFeatures_eq (cs : List Component) :
    m.installedFeatures cs = m.featuresFor (cs.map Component.entry) := by
  rw [installedFeatures, featuresFor, List.any_map]
  rfl

/-! ## The whole document -/

theorem shows_headed (heading : String) {xs : List Xml} {ys : List Element}
    (hheading : '-' ∉ heading.toList) (h : Shows xs ys) : Shows (headed heading xs) ys := by
  unfold headed
  split
  next hempty =>
    rw [List.isEmpty_iff.1 hempty] at h
    exact h
  next =>
    have hgap := h.append (.gap .nil)
    rw [List.append_nil] at hgap
    exact .comment hheading hgap

/-- The tree of a fragment shows its properties, launch conditions, components and features. -/
theorem shows_root {properties : List Xml} {cs : List Component} {ys components : List Element}
    (hproperties : Shows properties ys) (hcomponents : Shows (cs.map Component.toXml) components) :
    Shows [m.root properties cs] [m.element ys components (Component.items cs)] := by
  have hlaunches : Shows (m.launchConditions.map LaunchCondition.toXml)
      (m.launchConditions.map LaunchCondition.element) := .map fun c _ => c.shows_toXml
  have hgroup : Shows [m.group cs] [.of "ComponentGroup"
      [("Id", some m.fragment), ("Directory", some m.directory)] components] := by
    rw [group, always_eq, always_eq, ← given_append]
    exact shows_element (show areNames "ComponentGroup" ["Id", "Directory"] from by decide)
      hcomponents
  have hfeatures : Shows ((m.installedFeatures cs).map (Feature.toXml cs))
      ((m.featuresFor (cs.map Component.entry)).map (Feature.element · (Component.items cs))) := by
    rw [installedFeatures_eq]
    exact .map fun f _ => f.shows_toXml cs
  have hend : Shows [.gap] [] := .gap .nil
  have hhead := (Shows.gap (shows_headed "Registry Properties" (by decide) hproperties)).append
    (shows_headed "Launch Conditions" (by decide) hlaunches)
  have hvalues := Shows.comment (t := "Registry Values".toList) (by decide) (hgroup.append hend)
  have htail := Shows.comment (t := "Features".toList) (by decide) hfeatures
  have hbody := ((hhead.append hvalues).append htail).append hend
  simp only [List.append_nil] at hbody
  have hfragment := shows_element
    (show areNames "Fragment" (List.map Prod.fst ([] : List (String × Option Text))) from by decide)
    hbody
  rw [root, always_eq, element, Component.map_fst_items]
  exact shows_element (show areNames "Wix" ["xmlns"] from by decide) hfragment

/-- The tree of a manifest with some entries shows what describes it, with the identifiers of its
components. -/
theorem shows_treeOf {entries : List Entry} {tree : Xml} (h : m.treeOf entries = .ok tree) :
    ∃ cs x, Component.list entries = .ok cs ∧ Shows [tree] [x]
      ∧ m.Describes (Component.items cs) x := by
  obtain ⟨properties, hproperties, h⟩ := bind_eq_ok_iff.1 h
  obtain ⟨cs, hcs, h⟩ := bind_eq_ok_iff.1 h
  cases h
  have hforall : List.Forall₂ (fun p x => Property.toXml p = .ok x) m.properties properties :=
    mapM_eq_ok_iff.1 hproperties
  obtain ⟨ys, hys, hdescribes⟩ := Shows.exists_forall₂
    (fun p x (h : Property.toXml p = .ok x) => Property.shows_toXml h) hforall
  obtain ⟨components, hcomponents, hdescribes'⟩ :=
    Component.shows_map_toXml (Component.listFrom_ok hcs).2
  exact ⟨cs, _, hcs, m.shows_root hys hcomponents, ys, components, hdescribes, hdescribes', rfl⟩

/-- A fragment is read as what describes it, with the identifiers of its components. -/
theorem ofText?_fragmentOf {entries : List Entry} {doc : Text}
    (h : m.fragmentOf entries = .ok doc) :
    ∃ cs x, Component.list entries = .ok cs ∧ Element.ofText? doc = some x
      ∧ m.Describes (Component.items cs) x := by
  obtain ⟨tree, htree, h⟩ := bind_eq_ok_iff.1 h
  cases h
  obtain ⟨cs, x, hcs, hshows, hdescribes⟩ := m.shows_treeOf htree
  exact ⟨cs, x, hcs, Xml.ofText?_document hshows, hdescribes⟩

/-- **The document of a manifest is read as what describes it**, whatever its strings are: there is
an identifier for each entry, and with these the reader's tree describes the manifest and the
entries. -/
theorem describes_fragmentOf {entries : List Entry} {doc : Text}
    (h : m.fragmentOf entries = .ok doc) :
    ∃ items x, items.map Prod.fst = entries ∧ (∀ item ∈ items, item.1.HasId item.2)
      ∧ Element.ofText? doc = some x ∧ m.Describes items x := by
  obtain ⟨cs, x, hcs, hread, hdescribes⟩ := m.ofText?_fragmentOf h
  obtain ⟨hentries, hfaithful⟩ := Component.listFrom_ok hcs
  refine ⟨Component.items cs, x, ?_, fun item hitem => ?_, hread, hdescribes⟩
  · rw [Component.map_fst_items, hentries]
  · obtain ⟨c, hc, rfl⟩ := List.mem_map.1 hitem
    exact (hfaithful c hc).id

end Manifest

/-- A manifest whose strings look like references, tags and ends of attributes. -/
def hostileManifest : Manifest :=
  { fragment := "\" />&#x41;".toList
    features := [{ id := "<F>".toList, title := "&lt;".toList, description := "'\"".toList }]
    properties := [{ id := "P\">".toList, key := "HKLM/&amp;".toList, value := some "\n\t".toList }]
    launchConditions := [⟨"a<b && c>d".toList, "--> <!--".toList⟩] }

/-- Entries of the same kind, one of them with a list of strings. -/
def hostileEntries : List Entry :=
  [{ name := "\" Value=\"".toList, key := "]]>".toList
     value := some (.text "&amp;\n<a/>\r\n".toList), feature := some "<F>".toList
     condition := some "x<>\"y\"".toList, win64 := true },
    { name := [], value := some (.binary [0, 255]) }]

/-- Their document is read as what describes them. -/
theorem describes_fragmentOf_hostileEntries :
    ∃ doc items x, hostileManifest.fragmentOf hostileEntries = .ok doc
      ∧ items.map Prod.fst = hostileEntries ∧ (∀ item ∈ items, item.1.HasId item.2)
      ∧ Element.ofText? doc = some x ∧ hostileManifest.Describes items x := by
  obtain ⟨doc, hdoc⟩ : ∃ doc, hostileManifest.fragmentOf hostileEntries = .ok doc := ⟨_, rfl⟩
  obtain ⟨items, x, h⟩ := hostileManifest.describes_fragmentOf hdoc
  exact ⟨doc, items, x, hdoc, h⟩

end InstallerRegistry
