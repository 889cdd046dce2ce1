import InstallerRegistry.Proofs.Fragment.Identifiers
import InstallerRegistry.Proofs.Xml.Processing

/-!
# The strings of a document

What is written for a manifest and some entries are their strings (`Manifest.strings`), besides
identifiers and fixed texts, which are printable ASCII. So it depends on the characters of these
strings alone what a processor of XML makes of the document (`Manifest.survives_fragmentOf_iff`).
They are written with references for the five characters that mean something to a reader, but white
space is written as it is, and so are characters that XML does not allow.
-/

namespace InstallerRegistry

open Xml (Element Shows isPrintable HasPrintableComments HavePrintableComments)

/-! ## The strings that are written -/

/-- The strings that are written for a property. The key is what its path leads to. -/
def Property.strings (p : Property) : List Text :=
  p.id :: p.name :: p.value.toList
    ++ match RegistryPath.parse p.key with
      | .ok (_, key) => [key]
      | .error _ => []

/-- The strings that are written for a launch condition. -/
def LaunchCondition.strings (c : LaunchCondition) : List Text :=
  [c.condition, c.message]

/-- The strings that are written for a value: those of a list, or else one. -/
def RegistryValue.strings (v : RegistryValue) : List Text :=
  if v.type = .multiString then v.payload.listed else [v.payload]

/-- The strings that are written for an entry. -/
def Entry.strings (e : Entry) : List Text :=
  e.key :: e.name :: e.condition.toList ++ e.value.elim [] RegistryValue.strings

/-- The strings that are written for a feature. -/
def Feature.strings (f : Feature) : List Text :=
  [f.id, f.title, f.description]

/-- **The strings that are written** for a manifest with some entries. -/
def Manifest.strings (m : Manifest) (entries : List Entry) : List Text :=
  m.fragment :: m.directory :: m.properties.flatMap Property.strings
    ++ m.launchConditions.flatMap LaunchCondition.strings
    ++ entries.flatMap Entry.strings ++ m.features.flatMap Feature.strings

/-! ## What is printable -/

theorem isPrintable_of_isPart {t : Text} (h : ∀ c ∈ t, Identifier.isPart c) :
    ∀ c ∈ t, isPrintable c := by
  intro c hc
  have hpart := h c hc
  rw [Identifier.isPart, Bool.or_eq_true, Bool.or_eq_true, beq_iff_eq, beq_iff_eq] at hpart
  rcases hpart with (h | rfl) | rfl
  · exact Xml.isPrintable_of_isAlphanum h
  · decide
  · decide

theorem isPrintable_of_mem_view (win64 : Bool) : ∀ v ∈ view win64, ∀ c ∈ v, isPrintable c := by
  cases win64 with
  | false => exact nofun
  | true =>
    rintro _ ⟨rfl⟩
    exact List.all_eq_true.1 rfl

theorem isPrintable_shortName (hive : Hive) : ∀ c ∈ hive.shortName, isPrintable c := by
  cases hive <;> exact List.all_eq_true.1 rfl

theorem isPrintable_typeName (type : ValueType) : ∀ c ∈ type.name, isPrintable c := by
  cases type <;> exact List.all_eq_true.1 rfl

theorem isPrintable_of_mem_sanitize (t : Text) : ∀ c ∈ Identifier.sanitize t, isPrintable c := by
  refine isPrintable_of_isPart fun c hc => ?_
  obtain ⟨d, _, rfl⟩ := List.mem_map.1 hc
  split
  next hd => exact hd
  next => rfl

theorem isPrintable_repr (n : Int) : ∀ c ∈ n.repr.toList, isPrintable c := by
  rw [← Text.ofInt_eq_repr]
  cases n with
  | ofNat n => exact isPrintable_of_isPart (Identifier.isPart_ofNat n)
  | negSucc n =>
    exact List.forall_mem_cons.2
      ⟨by decide, isPrintable_of_isPart (Identifier.isPart_ofNat (n + 1))⟩

/-! ## Characters of elements -/

theorem map_snd_given (attributes : List (String × Option Text)) :
    (given attributes).map Prod.snd = attributes.filterMap Prod.snd := by
  rw [given, List.map_filterMap]
  congr 1
  funext ⟨name, value⟩
  cases value <;> rfl

/-- The values of an element are those of its own attributes, and those inside it. -/
theorem forall_mem_values_of {name : String} {attributes : List (String × Option Text)}
    {children : List Element} {p : Text → Prop} :
    (∀ v ∈ (Element.of name attributes children).values, p v)
      ↔ (∀ a ∈ attributes, ∀ v ∈ a.2, p v) ∧ ∀ y ∈ children, ∀ v ∈ y.values, p v := by
  rw [Element.of, Element.values, List.forall_mem_append, map_snd_given,
    Element.forall_mem_valuesAll_iff]
  refine and_congr_left' ⟨fun h a ha v hv => ?_, fun h v hv => ?_⟩
  · exact h v (List.mem_filterMap.2 ⟨a, ha, hv⟩)
  · obtain ⟨a, ha, hv⟩ := List.mem_filterMap.1 hv
    exact h a ha v hv

theorem forall_mem_filled_iff {t : Text} {q : Char → Prop} :
    (∀ v ∈ filled t, ∀ c ∈ v, q c) ↔ ∀ c ∈ t, q c := by
  unfold filled
  split
  next h =>
    rw [List.isEmpty_iff.1 h]
    exact iff_of_true nofun nofun
  next => simp

theorem LaunchCondition.forall_mem_values_iff {c : LaunchCondition} {p : Text → Prop} :
    (∀ v ∈ c.element.values, p v) ↔ ∀ t ∈ c.strings, p t := by
  simp only [element, forall_mem_values_of, strings, List.forall_mem_cons, List.not_mem_nil,
    IsEmpty.forall_iff, implies_true, and_true, Option.mem_some, forall_eq']

/-- The strings of a value stand in an attribute or in the elements of a list. -/
theorem RegistryValue.forall_mem_values_iff {v : RegistryValue} {id root key name : Text}
    {p : Text → Prop} :
    (∀ t ∈ (Element.value id root key name v.type.name v.payload).values, p t)
      ↔ (p id ∧ p root ∧ p key ∧ (∀ t ∈ filled name, p t) ∧ p v.type.name ∧ p "yes".toList)
        ∧ ∀ t ∈ v.strings, p t := by
  have hstring : ∀ t, (∀ u ∈ (Element.string t).values, p u) ↔ p t := fun t => by
    simp only [Element.string, forall_mem_values_of, List.forall_mem_cons, List.not_mem_nil,
      IsEmpty.forall_iff, implies_true, and_true, Option.mem_some, forall_eq']
  unfold strings
  by_cases h : v.type = .multiString
  · rw [if_pos h, h, Element.value_multiString, forall_mem_values_of, List.forall_mem_map]
    simp only [List.forall_mem_cons, List.not_mem_nil, IsEmpty.forall_iff, implies_true, and_true,
      true_and, Option.mem_some, forall_eq', Option.not_mem_none, hstring]
  · rw [if_neg h, Element.value_of_ne h, forall_mem_values_of]
    simp only [List.forall_mem_cons, List.not_mem_nil, IsEmpty.forall_iff, implies_true, and_true,
      Option.mem_some, forall_eq']
    constructor
    · rintro ⟨h₁, h₂, h₃, h₄, h₅, h₆, h₇⟩
      exact ⟨⟨h₁, h₂, h₃, h₄, h₅, h₇⟩, h₆⟩
    · rintro ⟨⟨h₁, h₂, h₃, h₄, h₅, h₇⟩, h₆⟩
      exact ⟨h₁, h₂, h₃, h₄, h₅, h₆, h₇⟩

section Characters

variable {q : Char → Prop} (hq : ∀ c, isPrintable c → q c)

include hq

theorem forall_mem_of_isPrintable {t : Text} (h : ∀ c ∈ t, isPrintable c) : ∀ c ∈ t, q c :=
  fun c hc => hq c (h c hc)

theorem forall_mem_of_all {t : Text} (h : t.all isPrintable) : ∀ c ∈ t, q c :=
  forall_mem_of_isPrintable hq (List.all_eq_true.1 h)

theorem forall_mem_reference_iff {id : Text} :
    (∀ c ∈ "Component_".toList ++ id, q c) ↔ ∀ c ∈ id, q c := by
  rw [List.forall_mem_append]
  exact and_iff_right (forall_mem_of_all hq rfl)

theorem Property.forall_mem_values_iff {p : Property} {x : Element} (h : p.Describes x) :
    (∀ v ∈ x.values, ∀ c ∈ v, q c) ↔ ∀ t ∈ p.strings, ∀ c ∈ t, q c := by
  obtain ⟨hive, key, stem, hparse, _, hstem, rfl⟩ := h
  obtain rfl := Identifier.forall₂_standsFor_iff.1 hstem
  have hid := forall_mem_of_isPrintable hq (isPrintable_of_mem_sanitize p.id)
  have hsearch : ∀ c ∈ "_Search".toList, q c := forall_mem_of_all hq rfl
  have hroot := forall_mem_of_isPrintable hq (isPrintable_shortName hive)
  have hraw : ∀ c ∈ "raw".toList, q c := forall_mem_of_all hq rfl
  have hview : ∀ v ∈ view p.win64, ∀ c ∈ v, q c := fun v hv =>
    forall_mem_of_isPrintable hq (isPrintable_of_mem_view p.win64 v hv)
  simp only [forall_mem_values_of, forall_mem_filled_iff, strings, hparse, List.cons_append,
    List.forall_mem_append, List.forall_mem_cons, List.not_mem_nil, IsEmpty.forall_iff,
    implies_true, and_true, Option.mem_some, forall_eq', Option.mem_toList]
  constructor
  · rintro ⟨⟨h₁, h₂⟩, _, _, h₃, h₄, _⟩
    exact ⟨h₁, h₄, h₂, h₃⟩
  · rintro ⟨h₁, h₄, h₂, h₃⟩
    exact ⟨⟨h₁, h₂⟩, ⟨hid, hsearch⟩, hroot, h₃, h₄, hraw, hview⟩

theorem Entry.forall_mem_values_iff {e : Entry} {id : Text} {x : Element} (h : e.Describes id x) :
    (∀ v ∈ x.values, ∀ c ∈ v, q c)
      ↔ (∀ c ∈ id, q c) ∧ ∀ t ∈ e.strings, ∀ c ∈ t, q c := by
  obtain ⟨y, hy, rfl⟩ := h
  obtain ⟨v, hvalue, _, rfl⟩ := showsValue_iff.1 hy
  have hcomponent : ∀ c ∈ "Component_".toList, q c := forall_mem_of_all hq rfl
  have hstar : q '*' := hq _ (by decide)
  have hroot := forall_mem_of_isPrintable hq (isPrintable_shortName e.hive)
  have hyes : ∀ c ∈ "yes".toList, q c := forall_mem_of_all hq rfl
  have htype := forall_mem_of_isPrintable hq (isPrintable_typeName v.type)
  have hview : ∀ v ∈ view e.win64, ∀ c ∈ v, q c := fun v hv =>
    forall_mem_of_isPrintable hq (isPrintable_of_mem_view e.win64 v hv)
  simp only [forall_mem_values_of, forall_mem_filled_iff, strings, hvalue, List.cons_append,
    List.forall_mem_append, List.forall_mem_cons, List.not_mem_nil, IsEmpty.forall_iff,
    implies_true, and_true, Option.mem_some, forall_eq', Option.mem_toList, Option.elim_some,
    RegistryValue.forall_mem_values_iff]
  constructor
  · rintro ⟨⟨_, _, h₁, _⟩, ⟨h₂, _, h₃, h₄, _⟩, h₅⟩
    exact ⟨h₂, h₃, h₄, h₁, h₅⟩
  · rintro ⟨h₂, h₃, h₄, h₁, h₅⟩
    exact ⟨⟨⟨hcomponent, h₂⟩, hstar, h₁, hview⟩, ⟨h₂, hroot, h₃, h₄, htype, hyes⟩, h₅⟩

/-- The characters of a feature are those of its strings, and those of the identifiers of the
entries that it installs. -/
theorem Feature.forall_mem_values_iff {f : Feature} {items : List (Entry × Text)} :
    (∀ v ∈ (f.element items).values, ∀ c ∈ v, q c)
      ↔ (∀ t ∈ f.strings, ∀ c ∈ t, q c) ∧ ∀ item ∈ f.installed items, ∀ c ∈ item.2, q c := by
  have hlevel := forall_mem_of_isPrintable hq (isPrintable_repr f.level.toInt)
  simp only [element, referenceTo, forall_mem_values_of, forall_mem_filled_iff, strings,
    List.forall_mem_map, List.forall_mem_cons, List.not_mem_nil, IsEmpty.forall_iff,
    implies_true, and_true, Option.mem_some, forall_eq', forall_mem_reference_iff hq]
  constructor
  · rintro ⟨⟨h₁, h₂, h₃, _⟩, h⟩
    exact ⟨⟨h₁, h₂, h₃⟩, h⟩
  · rintro ⟨⟨h₁, h₂, h₃⟩, h⟩
    exact ⟨⟨h₁, h₂, h₃, hlevel⟩, h⟩

namespace Manifest

variable {m : Manifest}

/-- The features of a fragment are made of the characters of those that are declared. -/
theorem forall_mem_featuresFor_iff {entries : List Entry} :
    (∀ f ∈ m.featuresFor entries, ∀ t ∈ f.strings, ∀ c ∈ t, q c)
      ↔ ∀ f ∈ m.features, ∀ t ∈ f.strings, ∀ c ∈ t, q c := by
  have hid : ∀ c ∈ defaultFeature, q c := forall_mem_of_all hq rfl
  have hdefault : ∀ t ∈ [defaultFeature, defaultFeature, []], ∀ c ∈ t, q c :=
    List.forall_mem_cons.2
      ⟨hid, List.forall_mem_cons.2 ⟨hid, List.forall_mem_singleton.2 nofun⟩⟩
  unfold featuresFor
  split
  next =>
    rw [List.forall_mem_append, List.forall_mem_singleton]
    exact and_iff_left hdefault
  next => rfl

/-- **The characters of a document** are those of the strings that are written, and those of
identifiers. -/
theorem forall_mem_values_iff {items : List (Entry × Text)} {x : Element}
    (h : m.Describes items x) :
    (∀ v ∈ x.values, ∀ c ∈ v, q c) ↔ (∀ item ∈ items, ∀ c ∈ item.2, q c)
      ∧ ∀ t ∈ m.strings (items.map Prod.fst), ∀ c ∈ t, q c := by
  obtain ⟨properties, components, hproperties, hcomponents, rfl⟩ := h
  have hxmlns : ∀ c ∈ "http://wixtoolset.org/schemas/v4/wxs".toList, q c :=
    forall_mem_of_all hq rfl
  have hproperties : (∀ y ∈ properties, ∀ v ∈ y.values, ∀ c ∈ v, q c)
      ↔ ∀ p ∈ m.properties, ∀ t ∈ p.strings, ∀ c ∈ t, q c :=
    forall_mem_iff_of_forall₂ (hproperties.imp fun p y h => Property.forall_mem_values_iff hq h)
  have hcomponents : (∀ y ∈ components, ∀ v ∈ y.values, ∀ c ∈ v, q c)
      ↔ ∀ item ∈ items, (∀ c ∈ item.2, q c) ∧ ∀ t ∈ item.1.strings, ∀ c ∈ t, q c :=
    forall_mem_iff_of_forall₂ (hcomponents.imp fun item y h => Entry.forall_mem_values_iff hq h)
  have hfeatures (hids : ∀ item ∈ items, ∀ c ∈ item.2, q c) :
      (∀ f ∈ m.featuresFor (items.map Prod.fst), ∀ v ∈ (f.element items).values, ∀ c ∈ v, q c)
        ↔ ∀ f ∈ m.features, ∀ t ∈ f.strings, ∀ c ∈ t, q c := by
    rw [← forall_mem_featuresFor_iff hq]
    refine forall₂_congr fun f _ => ?_
    rw [Feature.forall_mem_values_iff hq]
    exact and_iff_left fun item hitem => hids item (List.mem_of_mem_filter hitem)
  simp only [element, forall_mem_values_of, strings, List.forall_mem_append, List.forall_mem_map,
    List.forall_mem_flatMap, List.cons_append, List.forall_mem_cons, List.not_mem_nil,
    IsEmpty.forall_iff, implies_true, and_true, true_and, Option.mem_some, forall_eq',
    hproperties, hcomponents, forall₂_and, LaunchCondition.forall_mem_values_iff]
  constructor
  · rintro ⟨_, ⟨⟨h₁, h₂⟩, ⟨h₃, h₄⟩, hids, h₅⟩, h₆⟩
    exact ⟨hids, h₃, h₄, ⟨⟨h₁, h₂⟩, h₅⟩, (hfeatures hids).1 h₆⟩
  · rintro ⟨hids, h₃, h₄, ⟨⟨h₁, h₂⟩, h₅⟩, h₆⟩
    exact ⟨hxmlns, ⟨⟨h₁, h₂⟩, ⟨h₃, h₄⟩, hids, h₅⟩, (hfeatures hids).2 h₆⟩

end Manifest

end Characters

/-! ## Comments of a document -/

theorem Property.hasPrintableComments_toXml {p : Property} {x : Xml} (h : p.toXml = .ok x) :
    HasPrintableComments x := by
  obtain ⟨⟨hive, key⟩, _, h⟩ := bind_eq_ok_iff.1 h
  dsimp only at h
  split at h
  next => cases h
  next =>
    rw [← Except.ok.inj h]
    exact ⟨trivial, trivial⟩

theorem Component.hasPrintableComments_toXml (c : Component) : HasPrintableComments c.toXml := by
  have hvalue : HasPrintableComments c.valueElement := by
    unfold valueElement
    split
    next =>
      refine Xml.havePrintableComments_iff.2 (List.forall_mem_map.2 fun t _ => ?_)
      trivial
    next => trivial
  exact ⟨hvalue, trivial⟩

theorem Feature.hasPrintableComments_toXml (f : Feature) (cs : List Component) :
    HasPrintableComments (f.toXml cs) := by
  refine Xml.havePrintableComments_iff.2 (List.forall_mem_map.2 fun c _ => ?_)
  trivial

namespace Manifest

variable {m : Manifest}

theorem havePrintableComments_headed (heading : String) {xs : List Xml}
    (hheading : heading.toList.all isPrintable) (h : ∀ x ∈ xs, HasPrintableComments x) :
    ∀ x ∈ headed heading xs, HasPrintableComments x := by
  unfold headed
  split
  next => exact nofun
  next =>
    exact List.forall_mem_append.2
      ⟨List.forall_mem_cons.2 ⟨List.all_eq_true.1 hheading, h⟩, List.forall_mem_singleton.2 trivial⟩

/-- The comments of a fragment are its headings. -/
theorem hasPrintableComments_root {properties : List Xml}
    (h : ∀ x ∈ properties, HasPrintableComments x) (cs : List Component) :
    HasPrintableComments (m.root properties cs) := by
  have hlaunches : ∀ x ∈ m.launchConditions.map LaunchCondition.toXml, HasPrintableComments x :=
    List.forall_mem_map.2 fun c _ => trivial
  have hgroup : HasPrintableComments (m.group cs) := Xml.havePrintableComments_iff.2
    (List.forall_mem_map.2 fun c _ => c.hasPrintableComments_toXml)
  have hfeatures : ∀ x ∈ (m.installedFeatures cs).map (Feature.toXml cs), HasPrintableComments x :=
    List.forall_mem_map.2 fun f _ => f.hasPrintableComments_toXml cs
  have hproperties := havePrintableComments_headed "Registry Properties" rfl h
  have hconditions := havePrintableComments_headed "Launch Conditions" rfl hlaunches
  have hvalues : ∀ c ∈ "Registry Values".toList, isPrintable c := List.all_eq_true.1 rfl
  have hheading : ∀ c ∈ "Features".toList, isPrintable c := List.all_eq_true.1 rfl
  refine ⟨Xml.havePrintableComments_iff.2 ?_, trivial⟩
  simp only [List.forall_mem_append, List.forall_mem_cons, List.cons_append, List.not_mem_nil,
    IsEmpty.forall_iff, implies_true, and_true]
  exact ⟨trivial, ⟨⟨⟨hproperties, hconditions⟩, hvalues, hgroup, trivial⟩, hheading, hfeatures⟩,
    trivial⟩

theorem hasPrintableComments_treeOf {entries : List Entry} {tree : Xml}
    (h : m.treeOf entries = .ok tree) : HasPrintableComments tree := by
  obtain ⟨properties, hproperties, h⟩ := bind_eq_ok_iff.1 h
  obtain ⟨cs, _, h⟩ := bind_eq_ok_iff.1 h
  cases h
  refine hasPrintableComments_root (fun x hx => ?_) cs
  obtain ⟨p, _, hp⟩ := exists_left_of_forall₂ (mapM_eq_ok_iff.1 hproperties) hx
  exact Property.hasPrintableComments_toXml hp

/-! ## What a processor reports of a document -/

/-- Do the strings of a manifest and some entries **survive** in a document, that is, does what a
processor reports of it describe them? -/
def Survives (m : Manifest) (entries : List Entry) (doc : Text) : Prop :=
  ∃ items x, items.map Prod.fst = entries ∧ (∀ item ∈ items, item.1.HasId item.2)
    ∧ Element.processed? doc = some x ∧ m.Describes items x

variable {entries : List Entry} {doc : Text}

/-- A processor reports of a document what is reported of the element that describes it. -/
theorem processed?_fragmentOf (h : m.fragmentOf entries = .ok doc) :
    ∃ cs x, Component.list entries = .ok cs ∧ m.Describes (Component.items cs) x
      ∧ Element.processed? doc
        = if x.values.all (·.all Xml.isAllowed) then some (x.mapValues Xml.reported) else none := by
  obtain ⟨tree, htree, h⟩ := bind_eq_ok_iff.1 h
  cases h
  obtain ⟨cs, x, hcs, hshows, hdescribes⟩ := m.shows_treeOf htree
  exact ⟨cs, x, hcs, hdescribes,
    Xml.processed?_document hshows (hasPrintableComments_treeOf htree)⟩

/-- Identifiers are printable, so the characters of a document are those of its strings. -/
theorem forall_mem_values_iff_strings {q : Char → Prop} (hq : ∀ c, isPrintable c → q c)
    {cs : List Component} {x : Element} (hcs : Component.list entries = .ok cs)
    (h : m.Describes (Component.items cs) x) :
    (∀ v ∈ x.values, ∀ c ∈ v, q c) ↔ ∀ t ∈ m.strings entries, ∀ c ∈ t, q c := by
  have hids : ∀ item ∈ Component.items cs, ∀ c ∈ item.2, q c := by
    refine List.forall_mem_map.2 fun c hc => forall_mem_of_isPrintable hq ?_
    exact isPrintable_of_isPart (Component.hasId_of_mem hcs hc).2.all
  rw [forall_mem_values_iff hq h, Component.map_fst_items, (Component.listFrom_ok hcs).1,
    and_iff_right hids]

/-- A processor accepts a document if its strings have only characters that are allowed. -/
theorem exists_processed?_iff (h : m.fragmentOf entries = .ok doc) :
    (∃ x, Element.processed? doc = some x)
      ↔ ∀ t ∈ m.strings entries, ∀ c ∈ t, Xml.isAllowed c := by
  obtain ⟨cs, x, hcs, hdescribes, hprocessed⟩ := processed?_fragmentOf h
  rw [← forall_mem_values_iff_strings Xml.isAllowed_of_isPrintable hcs hdescribes, hprocessed]
  simp only [← List.all_eq_true]
  split
  next hallowed => exact iff_of_true ⟨_, rfl⟩ hallowed
  next hallowed => exact iff_of_false (fun ⟨_, hy⟩ => nomatch hy) hallowed

theorem survives_of_isPlain (h : m.fragmentOf entries = .ok doc)
    (hplain : ∀ t ∈ m.strings entries, ∀ c ∈ t, Xml.isPlain c) : m.Survives entries doc := by
  obtain ⟨cs, x, hcs, hdescribes, hprocessed⟩ := processed?_fragmentOf h
  obtain ⟨hentries, hfaithful⟩ := Component.listFrom_ok hcs
  have hvalues := (forall_mem_values_iff_strings Xml.isPlain_of_isPrintable hcs hdescribes).2 hplain
  have hsame : x.mapValues Xml.reported = x :=
    Element.mapValues_eq_self fun v hv => Xml.reported_eq_self (hvalues v hv)
  have hallowed : x.values.all (·.all Xml.isAllowed) := by
    simp only [List.all_eq_true]
    exact fun v hv c hc => Xml.isAllowed_of_isPlain (hvalues v hv c hc)
  rw [hsame, if_pos hallowed] at hprocessed
  refine ⟨Component.items cs, x, ?_, ?_, hprocessed, hdescribes⟩
  · rw [Component.map_fst_items, hentries]
  · exact List.forall_mem_map.2 fun c hc => (hfaithful c hc).id

/-- What a processor reports is plain, so strings that are not do not survive. -/
theorem isPlain_of_survives (h : m.fragmentOf entries = .ok doc)
    (hsurvives : m.Survives entries doc) : ∀ t ∈ m.strings entries, ∀ c ∈ t, Xml.isPlain c := by
  obtain ⟨items, y, rfl, _, hy, hdescribes⟩ := hsurvives
  obtain ⟨cs, x, hcs, _, hprocessed⟩ := processed?_fragmentOf h
  have hplain : ∀ v ∈ y.values, ∀ c ∈ v, Xml.isPlain c := by
    rw [hy] at hprocessed
    split at hprocessed
    next hallowed =>
      simp only [List.all_eq_true] at hallowed
      rw [Option.some.inj hprocessed, Element.values_mapValues]
      exact List.forall_mem_map.2 fun v hv => Xml.isPlain_of_mem_reported (hallowed v hv)
    next => cases hprocessed
  exact ((forall_mem_values_iff Xml.isPlain_of_isPrintable hdescribes).1 hplain).2

/-- **Which strings survive**: a processor accepts the document of a manifest exactly if its strings
have only characters that XML allows, and they survive in it exactly if, besides, they have no white
space other than blanks. -/
theorem survives_fragmentOf_iff (h : m.fragmentOf entries = .ok doc) :
    ((∃ x, Element.processed? doc = some x)
        ↔ ∀ t ∈ m.strings entries, ∀ c ∈ t, Xml.isAllowed c)
      ∧ (m.Survives entries doc ↔ ∀ t ∈ m.strings entries, ∀ c ∈ t, Xml.isPlain c) :=
  ⟨exists_processed?_iff h, isPlain_of_survives h, survives_of_isPlain h⟩

/-- A manifest with strings beyond ASCII. -/
def foreignManifest : Manifest :=
  { fragment := "Größe".toList
    properties := [{ id := "P".toList, key := "HKLM/ключ".toList, value := some "«x»".toList }]
    launchConditions := [⟨"a<b && c>d".toList, "😀".toList⟩] }

/-- Entries of the same kind, one of them with a list of strings. -/
def foreignEntries : List Entry :=
  [{ name := "名前".toList, key := "k".toList, value := some (.text "один\r\n\"два\"\n".toList) },
    { name := "B".toList, key := "k".toList, value := some (.binary [0, 255])
      condition := some "é = 'e'".toList }]

/-- They survive. -/
theorem survives_fragmentOf_foreignEntries :
    ∃ doc, foreignManifest.fragmentOf foreignEntries = .ok doc
      ∧ (∃ x, Element.processed? doc = some x) ∧ foreignManifest.Survives foreignEntries doc := by
  obtain ⟨doc, hdoc⟩ : ∃ doc, foreignManifest.fragmentOf foreignEntries = .ok doc := ⟨_, rfl⟩
  obtain ⟨haccepted, hsurvive⟩ := survives_fragmentOf_iff hdoc
  have hplain : (foreignManifest.strings foreignEntries).all (·.all Xml.isPlain) := by
    decide +kernel
  simp only [List.all_eq_true] at hplain
  exact ⟨doc, hdoc, haccepted.2 fun t ht c hc => Xml.isAllowed_of_isPlain (hplain t ht c hc),
    hsurvive.2 hplain⟩

/-- An entry with a tab in its value. -/
def tabbedEntries : List Entry :=
  [{ name := "A".toList, value := some (.text "a\tb".toList) }]

/-- A tab does not survive: it is written as it is, and a processor reports a blank. -/
theorem not_survives_tabbedEntries :
    ∃ doc, fragmentOf {} tabbedEntries = .ok doc ∧ ¬Survives {} tabbedEntries doc := by
  obtain ⟨doc, hdoc⟩ : ∃ doc, fragmentOf {} tabbedEntries = .ok doc := ⟨_, rfl⟩
  refine ⟨doc, hdoc, fun hsurvives => ?_⟩
  have hmem : "a\tb".toList ∈ strings {} tabbedEntries := by decide
  have htab := isPlain_of_survives hdoc hsurvives _ hmem '\t' (by decide)
  exact absurd htab (by decide)

end Manifest

end InstallerRegistry
