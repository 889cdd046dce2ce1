import InstallerRegistry.Proofs.Fragment.Features

/-!
# Identifiers of a document

In the document of a manifest, no two values have one identifier and no two components have one
(`Manifest.identifies_fragmentOf`). A value has the identifier that its entry brings, or else one
that is derived from its name, and its component has the same one behind a beginning of its own.

All of them look like identifiers, but not all of them are valid: the length of an identifier is
checked where an entry brings it, and neither where it is derived nor with the beginning that the
component adds. They are valid exactly if those of the values leave room for that beginning
(`Manifest.hasValidIds_fragmentOf_iff`).
-/

namespace InstallerRegistry

open Xml (Element)

/-- The document identifies the values of entries and their components by some identifiers, one for
each entry. -/
structure Xml.Element.Identifies (doc : Element) (entries : List Entry) (ids : List Text) :
    Prop where
  entries : List.Forall₂ Entry.HasId entries ids
  values : (doc.named "RegistryValue").map Element.id? = ids.map some
  components : (doc.named "Component").map Element.id?
    = ids.map fun id => some ("Component_".toList ++ id)
  nodup_values : ((doc.named "RegistryValue").map Element.id?).Nodup
  nodup_components : ((doc.named "Component").map Element.id?).Nodup
  shape : ∀ id ∈ ids, Identifier.HasShape id ∧ Identifier.HasShape ("Component_".toList ++ id)

/-- Is every value and every component of the document identified by a valid identifier? -/
def Xml.Element.HasValidIds (doc : Element) : Prop :=
  ∀ y ∈ doc.named "RegistryValue" ++ doc.named "Component", y.id?.any Identifier.isValid

/-! ## Identifiers of components -/

theorem Component.hasId_of_mem {entries : List Entry} {cs : List Component}
    (h : list entries = .ok cs) {c : Component} (hc : c ∈ cs) :
    c.entry.HasId c.id ∧ Identifier.HasShape c.id := by
  obtain ⟨used, hc⟩ := exists_ofEntry_of_mem h hc
  exact Entry.hasId_of_chooseId (ofEntry_ok hc).2.2

theorem Identifier.HasShape.reference {id : Text} (h : HasShape id) :
    HasShape ("Component_".toList ++ id) := by
  have hstart : HasShape "Component_".toList := ⟨⟨'C', rfl, by decide⟩, List.all_eq_true.1 rfl⟩
  exact hstart.append h.all

/-- **Both identifiers are valid** exactly if that of the value leaves room for the beginning of the
other. -/
theorem Identifier.HasShape.isValid_and_reference_iff {id : Text} (h : HasShape id) :
    isValid id ∧ isValid ("Component_".toList ++ id) ↔ id.length ≤ 62 := by
  have hlength : ("Component_".toList ++ id).length = 10 + id.length := List.length_append
  rw [isValid_iff, isValid_iff, and_iff_right h, and_iff_right h.reference, hlength, maxLength]
  omega

/-! ## Values of a document -/

theorem Entry.id?_eq_of_showsValue {e : Entry} {id : Text} {x : Element} (h : e.ShowsValue id x) :
    x.id? = some id := by
  obtain ⟨v, type, payload, _, _, _, rfl⟩ := h
  rfl

/-- The component of an entry has one value, that of the entry. -/
theorem Entry.named_value {e : Entry} {id : Text} {y : Element} (h : e.Describes id y) :
    ∃ x, y.named "RegistryValue" = [x] ∧ e.ShowsValue id x := by
  obtain ⟨x, hx, rfl⟩ := h
  refine ⟨x, ?_, hx⟩
  obtain ⟨v, type, payload, _, _, _, rfl⟩ := hx
  rw [Element.named_of, if_neg (by decide), List.nil_append, List.flatMap_singleton,
    Element.named_value (by decide), if_pos rfl]

namespace Manifest

variable {m : Manifest}

/-- The values of the document are those of the entries, one in each component. -/
theorem forall₂_named_values {properties components : List Element} {items : List (Entry × Text)}
    (hproperties : List.Forall₂ Property.Describes m.properties properties)
    (hcomponents : List.Forall₂ (fun item y => item.1.Describes item.2 y) items components) :
    List.Forall₂ (fun item v => item.1.ShowsValue item.2 v) items
      ((m.element properties components items).named "RegistryValue") := by
  rw [m.named_element hproperties (by decide), flatMap_named_features _ (by decide) (by decide),
    List.append_nil]
  exact forall₂_flatMap_of_singleton hcomponents fun _ _ hy => Entry.named_value hy

/-- The values of the document have the identifiers of the entries. -/
theorem map_id?_values {properties components : List Element} {items : List (Entry × Text)}
    (hproperties : List.Forall₂ Property.Describes m.properties properties)
    (hcomponents : List.Forall₂ (fun item y => item.1.Describes item.2 y) items components) :
    ((m.element properties components items).named "RegistryValue").map Element.id?
      = (items.map Prod.snd).map some := by
  have hids := (forall₂_named_values hproperties hcomponents).imp fun _ _ hv =>
    Entry.id?_eq_of_showsValue hv
  rw [map_eq_map_of_forall₂ hids, List.map_map]
  rfl

/-- The components of the document have the same identifiers behind their beginning. -/
theorem map_id?_components {properties components : List Element} {items : List (Entry × Text)}
    (hproperties : List.Forall₂ Property.Describes m.properties properties)
    (hcomponents : List.Forall₂ (fun item y => item.1.Describes item.2 y) items components) :
    ((m.element properties components items).named "Component").map Element.id?
      = (items.map Prod.snd).map fun id => some ("Component_".toList ++ id) := by
  have hids := hcomponents.imp fun item y hy => id?_eq_of_describes hy
  rw [named_components hproperties hcomponents, map_eq_map_of_forall₂ hids, List.map_map]
  rfl

/-- **A document shows the values of its entries**, one by one. -/
theorem forall₂_showsValue {entries : List Entry} {doc : Text} (h : m.fragmentOf entries = .ok doc) :
    ∃ x, Element.ofText? doc = some x
      ∧ List.Forall₂ (fun e y => ∃ id, Entry.ShowsValue e id y) entries
        (x.named "RegistryValue") := by
  obtain ⟨cs, x, hcs, hread, properties, components, hproperties, hcomponents, rfl⟩ :=
    m.ofText?_fragmentOf h
  have hentries : (Component.items cs).map Prod.fst = entries := by
    rw [Component.map_fst_items]
    exact (Component.listFrom_ok hcs).1
  refine ⟨_, hread, ?_⟩
  rw [← hentries, List.forall₂_map_left_iff]
  exact (forall₂_named_values hproperties hcomponents).imp fun item _ hv => ⟨item.2, hv⟩

/-- **Identifiers never clash**: in the document of a manifest, the values of the entries and their
components are identified. -/
theorem identifies_fragmentOf {entries : List Entry} {doc : Text}
    (h : m.fragmentOf entries = .ok doc) :
    ∃ x ids, Element.ofText? doc = some x ∧ x.Identifies entries ids := by
  obtain ⟨cs, x, hcs, hread, properties, components, hproperties, hcomponents, rfl⟩ :=
    m.ofText?_fragmentOf h
  refine ⟨_, cs.map Component.id, hread, ?_⟩
  obtain ⟨rfl, _⟩ := Component.listFrom_ok hcs
  obtain ⟨hnodup, _⟩ := Component.nodup_listFrom hcs
  have hvalues : ((m.element properties components (Component.items cs)).named "RegistryValue").map
      Element.id? = (cs.map Component.id).map some := by
    rw [map_id?_values hproperties hcomponents, Component.map_snd_items]
  have hcomponents' : ((m.element properties components (Component.items cs)).named
      "Component").map Element.id?
        = (cs.map Component.id).map fun id => some ("Component_".toList ++ id) := by
    rw [map_id?_components hproperties hcomponents, Component.map_snd_items]
  refine ⟨?_, hvalues, hcomponents', ?_, ?_, ?_⟩
  · rw [List.forall₂_map_left_iff, List.forall₂_map_right_iff, List.forall₂_same]
    exact fun c hc => (Component.hasId_of_mem hcs hc).1
  · rw [hvalues]
    exact hnodup.map fun _ _ h => Option.some.inj h
  · rw [hcomponents']
    exact hnodup.map fun _ _ h => List.append_cancel_left (Option.some.inj h)
  · intro id hid
    obtain ⟨c, hc, rfl⟩ := List.mem_map.1 hid
    have hshape := (Component.hasId_of_mem hcs hc).2
    exact ⟨hshape, hshape.reference⟩

/-- Entries whose names lead to one identifier, or to one with a number that is also derived or
brought. -/
def clashingEntries : List Entry :=
  [{ name := "A".toList, value := some (.text []) },
    { name := "A_2".toList, value := some (.text []) },
    { id := some "RegValue_A_3".toList, name := "B".toList, value := some (.text []) },
    { key := "k".toList, name := "A".toList, value := some (.text []) },
    { key := "k".toList, name := "A?2".toList, value := some (.text []) },
    { name := [], value := some (.text []) },
    { name := "Default".toList, value := some (.text []) }]

/-- They are told apart. -/
theorem identifies_fragmentOf_clashingEntries :
    ∃ doc x ids, fragmentOf {} clashingEntries = .ok doc ∧ Element.ofText? doc = some x
      ∧ x.Identifies clashingEntries ids := by
  obtain ⟨doc, hdoc⟩ : ∃ doc, fragmentOf {} clashingEntries = .ok doc := ⟨_, rfl⟩
  obtain ⟨x, ids, h⟩ := identifies_fragmentOf hdoc
  exact ⟨doc, x, ids, hdoc, h⟩

/-! ## How long identifiers are -/

/-- The document has valid identifiers if those of the values are valid as they are and behind the
beginning that the components add. -/
theorem hasValidIds_element_iff {properties components : List Element}
    {items : List (Entry × Text)}
    (hproperties : List.Forall₂ Property.Describes m.properties properties)
    (hcomponents : List.Forall₂ (fun item y => item.1.Describes item.2 y) items components) :
    (m.element properties components items).HasValidIds
      ↔ ∀ id ∈ items.map Prod.snd,
        Identifier.isValid id ∧ Identifier.isValid ("Component_".toList ++ id) := by
  have hany : ∀ ys : List Element, (∀ y ∈ ys, y.id?.any Identifier.isValid)
      ↔ ∀ id ∈ ys.map Element.id?, id.any Identifier.isValid := by
    intro ys
    rw [List.forall_mem_map]
  rw [Xml.Element.HasValidIds, List.forall_mem_append, hany, hany,
    map_id?_values hproperties hcomponents, map_id?_components hproperties hcomponents]
  generalize items.map Prod.snd = ids
  rw [List.forall_mem_map, List.forall_mem_map, ← forall₂_and]
  rfl

/-- **Identifiers are valid where there is room for them**: those that entries bring are valid, all
those of the document have the shape of identifiers, and all of them are valid exactly if none of
the values has one of more than sixty-two characters. -/
theorem hasValidIds_fragmentOf_iff {entries : List Entry} {doc : Text}
    (h : m.fragmentOf entries = .ok doc) :
    ∃ x ids, Element.ofText? doc = some x ∧ List.Forall₂ Entry.HasId entries ids
      ∧ (x.named "RegistryValue").map Element.id? = ids.map some
      ∧ (x.named "Component").map Element.id?
        = (ids.map fun id => some ("Component_".toList ++ id))
      ∧ (∀ e ∈ entries, ∀ id ∈ e.id, Identifier.isValid id)
      ∧ (∀ id ∈ ids, Identifier.HasShape id ∧ Identifier.HasShape ("Component_".toList ++ id))
      ∧ (x.HasValidIds ↔ ∀ id ∈ ids, id.length ≤ 62) := by
  obtain ⟨cs, x, hcs, hread, properties, components, hproperties, hcomponents, rfl⟩ :=
    m.ofText?_fragmentOf h
  obtain ⟨rfl, _⟩ := Component.listFrom_ok hcs
  have hids : ∀ c ∈ cs, c.entry.HasId c.id ∧ Identifier.HasShape c.id :=
    fun c hc => Component.hasId_of_mem hcs hc
  have hshape : ∀ id ∈ cs.map Component.id, Identifier.HasShape id :=
    List.forall_mem_map.2 fun c hc => (hids c hc).2
  refine ⟨_, cs.map Component.id, hread, ?_, ?_, ?_, ?_, ?_, ?_⟩
  · rw [List.forall₂_map_left_iff, List.forall₂_map_right_iff, List.forall₂_same]
    exact fun c hc => (hids c hc).1
  · rw [map_id?_values hproperties hcomponents, Component.map_snd_items]
  · rw [map_id?_components hproperties hcomponents, Component.map_snd_items]
  · refine List.forall_mem_map.2 fun c hc id hid => ?_
    obtain ⟨used, hc⟩ := Component.exists_ofEntry_of_mem hcs hc
    exact ((Entry.chooseId_eq_ok_iff.1 (Component.ofEntry_ok hc).2.2).1 id hid).1
  · exact fun id hid => ⟨hshape id hid, (hshape id hid).reference⟩
  · rw [hasValidIds_element_iff hproperties hcomponents, Component.map_snd_items]
    exact forall₂_congr fun id hid => (hshape id hid).isValid_and_reference_iff

/-- Entries with one name, which leads to an identifier that is as long as there is room for, and to
another one with a number, which is longer; and one that brings its identifier. -/
def longNamedEntries : List Entry :=
  [{ name := List.replicate 53 'A', value := some (.text []) },
    { key := "k".toList, name := List.replicate 53 'A', value := some (.text []) },
    { id := some "_.1".toList, name := [], value := some (.text []) }]

/-- The length of their identifiers tells whether all of them are valid. -/
theorem hasValidIds_fragmentOf_iff_longNamedEntries :
    ∃ doc x ids, fragmentOf {} longNamedEntries = .ok doc ∧ Element.ofText? doc = some x
      ∧ List.Forall₂ Entry.HasId longNamedEntries ids
      ∧ (x.named "RegistryValue").map Element.id? = ids.map some
      ∧ (x.named "Component").map Element.id?
        = (ids.map fun id => some ("Component_".toList ++ id))
      ∧ (∀ e ∈ longNamedEntries, ∀ id ∈ e.id, Identifier.isValid id)
      ∧ (∀ id ∈ ids, Identifier.HasShape id ∧ Identifier.HasShape ("Component_".toList ++ id))
      ∧ (x.HasValidIds ↔ ∀ id ∈ ids, id.length ≤ 62) := by
  obtain ⟨doc, hdoc⟩ : ∃ doc, fragmentOf {} longNamedEntries = .ok doc := ⟨_, rfl⟩
  obtain ⟨x, ids, h⟩ := hasValidIds_fragmentOf_iff hdoc
  exact ⟨doc, x, ids, hdoc, h⟩

/-- An entry with a name that is too long, and one that brings an identifier as long as one may
be. -/
def tooLongEntries : List Entry :=
  [{ name := List.replicate 64 'A', value := some (.text []) },
    { id := some (List.replicate 72 'B'), name := "B".toList, value := some (.text []) }]

/-- **Not every identifier is valid**: one is derived from the long name all the same, and the one
that is brought grows too long for its component. -/
theorem not_hasValidIds_tooLongEntries :
    ∃ doc x, fragmentOf {} tooLongEntries = .ok doc ∧ Element.ofText? doc = some x
      ∧ (x.named "RegistryValue").map Element.id?
        = [some ("RegValue_".toList ++ List.replicate 64 'A'), some (List.replicate 72 'B')]
      ∧ ¬ x.HasValidIds := by
  obtain ⟨doc, hdoc⟩ : ∃ doc, fragmentOf {} tooLongEntries = .ok doc := ⟨_, rfl⟩
  obtain ⟨cs, x, hcs, hread, properties, components, hproperties, hcomponents, rfl⟩ :=
    ofText?_fragmentOf _ hdoc
  have hids : cs.map Component.id
      = ["RegValue_".toList ++ List.replicate 64 'A', List.replicate 72 'B'] := by
    rw [← Except.ok.inj hcs]
    rfl
  refine ⟨doc, _, hdoc, hread, ?_, ?_⟩
  · rw [map_id?_values hproperties hcomponents, Component.map_snd_items, hids]
    rfl
  · rw [hasValidIds_element_iff hproperties hcomponents, Component.map_snd_items, hids]
    decide

end Manifest

end InstallerRegistry
