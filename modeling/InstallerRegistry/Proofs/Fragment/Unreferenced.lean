import InstallerRegistry.Proofs.Fragment.Features

/-!
# Components that no feature installs

The entries of a manifest ask for features that its check has found. Entries that come from
elsewhere may ask for any feature, and making a fragment does not look at what they ask for: which
features entries name changes nothing about whether there is a fragment
(`Component.listFrom_map`). What it changes is who refers to the components. A component is referred
to exactly if its entry asks for a feature that the manifest declares, or for the default one, and
is left out of the installation otherwise (`Manifest.installs_fragmentOf_iff`).
-/

namespace InstallerRegistry

open Xml (Element)

/-- Does a feature of the document refer to the component? -/
def Xml.Element.Installs (doc component : Element) : Prop :=
  ∃ feature ∈ doc.named "Feature", ∃ reference ∈ feature.named "ComponentRef",
    reference.id? = component.id?

/-! ## Making components does not look at features -/

/-- The entry, installed with the feature that `f` gives it. -/
def Entry.reassigned (f : Entry → Option Text) (e : Entry) : Entry :=
  { e with feature := f e }

/-- **Components of entries with other features** are the same but for these entries. -/
theorem Component.listFrom_map (f : Entry → Option Text) (used : List Text)
    (entries : List Entry) :
    listFrom used (entries.map (Entry.reassigned f))
      = (listFrom used entries).map
        (List.map fun c => { c with entry := c.entry.reassigned f }) := by
  induction entries generalizing used with
  | nil => rfl
  | cons e rest ih =>
    have hone : ofEntry used (e.reassigned f)
        = (ofEntry used e).map fun c => { c with entry := c.entry.reassigned f } := by
      have hid : (e.reassigned f).chooseId used = e.chooseId used := rfl
      have hroot : (e.reassigned f).root = e.root := rfl
      have hvalue : (e.reassigned f).setValue = e.setValue := rfl
      rw [ofEntry, ofEntry, hid, hroot, hvalue]
      cases e.setValue with
      | error x => rfl
      | ok value =>
        cases e.root with
        | error x => rfl
        | ok root => cases e.chooseId used <;> rfl
    rw [List.map_cons, listFrom, listFrom, hone]
    cases ofEntry used e with
    | error x => rfl
    | ok c =>
      show (do
          let cs ← listFrom (c.id :: used) (rest.map (Entry.reassigned f))
          return { c with entry := c.entry.reassigned f } :: cs) = _
      rw [ih]
      show _ = Except.map _ (do return c :: (← listFrom (c.id :: used) rest))
      cases listFrom (c.id :: used) rest <;> rfl

namespace Manifest

variable {m : Manifest}

/-- Whatever features entries ask for, there is a fragment or there is none. -/
theorem exists_fragmentOf_reassigned {entries : List Entry} {doc : Text}
    (h : m.fragmentOf entries = .ok doc) (f : Entry → Option Text) :
    ∃ doc', m.fragmentOf (entries.map (Entry.reassigned f)) = .ok doc' := by
  obtain ⟨tree, htree, _⟩ := bind_eq_ok_iff.1 h
  obtain ⟨properties, hproperties, htree⟩ := bind_eq_ok_iff.1 htree
  obtain ⟨cs, hcs, _⟩ := bind_eq_ok_iff.1 htree
  have hcs' := Component.listFrom_map f [] entries
  rw [show Component.listFrom [] entries = .ok cs from hcs] at hcs'
  exact ⟨_, bind_eq_ok_iff.2 ⟨_, bind_eq_ok_iff.2 ⟨properties, hproperties,
    bind_eq_ok_iff.2 ⟨_, hcs', rfl⟩⟩, rfl⟩⟩

/-! ## Who refers to a component -/

variable {properties components : List Element} {items : List (Entry × Text)}

/-- The features of a fragment are known. -/
theorem knows_of_mem_featuresFor {entries : List Entry} {f : Feature}
    (h : f ∈ m.featuresFor entries) : m.Knows f.id := by
  have hid := List.mem_map_of_mem (f := Feature.id) h
  rw [map_id_featuresFor, List.mem_append] at hid
  rcases hid with hid | hid
  · exact .inr hid
  · split at hid
    next => exact .inl (List.mem_singleton.1 hid)
    next => exact absurd hid List.not_mem_nil

/-- A feature of a fragment refers to the components of the entries that ask for it. -/
theorem named_feature (f : Feature) (items : List (Entry × Text)) :
    (f.element items).named "ComponentRef"
      = (f.installed items).map fun item => referenceTo item.2 := by
  rw [Feature.named_element, if_neg (by decide), List.nil_append, List.map_eq_flatMap]
  exact List.flatMap_congr fun item _ => if_pos rfl

/-- **A component is referred to** exactly if the feature that its entry asks for is known, since no
other component has its identifier. -/
theorem installs_element_iff (hids : (items.map Prod.snd).Nodup)
    (hproperties : List.Forall₂ Property.Describes m.properties properties)
    (hcomponents : List.Forall₂ (fun item y => item.1.Describes item.2 y) items components)
    {item : Entry × Text} {y : Element} (hitem : item ∈ items) (hy : item.1.Describes item.2 y) :
    (m.element properties components items).Installs y ↔ m.Knows item.1.featureId := by
  have hid := id?_eq_of_describes hy
  unfold Element.Installs
  rw [named_features hproperties hcomponents, hid]
  constructor
  · rintro ⟨feature, hfeature, reference, hreference, hsame⟩
    obtain ⟨f, hf, rfl⟩ := List.mem_map.1 hfeature
    rw [named_feature] at hreference
    obtain ⟨other, hother, rfl⟩ := List.mem_map.1 hreference
    obtain ⟨hmem, hasked⟩ := List.mem_filter.1 hother
    have hsnd : other.2 = item.2 := List.append_cancel_left (Option.some.inj hsame)
    rw [← List.inj_on_of_nodup_map hids hmem hitem hsnd, beq_iff_eq.1 hasked]
    exact knows_of_mem_featuresFor hf
  · intro hknows
    obtain ⟨f, hf, hfeature⟩ := exists_mem_featuresFor
      (List.mem_map_of_mem (f := Prod.fst) hitem) hknows
    refine ⟨f.element items, List.mem_map_of_mem hf, referenceTo item.2, ?_, rfl⟩
    rw [named_feature]
    exact List.mem_map_of_mem (f := fun item : Entry × Text => referenceTo item.2)
      (List.mem_filter.2 ⟨hitem, beq_iff_eq.2 hfeature.symm⟩)

/-- In a fragment, this tells the components that are referred to. -/
theorem forall₂_installs_iff {entries : List Entry} {doc : Text}
    (h : m.fragmentOf entries = .ok doc) :
    ∃ x, Element.ofText? doc = some x
      ∧ List.Forall₂ (fun e y => (∃ id, e.Describes id y) ∧ (x.Installs y ↔ m.Knows e.featureId))
        entries (x.named "Component") := by
  obtain ⟨cs, x, hcs, hread, properties, components, hproperties, hcomponents, rfl⟩ :=
    m.ofText?_fragmentOf h
  have hids : ((Component.items cs).map Prod.snd).Nodup := by
    rw [Component.map_snd_items]
    exact (Component.nodup_listFrom hcs).1
  have hentries : (Component.items cs).map Prod.fst = entries := by
    rw [Component.map_fst_items]
    exact (Component.listFrom_ok hcs).1
  have hboth := (List.forall₂_and_left (Component.items cs) components).2
    ⟨fun _ hitem => hitem, hcomponents⟩
  refine ⟨_, hread, ?_⟩
  rw [named_components hproperties hcomponents, ← hentries, List.forall₂_map_left_iff]
  exact hboth.imp fun item y hitem =>
    ⟨⟨item.2, hitem.2⟩, installs_element_iff hids hproperties hcomponents hitem.1 hitem.2⟩

/-- **A component is installed exactly if its feature is known.** Where an entry asks for a
feature that is neither declared nor the default one, there is a fragment all the same, and in it
nothing refers to the component of the entry. -/
theorem installs_fragmentOf_iff {entries : List Entry} {doc : Text}
    (h : m.fragmentOf entries = .ok doc) :
    (∃ x, Element.ofText? doc = some x
      ∧ List.Forall₂ (fun e y => (∃ id, e.Describes id y) ∧ (x.Installs y ↔ m.Knows e.featureId))
        entries (x.named "Component")
      ∧ ((∀ y ∈ x.named "Component", x.Installs y) ↔ ∀ e ∈ entries, m.Knows e.featureId))
    ∧ ∀ f, ∃ doc', m.fragmentOf (entries.map (Entry.reassigned f)) = .ok doc' := by
  obtain ⟨x, hread, heach⟩ := forall₂_installs_iff h
  have hall := forall_mem_iff_of_forall₂ (heach.imp fun _ _ h => h.2)
  exact ⟨⟨x, hread, heach, hall⟩, exists_fragmentOf_reassigned h⟩

/-- Entries that ask for a declared feature, for none, and for one that is not there. -/
def strayEntries : List Entry :=
  [{ name := ['A'], value := some (.text ['a']), feature := some "B".toList },
    { name := ['A'], value := some (.text ['b']) },
    { name := ['C'], value := some (.text ['c']), feature := some "Ghost".toList }]

theorem installs_fragmentOf_iff_strayEntries :
    ∃ doc, exampleManifest.fragmentOf strayEntries = .ok doc
      ∧ (∃ x, Element.ofText? doc = some x
        ∧ List.Forall₂ (fun e y => (∃ id, e.Describes id y)
            ∧ (x.Installs y ↔ exampleManifest.Knows e.featureId))
          strayEntries (x.named "Component")
        ∧ ((∀ y ∈ x.named "Component", x.Installs y)
          ↔ ∀ e ∈ strayEntries, exampleManifest.Knows e.featureId))
      ∧ ∀ f, ∃ doc', exampleManifest.fragmentOf (strayEntries.map (Entry.reassigned f))
        = .ok doc' := by
  obtain ⟨doc, hdoc⟩ : ∃ doc, exampleManifest.fragmentOf strayEntries = .ok doc := ⟨_, rfl⟩
  exact ⟨doc, hdoc, installs_fragmentOf_iff hdoc⟩

/-- An entry that asks for a feature which is not there. -/
def ghostEntry : Entry :=
  { name := ['A'], value := some (.text ['a']), feature := some "Ghost".toList }

/-- **A component may be left out without a fault**: the manifest is accepted and there is a
fragment, but no feature refers to the component. -/
theorem not_installs_ghostEntry :
    check {} = .ok () ∧ ∃ doc x, fragmentOf {} [ghostEntry] = .ok doc
      ∧ Element.ofText? doc = some x ∧ ∃ y ∈ x.named "Component", ¬ x.Installs y := by
  obtain ⟨doc, hdoc⟩ : ∃ doc, fragmentOf {} [ghostEntry] = .ok doc := ⟨_, rfl⟩
  obtain ⟨x, hread, heach⟩ := forall₂_installs_iff hdoc
  obtain ⟨y, hy, _, hinstalls⟩ := exists_right_of_forall₂ heach (List.mem_singleton_self ghostEntry)
  have hknows : ¬ Knows {} ghostEntry.featureId := by
    rintro (h | h)
    · exact absurd h (by decide)
    · exact absurd h List.not_mem_nil
  exact ⟨rfl, doc, x, hdoc, hread, y, hy, mt hinstalls.1 hknows⟩

end Manifest

end InstallerRegistry
