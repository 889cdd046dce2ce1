import InstallerRegistry.Proofs.Fragment.Unreferenced

/-!
# Entries added at the end

An identifier is chosen with those before it taken and without a look at what follows. So entries
added at the end of others leave the components of these as they are (`Component.listFrom_append`),
and what has a fragment with more entries has one with fewer.

Features look at all entries: each of them goes through the whole list, and whether the default one
stands at the end is decided by any of them. But neither takes anything away when the list grows
(`Manifest.featuresFor_prefix`, `Feature.installed_prefix`), so the whole document only grows
(`Manifest.growsInto_fragmentOf`).
-/

namespace InstallerRegistry

open Xml (Element)

/-! ## Growing documents -/

namespace Xml.Element

/-- The references of the feature at a position of the document. There are none if there is no such
feature. -/
def referencesAt (doc : Element) (i : ℕ) : List Element :=
  (doc.named "Feature")[i]?.elim [] (named "ComponentRef")

/-- **The document grows into another**: its components are the first ones of the other, its
features say the same as the first ones of the other, and each feature has the first references of
the one in its place. -/
structure GrowsInto (doc doc' : Element) : Prop where
  components : doc.named "Component" <+: doc'.named "Component"
  features : (doc.named "Feature").map attributes <+: (doc'.named "Feature").map attributes
  references : ∀ i, doc.referencesAt i <+: doc'.referencesAt i

end Xml.Element

/-! ## Components -/

/-- **Components are made from the front**: those of the first entries do not depend on what
follows. -/
theorem Component.listFrom_append {used : List Text} {first more : List Entry} {cs : List Component}
    (h : listFrom used (first ++ more) = .ok cs) :
    ∃ cs₁ cs₂, listFrom used first = .ok cs₁ ∧ cs = cs₁ ++ cs₂ := by
  induction first generalizing used cs with
  | nil => exact ⟨[], cs, rfl, rfl⟩
  | cons e first ih =>
    obtain ⟨c, cs', hc, hcs', rfl⟩ := listFrom_cons h
    obtain ⟨cs₁, cs₂, hfirst, rfl⟩ := ih hcs'
    exact ⟨c :: cs₁, cs₂, bind_eq_ok_iff.2 ⟨c, hc, bind_eq_ok_iff.2 ⟨cs₁, hfirst, rfl⟩⟩, rfl⟩

/-- An entry and an identifier are described in one way. -/
theorem Entry.rightUnique_describes :
    Relator.RightUnique fun (item : Entry × Text) y => item.1.Describes item.2 y := by
  rintro ⟨e, id⟩ _ _ ⟨x, hx, rfl⟩ ⟨x', hx', rfl⟩
  obtain ⟨v, hv, _, rfl⟩ := showsValue_iff.1 hx
  obtain ⟨v', hv', _, rfl⟩ := showsValue_iff.1 hx'
  obtain rfl : v = v' := Option.some.inj (hv.symm.trans hv')
  rfl

/-- What describes the first of some entries is the first of what describes them all. -/
theorem Entry.describes_prefix {first more : List (Entry × Text)} {components components' : List Element}
    (h : List.Forall₂ (fun item y => item.1.Describes item.2 y) first components)
    (h' : List.Forall₂ (fun item y => item.1.Describes item.2 y) (first ++ more) components') :
    components <+: components' := by
  have htake := List.forall₂_take first.length h'
  rw [List.take_left] at htake
  rw [Entry.rightUnique_describes.forall₂ h htake]
  exact List.take_prefix _ _

/-! ## Features -/

theorem Feature.installed_prefix (f : Feature) (first more : List (Entry × Text)) :
    f.installed first <+: f.installed (first ++ more) := by
  rw [installed, installed, List.filter_append]
  exact List.prefix_append _ _

namespace Manifest

variable {m : Manifest}

/-- The default feature is not dropped for what comes later. -/
theorem featuresFor_prefix (m : Manifest) (first more : List Entry) :
    m.featuresFor first <+: m.featuresFor (first ++ more) := by
  unfold featuresFor
  rw [List.any_append]
  split
  next h =>
    obtain ⟨hmissing, hneeded⟩ := Bool.and_eq_true_iff.1 h
    rw [hmissing, hneeded]
    exact List.prefix_rfl
  next =>
    split
    next => exact List.prefix_append _ _
    next => exact List.prefix_rfl

section Growing

variable {properties properties' components components' : List Element}
  {first more : List (Entry × Text)}

theorem referencesAt_element {items : List (Entry × Text)}
    (hproperties : List.Forall₂ Property.Describes m.properties properties)
    (hcomponents : List.Forall₂ (fun item y => item.1.Describes item.2 y) items components) (i : ℕ) :
    (m.element properties components items).referencesAt i
      = (m.featuresFor (items.map Prod.fst))[i]?.elim []
        fun f => (f.installed items).map fun item => referenceTo item.2 := by
  rw [Element.referencesAt, named_features hproperties hcomponents, List.getElem?_map]
  cases (m.featuresFor (items.map Prod.fst))[i]? with
  | none => rfl
  | some f => exact named_feature f items

/-- **What describes a manifest with some entries grows** into what describes it with more. -/
theorem growsInto_element (hproperties : List.Forall₂ Property.Describes m.properties properties)
    (hproperties' : List.Forall₂ Property.Describes m.properties properties')
    (hcomponents : List.Forall₂ (fun item y => item.1.Describes item.2 y) first components)
    (hcomponents' : List.Forall₂ (fun item y => item.1.Describes item.2 y) (first ++ more)
      components') :
    (m.element properties components first).GrowsInto
      (m.element properties' components' (first ++ more)) := by
  have hfeatures := m.featuresFor_prefix (first.map Prod.fst) (more.map Prod.fst)
  rw [← List.map_append] at hfeatures
  refine ⟨?_, ?_, fun i => ?_⟩
  · rw [named_components hproperties hcomponents, named_components hproperties' hcomponents']
    exact Entry.describes_prefix hcomponents hcomponents'
  · rw [named_features hproperties hcomponents, named_features hproperties' hcomponents',
      List.map_map, List.map_map]
    exact hfeatures.map _
  · rw [referencesAt_element hproperties hcomponents, referencesAt_element hproperties' hcomponents']
    cases hf : (m.featuresFor (first.map Prod.fst))[i]? with
    | none => exact List.nil_prefix
    | some f =>
      have hf' : (m.featuresFor ((first ++ more).map Prod.fst))[i]? = some f := by
        obtain ⟨hi, rfl⟩ := List.getElem?_eq_some_iff.1 hf
        exact List.prefix_iff_getElem?.1 hfeatures i hi
      rw [hf']
      exact (f.installed_prefix first more).map _

end Growing

/-- A fragment with some entries needs nothing from those that come later. -/
theorem exists_fragmentOf_of_append {first more : List Entry} {doc' : Text}
    (h : m.fragmentOf (first ++ more) = .ok doc') : ∃ doc, m.fragmentOf first = .ok doc := by
  obtain ⟨tree, htree, _⟩ := bind_eq_ok_iff.1 h
  obtain ⟨properties, hproperties, htree⟩ := bind_eq_ok_iff.1 htree
  obtain ⟨cs, hcs, _⟩ := bind_eq_ok_iff.1 htree
  obtain ⟨cs₁, _, hfirst, _⟩ := Component.listFrom_append hcs
  exact ⟨_, bind_eq_ok_iff.2 ⟨_, bind_eq_ok_iff.2 ⟨properties, hproperties,
    bind_eq_ok_iff.2 ⟨cs₁, hfirst, rfl⟩⟩, rfl⟩⟩

/-- **Adding entries at the end only adds to the document.** What has a fragment with some entries
and more after them has one with these entries alone. It has one component for each of them, and it
grows into the other. -/
theorem growsInto_fragmentOf {first more : List Entry} {doc' : Text}
    (h : m.fragmentOf (first ++ more) = .ok doc') :
    ∃ doc x x', m.fragmentOf first = .ok doc
      ∧ Element.ofText? doc = some x ∧ Element.ofText? doc' = some x'
      ∧ (x.named "Component").length = first.length ∧ x.GrowsInto x' := by
  obtain ⟨doc, hdoc⟩ := exists_fragmentOf_of_append h
  obtain ⟨cs, x, hcs, hread, properties, components, hproperties, hcomponents, rfl⟩ :=
    m.ofText?_fragmentOf hdoc
  obtain ⟨cs', x', hcs', hread', properties', components', hproperties', hcomponents', rfl⟩ :=
    m.ofText?_fragmentOf h
  obtain ⟨cs₁, cs₂, hfirst, rfl⟩ := Component.listFrom_append hcs'
  obtain rfl : cs = cs₁ := Except.ok.inj (hcs.symm.trans hfirst)
  rw [Component.items, List.map_append] at hcomponents' hread'
  refine ⟨doc, _, _, hdoc, hread, hread', ?_,
    growsInto_element hproperties hproperties' hcomponents hcomponents'⟩
  rw [named_components hproperties hcomponents, ← hcomponents.length_eq, Component.items,
    List.length_map, ← (Component.listFrom_ok hcs).1, List.length_map]

/-- An entry for a declared feature. -/
def earlyEntries : List Entry :=
  [{ name := ['A'], value := some (.text ['a']), feature := some "B".toList }]

/-- Entries of the same name: one for the default feature, one for the declared one, and one that
brings an identifier. -/
def laterEntries : List Entry :=
  [{ name := ['A'], value := some (.text ['b']) },
    { name := ['A'], value := some (.text ['c']), feature := some "B".toList },
    { id := some "A".toList, name := ['A'], value := some (.text ['d']) }]

theorem growsInto_fragmentOf_laterEntries :
    ∃ doc doc' x x', exampleManifest.fragmentOf (earlyEntries ++ laterEntries) = .ok doc'
      ∧ exampleManifest.fragmentOf earlyEntries = .ok doc
      ∧ Element.ofText? doc = some x ∧ Element.ofText? doc' = some x'
      ∧ (x.named "Component").length = earlyEntries.length ∧ x.GrowsInto x' := by
  obtain ⟨doc', hdoc'⟩ : ∃ doc', exampleManifest.fragmentOf (earlyEntries ++ laterEntries) = .ok doc' :=
    ⟨_, rfl⟩
  obtain ⟨doc, x, x', h⟩ := growsInto_fragmentOf hdoc'
  exact ⟨doc, doc', x, x', hdoc', h⟩

end Manifest

end InstallerRegistry
