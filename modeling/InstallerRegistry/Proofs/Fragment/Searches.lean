import InstallerRegistry.Proofs.Fragment.Features
import InstallerRegistry.Proofs.Identifier
import InstallerRegistry.Proofs.Manifest.FirstFault

/-!
# Searches of a document

The search that sets a property has an identifier of its own, which is made from that of the
property: characters that no identifier has are replaced by underscores. The properties of an
accepted manifest have different identifiers, but two of them may look alike once characters are
replaced, and then their searches have one identifier (`Manifest.nodup_searches_iff`). Where the
identifiers of the properties are made of what identifiers are made of, nothing is replaced and all
searches differ.
-/

namespace InstallerRegistry

open Xml (Element)

/-! ## Texts that look alike -/

namespace Identifier

/-- Does an underscore stand for the character, in an identifier that is made from a text? -/
def BecomesUnderscore (c : Char) : Prop :=
  c = '_' ∨ ¬ isPart c

/-- Do two texts differ in nothing but characters that become underscores? -/
def LookAlike (s t : Text) : Prop :=
  List.Forall₂ (fun c d => c = d ∨ BecomesUnderscore c ∧ BecomesUnderscore d) s t

/-- Two characters are replaced by one if they are the same, or both become underscores. -/
theorem replaced_eq_iff {c d : Char} :
    (if isPart c then c else '_') = (if isPart d then d else '_')
      ↔ c = d ∨ BecomesUnderscore c ∧ BecomesUnderscore d := by
  have hmark : isPart '_' := by decide
  unfold BecomesUnderscore
  grind

/-- **Texts lead to one identifier** exactly if they look alike. -/
theorem sanitize_eq_iff {s t : Text} : sanitize s = sanitize t ↔ LookAlike s t := by
  rw [sanitize, sanitize, ← List.forall₂_eq_eq_eq, List.forall₂_map_left_iff,
    List.forall₂_map_right_iff, LookAlike]
  simp only [replaced_eq_iff]

/-- Texts that identifiers can be made of look like nothing but themselves. -/
theorem LookAlike.eq {s t : Text} (h : LookAlike s t) (hs : ∀ c ∈ s, isPart c)
    (ht : ∀ c ∈ t, isPart c) : s = t := by
  have hkept : ∀ {t : Text}, (∀ c ∈ t, isPart c) → sanitize t = t := fun ht => by
    rw [sanitize, List.map_congr_left fun c hc => if_pos (ht c hc), List.map_id']
  rw [← hkept hs, ← hkept ht]
  exact sanitize_eq_iff.2 h

end Identifier

/-! ## Searches -/

/-- Does the search have the identifier that is made for the property? It is that of the property,
with underscores for the characters that no identifier has, and an ending. -/
def Property.Identifies (p : Property) (search : Element) : Prop :=
  ∃ stem, List.Forall₂ Identifier.StandsFor p.id stem
    ∧ search.id? = some (stem ++ "_Search".toList)

/-- The element of a property has one search, with the identifier that is made for it. -/
theorem Property.named_search {p : Property} {x : Element} (h : p.Describes x) :
    ∃ y, x.named "RegistrySearch" = [y]
      ∧ y.id? = some (Identifier.sanitize p.id ++ "_Search".toList) := by
  obtain ⟨hive, key, stem, _, _, hstem, rfl⟩ := h
  rw [Element.named_of, if_neg (by decide), List.nil_append, List.flatMap_singleton,
    Element.named_of, if_pos rfl, List.flatMap_nil, List.append_nil,
    ← Identifier.forall₂_standsFor_iff.1 hstem]
  exact ⟨_, rfl, rfl⟩

namespace Manifest

variable {m : Manifest}

/-- The searches of the document are those of its properties. -/
theorem named_searches {properties components : List Element} {items : List (Entry × Text)}
    (hcomponents : List.Forall₂ (fun item y => item.1.Describes item.2 y) items components) :
    (m.element properties components items).named "RegistrySearch"
      = properties.flatMap (Element.named "RegistrySearch") := by
  rw [m.named_parts _ _ _ (by decide), flatMap_named_features _ (by decide) (by decide),
    Entry.flatMap_named hcomponents (by decide) (by decide), if_neg (by decide), List.append_nil,
    List.append_nil]

/-- They have the identifiers that are made for the properties. -/
theorem forall₂_searches {properties components : List Element} {items : List (Entry × Text)}
    (hproperties : List.Forall₂ Property.Describes m.properties properties)
    (hcomponents : List.Forall₂ (fun item y => item.1.Describes item.2 y) items components) :
    List.Forall₂ (fun p y => y.id? = some (Identifier.sanitize p.id ++ "_Search".toList))
      m.properties ((m.element properties components items).named "RegistrySearch") := by
  rw [named_searches hcomponents]
  exact forall₂_flatMap_of_singleton hproperties fun _ _ => Property.named_search

/-- Identifiers that are made for properties differ exactly if no two properties look alike. -/
theorem nodup_searchIds_iff {searches : List Element}
    (h : List.Forall₂ (fun p y => y.id? = some (Identifier.sanitize p.id ++ "_Search".toList))
      m.properties searches) :
    (searches.map Element.id?).Nodup
      ↔ m.properties.Pairwise fun p q => ¬ Identifier.LookAlike p.id q.id := by
  rw [map_eq_map_of_forall₂ h, List.Nodup, List.pairwise_map]
  simp only [ne_eq, Option.some_inj, List.append_cancel_right_eq, Identifier.sanitize_eq_iff]

/-- **Searches have different identifiers** in the document of an accepted manifest exactly if the
identifiers of no two properties look alike, and so they do if these are made of what identifiers
are made of. -/
theorem nodup_searches_iff (hcheck : m.check = .ok ()) {entries : List Entry} {doc : Text}
    (h : m.fragmentOf entries = .ok doc) :
    ∃ x, Element.ofText? doc = some x
      ∧ List.Forall₂ Property.Identifies m.properties (x.named "RegistrySearch")
      ∧ (((x.named "RegistrySearch").map Element.id?).Nodup
        ↔ m.properties.Pairwise fun p q => ¬ Identifier.LookAlike p.id q.id)
      ∧ ((∀ p ∈ m.properties, ∀ c ∈ p.id, Identifier.isPart c) →
        ((x.named "RegistrySearch").map Element.id?).Nodup) := by
  obtain ⟨cs, x, hcs, hread, properties, components, hproperties, hcomponents, rfl⟩ :=
    m.ofText?_fragmentOf h
  have hsearches := forall₂_searches hproperties hcomponents
  have hiff := nodup_searchIds_iff hsearches
  refine ⟨_, hread, hsearches.imp fun p y hy => ?_, hiff, fun hparts => hiff.2 ?_⟩
  · refine ⟨_, ?_, hy⟩
    rw [Identifier.sanitize, List.forall₂_map_right_iff]
    exact List.forall₂_same.2 fun c _ => rfl
  · have hdiffer : m.properties.Pairwise fun p q => p.id ≠ q.id :=
      List.pairwise_map.1 (check_eq_ok_iff.1 hcheck).propertiesDiffer
    refine hdiffer.imp_of_mem fun hp hq hne halike => hne ?_
    exact halike.eq (hparts _ hp) (hparts _ hq)

/-- Properties whose identifiers differ in the case of a letter, in a period, and in what stands
behind a beginning that they have in common. -/
def plainProperties : Manifest :=
  { properties := [{ id := "NET20".toList, key := "HKLM/a".toList },
      { id := "net20".toList, key := "HKLM/a".toList },
      { id := "NET.20".toList, key := "HKLM/a".toList },
      { id := "NET20_Search".toList, key := "HKCU/a".toList }] }

/-- Their searches differ. -/
theorem nodup_searches_plainProperties :
    ∃ doc x, plainProperties.check = .ok () ∧ plainProperties.fragmentOf [] = .ok doc
      ∧ Element.ofText? doc = some x
      ∧ (∀ p ∈ plainProperties.properties, ∀ c ∈ p.id, Identifier.isPart c)
      ∧ List.Forall₂ Property.Identifies plainProperties.properties (x.named "RegistrySearch")
      ∧ (((x.named "RegistrySearch").map Element.id?).Nodup
        ↔ plainProperties.properties.Pairwise fun p q => ¬ Identifier.LookAlike p.id q.id)
      ∧ ((x.named "RegistrySearch").map Element.id?).Nodup := by
  have hcheck : plainProperties.check = .ok () := rfl
  obtain ⟨doc, hdoc⟩ : ∃ doc, plainProperties.fragmentOf [] = .ok doc := ⟨_, rfl⟩
  have hall : (plainProperties.properties.all fun p => p.id.all Identifier.isPart) = true := rfl
  have hparts : ∀ p ∈ plainProperties.properties, ∀ c ∈ p.id, Identifier.isPart c :=
    fun p hp => List.all_eq_true.1 (List.all_eq_true.1 hall p hp)
  obtain ⟨x, hread, hids, hiff, hnodup⟩ := nodup_searches_iff hcheck hdoc
  exact ⟨doc, x, hcheck, hdoc, hread, hparts, hids, hiff, hnodup hparts⟩

/-- Two properties whose identifiers look alike. -/
def alikeProperties : Manifest :=
  { properties := [{ id := "A-B".toList, key := "HKLM/a".toList },
      { id := "A_B".toList, key := "HKLM/b".toList }] }

/-- **Not all searches differ**: those of the two properties have one identifier. -/
theorem not_nodup_searches_alikeProperties :
    ∃ doc x, alikeProperties.check = .ok () ∧ alikeProperties.fragmentOf [] = .ok doc
      ∧ Element.ofText? doc = some x
      ∧ (x.named "RegistrySearch").map Element.id?
        = [some "A_B_Search".toList, some "A_B_Search".toList]
      ∧ ¬ ((x.named "RegistrySearch").map Element.id?).Nodup := by
  obtain ⟨doc, hdoc⟩ : ∃ doc, alikeProperties.fragmentOf [] = .ok doc := ⟨_, rfl⟩
  obtain ⟨cs, x, hcs, hread, properties, components, hproperties, hcomponents, rfl⟩ :=
    ofText?_fragmentOf _ hdoc
  have hids := map_eq_map_of_forall₂ (forall₂_searches hproperties hcomponents)
  refine ⟨doc, _, rfl, hdoc, hread, hids, ?_⟩
  rw [hids]
  decide

end Manifest

end InstallerRegistry
