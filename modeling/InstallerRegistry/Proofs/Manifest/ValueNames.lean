import InstallerRegistry.Proofs.Manifest.Gathering
import InstallerRegistry.Proofs.Yaml.Number

/-!
# Names of values

The keys of a block are texts, numbers and truth values, and the names of its values are texts. No
two keys of a mapping are the same, but two of them may have one name (`Clash`): a number and a
truth value have the name of the text that they are written as, and there are two texts for the
default value. A block names one value twice exactly if two of its keys clash
(`Manifest.nodup_valueNames_iff`). That no other keys have one name rests on how numbers are
written: the text of a number belongs to no other number.
-/

namespace InstallerRegistry

open Yaml (Mapping Number Value)

/-! ## Keys of one name -/

/-- The text that names what a key names, if there is one besides the key itself. -/
def otherText? : Value → Option Text
  | .text t => if t = defaultName then some [] else none
  | .number n => some n.text
  | .boolean b => some (Yaml.textOfBool b)
  | _ => none

/-- Is the first key the text that names what the second one names? -/
def IsTextFor (k l : Value) : Prop :=
  k.text? ≠ none ∧ k.text? = otherText? l

/-- **Do two keys clash?** They are different, but the names that they give are not. -/
def Clash (k l : Value) : Prop :=
  IsTextFor k l ∨ IsTextFor l k

instance (k l : Value) : Decidable (Clash k l) :=
  inferInstanceAs (Decidable ((_ ∧ _) ∨ _ ∧ _))

theorem Clash.symm {k l : Value} (h : Clash k l) : Clash l k :=
  Or.symm h

/-- Of two keys that clash, one is a text. -/
theorem Clash.text?_ne_none {k l : Value} (h : Clash k l) : k.text? ≠ none ∨ l.text? ≠ none :=
  h.imp And.left And.left

theorem isTextFor_text_iff {t : Text} {v : Value} :
    IsTextFor (.text t) v ↔ otherText? v = some t :=
  ⟨fun h => h.2.symm, fun h => ⟨Option.some_ne_none t, h.symm⟩⟩

theorem clash_text_iff {t : Text} {v : Value} (hv : v.text? = none) :
    Clash (.text t) v ↔ otherText? v = some t :=
  (or_iff_left fun h => h.1 hv).trans isTextFor_text_iff

theorem clash_text_text_iff {t u : Text} :
    Clash (.text t) (.text u) ↔ t = [] ∧ u = defaultName ∨ u = [] ∧ t = defaultName := by
  have hother : ∀ t u : Text, IsTextFor (.text t) (.text u) ↔ t = [] ∧ u = defaultName := by
    intro t u
    rw [isTextFor_text_iff, otherText?]
    split
    next h => rw [Option.some_inj, eq_comm, and_iff_left h]
    next h => exact iff_of_false nofun fun h' => h h'.2
  exact or_congr (hother t u) (hother u t)

/-- **Is this a mapping** as far as its keys go? No two of them are the same, and the numbers among
them are numbers of their format, as all numbers are that are read
(`Yaml.CoreSchema.isProper_of_resolve`). -/
structure IsMapping (pairs : Mapping) : Prop where
  differ : pairs.Pairwise fun p q => p.1.same q.1 = false
  proper : ∀ pair ∈ pairs, ∀ n, pair.1 = .number n → n.IsProper

/-- Only the written name of the default value is not the name itself. -/
theorem ite_defaultName_eq_iff {t s : Text} (hempty : s ≠ []) (hdefault : s ≠ defaultName) :
    (if t = defaultName then [] else t) = s ↔ t = s := by
  by_cases ht : t = defaultName
  · rw [if_pos ht, ht]
    exact iff_of_false (Ne.symm hempty) (Ne.symm hdefault)
  · rw [if_neg ht]

/-- The text of a number is neither that of a truth value nor one for the default value. -/
theorem text_notMem_words (n : Number) :
    n.text ∉ [[], defaultName, Yaml.textOfBool true, Yaml.textOfBool false] := by
  have hwords : ([[], defaultName, Yaml.textOfBool true, Yaml.textOfBool false].all fun t =>
      t.all fun c => !(c.isDigit || c == '.')) = true := rfl
  obtain ⟨c, hc, hdigit⟩ := n.exists_mem_text
  intro h
  have hnone := List.all_eq_true.1 (List.all_eq_true.1 hwords _ h) c hc
  simp only [Bool.not_eq_true', Bool.or_eq_false_iff, beq_eq_false_iff_ne] at hnone
  rcases hdigit with hdigit | hpoint
  · exact absurd hdigit (Bool.eq_false_iff.1 hnone.1)
  · exact hnone.2 hpoint

theorem textOfBool_ne (b : Bool) : Yaml.textOfBool b ≠ [] ∧ Yaml.textOfBool b ≠ defaultName := by
  cases b <;> decide

theorem text_ne_textOfBool (n : Number) (b : Bool) : n.text ≠ Yaml.textOfBool b := by
  intro h
  apply text_notMem_words n
  rw [h]
  cases b <;> decide

/-- A text and a key that differs from it have one name exactly if they clash. -/
theorem name_text_eq_iff {t s : Text} {v : Value} (hv : valueNameOf v = .ok s)
    (hdiffer : (Value.text t).same v = false) :
    (if t = defaultName then [] else t) = s ↔ Clash (.text t) v := by
  cases v with
  | text u =>
    cases hv
    have hne : t ≠ u := by
      rintro rfl
      rw [Value.same, beq_self_eq_true] at hdiffer
      exact absurd hdiffer.symm Bool.false_ne_true
    rw [clash_text_text_iff]
    by_cases ht : t = defaultName
    · have hu : u ≠ defaultName := fun hu => hne (ht.trans hu.symm)
      rw [if_pos ht, if_neg hu, eq_comm]
      exact ⟨fun h => .inr ⟨h, ht⟩, fun h => h.elim (fun h => absurd h.2 hu) And.left⟩
    · rw [if_neg ht]
      by_cases hu : u = defaultName
      · rw [if_pos hu]
        exact ⟨fun h => .inl ⟨h, hu⟩, fun h => h.elim And.left fun h => absurd h.2 ht⟩
      · rw [if_neg hu]
        exact iff_of_false hne fun h => h.elim (fun h => hu h.2) fun h => ht h.2
  | number n =>
    cases hv
    have hwords := text_notMem_words n
    simp only [List.mem_cons, not_or] at hwords
    rw [ite_defaultName_eq_iff hwords.1 hwords.2.1, clash_text_iff rfl, otherText?, Option.some_inj,
      eq_comm]
  | boolean b =>
    cases hv
    obtain ⟨hempty, hdefault⟩ := textOfBool_ne b
    rw [ite_defaultName_eq_iff hempty hdefault, clash_text_iff rfl, otherText?, Option.some_inj,
      eq_comm]
  | _ => cases hv

/-- **Different keys have one name** exactly if they clash. -/
theorem name_eq_iff {k l : Value} {s t : Text} (hk : valueNameOf k = .ok s)
    (hl : valueNameOf l = .ok t) (hdiffer : k.same l = false)
    (hproper : ∀ n, k = .number n ∨ l = .number n → n.IsProper) : s = t ↔ Clash k l := by
  have hnever : ∀ {k l : Value}, k.text? = none → l.text? = none → ¬ Clash k l :=
    fun hk hl h => h.text?_ne_none.elim (· hk) (· hl)
  cases k with
  | text u =>
    cases hk
    exact name_text_eq_iff hl hdiffer
  | number n =>
    cases l with
    | text u =>
      cases hl
      exact eq_comm.trans ((name_text_eq_iff hk rfl).trans ⟨Clash.symm, Clash.symm⟩)
    | number n' =>
      cases hk
      cases hl
      refine iff_of_false (fun h => ?_) (hnever rfl rfl)
      obtain rfl := Number.text_injective (hproper n (.inl rfl)) (hproper n' (.inr rfl)) h
      exact absurd (hdiffer.symm.trans n.same_self) Bool.false_ne_true
    | boolean b =>
      cases hk
      cases hl
      exact iff_of_false (text_ne_textOfBool n b) (hnever rfl rfl)
    | _ => cases hl
  | boolean b =>
    cases l with
    | text u =>
      cases hl
      exact eq_comm.trans ((name_text_eq_iff hk rfl).trans ⟨Clash.symm, Clash.symm⟩)
    | number n =>
      cases hk
      cases hl
      exact iff_of_false (text_ne_textOfBool n b).symm (hnever rfl rfl)
    | boolean b' =>
      cases hk
      cases hl
      have hne : b ≠ b' := beq_eq_false_iff_ne.1 hdiffer
      refine iff_of_false (fun h => hne ?_) (hnever rfl rfl)
      cases b <;> cases b' <;> first | rfl | exact absurd h (by decide)
    | _ => cases hl
  | _ => cases hk

/-! ## Blocks -/

/-- **A block names its values differently** exactly if no two of its keys clash. -/
theorem Block.nodup_map_name_iff {b : Block} (hb : IsMapping b.values) {entries : List Entry}
    (h : b.entries = .ok entries) :
    (entries.map Entry.name).Nodup ↔ b.values.Pairwise fun p q => ¬ Clash p.1 q.1 := by
  obtain ⟨hive, key, _, hgives⟩ := Block.entries_eq_ok_iff.1 h
  have hdiffer : b.values.Pairwise fun p q => p.1.same q.1 = false
      ∧ ∀ n, p.1 = .number n ∨ q.1 = .number n → n.IsProper :=
    hb.differ.imp_of_mem fun hp hq hdiffer =>
      ⟨hdiffer, fun n hn => hn.elim (hb.proper _ hp n) (hb.proper _ hq n)⟩
  rw [List.Nodup, List.pairwise_map]
  refine pairwise_iff_of_forall₂ hgives hdiffer fun p q e f h hp hq => not_congr ?_
  exact name_eq_iff hp.name hq.name h.1 h.2

namespace Manifest

/-- **A block of a manifest names no value twice** exactly if no two of its keys clash. -/
theorem nodup_valueNames_iff {m : Manifest} (hm : ∀ b ∈ m.registry, IsMapping b.values)
    {root : FileTree} {base : Text} {c : Export.Contents} (h : m.contents root base = .ok c) :
    ∃ blocks files, c.entries = blocks.flatten ++ files.flatten
      ∧ List.Forall₂ (ExportFiles.Gathers root base) m.exportFiles files
      ∧ List.Forall₂ (fun (b : Block) entries => b.entries = .ok entries
        ∧ ((entries.map Entry.name).Nodup
          ↔ b.values.Pairwise fun p q => ¬ Clash p.1 q.1)) m.registry blocks := by
  obtain ⟨blocks, files, hblocks, hfiles, hentries⟩ := gathers_of_contents h
  refine ⟨blocks, files, hentries, hfiles, ?_⟩
  refine ((List.forall₂_and_left _ _).2 ⟨hm, hblocks⟩).imp fun b entries ⟨hb, hgathers⟩ => ?_
  have hread := Block.entries_eq_ok_iff.2 hgathers
  exact ⟨hread, Block.nodup_map_name_iff hb hread⟩

/-- One, as a floating-point number. -/
def floatOne : Number :=
  .float (.finite false 0x10000000000000 (-52))

/-- Values under keys that look alike and do not clash. -/
def lookalikeValues : Mapping :=
  [(.number (.integer 1), .null), (.number floatOne, .null), (.text "01".toList, .null),
    (.boolean true, .null), (.text "True".toList, .null), (.text [], .null)]

/-- A manifest with these values and, in another block under the same registry key, two that clash
with some of them. -/
def lookalikeNames : Manifest :=
  { registry := [{ key := "HKLM/k".toList, values := lookalikeValues },
      { key := "HKLM/k".toList, values := [(.text ['@'], .null), (.text ['1'], .null)] }] }

theorem isMapping_lookalikeNames : ∀ b ∈ lookalikeNames.registry, IsMapping b.values := by
  have hvalues : IsMapping lookalikeValues := by
    refine ⟨by decide, ?_⟩
    rintro _ hpair n hn
    simp only [lookalikeValues, List.mem_cons, List.not_mem_nil, or_false] at hpair
    rcases hpair with rfl | rfl | rfl | rfl | rfl | rfl <;> cases hn
    · trivial
    · exact ⟨by decide, .inl (by decide), by decide, by decide⟩
  have htexts : IsMapping [(.text ['@'], .null), (.text ['1'], .null)] := by
    refine ⟨by decide, ?_⟩
    rintro _ hpair n hn
    simp only [List.mem_cons, List.not_mem_nil, or_false] at hpair
    rcases hpair with rfl | rfl <;> cases hn
  exact List.forall_mem_cons.2 ⟨hvalues, List.forall_mem_singleton.2 htexts⟩

/-- Each of its blocks names its values differently. -/
theorem nodup_valueNames_lookalikeNames :
    (∀ b ∈ lookalikeNames.registry, IsMapping b.values)
      ∧ ∃ c blocks files, lookalikeNames.contents (.directory []) [] = .ok c
        ∧ c.entries = blocks.flatten ++ files.flatten
        ∧ List.Forall₂ (ExportFiles.Gathers (.directory []) []) lookalikeNames.exportFiles files
        ∧ List.Forall₂ (fun (b : Block) entries => b.entries = .ok entries
          ∧ (entries.map Entry.name).Nodup) lookalikeNames.registry blocks := by
  obtain ⟨c, hc⟩ : ∃ c, lookalikeNames.contents (.directory []) [] = .ok c := ⟨_, rfl⟩
  have hclash : ∀ b ∈ lookalikeNames.registry, b.values.Pairwise fun p q => ¬ Clash p.1 q.1 := by
    decide +kernel
  obtain ⟨blocks, files, hentries, hfiles, hblocks⟩ :=
    nodup_valueNames_iff isMapping_lookalikeNames hc
  refine ⟨isMapping_lookalikeNames, c, blocks, files, hc, hentries, hfiles, ?_⟩
  exact ((List.forall₂_and_left _ _).2 ⟨hclash, hblocks⟩).imp fun b entries ⟨hb, hread, hiff⟩ =>
    ⟨hread, hiff.2 hb⟩

/-- A block with both names of the default value. -/
def twoDefaults : Block :=
  { key := "HKCU/k".toList
    values := [(.text ['@'], .text ['a']), (.text [], .text ['b'])] }

/-- **A block can name one value twice**: the manifest that consists of it is accepted, its keys are
different, and it holds two entries for the default value of one registry key. -/
theorem not_nodup_valueNames_twoDefaults :
    check { registry := [twoDefaults] } = .ok ()
      ∧ (twoDefaults.values.Pairwise fun p q => p.1.same q.1 = false)
      ∧ ∃ c, contents (.directory []) [] { registry := [twoDefaults] } = .ok c
        ∧ twoDefaults.entries = .ok c.entries
        ∧ c.entries.map Entry.path = ["HKCU\\k".toList, "HKCU\\k".toList]
        ∧ c.entries.map Entry.name = [[], []] ∧ ¬ (c.entries.map Entry.name).Nodup :=
  ⟨rfl, by decide, _, rfl, rfl, rfl, rfl, by decide⟩

end Manifest

end InstallerRegistry
