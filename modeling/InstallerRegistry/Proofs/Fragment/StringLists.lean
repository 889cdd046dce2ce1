import InstallerRegistry.Proofs.Export.RoundTrip
import InstallerRegistry.Proofs.Fragment.Identifiers
import InstallerRegistry.Proofs.Manifest.Loading

/-!
# Lists of strings, from an export to a fragment

An export stores a list of strings as bytes, a registry value holds it as the lines of a text, and a
fragment has an element for each string. The strings come through all of this
(`Manifest.stringLists_fragmentOf`) if none of them is empty, has a character in it that separates
strings on the way, or ends with a carriage return, which would be taken for a part of the line's
end. One string alone is no list any more: its text has no line feed, so it is written as a string.

What a fragment makes of other texts follows from their line feeds alone: each separates two strings
but the one at the end (`Text.length_listed`).
-/

namespace InstallerRegistry

open Xml (Element)

/-! ## Joined strings -/

namespace Text

variable (sep : Char)

theorem notMem_join {c : Char} {pieces : List Text} (hc : c ≠ sep)
    (h : ∀ piece ∈ pieces, sep ∉ piece ∧ c ∉ piece) : c ∉ join [sep] pieces := by
  cases pieces with
  | nil => exact List.not_mem_nil
  | cons piece pieces =>
    intro hmem
    have hsplit := splitOn_join (List.cons_ne_nil piece pieces) fun p hp => (h p hp).1
    obtain ⟨p, hp, hcp⟩ := (mem_splitOn_iff _).2 ⟨hmem, hc⟩
    rw [hsplit] at hp
    exact (h p hp).2 hcp

end Text

/-! ## Lists in an export -/

namespace Export

/-- A **string of a list** is not empty, it has no character in it that separates strings or lines,
and no carriage return at its end. -/
structure IsListed (t : Text) : Prop where
  ne_nil : t ≠ []
  noNul : '\x00' ∉ t
  noLineFeed : '\n' ∉ t
  last : t.getLast? ≠ some '\r'

/-- A **list of strings** with its place in the registry. -/
structure StringList where
  hive : Hive
  key : Text
  name : Text
  strings : List Text

/-- The section of a key with a list of strings in it, whose bytes are broken into lines. -/
def Layout.stringList (l : Layout) (breaks : Breaks) (s : StringList) : Text :=
  l.line (header s.hive s.key)
    ++ l.line (name s.name ++ '='
      :: ("hex(7):".toList ++ l.pairs breaks (bytesOfStrings s.strings)))

namespace StringList

/-- Can the list be stored, and installed? -/
structure IsStorable (s : StringList) : Prop where
  hive : s.hive ≠ .currentConfig
  key : '\n' ∉ s.key
  name : '\n' ∉ s.name
  ne_nil : s.strings ≠ []
  listed : ∀ t ∈ s.strings, IsListed t

/-- The text that the list is read as. -/
def text (s : StringList) : Text :=
  Text.join ['\n'] s.strings

/-- The entry that the list is read as. -/
def entry (s : StringList) : Entry :=
  { hive := s.hive, key := s.key, name := s.name, value := some (.text s.text) }

/-- **The element of a list**: one string is the value itself, several are its children. -/
def element (s : StringList) (root id : Text) : Element :=
  match s.strings with
  | [t] =>
    .of "RegistryValue"
      [("Id", some id), ("Root", some root), ("Key", some s.key), ("Name", filled s.name),
        ("Type", some (RegistryValue.text t).type.name), ("Value", some t),
        ("KeyPath", some "yes".toList)] []
  | strings =>
    .of "RegistryValue"
      [("Id", some id), ("Root", some root), ("Key", some s.key), ("Name", filled s.name),
        ("Type", some "multiString".toList), ("KeyPath", some "yes".toList)]
      (strings.map Element.string)

variable {s : StringList}

/-- The bytes of the list are read as its text. -/
theorem valueOf_pairs (l : Layout) (h : s.IsStorable) :
    valueOf .five ("hex(7):".toList ++ l.pairs [] (Layout.bytesOfStrings s.strings))
      = .ok (some (.text s.text)) := by
  have hsplit : Text.splitOn '\n' s.text = s.strings :=
    Text.splitOn_join h.ne_nil fun t ht => (h.listed t ht).noLineFeed
  have hnul : '\x00' ∉ s.text :=
    Text.notMem_join _ (by decide) fun t ht => ⟨(h.listed t ht).noLineFeed, (h.listed t ht).noNul⟩
  have hlast : s.text.getLast? ≠ some '\n' := by
    obtain ⟨t, ht, heq⟩ := Text.exists_getLast?_join '\n' h.ne_nil
      fun t ht => (h.listed t ht).ne_nil
    rw [text, heq]
    exact fun hfeed => (h.listed t ht).noLineFeed (List.mem_of_getLast? hfeed)
  rw [← hsplit]
  exact valueOf_list l hnul hlast

/-- **A list is read back**, and what follows is read in the section of its key. -/
theorem contentsFrom_stringList (l : Layout) (breaks : Breaks) (h : s.IsStorable)
    (before : Section) (n : ℕ) (rest : Text) :
    ∃ n', contentsFrom .five before
        (joinFrom n none (physicalLines (l.stringList breaks s ++ rest)))
      = (do return { entries := [s.entry] }
          ++ (← contentsFrom .five (.key s.hive s.key)
            (joinFrom n' none (physicalLines rest)))) := by
  have hsolid := isOpening_list.append_complete
    (isComplete_pairs l (bytesOfStrings_ne_nil s.strings))
  rw [Layout.stringList, List.append_assoc]
  exact contentsFrom_section l h.key
    (fun n => joinFrom_hex l n h.name isOpening_list breaks (bytesOfStrings_ne_nil _) rest)
    (fun n => step_name hsolid.toIsSolid (valueOf_pairs l h) n s.hive s.key s.name) before n

/-- The same lines under other numbers have the same entries. -/
theorem exists_contentsFrom_of_number {version : Version} {before : Section} {n : ℕ}
    {physical : List Text} {c : Contents}
    (h : contentsFrom version before (joinFrom n none physical) = .ok c) (n' : ℕ) :
    ∃ c', contentsFrom version before (joinFrom n' none physical) = .ok c'
      ∧ c'.entries = c.entries := by
  rw [← Nat.zero_add n, contentsFrom_joinFrom_add] at h
  rw [← Nat.zero_add n', contentsFrom_joinFrom_add]
  cases hzero : contentsFrom version before (joinFrom 0 none physical) with
  | error e =>
    rw [hzero] at h
    exact absurd h nofun
  | ok c₀ =>
    rw [hzero] at h
    cases h
    exact ⟨_, rfl, rfl⟩

/-- What stands behind the section header of a list is read as if the list were not there. -/
theorem ofText_stringList (l : Layout) (breaks : Breaks) (h : s.IsStorable) {behind : Text}
    {c : Contents} (hbehind : Contents.ofText
      (l.line Version.five.header ++ (l.line (Layout.header s.hive s.key) ++ behind)) = .ok c) :
    ∃ c', Contents.ofText (l.line Version.five.header ++ (l.stringList breaks s ++ behind)) = .ok c'
      ∧ c'.entries = s.entry :: c.entries := by
  have hheader : joinFrom 2 none (physicalLines (l.line (Layout.header s.hive s.key) ++ behind))
      = ⟨2, Layout.header s.hive s.key⟩ :: joinFrom 3 none (physicalLines behind) :=
    joinFrom_line l 2 none (.spaces 0) (Layout.isComplete_header s.hive h.key) behind
  rw [ofText_header, hheader, contentsFrom_cons (step_header .outside 2 s.hive s.key)] at hbehind
  obtain ⟨c₀, hc₀, hc⟩ := bind_eq_ok_iff.1 hbehind
  cases hc
  obtain ⟨n', hn'⟩ := contentsFrom_stringList l breaks h .outside 2 behind
  obtain ⟨c', hc', hentries⟩ := exists_contentsFrom_of_number hc₀ n'
  refine ⟨{ entries := [s.entry] } ++ c', ?_, ?_⟩
  · rw [ofText_header, hn', hc']
    rfl
  · show s.entry :: c'.entries = s.entry :: c₀.entries
    rw [hentries]

theorem startsSection_stringList (l : Layout) (breaks : Breaks) (h : s.IsStorable) (behind : Text) :
    StartsSection (l.stringList breaks s ++ behind) := by
  have hcomplete := Layout.isComplete_header s.hive h.key
  have htrim : Text.trim (Layout.header s.hive s.key ++ l.margin) = Layout.header s.hive s.key :=
    hcomplete.trim_margins (a := []) nofun fun _ => l.isBlank_of_mem_margin
  unfold StartsSection
  rw [Layout.stringList, List.append_assoc, l.physicalLines_line hcomplete.noLineFeed,
    List.map_cons, htrim]
  rintro _ ⟨⟩
  rfl

/-- **A list in an export** is read where it stands, and the rest as if it were not there. -/
theorem ofText_append_stringList (l : Layout) (breaks : Breaks) (h : s.IsStorable)
    {body behind : Text} {c₁ c₂ : Contents} (hbody : IsWhole body)
    (h₁ : Contents.ofText (l.line Version.five.header ++ body) = .ok c₁)
    (h₂ : Contents.ofText
      (l.line Version.five.header ++ (l.line (Layout.header s.hive s.key) ++ behind)) = .ok c₂) :
    ∃ c, Contents.ofText (l.line Version.five.header ++ body ++ (l.stringList breaks s ++ behind))
        = .ok c
      ∧ c.entries = c₁.entries ++ s.entry :: c₂.entries := by
  obtain ⟨c', hc', hentries⟩ := ofText_stringList l breaks h h₂
  rw [ofText_header] at h₁ hc'
  rw [List.append_assoc, ofText_header,
    contentsFrom_physicalLines_append hbody (startsSection_stringList l breaks h behind), h₁, hc']
  refine ⟨_, rfl, ?_⟩
  show c₁.entries ++ c'.entries = _
  rw [hentries]

end StringList

end Export

/-! ## Values of a fragment -/

open Export (Breaks Contents IsWhole Layout StringList Version)

/-- The value of a text with a line feed has an element for each string that the text lists. -/
theorem Entry.ShowsValue.children_eq {e : Entry} {id t : Text} {x : Element}
    (h : e.ShowsValue id x) (ht : e.value = some (.text t)) (hfeed : '\n' ∈ t) :
    x.children = t.listed.map Element.string := by
  obtain ⟨v, hv, _, rfl⟩ := showsValue_iff.1 h
  obtain rfl : v = .text t := Option.some.inj (hv.symm.trans ht)
  rw [RegistryValue.type_eq_multiString_iff.2 ⟨t, rfl, hfeed⟩]
  rfl

/-- **The value of a list** is the element that the list should have. -/
theorem Export.StringList.eq_element {s : StringList} (h : s.IsStorable) {id : Text} {x : Element}
    (hx : s.entry.ShowsValue id x) :
    ∃ root, s.hive.installerRoot? = some root ∧ x = s.element root id := by
  obtain ⟨v, hv, hhive, rfl⟩ := Entry.showsValue_iff.1 hx
  obtain rfl : .text s.text = v := Option.some.inj hv
  refine ⟨s.hive.shortName, Hive.installerRoot?_eq_some_iff.2 ⟨hhive, rfl⟩, ?_⟩
  have hfeed := fun t ht => (h.listed t ht).noLineFeed
  have hlisted : s.text.listed = s.strings := Text.listed_join h.ne_nil
    fun t ht => ⟨(h.listed t ht).ne_nil, hfeed t ht, (h.listed t ht).last⟩
  unfold element
  cases hstrings : s.strings with
  | nil => exact absurd hstrings h.ne_nil
  | cons t strings =>
    rw [hstrings] at hlisted hfeed
    cases strings with
    | nil =>
      have htext : s.text = t := by
        rw [text, hstrings, Text.join]
      have htype : (RegistryValue.text t).type ≠ .multiString := fun htype => by
        obtain ⟨_, ⟨⟩, hmem⟩ := RegistryValue.type_eq_multiString_iff.1 htype
        exact hfeed t List.mem_cons_self hmem
      rw [htext, Element.value_of_ne htype]
      rfl
    | cons next strings =>
      have hmem : '\n' ∈ s.text := by simp [text, hstrings, Text.join]
      rw [RegistryValue.type_eq_multiString_iff.2 ⟨s.text, rfl, hmem⟩, Element.value_multiString,
        RegistryValue.payload, hlisted]
      rfl

namespace Manifest

/-- Entries of exports have a fragment if their hives have roots. -/
theorem exists_fragmentOf_ofText {t : Text} {c : Contents} (h : Contents.ofText t = .ok c)
    (hhive : ∀ e ∈ c.entries, e.hive ≠ .currentConfig) :
    ∃ doc, ({} : Manifest).fragmentOf c.entries = .ok doc := by
  refine exists_fragmentOf_of_id_eq_none rfl
    (fun e he => ⟨Export.isSet_of_mem_ofText h e he, hhive e he⟩) fun e he => ?_
  obtain ⟨v, hv⟩ := Contents.exists_eq_of_mem_ofText h e he
  rw [hv]

/-- **Lists of strings survive** from an export to the fragment of its entries, wherever in the
export they stand: one string is the value, several are its children. And in every fragment, the
value of a text with line feeds has a string more than these, not counting one at the end. -/
theorem stringLists_fragmentOf :
    (∀ (l : Layout) (breaks : Breaks) (s : StringList) (body behind : Text) (c₁ c₂ : Contents),
      s.IsStorable → IsWhole body → Contents.ofText (l.line Version.five.header ++ body) = .ok c₁ →
      Contents.ofText (l.line Version.five.header
        ++ (l.line (Layout.header s.hive s.key) ++ behind)) = .ok c₂ →
      (∀ e ∈ c₁.entries ++ c₂.entries, e.hive ≠ .currentConfig) →
      ∃ c doc x before after root id,
        Contents.ofText (l.line Version.five.header ++ body ++ (l.stringList breaks s ++ behind))
          = .ok c
        ∧ ({} : Manifest).fragmentOf c.entries = .ok doc ∧ Element.ofText? doc = some x
        ∧ x.named "RegistryValue" = before ++ s.element root id :: after
        ∧ before.length = c₁.entries.length ∧ after.length = c₂.entries.length
        ∧ s.hive.installerRoot? = some root)
    ∧ ∀ (m : Manifest) (entries : List Entry) (doc : Text), m.fragmentOf entries = .ok doc →
      ∃ x, Element.ofText? doc = some x
        ∧ List.Forall₂ (fun e y => ∀ t, e.value = some (.text t) → '\n' ∈ t →
          ∃ strings : List Text, y.children = strings.map Element.string
            ∧ strings.length = t.count '\n' + 1 - if t.getLast? = some '\n' then 1 else 0)
          entries (x.named "RegistryValue") := by
  constructor
  · intro l breaks s body behind c₁ c₂ hs hbody h₁ h₂ hhives
    obtain ⟨c, hc, hentries⟩ := Export.StringList.ofText_append_stringList l breaks hs hbody h₁ h₂
    have hhive : ∀ e ∈ c.entries, e.hive ≠ .currentConfig := by
      rw [List.forall_mem_append] at hhives
      rw [hentries, List.forall_mem_append, List.forall_mem_cons]
      exact ⟨hhives.1, hs.hive, hhives.2⟩
    obtain ⟨doc, hdoc⟩ := exists_fragmentOf_ofText hc hhive
    obtain ⟨x, hx, hvalues⟩ := forall₂_showsValue hdoc
    rw [hentries] at hvalues
    obtain ⟨before, v, after, hnamed, hbefore, ⟨id, hv⟩, hafter⟩ :=
      exists_append_cons_of_forall₂ hvalues
    obtain ⟨root, hroot, rfl⟩ := Export.StringList.eq_element hs hv
    exact ⟨c, doc, x, before, after, root, id, hc, hdoc, hx, hnamed, hbefore.length_eq.symm,
      hafter.length_eq.symm, hroot⟩
  · intro m entries doc hdoc
    obtain ⟨x, hx, hvalues⟩ := forall₂_showsValue hdoc
    refine ⟨x, hx, hvalues.imp fun e y ⟨id, hy⟩ t ht hfeed => ?_⟩
    exact ⟨_, hy.children_eq ht hfeed, Text.length_listed (List.ne_nil_of_mem hfeed)⟩

/-- A list of two strings, the first of which ends with a blank. -/
def pathList : StringList :=
  { hive := .localMachine, key := "Environment".toList, name := "Path".toList
    strings := ["C:\\a ".toList, "%B%".toList] }

/-- A section before the list. -/
def sectionBefore : Text :=
  "[HKEY_USERS]\n@=\"u\"\n".toList

/-- A value in the section of the list, behind it. -/
def valueBehind : Text :=
  "\"n\"=dword:00000001\n".toList

/-- An entry whose text has three line feeds, one of them at its end. -/
def lineEntry : Entry :=
  { name := [], value := some (.text "a\n\nb\n".toList) }

theorem stringLists_fragmentOf_pathList :
    pathList.IsStorable ∧ IsWhole sectionBefore
      ∧ (∃ c doc x before after root id,
        Contents.ofText (Layout.line {} Version.five.header ++ sectionBefore
          ++ (Layout.stringList {} [none, some (.spaces 2)] pathList ++ valueBehind)) = .ok c
        ∧ ({} : Manifest).fragmentOf c.entries = .ok doc ∧ Element.ofText? doc = some x
        ∧ x.named "RegistryValue" = before ++ pathList.element root id :: after
        ∧ before.length = 1 ∧ after.length = 1 ∧ pathList.hive.installerRoot? = some root)
      ∧ ∃ doc x y, ({} : Manifest).fragmentOf [lineEntry] = .ok doc ∧ Element.ofText? doc = some x
        ∧ x.named "RegistryValue" = [y]
        ∧ ∃ strings : List Text, y.children = strings.map Element.string ∧ strings.length = 3 := by
  have hstorable : pathList.IsStorable := by
    refine ⟨by decide, by decide, by decide, by decide, ?_⟩
    rw [pathList, List.forall_mem_cons, List.forall_mem_singleton]
    exact ⟨⟨by decide, by decide, by decide, by decide⟩,
      ⟨by decide, by decide, by decide, by decide⟩⟩
  have hwhole : IsWhole sectionBefore := ⟨.inr rfl, rfl⟩
  obtain ⟨c₁, h₁, hc₁⟩ : ∃ c₁,
      Contents.ofText (Layout.line {} Version.five.header ++ sectionBefore) = .ok c₁
        ∧ c₁.entries = [{ hive := .users, name := [], value := some (.text ['u']) }] :=
    ⟨_, rfl, rfl⟩
  obtain ⟨c₂, h₂, hc₂⟩ : ∃ c₂, Contents.ofText (Layout.line {} Version.five.header
        ++ (Layout.line {} (Layout.header pathList.hive pathList.key) ++ valueBehind)) = .ok c₂
      ∧ c₂.entries = [{ hive := .localMachine, key := "Environment".toList, name := ['n']
                        value := some (.int32 1) }] := ⟨_, rfl, rfl⟩
  have hhives : ∀ e ∈ c₁.entries ++ c₂.entries, e.hive ≠ .currentConfig := by
    rw [hc₁, hc₂]
    decide
  refine ⟨hstorable, hwhole, ?_, ?_⟩
  · obtain ⟨c, doc, x, before, after, root, id, hc, hdoc, hx, hnamed, hbefore, hafter, hroot⟩ :=
      stringLists_fragmentOf.1 {} [none, some (.spaces 2)] pathList _ _ c₁ c₂ hstorable hwhole h₁ h₂
        hhives
    rw [hc₁] at hbefore
    rw [hc₂] at hafter
    exact ⟨c, doc, x, before, after, root, id, hc, hdoc, hx, hnamed, hbefore, hafter, hroot⟩
  · obtain ⟨doc, hdoc⟩ : ∃ doc, ({} : Manifest).fragmentOf [lineEntry] = .ok doc := ⟨_, rfl⟩
    obtain ⟨x, hx, hvalues⟩ := stringLists_fragmentOf.2 {} [lineEntry] doc hdoc
    obtain ⟨y, ys, hy, hys, hnamed⟩ := List.forall₂_cons_left_iff.1 hvalues
    rw [List.forall₂_nil_left_iff.1 hys] at hnamed
    obtain ⟨strings, hchildren, hlength⟩ := hy _ rfl (by decide)
    exact ⟨doc, x, y, hdoc, hx, hnamed, strings, hchildren, hlength.trans (by decide)⟩

end Manifest

end InstallerRegistry
