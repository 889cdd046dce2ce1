import InstallerRegistry.Proofs.Content
import InstallerRegistry.Proofs.Except
import InstallerRegistry.Proofs.RegistryPath
import InstallerRegistry.Proofs.RegistryValue
import Mathlib.Data.List.SplitBy

/-!
# What an import keeps

Entries become a manifest (`Manifest.ofEntries`) in which each stands under the path of its key and
by its written name, and the manifest is read again with its own rules for paths and names. So the
entries that come out are not always those that went in: they are the **carried** ones
(`Manifest.content_ofEntries`), whose keys have lost their slashes and the backslashes at their
ends, and whose names are never a bare at sign.

An entry that is carried as it is is **portable**. An import of portable entries keeps the content
of the registry, and an import of any others changes it (`Manifest.content_ofEntries_eq_iff`).
-/

namespace InstallerRegistry

open Yaml (Value)

/-! ## Carried entries -/

namespace Entry

/-- An entry as a manifest carries it. -/
def carried (e : Entry) : Entry :=
  { e with
    key := RegistryPath.trim (RegistryPath.normalize e.key)
    name := if e.name = defaultName then [] else e.name }

/-- A **portable** entry has a normal key, and its name is not the one that is written for a
default value. -/
structure IsPortable (e : Entry) : Prop where
  key : RegistryPath.IsNormal e.key
  name : e.name ≠ defaultName

theorem name_carried_ne (e : Entry) : e.carried.name ≠ defaultName := by
  show (if e.name = defaultName then [] else e.name) ≠ defaultName
  split
  next => decide
  next h => exact h

theorem isPortable_carried (e : Entry) : e.carried.IsPortable :=
  ⟨RegistryPath.isNormal_trim_normalize e.key, e.name_carried_ne⟩

theorem carried_eq_self {e : Entry} (h : e.IsPortable) : e.carried = e := by
  rw [carried, RegistryPath.trim_normalize_eq_self_iff.2 h.key, if_neg h.name]

/-- Being portable is a matter of the place alone. -/
theorem isPortable_of_place_eq {e e' : Entry} (h : e.IsPortable) (hplace : e.place = e'.place) :
    e'.IsPortable := by
  obtain ⟨_, hkey, hname⟩ := Place.mk.inj hplace
  exact ⟨hkey ▸ h.key, hname ▸ h.name⟩

end Entry

/-- **Carrying changes the content** unless every entry is portable: the place of an entry that is
not is left empty. -/
theorem content_carried_eq_iff {entries : List Entry} :
    content (entries.map Entry.carried) = content entries ↔ ∀ e ∈ entries, e.IsPortable := by
  constructor
  · intro h e he
    have hne : content (entries.map Entry.carried) e.place ≠ none := by
      rw [h]
      exact content_ne_none_iff.2 ⟨e, he, rfl⟩
    obtain ⟨x, hx, hplace⟩ := content_ne_none_iff.1 hne
    obtain ⟨y, _, rfl⟩ := List.mem_map.1 hx
    exact Entry.isPortable_of_place_eq y.isPortable_carried hplace
  · intro h
    rw [List.map_congr_left fun e he => Entry.carried_eq_self (h e he), List.map_id']

namespace Manifest

/-! ## Written names and values -/

theorem pairOf_carried (e : Entry) : pairOf e.carried = pairOf e := by
  have hname : ∀ t : Text, (if (if t = defaultName then [] else t).isEmpty then defaultName
      else if t = defaultName then [] else t) = if t.isEmpty then defaultName else t := by
    intro t
    by_cases h : t = defaultName
    · rw [if_pos h, h]
      rfl
    · rw [if_neg h]
  exact congrArg (fun t => (Value.text t, (pairOf e).2)) (hname e.name)

/-- The written name is read back, except for that of a default value. -/
theorem valueNameOf_pairOf {e : Entry} (h : e.name ≠ defaultName) :
    valueNameOf (pairOf e).1 = .ok e.name := by
  show (Except.ok (if (if e.name.isEmpty then defaultName else e.name) = defaultName then []
    else if e.name.isEmpty then defaultName else e.name) : Except RegistryError Text) = .ok e.name
  by_cases hempty : e.name.isEmpty
  · rw [if_pos (if_pos hempty), List.isEmpty_iff.1 hempty]
  · rw [if_neg hempty, if_neg h]

/-- Written names are the same exactly if the names are. -/
theorem same_pairOf_iff {e e' : Entry} (h : e.name ≠ defaultName) (h' : e'.name ≠ defaultName) :
    Value.same (pairOf e).1 (pairOf e').1 = true ↔ e.name = e'.name := by
  have hsame : Value.same (pairOf e).1 (pairOf e').1 = true
      ↔ (if e.name.isEmpty then defaultName else e.name)
        = if e'.name.isEmpty then defaultName else e'.name := by
    show Value.same (.text _) (.text _) = true ↔ _
    rw [Value.same, beq_iff_eq]
  constructor
  · intro heq
    have hread := valueNameOf_pairOf h
    rw [show (pairOf e).1 = (pairOf e').1 from congrArg Value.text (hsame.1 heq),
      valueNameOf_pairOf h'] at hread
    exact (Except.ok.inj hread).symm
  · intro heq
    rw [hsame, heq]

/-! ## Blocks -/

/-- Can the entry stand in a block under this key? -/
structure IsUnder (hive : Hive) (key : Text) (e : Entry) : Prop where
  hive : e.hive = hive
  key : e.key = key
  name : e.name ≠ defaultName

variable {hive : Hive} {key : Text}

theorem IsUnder.name_eq_iff {e e' : Entry} (h : IsUnder hive key e) (h' : IsUnder hive key e') :
    e.name = e'.name ↔ e.place = e'.place := by
  simp only [Entry.place, Place.mk.injEq, h.hive, h'.hive, h.key, h'.key, true_and]

/-- Inserting a written entry into a block is putting it among those that are there. -/
theorem insert_pairOf {l : List Entry} {e : Entry} (hl : ∀ x ∈ l, IsUnder hive key x)
    (he : IsUnder hive key e) :
    Yaml.Mapping.insert (l.map pairOf) (pairOf e).1 (pairOf e).2 = (put l e).map pairOf := by
  induction l with
  | nil => rfl
  | cons x l ih =>
    have hx := hl x List.mem_cons_self
    -- under one key a place is a name, so both sides look for the same item
    have hplace : Value.same (pairOf e).1 (pairOf x).1 = true ↔ x.place = e.place := by
      rw [same_pairOf_iff he.name hx.name, eq_comm, hx.name_eq_iff he]
    rw [List.map_cons, Yaml.Mapping.insert, put]
    by_cases h : x.place = e.place
    · have hname : (pairOf x).1 = (pairOf e).1 := by
        unfold pairOf
        rw [(hx.name_eq_iff he).2 h]
      rw [if_pos (hplace.2 h), if_pos h, List.map_cons, hname]
    · rw [if_neg (mt hplace.1 h), if_neg h, List.map_cons,
        ih fun y hy => hl y (List.mem_cons_of_mem _ hy)]

/-- The mapping of written entries is made of those that are left when they are put one after
another. -/
theorem foldl_insert_pairOf {entries l : List Entry} (hl : ∀ x ∈ l, IsUnder hive key x)
    (he : ∀ x ∈ entries, IsUnder hive key x) :
    (entries.map pairOf).foldl (fun m pair => Yaml.Mapping.insert m pair.1 pair.2) (l.map pairOf)
      = (entries.foldl put l).map pairOf := by
  induction entries generalizing l with
  | nil => rfl
  | cons e entries ih =>
    have he' := he e List.mem_cons_self
    rw [List.map_cons, List.foldl_cons, insert_pairOf hl he', List.foldl_cons]
    refine ih (fun x hx => ?_) fun x hx => he x (List.mem_cons_of_mem _ hx)
    rcases mem_of_mem_put hx with hx | rfl
    · exact hl x hx
    · exact he'

/-- The mapping of entries that stand under one key when they are carried is that of the carried
ones, without repetitions. -/
theorem ofPairs_pairOf {entries : List Entry}
    (h : ∀ x ∈ entries.map Entry.carried, IsUnder hive key x) :
    Yaml.Mapping.ofPairs (entries.map pairOf)
      = ((entries.map Entry.carried).foldl put []).map pairOf := by
  have hcarried : entries.map pairOf = (entries.map Entry.carried).map pairOf := by
    rw [List.map_map]
    exact List.map_congr_left fun x _ => (pairOf_carried x).symm
  rw [hcarried, Yaml.Mapping.ofPairs]
  exact foldl_insert_pairOf (l := []) (fun x hx => absurd hx List.not_mem_nil) h

/-- An entry as a block installs it. -/
def installed (b : Block) (e : Entry) : Entry :=
  { e with id := none, feature := b.feature, condition := b.condition, win64 := b.win64 }

/-- A written value is read back, and has no settings of its own. -/
theorem ofYaml_pairOf (e : Entry) :
    Detailed.ofYaml (pairOf e).2 = .ok { value := (pairOf e).2 }
      ∧ RegistryValue.ofYaml (pairOf e).2 = .ok e.value := by
  rcases e with ⟨id, hive, key, name, value, feature, condition, win64⟩
  cases value with
  | none => exact ⟨rfl, rfl⟩
  | some v => exact ⟨Detailed.ofYaml_toYaml v, RegistryValue.ofYaml_toYaml v⟩

/-- A written entry is read back, installed as the block is. -/
theorem entry_pairOf (b : Block) {e : Entry} (h : IsUnder hive key e) :
    b.entry hive key (pairOf e) = .ok (installed b e) := by
  obtain ⟨hdetailed, hread⟩ := ofYaml_pairOf e
  rw [Block.entry, valueNameOf_pairOf h.name, hdetailed]
  show (do
    let value ← RegistryValue.ofYaml (pairOf e).2
    return ({ hive := hive, key := key, name := e.name, value := value, feature := b.feature
              condition := b.condition, win64 := b.win64 } : Entry)) = _
  rw [hread, installed, ← h.hive, ← h.key]
  rfl

/-- Entries of one path stand under one key when they are carried: the one that the path leads
to. -/
theorem isUnder_carried {path : Text} (h : RegistryPath.parse path = .ok (hive, key))
    {entries : List Entry} (hpath : ∀ e ∈ entries, e.path = path) :
    ∀ x ∈ entries.map Entry.carried, IsUnder hive key x := by
  intro x hx
  obtain ⟨e, he, rfl⟩ := List.mem_map.1 hx
  have hsame : RegistryPath.parse path = .ok (e.hive, e.carried.key) := by
    rw [← hpath e he]
    exact RegistryPath.parse_pathOf e.hive e.key
  obtain ⟨hhive, hkey⟩ := Prod.mk.inj (Except.ok.inj (hsame.symm.trans h))
  exact ⟨hhive, hkey, e.name_carried_ne⟩

/-- **A block of entries** under one path is read, holds what carrying them leaves, and has nothing
that was not carried. -/
theorem entries_block (b : Block) {entries : List Entry} (hne : entries ≠ [])
    (hpath : ∀ e ∈ entries, e.path = b.key)
    (hvalues : b.values = Yaml.Mapping.ofPairs (entries.map pairOf)) :
    ∃ l, b.entries = .ok l ∧ content l = content (entries.map Entry.carried)
      ∧ ∀ x ∈ l, ∃ e ∈ entries, x = installed b e.carried := by
  obtain ⟨hive, key, hparse⟩ : ∃ hive key, RegistryPath.parse b.key = .ok (hive, key) := by
    obtain ⟨e, he⟩ := List.exists_mem_of_ne_nil entries hne
    rw [← hpath e he]
    exact ⟨_, _, RegistryPath.parse_pathOf e.hive e.key⟩
  have hunder := isUnder_carried hparse hpath
  generalize hput : (entries.map Entry.carried).foldl put [] = left
  have hcarried : ∀ x ∈ left, x ∈ entries.map Entry.carried := by
    intro x hx
    rw [← hput] at hx
    exact (mem_of_mem_foldl_put hx).resolve_left List.not_mem_nil
  have hleft : ∀ x ∈ left, IsUnder hive key x := fun x hx => hunder x (hcarried x hx)
  refine ⟨left.map (installed b), ?_, ?_, ?_⟩
  · have hread : b.values.mapM (b.entry hive key) = .ok (left.map (installed b)) := by
      rw [hvalues, ofPairs_pairOf hunder, hput, mapM_eq_ok_iff, List.forall₂_map_left_iff,
        List.forall₂_map_right_iff]
      exact List.forall₂_same.2 fun x hx => entry_pairOf b (hleft x hx)
    rw [Block.entries, hparse]
    exact hread
  · rw [content_map (f := installed b) fun x _ => ⟨rfl, rfl⟩, ← hput,
      content_foldl_put (l := []) _ List.nodup_nil, List.nil_append]
  · intro x hx
    obtain ⟨y, hy, rfl⟩ := List.mem_map.1 hx
    obtain ⟨e, he, rfl⟩ := List.mem_map.1 (hcarried y hy)
    exact ⟨e, he, rfl⟩

/-- Neighbours in one block are under one path, and so are all entries of a run of neighbours. -/
theorem path_eq_of_isChain {e : Entry} {rest : List Entry}
    (h : (e :: rest).IsChain fun a b => inOneBlock a b) : ∀ x ∈ e :: rest, x.path = e.path := by
  have hchain : (e :: rest).IsChain fun a b => a.path = b.path :=
    h.imp fun a b hab => by simpa using (Bool.and_eq_true_iff.1 hab).1
  have : Trans (fun a b : Entry => a.path = b.path) (fun a b : Entry => a.path = b.path)
      (fun a b : Entry => a.path = b.path) := ⟨Eq.trans⟩
  intro x hx
  rcases List.mem_cons.1 hx with rfl | hx
  · rfl
  · exact (List.rel_of_pairwise_cons hchain.pairwise hx).symm

/-- The entry is one of these, carried, and installed with the feature. -/
def IsCarriedFrom (feature : Option Text) (entries : List Entry) (x : Entry) : Prop :=
  ∃ e ∈ entries, ∃ b : Block, b.feature = feature ∧ x = installed b e.carried

/-- Blocks are read one after another. -/
theorem mapM_entries_blocks (feature : Option Text) {groups : List (List Entry)}
    (h : ∀ group ∈ groups, group.IsChain fun a b => inOneBlock a b) :
    ∃ ls, (groups.filterMap (blockOf feature)).mapM Block.entries = .ok ls
      ∧ content ls.flatten = content (groups.flatten.map Entry.carried)
      ∧ ∀ x ∈ ls.flatten, IsCarriedFrom feature groups.flatten x := by
  induction groups with
  | nil => exact ⟨[], rfl, rfl, nofun⟩
  | cons group groups ih =>
    obtain ⟨ls, hls, hcontent, hcarried⟩ := ih fun g hg => h g (List.mem_cons_of_mem _ hg)
    cases group with
    | nil => exact ⟨ls, hls, hcontent, hcarried⟩
    | cons e rest =>
      obtain ⟨b, hb, hkey, hfeature, hvalues⟩ : ∃ b, blockOf feature (e :: rest) = some b
          ∧ b.key = e.path ∧ b.feature = feature
          ∧ b.values = Yaml.Mapping.ofPairs ((e :: rest).map pairOf) := ⟨_, rfl, rfl, rfl, rfl⟩
      have hpath := path_eq_of_isChain (h (e :: rest) List.mem_cons_self)
      obtain ⟨l, hl, hl', hfrom⟩ := entries_block b (List.cons_ne_nil _ _) (hkey ▸ hpath) hvalues
      refine ⟨l :: ls, ?_, ?_, ?_⟩
      · rw [List.filterMap_cons_some hb, mapM_eq_ok_iff]
        exact .cons hl (mapM_eq_ok_iff.1 hls)
      · funext p
        rw [List.flatten_cons, List.flatten_cons, List.map_append, content_append, content_append,
          hl', hcontent]
      · intro x hx
        rw [List.flatten_cons] at hx ⊢
        rcases List.mem_append.1 hx with hx | hx
        · obtain ⟨y, hy, rfl⟩ := hfrom x hx
          exact ⟨y, List.mem_append_left _ hy, b, hfeature, rfl⟩
        · obtain ⟨y, hy, hb⟩ := hcarried x hx
          exact ⟨y, List.mem_append_right _ hy, hb⟩

/-! ## A manifest of entries -/

/-- **What is carried is what an import writes**, and nothing else. -/
theorem exists_contents_ofEntries (feature : Option Text) (entries : List Entry) (root : FileTree)
    (base : Text) :
    ∃ c, (ofEntries feature entries).contents root base = .ok c
      ∧ content c.entries = content (entries.map Entry.carried)
      ∧ ∀ x ∈ c.entries, IsCarriedFrom feature entries x := by
  have hgroups : ∀ group ∈ entries.splitBy inOneBlock,
      group.IsChain fun a b => inOneBlock a b := fun _ h => List.isChain_of_mem_splitBy h
  obtain ⟨ls, hls, hcontent, hcarried⟩ := mapM_entries_blocks feature hgroups
  rw [List.flatten_splitBy] at hcontent hcarried
  have hregistry : (ofEntries feature entries).registry.mapM Block.entries = .ok ls := hls
  have hentries : (Export.Contents.concat [{ entries := ls.flatten }]).entries = ls.flatten :=
    List.append_nil _
  refine ⟨.concat [{ entries := ls.flatten }], ?_, ?_, ?_⟩
  · rw [contents, inlineEntries, hregistry]
    rfl
  · rw [hentries, hcontent]
  · rwa [hentries]

theorem content_ofEntries (feature : Option Text) (entries : List Entry) (root : FileTree)
    (base : Text) :
    ∃ c, (ofEntries feature entries).contents root base = .ok c
      ∧ content c.entries = content (entries.map Entry.carried) := by
  obtain ⟨c, hc, hcontent, _⟩ := exists_contents_ofEntries feature entries root base
  exact ⟨c, hc, hcontent⟩

/-- **An import keeps the content of the registry** exactly if every entry is portable. -/
theorem content_ofEntries_eq_iff (feature : Option Text) (entries : List Entry) (root : FileTree)
    (base : Text) :
    ∃ c, (ofEntries feature entries).contents root base = .ok c
      ∧ (content c.entries = content entries ↔ ∀ e ∈ entries, e.IsPortable) := by
  obtain ⟨c, hc, hcontent⟩ := content_ofEntries feature entries root base
  refine ⟨c, hc, ?_⟩
  rw [hcontent]
  exact content_carried_eq_iff

/-- An export of a key with a slash in its name, which has a default value and a value whose name is
an at sign. -/
def slashedExport : Text :=
  "Windows Registry Editor Version 5.00\n[HKEY_CURRENT_USER\\a/b]\n@=\"1\"\n\"@\"=\"2\"\n".toList

/-- Its import writes one value only, to another key. -/
theorem content_slashedExport_ne :
    ∃ c c', Export.Contents.ofText slashedExport = .ok c
      ∧ (ofEntries none c.entries).contents default [] = .ok c'
      ∧ content c.entries ⟨.currentUser, "a/b".toList, ['@']⟩ = some (some (.text ['2']))
      ∧ content c'.entries
        = content [{ key := "a\\b".toList, name := [], value := some (.text ['2']) }]
      ∧ content c'.entries ≠ content c.entries := by
  refine ⟨_, _, rfl, rfl, rfl, rfl, fun h => ?_⟩
  exact absurd (congrFun h ⟨.currentUser, "a/b".toList, ['@']⟩) (by decide)

end Manifest

end InstallerRegistry
