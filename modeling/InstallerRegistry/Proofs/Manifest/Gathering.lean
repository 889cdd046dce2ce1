import InstallerRegistry.Proofs.Export.Sections
import InstallerRegistry.Proofs.Manifest.Contents
import InstallerRegistry.Proofs.Manifest.Relocation

/-!
# What a manifest gathers

A manifest gathers entries from its blocks and from its export files. Where a block has a pair, the
manifest has an entry under the key of the block, installed as the block is, unless the pair says
something else about it (`Block.Gives`); where a file that an export pattern matches has an entry,
the manifest has the same one, installed as the pattern says (`ExportFiles.Places`). Nothing is
lost, and all of it is in the order of the manifest, the files of a pattern being in the order of
their paths (`Manifest.Gathers`).

Each piece that an entry comes from can fail, and then so does the manifest: with the error of the
first piece that does (`Manifest.contents_outcome`).
-/

namespace InstallerRegistry

open Yaml (Value Mapping)

/-! ## Values and their settings -/

namespace Detailed

/-- The field that holds the value itself. -/
def valueField : Value := .text "value".toList

/-- The text that fields give under a name. Tags do not count, so several may have the name; then it
is what the last of them says. -/
def setting? (name : String) (fields : List (Value × Value)) : Option Text :=
  (fields.filterMap fun field =>
    if field.1.untagged.text? = some name.toList then field.2.untagged.text? else none).getLast?

/-- May the field be there? It holds the value itself, or gives an identifier or a condition. -/
def IsField (field : Value × Value) : Prop :=
  field.1.untagged.text? = some "value".toList
    ∨ (field.1.untagged.text? = some "id".toList
      ∨ field.1.untagged.text? = some "condition".toList) ∧ field.2.untagged.text? ≠ none

/-- Is the value not a mapping with a field for the value itself? -/
def IsPlain (v : Value) : Prop :=
  ∀ fields, v = .mapping fields → Mapping.find? fields valueField = none

/-- **What a value says**: a mapping with a field `value` is this value with the identifier and the
condition that the other fields give; anything else is the value itself. -/
inductive Says : Value → Detailed → Prop
  | plain {v} : IsPlain v → Says v { value := v }
  | detailed {fields inner} : Mapping.find? fields valueField = some inner →
      (∀ field ∈ fields, IsField field) →
      Says (.mapping fields)
        { value := inner, id := setting? "id" fields, condition := setting? "condition" fields }

theorem setting?_cons (name : String) (field : Value × Value) (fields : List (Value × Value)) :
    setting? name (field :: fields) = (setting? name fields).or (setting? name [field]) := by
  rw [setting?, ← List.singleton_append, List.filterMap_append, List.getLast?_append]
  rfl

theorem setting?_singleton (name : String) (field : Value × Value) :
    setting? name [field] = if field.1.untagged.text? = some name.toList
      then field.2.untagged.text? else none := by
  unfold setting?
  rw [List.filterMap_cons]
  split
  next h => rw [h]; rfl
  next h => rw [h]; rfl

/-- A field changes the setting that it is about. -/
theorem addField_of_isField {field : Value × Value} (h : IsField field) (d : Detailed) :
    d.addField field = .ok
      { d with id := (setting? "id" [field]).or d.id
               condition := (setting? "condition" [field]).or d.condition } := by
  rw [setting?_singleton, setting?_singleton, addField]
  rcases h with hname | ⟨hname | hname, htext⟩
  · rw [hname]
    cases field.2.untagged.text? <;> rfl
  · obtain ⟨t, ht⟩ := Option.ne_none_iff_exists'.1 htext
    rw [hname, ht]
    rfl
  · obtain ⟨t, ht⟩ := Option.ne_none_iff_exists'.1 htext
    rw [hname, ht]
    rfl

theorem addField_of_not_isField {field : Value × Value} (h : ¬ IsField field) (d : Detailed) :
    d.addField field = .error (.configuration (.valueField field.1)) := by
  unfold IsField at h
  rw [addField]
  cases hname : field.1.untagged.text? with
  | none => rfl
  | some name =>
    rw [hname] at h
    simp only [Option.some_inj, ne_eq] at h
    cases htext : field.2.untagged.text? with
    | none => exact if_neg fun heq => h (.inl heq)
    | some t =>
      rw [htext] at h
      show (if _ then _ else if _ then _ else if _ then _ else _) = _
      rw [if_neg fun heq => h (.inl heq), if_neg fun heq => h (.inr ⟨.inl heq, nofun⟩),
        if_neg fun heq => h (.inr ⟨.inr heq, nofun⟩)]

/-- Fields that may be there change the settings that they are about. -/
theorem foldlM_addField {fields : List (Value × Value)} (h : ∀ field ∈ fields, IsField field)
    (d : Detailed) :
    fields.foldlM addField d = .ok
      { d with id := (setting? "id" fields).or d.id
               condition := (setting? "condition" fields).or d.condition } := by
  induction fields generalizing d with
  | nil => rfl
  | cons field fields ih =>
    obtain ⟨hfield, hfields⟩ := List.forall_mem_cons.1 h
    rw [List.foldlM_cons, addField_of_isField hfield]
    refine (ih hfields _).trans ?_
    rw [setting?_cons "id" field fields, setting?_cons "condition" field fields, Option.or_assoc,
      Option.or_assoc]

/-- Is this the error of a field that may not be there? -/
def IsFieldError (fields : List (Value × Value)) (i : ℕ) (e : RegistryError) : Prop :=
  ∃ field, fields[i]? = some field ∧ ¬ IsField field ∧ e = .configuration (.valueField field.1)

theorem exists_firstError_isFieldError {fields : List (Value × Value)}
    (h : ¬ ∀ field ∈ fields, IsField field) : ∃ e, FirstError (IsFieldError fields) e := by
  rw [exists_firstError_iff]
  simp only [not_forall] at h
  obtain ⟨field, hfield, hnot⟩ := h
  obtain ⟨i, hi⟩ := List.mem_iff_getElem?.1 hfield
  exact ⟨i, _, field, hi, hnot, rfl⟩

/-- Of the fields that may not be there, the first one is reported. -/
theorem foldlM_addField_eq_error_iff {fields : List (Value × Value)} {d : Detailed}
    {e : RegistryError} :
    fields.foldlM addField d = .error e ↔ FirstError (IsFieldError fields) e := by
  induction fields generalizing d with
  | nil => exact ⟨nofun, fun ⟨_, ⟨_, h, _⟩, _⟩ => absurd h nofun⟩
  | cons field fields ih =>
    have hfirst : ∀ e', d.addField field = .error e' ↔ IsFieldError (field :: fields) 0 e' := by
      intro e'
      simp only [IsFieldError, List.getElem?_cons_zero, Option.some_inj, exists_eq_left']
      by_cases hfield : IsField field
      · rw [addField_of_isField hfield]
        exact ⟨nofun, fun h => absurd hfield h.1⟩
      · rw [addField_of_not_isField hfield, Except.error.injEq]
        exact ⟨fun h => ⟨hfield, h.symm⟩, fun h => h.2.symm⟩
    rw [List.foldlM_cons]
    exact bind_eq_error_iff_firstError hfirst fun _ _ => ih

theorem ofYaml_of_isPlain {v : Value} (h : IsPlain v) : ofYaml v = .ok { value := v } := by
  cases v with
  | mapping fields =>
    have hfind : Mapping.find? fields (.text "value".toList) = none := h fields rfl
    simp only [ofYaml, hfind]
  | _ => rfl

theorem ofYaml_mapping {fields : List (Value × Value)} {inner : Value}
    (h : Mapping.find? fields valueField = some inner) :
    ofYaml (.mapping fields) = fields.foldlM addField { value := inner } := by
  have hfind : Mapping.find? fields (.text "value".toList) = some inner := h
  simp only [ofYaml, hfind]

theorem isPlain_or (v : Value) :
    IsPlain v
      ∨ ∃ fields inner, v = .mapping fields ∧ Mapping.find? fields valueField = some inner := by
  by_cases h : IsPlain v
  · exact .inl h
  · simp only [IsPlain, not_forall] at h
    obtain ⟨fields, hv, hfind⟩ := h
    obtain ⟨inner, hinner⟩ := Option.ne_none_iff_exists'.1 hfind
    exact .inr ⟨fields, inner, hv, hinner⟩

theorem ofYaml_mapping_singleton (v : Value) :
    ofYaml (.mapping [(valueField, v)]) = .ok { value := v } := by
  have hname : (valueField, v).1.untagged.text? = some "value".toList := by
    simp [valueField, Value.untagged, Value.text?]
  have hfind : Mapping.find? [(valueField, v)] valueField = some v := by
    simp [Mapping.find?, valueField, Value.same]
  have hfields : ∀ field ∈ [(valueField, v)], IsField field :=
    List.forall_mem_singleton.2 (.inl hname)
  have hnone : ∀ name : String, "value".toList ≠ name.toList →
      setting? name [(valueField, v)] = none := fun name h => by
    rw [setting?_singleton, hname, if_neg (mt Option.some.inj h)]
  rw [ofYaml_mapping hfind, foldlM_addField hfields, hnone "id" (by decide),
    hnone "condition" (by decide)]
  rfl

/-- **Values are read** as what they say. -/
theorem ofYaml_eq_ok_iff {v : Value} {d : Detailed} : ofYaml v = .ok d ↔ Says v d := by
  constructor
  · intro h
    obtain hplain | ⟨fields, inner, rfl, hinner⟩ := isPlain_or v
    · rw [ofYaml_of_isPlain hplain] at h
      cases h
      exact .plain hplain
    · rw [ofYaml_mapping hinner] at h
      have hfields : ∀ field ∈ fields, IsField field := by
        by_contra hnot
        obtain ⟨e, he⟩ := exists_firstError_isFieldError hnot
        exact absurd (h.symm.trans (foldlM_addField_eq_error_iff.2 he)) nofun
      rw [foldlM_addField hfields] at h
      cases h
      rw [Option.or_none, Option.or_none]
      exact .detailed hinner hfields
  · rintro (hplain | ⟨hinner, hfields⟩)
    · exact ofYaml_of_isPlain hplain
    · rw [ofYaml_mapping hinner, foldlM_addField hfields, Option.or_none, Option.or_none]

/-- **A value cannot be read** exactly if it holds a value beside a field that may not be there. -/
theorem ofYaml_eq_error_iff {v : Value} {e : RegistryError} :
    ofYaml v = .error e
      ↔ ∃ fields, v = .mapping fields ∧ Mapping.find? fields valueField ≠ none
        ∧ FirstError (IsFieldError fields) e := by
  obtain hplain | ⟨fields, inner, rfl, hinner⟩ := isPlain_or v
  · rw [ofYaml_of_isPlain hplain]
    exact ⟨nofun, fun ⟨fields, hv, hfind, _⟩ => absurd (hplain fields hv) hfind⟩
  · rw [ofYaml_mapping hinner, foldlM_addField_eq_error_iff]
    constructor
    · exact fun h => ⟨fields, rfl, by rw [hinner]; exact nofun, h⟩
    · rintro ⟨_, ⟨⟩, _, h⟩
      exact h

end Detailed

/-! ## Blocks -/

namespace Block

/-- **The entry that a pair of a block gives.** It is under the key that the block leads to, it is
installed as the block is, and it has an identifier or a condition of its own exactly if the pair
says so. -/
structure Gives (b : Block) (hive : Hive) (key : Text) (pair : Value × Value) (e : Entry) :
    Prop where
  hive : e.hive = hive
  key : e.key = key
  name : valueNameOf pair.1 = .ok e.name
  said : ∃ d, Detailed.Says pair.2 d ∧ RegistryValue.ofYaml d.value = .ok e.value
    ∧ e.id = d.id ∧ e.condition = d.condition.or b.condition
  feature : e.feature = b.feature
  win64 : e.win64 = b.win64

/-- What is wrong with a pair that gives no entry: its name, or else the fields beside its value, or
else the value. -/
inductive IsPairError (pair : Value × Value) : RegistryError → Prop
  | name {e} : valueNameOf pair.1 = .error e → IsPairError pair e
  | field {name fields e} : valueNameOf pair.1 = .ok name → pair.2 = .mapping fields →
      Mapping.find? fields Detailed.valueField ≠ none →
      FirstError (Detailed.IsFieldError fields) e → IsPairError pair e
  | value {name d e} : valueNameOf pair.1 = .ok name → Detailed.Says pair.2 d →
      RegistryValue.ofYaml d.value = .error e → IsPairError pair e

variable {b : Block} {hive : Hive} {key : Text} {pair : Value × Value}

theorem entry_eq_ok_iff {e : Entry} : b.entry hive key pair = .ok e ↔ b.Gives hive key pair e := by
  rw [entry, bind_eq_ok_iff]
  simp only [bind_eq_ok_iff]
  constructor
  · rintro ⟨name, hname, d, hd, value, hvalue, ⟨⟩⟩
    exact ⟨rfl, rfl, hname, ⟨d, Detailed.ofYaml_eq_ok_iff.1 hd, hvalue, rfl, by simp⟩, rfl, rfl⟩
  · rcases e with ⟨id, hive', key', name, value, feature, condition, win64⟩
    rintro ⟨rfl, rfl, hname, ⟨d, hd, hvalue, rfl, rfl⟩, rfl, rfl⟩
    exact ⟨name, hname, d, Detailed.ofYaml_eq_ok_iff.2 hd, value, hvalue, by simp; rfl⟩

theorem entry_eq_error_iff {e : RegistryError} :
    b.entry hive key pair = .error e ↔ IsPairError pair e := by
  rw [entry, bind_eq_error_iff]
  simp only [bind_eq_error_iff]
  constructor
  · rintro (hname | ⟨name, hname, hfields | ⟨d, hd, hvalue | ⟨_, _, ⟨⟩⟩⟩⟩)
    · exact .name hname
    · obtain ⟨fields, hpair, hfind, he⟩ := Detailed.ofYaml_eq_error_iff.1 hfields
      exact .field hname hpair hfind he
    · exact .value hname (Detailed.ofYaml_eq_ok_iff.1 hd) hvalue
  · rintro (hname | ⟨hname, hpair, hfind, he⟩ | ⟨hname, hd, hvalue⟩)
    · exact .inl hname
    · exact .inr ⟨_, hname, .inl (Detailed.ofYaml_eq_error_iff.2 ⟨_, hpair, hfind, he⟩)⟩
    · exact .inr ⟨_, hname, .inr ⟨_, Detailed.ofYaml_eq_ok_iff.2 hd, .inl hvalue⟩⟩

/-- **The entries of a block**: the one that each of its pairs gives, in the order of the pairs. -/
def Gathers (b : Block) (entries : List Entry) : Prop :=
  ∃ hive key, RegistryPath.parse b.key = .ok (hive, key)
    ∧ List.Forall₂ (b.Gives hive key) b.values entries

theorem entries_eq_ok_iff {entries : List Entry} : b.entries = .ok entries ↔ b.Gathers entries := by
  rw [Block.entries, bind_eq_ok_iff]
  constructor
  · rintro ⟨⟨hive, key⟩, hparse, hvalues⟩
    exact ⟨hive, key, hparse, (mapM_eq_ok_iff.1 hvalues).imp fun _ _ => entry_eq_ok_iff.1⟩
  · rintro ⟨hive, key, hparse, hvalues⟩
    exact ⟨(hive, key), hparse, mapM_eq_ok_iff.2 (hvalues.imp fun _ _ => entry_eq_ok_iff.2)⟩

/-- What fails of a block, by its place: the path of the key, and behind it the pairs. -/
inductive Fails (b : Block) : ℕ → RegistryError → Prop
  | key {e} : RegistryPath.parse b.key = .error e → Fails b 0 e
  | pair {i pair e} : b.values[i]? = some pair → IsPairError pair e → Fails b (i + 1) e

theorem entries_eq_error_iff {e : RegistryError} :
    b.entries = .error e ↔ FirstError b.Fails e := by
  have hkey : ∀ e', RegistryPath.parse b.key = .error e' ↔ b.Fails 0 e' :=
    fun e' => ⟨.key, fun | .key h => h⟩
  have hpair : ∀ i e', (∃ pair, b.values[i]? = some pair ∧ IsPairError pair e')
      ↔ b.Fails (i + 1) e' :=
    fun i e' => ⟨fun ⟨_, h, h'⟩ => .pair h h', fun | .pair h h' => ⟨_, h, h'⟩⟩
  have hbehind : ∀ place, RegistryPath.parse b.key = .ok place →
      (b.values.mapM (b.entry place.1 place.2) = .error e
        ↔ FirstError (fun i => b.Fails (i + 1)) e) := by
    intro place _
    rw [mapM_eq_error_iff]
    simp only [entry_eq_error_iff]
    exact firstError_congr hpair
  exact bind_eq_error_iff_firstError hkey hbehind

/-- **A value in a mapping of its own**, without an identifier and a condition, gives the entry that
the value itself gives. -/
theorem entry_mapping_singleton (b : Block) (hive : Hive) (key : Text) (name : Value) {v : Value}
    (hv : Detailed.IsPlain v) :
    b.entry hive key (name, .mapping [(Detailed.valueField, v)]) = b.entry hive key (name, v) := by
  have hread : Detailed.ofYaml (.mapping [(Detailed.valueField, v)]) = Detailed.ofYaml v := by
    rw [Detailed.ofYaml_of_isPlain hv, Detailed.ofYaml_mapping_singleton]
  rw [entry, hread]
  rfl

end Block

/-! ## Export files -/

namespace Export

theorem Contents.entries_concat (parts : List Contents) :
    (concat parts).entries = (parts.map Contents.entries).flatten := by
  induction parts with
  | nil => rfl
  | cons c parts ih =>
    rw [List.map_cons, List.flatten_cons, ← ih]
    rfl

/-- **No entry of an export has an identifier.** -/
theorem id_eq_none_of_mem_ofFile {root : FileTree} {path : Text} {c : Contents}
    (h : Contents.ofFile root path = .ok c) : ∀ e ∈ c.entries, e.id = none := by
  unfold Contents.ofFile at h
  split at h
  next => exact absurd h nofun
  next bytes _ =>
    obtain ⟨t, _, hc⟩ := bind_eq_ok_iff.1 h
    intro e he
    obtain ⟨v, hv⟩ := Contents.exists_eq_of_mem_ofText hc e he
    rw [hv]

end Export

namespace ExportFiles

/-- **An entry of an export as a manifest has it**: installed as the export files are, and otherwise
untouched. -/
structure Places (f : ExportFiles) (exported e : Entry) : Prop where
  hive : e.hive = exported.hive
  key : e.key = exported.key
  name : e.name = exported.name
  value : e.value = exported.value
  id : e.id = none ∧ exported.id = none
  feature : e.feature = f.feature
  condition : e.condition = f.condition
  win64 : e.win64 = f.win64

/-- **The entries of export files**: those of each file that the pattern matches, in the order of
their paths. There is at least one file. -/
def Gathers (root : FileTree) (base : Text) (f : ExportFiles) (entries : List Entry) : Prop :=
  ∃ paths parts, Pattern.expand root (Pattern.joinPath base f.path) = .ok paths ∧ paths ≠ []
    ∧ (paths.Pairwise fun p q => Pattern.pathOrder p ≤ Pattern.pathOrder q)
    ∧ List.Forall₂ (fun path part => ∃ c, Export.Contents.ofFile root path = .ok c
      ∧ List.Forall₂ f.Places c.entries part) paths parts
    ∧ entries = parts.flatten

variable {root : FileTree} {base : Text} {f : ExportFiles}

theorem gathers_of_contents {c : Export.Contents} (h : f.contents root base = .ok c) :
    f.Gathers root base c.entries := by
  obtain ⟨paths, files, hexpand, hne, hfiles, rfl⟩ := contents_eq_ok_iff.1 h
  refine ⟨paths, files.map fun c => c.entries.map f.place, hexpand, hne,
    Pattern.pairwise_expand hexpand, ?_, ?_⟩
  · rw [List.forall₂_map_right_iff]
    refine (mapM_eq_ok_iff.1 hfiles).imp fun path c hc => ⟨c, hc, ?_⟩
    rw [List.forall₂_map_right_iff, List.forall₂_same]
    intro e he
    have hid := Export.id_eq_none_of_mem_ofFile hc e he
    exact ⟨rfl, rfl, rfl, rfl, ⟨hid, hid⟩, rfl, rfl, rfl⟩
  · show (Export.Contents.concat files).entries.map f.place = _
    rw [Export.Contents.entries_concat, List.map_flatten, List.map_map]
    rfl

/-- What fails of export files, by its place: the pattern, and behind it the files. -/
inductive Fails (root : FileTree) (base : Text) (f : ExportFiles) : ℕ → RegistryError → Prop
  | pattern {e} : Pattern.expand root (Pattern.joinPath base f.path) = .error e →
      Fails root base f 0 (.pattern e)
  | noMatch : Pattern.expand root (Pattern.joinPath base f.path) = .ok [] →
      Fails root base f 0 (.configuration (.noMatch (Pattern.joinPath base f.path)))
  | file {paths i path e} : Pattern.expand root (Pattern.joinPath base f.path) = .ok paths →
      paths[i]? = some path → Export.Contents.ofFile root path = .error e →
      Fails root base f (i + 1) e

theorem paths_eq_error_iff {e : RegistryError} :
    f.paths root base = .error e ↔ Fails root base f 0 e := by
  rw [paths]
  constructor
  · intro h
    cases hexpand : Pattern.expand root (Pattern.joinPath base f.path) with
    | error error =>
      rw [hexpand] at h
      cases h
      exact .pattern hexpand
    | ok found =>
      rw [hexpand] at h
      cases found with
      | nil =>
        cases h
        exact .noMatch hexpand
      | cons path found => cases h
  · rintro (hexpand | hexpand) <;> rw [hexpand]

/-- **Export files cannot be read** where the pattern is none or matches nothing, or where the first
of the files that it matches cannot be read. -/
theorem contents_eq_error_iff {e : RegistryError} :
    f.contents root base = .error e ↔ FirstError (Fails root base f) e := by
  have hfiles : ∀ paths, f.paths root base = .ok paths → ∀ i e',
      (∃ path, paths[i]? = some path ∧ Export.Contents.ofFile root path = .error e')
        ↔ Fails root base f (i + 1) e' := by
    intro paths hpaths i e'
    obtain ⟨hexpand, _⟩ := paths_eq_ok_iff.1 hpaths
    constructor
    · exact fun ⟨path, hpath, he⟩ => .file hexpand hpath he
    · rintro (_ | _ | ⟨hexpand', hpath, he⟩)
      obtain rfl := Except.ok.inj (hexpand.symm.trans hexpand')
      exact ⟨_, hpath, he⟩
  have hbehind : ∀ paths, f.paths root base = .ok paths →
      ((do
        let files ← paths.mapM (Export.Contents.ofFile root)
        let all := Export.Contents.concat files
        return { all with entries := all.entries.map f.place } : Except _ Export.Contents)
          = .error e ↔ FirstError (fun i => Fails root base f (i + 1)) e) := by
    intro paths h
    rw [bind_pure_eq_error_iff, mapM_eq_error_iff]
    exact firstError_congr (hfiles paths h)
  exact bind_eq_error_iff_firstError (fun _ => paths_eq_error_iff) hbehind

end ExportFiles

/-! ## Manifests -/

namespace Manifest

/-- **What a manifest gathers**: the entries of its blocks, and then those of its export files, in
their order. -/
def Gathers (root : FileTree) (base : Text) (m : Manifest) (entries : List Entry) : Prop :=
  ∃ blocks files, List.Forall₂ Block.Gathers m.registry blocks
    ∧ List.Forall₂ (ExportFiles.Gathers root base) m.exportFiles files
    ∧ entries = blocks.flatten ++ files.flatten

/-- **What fails of a manifest**, by its place: a piece of one of the blocks (0), or of one of the
export files (1). -/
inductive Fails (root : FileTree) (base : Text) (m : Manifest) : ℕ → ℕ → ℕ → RegistryError → Prop
  | block {i b j e} : m.registry[i]? = some b → b.Fails j e → Fails root base m 0 i j e
  | exportFiles {i f j e} : m.exportFiles[i]? = some f → f.Fails root base j e →
      Fails root base m 1 i j e

variable {root : FileTree} {base : Text} {m : Manifest}

theorem gathers_of_contents {c : Export.Contents} (h : m.contents root base = .ok c) :
    m.Gathers root base c.entries := by
  obtain ⟨inline, hinline, h⟩ := bind_eq_ok_iff.1 h
  obtain ⟨exported, hexported, h⟩ := bind_eq_ok_iff.1 h
  obtain ⟨blocks, hblocks, hinline⟩ := bind_eq_ok_iff.1 hinline
  cases h
  cases hinline
  refine ⟨blocks, exported.map Export.Contents.entries, ?_, ?_, ?_⟩
  · exact (mapM_eq_ok_iff.1 hblocks).imp fun _ _ => Block.entries_eq_ok_iff.1
  · rw [List.forall₂_map_right_iff]
    exact (mapM_eq_ok_iff.1 hexported).imp fun _ _ => ExportFiles.gathers_of_contents
  · rw [Export.Contents.entries_concat]
    rfl

theorem inlineEntries_eq_error_iff (root : FileTree) (base : Text) {e : RegistryError} :
    m.inlineEntries = .error e ↔ FirstError (fun i => FirstError (m.Fails root base 0 i)) e := by
  have hblock : ∀ i j e', (∃ b, m.registry[i]? = some b ∧ b.Fails j e')
      ↔ m.Fails root base 0 i j e' :=
    fun i j e' => ⟨fun ⟨_, h, h'⟩ => .block h h', fun | .block h h' => ⟨_, h, h'⟩⟩
  rw [inlineEntries, bind_pure_eq_error_iff, mapM_eq_error_iff]
  simp only [Block.entries_eq_error_iff, ← firstError_exists_iff]
  exact firstError_congr fun i _ => firstError_congr (hblock i)

theorem mapM_exportFiles_eq_error_iff {e : RegistryError} :
    m.exportFiles.mapM (ExportFiles.contents root base) = .error e
      ↔ FirstError (fun i => FirstError (m.Fails root base 1 i)) e := by
  have hfiles : ∀ i j e', (∃ f, m.exportFiles[i]? = some f ∧ f.Fails root base j e')
      ↔ m.Fails root base 1 i j e' :=
    fun i j e' => ⟨fun ⟨_, h, h'⟩ => .exportFiles h h', fun | .exportFiles h h' => ⟨_, h, h'⟩⟩
  rw [mapM_eq_error_iff]
  simp only [ExportFiles.contents_eq_error_iff, ← firstError_exists_iff]
  exact firstError_congr fun i _ => firstError_congr (hfiles i)

theorem contents_eq_error_iff {e : RegistryError} :
    m.contents root base = .error e
      ↔ FirstError (fun kind => FirstError fun i => FirstError (m.Fails root base kind i)) e := by
  have hnone : ∀ kind e', ¬ FirstError (fun i => FirstError (m.Fails root base (kind + 2) i)) e' :=
    fun _ _ ⟨_, ⟨_, h, _⟩, _⟩ => nomatch h
  refine bind_eq_error_iff_firstError (fun _ => inlineEntries_eq_error_iff root base) ?_
  intro inline _
  rw [bind_pure_eq_error_iff, mapM_exportFiles_eq_error_iff]
  exact Iff.symm (firstError_iff_zero hnone)

/-- **What a manifest holds** is what it gathers from its blocks and its export files, or it fails
with the error of the first piece of them that does. For a value it makes no difference whether it
stands in a mapping of its own, unless it is one that could be taken for such a mapping. -/
theorem contents_outcome (root : FileTree) (base : Text) (m : Manifest) :
    (∀ c, m.contents root base = .ok c → m.Gathers root base c.entries)
      ∧ (∀ e, m.contents root base = .error e
        ↔ FirstError (fun kind => FirstError fun i => FirstError (m.Fails root base kind i)) e)
      ∧ ∀ (b : Block) hive key name v, Detailed.IsPlain v →
        b.entry hive key (name, .mapping [(Detailed.valueField, v)])
          = b.entry hive key (name, v) :=
  ⟨fun _ => gathers_of_contents, fun _ => contents_eq_error_iff,
    fun b hive key name _ => b.entry_mapping_singleton hive key name⟩

/-- Two exports, of which the one that stands behind comes first by its path. -/
def exportPair : FileTree :=
  .directory
    [("b.reg".toList, .file (Utf8.encode "REGEDIT4\n[HKLM\\k]\n\"b\"=\"2\"\n".toList)),
      ("a.reg".toList, .file (Utf8.encode "REGEDIT4\n[HKU]\n\"a\"=\"1\"\n".toList))]

/-- A block with a condition and two values, one of which has settings of its own. -/
def conditionalBlock : Block :=
  { key := "HKLM/x".toList, condition := some ['C'], win64 := true
    values :=
      [(.number (.integer 1), .text ['v']),
        (.text ['@'], .mapping [(.text "id".toList, .text ['i']), (Detailed.valueField, .null),
          (.text "condition".toList, .text ['D'])])] }

/-- A manifest of the block and the exports. -/
def blockAndExports : Manifest :=
  { registry := [conditionalBlock]
    exportFiles := [{ path := "?.reg".toList, feature := some ['F'] }] }

/-- The entries of the block. -/
def conditionalEntries : List Entry :=
  [{ hive := .localMachine, key := ['x'], name := ['1'], value := some (.text ['v'])
     condition := some ['C'], win64 := true },
    { id := some ['i'], hive := .localMachine, key := ['x'], name := []
      condition := some ['D'], win64 := true }]

/-- The entries of the exports. -/
def exportedEntries : List Entry :=
  [{ hive := .users, name := ['a'], value := some (.text ['1']), feature := some ['F'] },
    { hive := .localMachine, key := ['k'], name := ['b'], value := some (.text ['2'])
      feature := some ['F'] }]

theorem expand_exportPair :
    Pattern.expand exportPair "?.reg".toList = .ok ["a.reg".toList, "b.reg".toList] := by
  have hfound : Pattern.expand exportPair "?.reg".toList
      = .ok (["b.reg".toList, "a.reg".toList].mergeSort Pattern.pathLe) := by
    with_unfolding_all rfl
  have hsorted : ["b.reg".toList, "a.reg".toList].mergeSort Pattern.pathLe
      = ["a.reg".toList, "b.reg".toList] := by
    simp [List.mergeSort, List.merge]
    rfl
  rw [hfound, hsorted]

theorem contents_blockAndExports :
    ∃ c, blockAndExports.contents exportPair [] = .ok c
      ∧ c.entries = conditionalEntries ++ exportedEntries := by
  obtain ⟨files, hfiles, hentries⟩ : ∃ files,
      ["a.reg".toList, "b.reg".toList].mapM (Export.Contents.ofFile exportPair) = .ok files
        ∧ (Export.Contents.concat files).entries
          = exportedEntries.map fun e => { e with feature := none } := ⟨_, rfl, rfl⟩
  have hinline : blockAndExports.inlineEntries = .ok conditionalEntries := by
    with_unfolding_all rfl
  have hexported :
      blockAndExports.exportFiles.mapM (ExportFiles.contents exportPair []) = .ok [_] :=
    mapM_eq_ok_iff.2 (.cons (ExportFiles.contents_eq_ok_iff.2
      ⟨_, _, expand_exportPair, List.cons_ne_nil _ _, hfiles, rfl⟩) .nil)
  refine ⟨_, bind_eq_ok_iff.2 ⟨_, hinline, bind_eq_ok_iff.2 ⟨_, hexported, rfl⟩⟩, ?_⟩
  rw [Export.Contents.entries_concat, List.map_cons, List.map_singleton, hentries]
  rfl

theorem contents_outcome_blockAndExports :
    (∃ c, blockAndExports.contents exportPair [] = .ok c
        ∧ c.entries = conditionalEntries ++ exportedEntries
        ∧ blockAndExports.Gathers exportPair [] c.entries)
      ∧ Detailed.IsPlain (.text ['v'])
      ∧ conditionalBlock.entry .localMachine ['x']
          (.text ['n'], .mapping [(Detailed.valueField, .text ['v'])])
        = conditionalBlock.entry .localMachine ['x'] (.text ['n'], .text ['v']) := by
  obtain ⟨c, hc, hentries⟩ := contents_blockAndExports
  have hplain : Detailed.IsPlain (.text ['v']) := nofun
  obtain ⟨hgathers, _, hsame⟩ := contents_outcome exportPair [] blockAndExports
  exact ⟨⟨c, hc, hentries, hgathers c hc⟩, hplain, hsame _ _ _ _ _ hplain⟩

end Manifest

end InstallerRegistry
