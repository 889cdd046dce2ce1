import InstallerRegistry.Proofs.Manifest.FirstFault
import InstallerRegistry.Proofs.Yaml.ReadBack

/-!
# Writing a manifest and reading it back

Each record of a manifest leaves out the fields that say nothing and reads a field that is left out
as its default. The two have to fit, field by field: what is left out is exactly the default
(`IsRecord`). Then a manifest is read from wherever its record stands (`Manifest.read_of_holds`),
be it the value that was written or the document that holds it.

Whether a manifest can be written at all depends on the values of its blocks alone
(`Manifest.isWritable_toYaml_iff`).
-/

namespace InstallerRegistry

open Yaml (Value Readable ReadM recordOf recordOf_append mem_recordOf_iff IsReadAs)
open Yaml.Readable (IsFaithful HoldsRecord required withDefault optionalText int32 records)

/-! ## Fields -/

/-- A text, unless it is empty. -/
def unlessEmpty (t : Text) : Option Value :=
  if t.isEmpty then none else some (.text t)

/-- A truth value, unless it is false. -/
def unlessFalse (b : Bool) : Option Value :=
  if b then some (.boolean b) else none

/-- A list of records, unless it is empty. -/
def listUnlessEmpty {α : Type} (toYaml : α → Value) (as : List α) : Option Value :=
  if as.isEmpty then none else some (.sequence (as.map toYaml))

theorem textField_eq (name : String) (t : Text) :
    textField name t = recordOf [(name, some (.text t))] :=
  rfl

theorem pair_eq (name : String) (v : Value) :
    [(Value.text name.toList, v)] = recordOf [(name, some v)] :=
  rfl

theorem filledField_eq (name : String) (t : Text) :
    filledField name t = recordOf [(name, unlessEmpty t)] := by
  unfold filledField unlessEmpty
  split <;> rfl

theorem optionField_eq (name : String) (o : Option Text) :
    optionField name o = recordOf [(name, o.map .text)] := by
  cases o <;> rfl

theorem flagField_eq (name : String) (b : Bool) :
    flagField name b = recordOf [(name, unlessFalse b)] := by
  cases b <;> rfl

theorem recordsField_eq {α : Type} (name : String) (toYaml : α → Value) (as : List α) :
    recordsField name toYaml as = recordOf [(name, listUnlessEmpty toYaml as)] := by
  unfold recordsField listUnlessEmpty
  split <;> rfl

section Reading

variable {σ : Type} [Readable σ] {holds : σ → Value → Prop} (hfaithful : IsFaithful holds)
  {places : List (Text × σ)} {fields : List (String × Option Value)}
  (h : HoldsRecord holds places fields) (name : String)

include hfaithful h

theorem required_text (t : Text) (hname : (name, some (.text t)) ∈ fields) :
    required Readable.text name places = pure t :=
  h.required_eq hname fun _ => hfaithful.text

theorem withDefault_text {default : Text} (t : Text) (hname : (name, some (.text t)) ∈ fields) :
    withDefault default Readable.text name places = pure t :=
  h.withDefault_eq hname nofun fun _ hw _ hp => hfaithful.text (Option.some.inj hw ▸ hp)

theorem withDefault_filled (t : Text) (hname : (name, unlessEmpty t) ∈ fields) :
    withDefault [] Readable.text name places = pure t := by
  refine h.withDefault_eq hname (fun ht => ?_) fun w hw p hp => ?_
  · unfold unlessEmpty at ht
    split at ht
    next hempty => exact (List.isEmpty_iff.1 hempty).symm
    next => exact absurd ht nofun
  · unfold unlessEmpty at hw
    split at hw
    · exact absurd hw nofun
    · exact hfaithful.text (Option.some.inj hw ▸ hp)

theorem withDefault_option (o : Option Text) (hname : (name, o.map .text) ∈ fields) :
    withDefault none optionalText name places = pure o := by
  cases o with
  | none => exact h.withDefault_eq hname (fun _ => rfl) nofun
  | some t =>
    exact h.withDefault_eq hname nofun fun _ hw _ hp =>
      hfaithful.optionalText (Option.some.inj hw ▸ hp)

theorem withDefault_flag (b : Bool) (hname : (name, unlessFalse b) ∈ fields) :
    withDefault false Readable.boolean name places = pure b := by
  cases b with
  | false => exact h.withDefault_eq hname (fun _ => rfl) nofun
  | true =>
    exact h.withDefault_eq hname nofun fun _ hw _ hp =>
      hfaithful.boolean (Option.some.inj hw ▸ hp)

theorem withDefault_int32 {default : Int32} (n : Int32)
    (hname : (name, some (.number (.integer n.toInt))) ∈ fields) :
    withDefault default int32 name places = pure n :=
  h.withDefault_eq hname nofun fun _ hw _ hp => hfaithful.int32 (Option.some.inj hw ▸ hp)

theorem withDefault_mapping {default : Yaml.Mapping} (m : Yaml.Mapping)
    (hname : (name, some (.mapping m)) ∈ fields) :
    withDefault default Readable.mapping name places = pure m :=
  h.withDefault_eq hname nofun fun _ hw _ hp => hfaithful.mapping (Option.some.inj hw ▸ hp)

end Reading

/-! ## Records -/

/-- **Is what is written as these fields read from them?** -/
structure IsRecord {σ α : Type} (holds : σ → Value → Prop)
    (read : List (Text × σ) → ReadM α) (toYaml : α → Value)
    (fields : α → List (String × Option Value)) : Prop where
  toYaml_eq : ∀ a, toYaml a = .mapping (recordOf (fields a))
  nodup : ∀ a, ((fields a).map Prod.fst).Nodup
  read_eq : ∀ a places, HoldsRecord holds places (fields a) → read places = pure a

/-- The fields of a feature. -/
def Feature.fields (f : Feature) : List (String × Option Value) :=
  [("id", some (.text f.id)), ("title", some (.text f.title)),
    ("description", unlessEmpty f.description), ("level", some (.number (.integer f.level.toInt)))]

/-- The fields of a block. -/
def Block.fields (b : Block) : List (String × Option Value) :=
  [("key", some (.text b.key)), ("feature", b.feature.map .text),
    ("condition", b.condition.map .text), ("win64", unlessFalse b.win64),
    ("values", some (.mapping b.values))]

/-- The fields of export files. -/
def ExportFiles.fields (e : ExportFiles) : List (String × Option Value) :=
  [("path", some (.text e.path)), ("feature", e.feature.map .text),
    ("condition", e.condition.map .text), ("win64", unlessFalse e.win64)]

/-- The fields of a property. -/
def Property.fields (p : Property) : List (String × Option Value) :=
  [("id", some (.text p.id)), ("key", some (.text p.key)), ("name", some (.text p.name)),
    ("value", p.value.map .text), ("win64", unlessFalse p.win64)]

/-- The fields of a launch condition. -/
def LaunchCondition.fields (c : LaunchCondition) : List (String × Option Value) :=
  [("condition", some (.text c.condition)), ("message", some (.text c.message))]

/-- The fields of a manifest. -/
def Manifest.fields (m : Manifest) : List (String × Option Value) :=
  [("fragment", some (.text m.fragment)), ("directory", some (.text m.directory)),
    ("features", listUnlessEmpty Feature.toYaml m.features),
    ("registry", listUnlessEmpty Block.toYaml m.registry),
    ("reg_files", listUnlessEmpty ExportFiles.toYaml m.exportFiles),
    ("properties", listUnlessEmpty Property.toYaml m.properties),
    ("launch_conditions", listUnlessEmpty LaunchCondition.toYaml m.launchConditions)]

section Records

variable {σ : Type} [Readable σ] {holds : σ → Value → Prop} (hfaithful : IsFaithful holds)

include hfaithful

theorem withDefault_list {α : Type} {read : List (Text × σ) → ReadM α} {toYaml : α → Value}
    {fields : α → List (String × Option Value)} (hrecord : IsRecord holds read toYaml fields)
    {places : List (Text × σ)} {others : List (String × Option Value)}
    (h : HoldsRecord holds places others) (name : String) (as : List α)
    (hname : (name, listUnlessEmpty toYaml as) ∈ others) :
    withDefault [] (records read) name places = pure as := by
  refine h.withDefault_eq hname (fun hnone => ?_) fun w hw p hp => ?_
  · unfold listUnlessEmpty at hnone
    split at hnone
    next hempty => exact (List.isEmpty_iff.1 hempty).symm
    next => exact absurd hnone nofun
  · unfold listUnlessEmpty at hw
    split at hw
    · exact absurd hw nofun
    · rw [← Option.some.inj hw, funext hrecord.toYaml_eq] at hp
      exact hfaithful.records hp hrecord.nodup hrecord.read_eq

theorem isRecord_feature : IsRecord holds Feature.read Feature.toYaml Feature.fields where
  toYaml_eq f := by
    rw [Feature.toYaml, filledField_eq, pair_eq]
    simp only [textField_eq, ← recordOf_append]
    rfl
  nodup f := by
    show ["id", "title", "description", "level"].Nodup
    decide
  read_eq f places h := by
    rw [Feature.read, required_text hfaithful h "id" f.id (by simp [Feature.fields]), pure_bind,
      withDefault_text hfaithful h "title" f.title (by simp [Feature.fields]), pure_bind,
      withDefault_filled hfaithful h "description" f.description (by simp [Feature.fields]),
      pure_bind, withDefault_int32 hfaithful h "level" f.level (by simp [Feature.fields]),
      pure_bind]

theorem isRecord_block : IsRecord holds Block.read Block.toYaml Block.fields where
  toYaml_eq b := by
    rw [Block.toYaml, flagField_eq, optionField_eq, optionField_eq, pair_eq]
    simp only [textField_eq, ← recordOf_append]
    rfl
  nodup b := by
    show ["key", "feature", "condition", "win64", "values"].Nodup
    decide
  read_eq b places h := by
    rw [Block.read, required_text hfaithful h "key" b.key (by simp [Block.fields]), pure_bind,
      withDefault_option hfaithful h "feature" b.feature (by simp [Block.fields]), pure_bind,
      withDefault_option hfaithful h "condition" b.condition (by simp [Block.fields]), pure_bind,
      withDefault_flag hfaithful h "win64" b.win64 (by simp [Block.fields]), pure_bind,
      withDefault_mapping hfaithful h "values" b.values (by simp [Block.fields]), pure_bind]

theorem isRecord_exportFiles :
    IsRecord holds ExportFiles.read ExportFiles.toYaml ExportFiles.fields where
  toYaml_eq e := by
    rw [ExportFiles.toYaml, flagField_eq, optionField_eq, optionField_eq]
    simp only [textField_eq, ← recordOf_append]
    rfl
  nodup e := by
    show ["path", "feature", "condition", "win64"].Nodup
    decide
  read_eq e places h := by
    rw [ExportFiles.read,
      required_text hfaithful h "path" e.path (by simp [ExportFiles.fields]), pure_bind,
      withDefault_option hfaithful h "feature" e.feature (by simp [ExportFiles.fields]), pure_bind,
      withDefault_option hfaithful h "condition" e.condition (by simp [ExportFiles.fields]),
      pure_bind, withDefault_flag hfaithful h "win64" e.win64 (by simp [ExportFiles.fields]),
      pure_bind]

theorem isRecord_property : IsRecord holds Property.read Property.toYaml Property.fields where
  toYaml_eq p := by
    rw [Property.toYaml, flagField_eq, optionField_eq]
    simp only [textField_eq, ← recordOf_append]
    rfl
  nodup p := by
    show ["id", "key", "name", "value", "win64"].Nodup
    decide
  read_eq p places h := by
    rw [Property.read, required_text hfaithful h "id" p.id (by simp [Property.fields]), pure_bind,
      required_text hfaithful h "key" p.key (by simp [Property.fields]), pure_bind,
      withDefault_text hfaithful h "name" p.name (by simp [Property.fields]), pure_bind,
      withDefault_option hfaithful h "value" p.value (by simp [Property.fields]), pure_bind,
      withDefault_flag hfaithful h "win64" p.win64 (by simp [Property.fields]), pure_bind]

theorem isRecord_launchCondition :
    IsRecord holds LaunchCondition.read LaunchCondition.toYaml LaunchCondition.fields where
  toYaml_eq c := rfl
  nodup c := by
    show ["condition", "message"].Nodup
    decide
  read_eq c places h := by
    rw [LaunchCondition.read,
      required_text hfaithful h "condition" c.condition (by simp [LaunchCondition.fields]),
      pure_bind, required_text hfaithful h "message" c.message (by simp [LaunchCondition.fields]),
      pure_bind]

omit hfaithful in
theorem Manifest.toYaml_eq (m : Manifest) : m.toYaml = .mapping (recordOf m.fields) := by
  rw [Manifest.toYaml]
  simp only [textField_eq, recordsField_eq, ← recordOf_append]
  rfl

omit hfaithful in
theorem Manifest.nodup_fields (m : Manifest) : (m.fields.map Prod.fst).Nodup := by
  show ["fragment", "directory", "features", "registry", "reg_files", "properties",
    "launch_conditions"].Nodup
  decide

/-- **A manifest is read back** from every place that holds its record. -/
theorem Manifest.read_of_holds {m : Manifest} {place : σ} (h : holds place m.toYaml) :
    Manifest.read place = pure m := by
  rw [Manifest.toYaml_eq] at h
  obtain ⟨places, hplaces, h⟩ := hfaithful.exists_holdsRecord h m.nodup_fields
  rw [Manifest.read, hplaces, pure_bind]
  dsimp only
  rw [withDefault_text hfaithful h "fragment" m.fragment (by simp [Manifest.fields]), pure_bind,
    withDefault_text hfaithful h "directory" m.directory (by simp [Manifest.fields]), pure_bind,
    withDefault_list hfaithful (isRecord_feature hfaithful) h "features" m.features
      (by simp [Manifest.fields]), pure_bind,
    withDefault_list hfaithful (isRecord_block hfaithful) h "registry" m.registry
      (by simp [Manifest.fields]), pure_bind,
    withDefault_list hfaithful (isRecord_exportFiles hfaithful) h "reg_files" m.exportFiles
      (by simp [Manifest.fields]), pure_bind,
    withDefault_list hfaithful (isRecord_property hfaithful) h "properties" m.properties
      (by simp [Manifest.fields]), pure_bind,
    withDefault_list hfaithful (isRecord_launchCondition hfaithful) h "launch_conditions"
      m.launchConditions (by simp [Manifest.fields]), pure_bind]

end Records

/-! ## What can be written -/

section Writing

open Yaml.Layout (isWritable allWritable allPairsWritable)

@[simp]
theorem isWritable_text (tagged : Bool) (t : Text) : isWritable tagged (.text t) = true :=
  rfl

@[simp]
theorem isWritable_number (tagged : Bool) (n : Yaml.Number) :
    isWritable tagged (.number n) = true :=
  rfl

@[simp]
theorem isWritable_boolean (tagged b : Bool) : isWritable tagged (.boolean b) = true :=
  rfl

theorem allWritable_iff {vs : List Value} :
    allWritable vs = true ↔ ∀ v ∈ vs, isWritable false v = true := by
  induction vs with
  | nil => simp [allWritable]
  | cons v vs ih => simp [allWritable, ih]

theorem allPairsWritable_iff {pairs : List (Value × Value)} :
    allPairsWritable pairs = true
      ↔ ∀ pair ∈ pairs, isWritable false pair.1 = true ∧ isWritable false pair.2 = true := by
  induction pairs with
  | nil => simp [allPairsWritable]
  | cons pair pairs ih => simp [allPairsWritable, ih]

/-- A mapping with texts as keys can be written if what is under them can. -/
theorem isWritable_mapping_iff {pairs : List (Value × Value)}
    (htexts : ∀ pair ∈ pairs, ∃ t, pair.1 = .text t) :
    isWritable false (.mapping pairs) = true ↔ ∀ pair ∈ pairs, isWritable false pair.2 = true := by
  rcases pairs with _ | ⟨⟨k, v⟩, _ | ⟨second, rest⟩⟩
  · simp [isWritable, allPairsWritable]
  · obtain ⟨t, rfl⟩ := htexts _ List.mem_cons_self
    simp [isWritable, Yaml.Layout.looksLikeTag]
  · rw [isWritable, allPairsWritable_iff]
    · refine ⟨fun h pair hpair => (h pair hpair).2, fun h pair hpair => ⟨?_, h pair hpair⟩⟩
      obtain ⟨t, ht⟩ := htexts pair hpair
      rw [ht, isWritable]
      all_goals exact nofun
    · exact nofun

/-- A record can be written if what its fields say can. -/
theorem isWritable_recordOf_iff {fields : List (String × Option Value)} :
    isWritable false (.mapping (recordOf fields)) = true
      ↔ ∀ field ∈ fields, ∀ v ∈ field.2, isWritable false v = true := by
  rw [isWritable_mapping_iff fun pair hpair => ?_]
  · constructor
    · rintro h ⟨name, v⟩ hfield w hw
      obtain rfl : v = some w := hw
      exact h (.text name.toList, w) (mem_recordOf_iff.2 ⟨name, hfield, rfl⟩)
    · rintro h pair hpair
      obtain ⟨name, hfield, _⟩ := mem_recordOf_iff.1 hpair
      exact h _ hfield pair.2 rfl
  · obtain ⟨name, _, hname⟩ := mem_recordOf_iff.1 hpair
    exact ⟨_, hname⟩

theorem isWritable_list_iff {α : Type} {toYaml : α → Value} {as : List α} :
    (∀ v ∈ listUnlessEmpty toYaml as, isWritable false v = true)
      ↔ ∀ a ∈ as, isWritable false (toYaml a) = true := by
  unfold listUnlessEmpty
  split
  next hempty =>
    rw [List.isEmpty_iff.1 hempty]
    exact iff_of_true nofun nofun
  next =>
    simp only [Option.mem_some_iff, forall_eq', isWritable, allWritable_iff, List.forall_mem_map]

open Yaml.Readable (isFaithful_eq)

theorem isWritable_feature (f : Feature) : isWritable false f.toYaml = true := by
  rw [(isRecord_feature isFaithful_eq).toYaml_eq, isWritable_recordOf_iff]
  simp [Feature.fields, unlessEmpty]

theorem isWritable_exportFiles (e : ExportFiles) : isWritable false e.toYaml = true := by
  rw [(isRecord_exportFiles isFaithful_eq).toYaml_eq, isWritable_recordOf_iff]
  simp [ExportFiles.fields, unlessFalse]

theorem isWritable_property (p : Property) : isWritable false p.toYaml = true := by
  rw [(isRecord_property isFaithful_eq).toYaml_eq, isWritable_recordOf_iff]
  simp [Property.fields, unlessFalse]

theorem isWritable_launchCondition (c : LaunchCondition) :
    isWritable false c.toYaml = true := by
  rw [(isRecord_launchCondition isFaithful_eq).toYaml_eq, isWritable_recordOf_iff]
  simp [LaunchCondition.fields]

theorem isWritable_block_iff (b : Block) :
    isWritable false b.toYaml = true ↔ isWritable false (.mapping b.values) = true := by
  rw [(isRecord_block isFaithful_eq).toYaml_eq, isWritable_recordOf_iff]
  simp [Block.fields, unlessFalse]

/-- **A manifest can be written** exactly if the values of its blocks can. -/
theorem Manifest.isWritable_toYaml_iff (m : Manifest) :
    isWritable false m.toYaml = true
      ↔ ∀ b ∈ m.registry, isWritable false (.mapping b.values) = true := by
  rw [Manifest.toYaml_eq, isWritable_recordOf_iff]
  simp only [Manifest.fields, List.forall_mem_cons, isWritable_list_iff, isWritable_feature,
    isWritable_exportFiles, isWritable_property, isWritable_launchCondition, isWritable_block_iff]
  simp

theorem Manifest.exists_toText_iff (m : Manifest) :
    (∃ t, m.toText = .ok t) ↔ ∀ b ∈ m.registry, isWritable false (.mapping b.values) = true := by
  rw [← m.isWritable_toYaml_iff, Manifest.toText, Yaml.Layout.document?]
  split
  next h => exact iff_of_true ⟨_, rfl⟩ h
  next h => exact iff_of_false (fun ⟨_, ht⟩ => absurd ht nofun) h

end Writing

/-! ## Reading back -/

namespace Manifest

theorem ofValue?_toYaml (m : Manifest) : ofValue? m.toYaml = some m := by
  rw [ofValue?, read_of_holds Yaml.Readable.isFaithful_eq rfl]
  rfl

theorem ofText?_of_isReadAs {m : Manifest} {t : Text} (h : IsReadAs t m.toYaml) :
    ofText? t = some m := by
  obtain ⟨d, root, hd, hroot, hholds⟩ := h.exists_root
  rw [ofText?, hd, Option.bind_eq_bind, Option.bind_some, hroot]
  dsimp only
  rw [read_of_holds Yaml.NodeAt.isFaithful_holds hholds]
  rfl

theorem ofText_of_isReadAs {m : Manifest} (hcheck : m.check = .ok ()) {t : Text}
    (h : IsReadAs t m.toYaml) : ofText t = .ok m := by
  rw [ofText, ofText?_of_isReadAs h]
  show m.checked = .ok m
  rw [checked, hcheck]
  rfl

theorem ofValue_toYaml {m : Manifest} (hcheck : m.check = .ok ()) :
    ofValue m.toYaml = .ok m := by
  rw [ofValue, ofValue?_toYaml]
  show m.checked = .ok m
  rw [checked, hcheck]
  rfl

/-- **A manifest survives being written.** What an accepted manifest is as a value is read as the
manifest again. It has a text exactly if the values of its blocks can be written, and that text is
read as the manifest if it is read as the value it was written for. The fields whose defaults could
not stand for what is left out are always written. -/
theorem ofText_toText {m : Manifest} (hcheck : m.check = .ok ()) :
    ofValue m.toYaml = .ok m
      ∧ ((∃ t, m.toText = .ok t)
        ↔ ∀ b ∈ m.registry, Yaml.Layout.isWritable false (.mapping b.values) = true)
      ∧ (∀ t, m.toText = .ok t → IsReadAs t m.toYaml → ofText t = .ok m)
      ∧ m.toYaml.at? "fragment" = some (.text m.fragment)
      ∧ m.toYaml.at? "directory" = some (.text m.directory)
      ∧ ∀ f ∈ m.features, f.toYaml.at? "level" = some (.number (.integer f.level.toInt)) := by
  refine ⟨ofValue_toYaml hcheck, m.exists_toText_iff, fun t _ h => ofText_of_isReadAs hcheck h,
    ?_, ?_, fun f _ => ?_⟩
  · rw [toYaml_eq]
    exact Yaml.at?_recordOf m.nodup_fields (by simp [fields])
  · rw [toYaml_eq]
    exact Yaml.at?_recordOf m.nodup_fields (by simp [fields])
  · have hrecord := isRecord_feature Yaml.Readable.isFaithful_eq
    rw [hrecord.toYaml_eq]
    exact Yaml.at?_recordOf (hrecord.nodup f) (by simp [Feature.fields])

/-- A manifest with texts that look like something else, and with fields at the edge of what is left
out. -/
def ambiguousManifest : Manifest :=
  { fragment := ['~']
    features := [{ id := ['A'], title := "null".toList, level := 0 },
      { id := ['B'], description := "1\n2".toList, level := -1 }]
    registry := [
      { key := "HKLM/a".toList, feature := some ['B'], condition := some []
        values := [(.text ['@'], .text "0x1".toList),
          (.number (.integer 3), .sequence [.boolean true, .null, .tagged ⟨['t']⟩ (.text [])]),
          (.text [], .mapping [(.text "binary".toList, .text "00".toList)])] },
      { key := "HKCU".toList, win64 := true }]
    exportFiles := [{ path := "*.reg".toList, feature := some ['A'] }]
    properties := [{ id := ['P'], key := "HKCU".toList, value := some ['~'] }]
    launchConditions := [{ condition := "P = \"'\"".toList, message := "no: #".toList }] }

theorem ofText_toText_ambiguousManifest :
    ambiguousManifest.check = .ok ()
      ∧ ∃ t, ambiguousManifest.toText = .ok t ∧ IsReadAs t ambiguousManifest.toYaml
        ∧ ofText t = .ok ambiguousManifest := by
  have hread : ∃ t ∈ Yaml.Layout.document? ambiguousManifest.toYaml,
      IsReadAs t ambiguousManifest.toYaml := by decide +kernel
  obtain ⟨t, hwritten, hread⟩ := hread
  have htext : ambiguousManifest.toText = .ok t := by
    rw [toText, hwritten]
    rfl
  exact ⟨rfl, t, htext, hread, (ofText_toText rfl).2.2.1 t htext hread⟩

/-- A manifest whose only value has a tag on its name. -/
def taggedNameManifest : Manifest :=
  { registry := [{ key := "HKLM/S".toList
                   values := [(.tagged ⟨['t']⟩ (.text ['x']), .number (.integer 1))] }] }

/-- A text of it. -/
def taggedNameText : Text :=
  "fragment: RegistryComponents\ndirectory: INSTALLFOLDER\n".toList
    ++ "registry:\n- key: HKLM/S\n  values:\n    !t x: 1\n".toList

/-- It is accepted, and even read from a text, but it cannot be written. -/
theorem not_ofText_toText_taggedNameManifest :
    taggedNameManifest.check = .ok () ∧ ofText taggedNameText = .ok taggedNameManifest
      ∧ taggedNameManifest.toText = .error .yaml
      ∧ ¬ ∃ t, taggedNameManifest.toText = .ok t ∧ ofText t = .ok taggedNameManifest := by
  have htext : taggedNameManifest.toText = .error .yaml := rfl
  refine ⟨rfl, ofText_of_isReadAs rfl (by decide +kernel), htext, ?_⟩
  rintro ⟨t, ht, _⟩
  exact absurd (htext.symm.trans ht) nofun

end Manifest

end InstallerRegistry
