import InstallerRegistry.Proofs.Lists
import InstallerRegistry.Yaml.Readable

/-!
# Sources that hold a value

A reader of records asks a source for texts, numbers, lists and fields, and does not know whether a
value answers or a node of a document. What it needs to know is that the source is **faithful**
(`Readable.IsFaithful`): a place that holds a value answers as this value does. Then a reader is
followed once for all sources.

A record is written as a mapping with a pair for each field that says something (`recordOf`). A
place that holds such a mapping gives each of these fields, and none that was left out
(`HoldsRecord.required_eq`, `HoldsRecord.withDefault_eq`).
-/

namespace InstallerRegistry.Yaml

/-- A traversal gives what its steps give. -/
theorem mapM_eq_pure {m : Type → Type} [Monad m] [LawfulMonad m] {α β : Type} {f : α → m β}
    {l : List α} {l' : List β} (h : List.Forall₂ (fun a b => f a = pure b) l l') :
    l.mapM f = pure l' := by
  induction h with
  | nil => rfl
  | cons hab _ ih => rw [List.mapM_cons, hab, pure_bind, ih, pure_bind]

namespace Readable

variable {σ : Type} [Readable σ]

/-- A relation between the places of a source and values, `holds`, is **faithful** if what a place
answers is what the value says. -/
structure IsFaithful (holds : σ → Value → Prop) : Prop where
  text : ∀ {p t}, holds p (.text t) → Readable.text p = pure t
  boolean : ∀ {p b}, holds p (.boolean b) → Readable.boolean p = pure b
  /-- A number that is too large for a signed integer of sixty-four bits need not be found. -/
  integer : ∀ {p n}, holds p (.number (.integer n)) → n < 0x8000000000000000 →
    Readable.integer p = pure n
  given : ∀ {p t}, holds p (.text t) → ∃ q, given? p = pure (some q) ∧ holds q (.text t)
  items : ∀ {p vs}, holds p (.sequence vs) →
    ∃ qs, Readable.items p = pure qs ∧ List.Forall₂ holds qs vs
  fields : ∀ {p pairs}, holds p (.mapping pairs) → (∀ pair ∈ pairs, ∃ t, pair.1 = .text t) →
    ∃ fs : List (Text × σ), Readable.fields p = pure fs
      ∧ List.Forall₂ (fun f pair => pair.1 = .text f.1 ∧ holds f.2 pair.2) fs pairs
  mapping : ∀ {p pairs}, holds p (.mapping pairs) → Readable.mapping p = pure pairs

/-- A value is a faithful source of itself. -/
theorem isFaithful_eq : IsFaithful (Eq (α := Value)) where
  text := by rintro _ t rfl; rfl
  boolean := by rintro _ b rfl; rfl
  integer := by rintro _ n rfl _; rfl
  given := by rintro _ t rfl; exact ⟨_, rfl, rfl⟩
  items := by
    rintro _ vs rfl
    exact ⟨vs, rfl, List.forall₂_same.2 fun _ _ => rfl⟩
  fields := by
    rintro _ pairs rfl htexts
    obtain ⟨fs, hfs⟩ := exists_forall₂ (l := pairs)
      (R := fun pair f => Value.field? pair = some f ∧ pair.1 = .text f.1 ∧ pair.2 = f.2)
      fun pair hpair => by
        obtain ⟨key, v⟩ := pair
        obtain ⟨t, rfl⟩ := htexts _ hpair
        exact ⟨(t, v), rfl, rfl, rfl⟩
    have hread : pairs.mapM Value.field? = some fs := mapM_eq_pure (hfs.imp fun _ _ h => h.1)
    refine ⟨fs, ?_, hfs.flip.imp fun _ _ h => ⟨h.2.1, h.2.2.symm⟩⟩
    show ((pairs.mapM Value.field? : Option _) : ReadM (List (Text × Value))) = pure fs
    rw [hread]
    rfl
  mapping := by rintro _ pairs rfl; rfl

end Readable

/-! ## Records -/

/-- The pairs of a record, which is given by the names of its fields and what they say. A field that
says nothing is left out. -/
def recordOf (fields : List (String × Option Value)) : Mapping :=
  fields.filterMap fun (name, v) => v.map (.text name.toList, ·)

theorem mem_recordOf_iff {fields : List (String × Option Value)} {pair : Value × Value} :
    pair ∈ recordOf fields ↔ ∃ name, (name, some pair.2) ∈ fields ∧ pair.1 = .text name.toList := by
  rw [recordOf, List.mem_filterMap]
  constructor
  · rintro ⟨⟨name, v⟩, hmem, h⟩
    obtain ⟨v, rfl, rfl⟩ := Option.map_eq_some_iff.1 h
    exact ⟨name, hmem, rfl⟩
  · obtain ⟨key, v⟩ := pair
    rintro ⟨name, hmem, rfl⟩
    exact ⟨_, hmem, rfl⟩

theorem recordOf_append (fields others : List (String × Option Value)) :
    recordOf (fields ++ others) = recordOf fields ++ recordOf others :=
  List.filterMap_append

theorem map_fst_recordOf_sublist (fields : List (String × Option Value)) :
    ((recordOf fields).map Prod.fst).Sublist
      ((fields.map Prod.fst).map fun name => Value.text name.toList) := by
  induction fields with
  | nil => exact .slnil
  | cons field fields ih =>
    obtain ⟨name, _ | v⟩ := field
    · exact ih.cons _
    · exact ih.cons_cons _

/-- A field says one thing only. -/
theorem eq_of_mem_fields {fields : List (String × Option Value)}
    (hnodup : (fields.map Prod.fst).Nodup) {name : String} {v w : Option Value}
    (hv : (name, v) ∈ fields) (hw : (name, w) ∈ fields) : v = w :=
  congrArg Prod.snd (List.inj_on_of_nodup_map hnodup hv hw rfl)

/-- What a mapping has under a name. -/
def Value.at? (name : String) : Value → Option Value
  | mapping pairs => Mapping.find? pairs (.text name.toList)
  | _ => none

/-- **A record says what its fields say**, and nothing where they say nothing. -/
theorem at?_recordOf {fields : List (String × Option Value)}
    (hnodup : (fields.map Prod.fst).Nodup) {name : String} {v : Option Value}
    (hname : (name, v) ∈ fields) : Value.at? name (.mapping (recordOf fields)) = v := by
  have hsame : ∀ t : Text, Value.same (.text name.toList) (.text t) = true ↔ name.toList = t :=
    fun t => by rw [Value.same, beq_iff_eq]
  rw [Value.at?, Mapping.find?]
  cases hfind : List.find? (fun pair => Value.same (.text name.toList) pair.1)
      (recordOf fields) with
  | none =>
    cases v with
    | none => rfl
    | some w =>
      have hmem : (.text name.toList, w) ∈ recordOf fields := mem_recordOf_iff.2 ⟨name, hname, rfl⟩
      exact absurd ((hsame _).2 rfl) (List.find?_eq_none.1 hfind _ hmem)
  | some pair =>
    obtain ⟨name', hmem, hkey⟩ := mem_recordOf_iff.1 (List.mem_of_find?_eq_some hfind)
    have hfound := List.find?_some hfind
    rw [hkey, hsame] at hfound
    obtain rfl := String.toList_injective hfound
    exact eq_of_mem_fields hnodup hmem hname

namespace Readable

variable {σ : Type}

/-- Are these places those of the fields of a record? Each field that says something has one that
holds it, and no two fields have one name. -/
structure HoldsRecord (holds : σ → Value → Prop) (places : List (Text × σ))
    (fields : List (String × Option Value)) : Prop where
  nodup : (fields.map Prod.fst).Nodup
  places : List.Forall₂ (fun f pair => pair.1 = .text f.1 ∧ holds f.2 pair.2) places
    (recordOf fields)

namespace HoldsRecord

variable {holds : σ → Value → Prop} {places : List (Text × σ)}
  {fields : List (String × Option Value)} {name : String}

/-- The names of the places are pairwise different. -/
theorem nodup_places (h : HoldsRecord holds places fields) : (places.map Prod.fst).Nodup := by
  have hkeys : (recordOf fields).map Prod.fst = (places.map Prod.fst).map Value.text := by
    rw [List.map_map]
    exact map_eq_map_of_forall₂ (h.places.imp fun _ _ hpair => hpair.1)
  have hnodup : ((fields.map Prod.fst).map fun name => Value.text name.toList).Nodup :=
    h.nodup.map fun _ _ hname => String.toList_injective (Value.text.inj hname)
  refine List.Nodup.of_map Value.text ?_
  rw [← hkeys]
  exact hnodup.sublist (map_fst_recordOf_sublist fields)

/-- A field that is left out is not found. -/
theorem field?_of_none (h : HoldsRecord holds places fields) (hname : (name, none) ∈ fields) :
    field? name places = pure none := by
  have hnone : places.filter (·.1 == name.toList) = [] := by
    rw [List.filter_eq_nil_iff]
    intro f hf hfname
    obtain ⟨pair, hpair, hkey, _⟩ := exists_right_of_forall₂ h.places hf
    obtain ⟨name', hmem, hname'⟩ := mem_recordOf_iff.1 hpair
    have hsame : name = name' := by
      rw [hkey, beq_iff_eq.1 hfname] at hname'
      exact String.toList_injective (Value.text.inj hname')
    subst hsame
    exact absurd (eq_of_mem_fields h.nodup hname hmem) (Option.some_ne_none _).symm
  rw [field?, hnone]

/-- A field that says something is found at a place that holds it. -/
theorem exists_field? (h : HoldsRecord holds places fields) {v : Value}
    (hname : (name, some v) ∈ fields) :
    ∃ p, field? name places = pure (some p) ∧ holds p v := by
  have hmem : (.text name.toList, v) ∈ recordOf fields := mem_recordOf_iff.2 ⟨name, hname, rfl⟩
  obtain ⟨f, hf, hkey, hholds⟩ := exists_left_of_forall₂ h.places hmem
  have hname' : name.toList = f.1 := Value.text.inj hkey
  have hfilter : places.filter (·.1 == name.toList) = [f] := by
    rw [hname', ← filter_key_eq_singleton h.nodup_places hf]
    exact List.filter_congr fun g _ => beq_eq_decide _ _
  refine ⟨f.2, ?_, hholds⟩
  rw [field?, hfilter]

/-- What a field that has to be given is read as. -/
theorem required_eq {α : Type} {read : σ → ReadM α} {a : α} (h : HoldsRecord holds places fields)
    {v : Value} (hname : (name, some v) ∈ fields) (hread : ∀ p, holds p v → read p = pure a) :
    required read name places = pure a := by
  obtain ⟨p, hp, hholds⟩ := h.exists_field? hname
  rw [required, hp, pure_bind]
  exact hread p hholds

/-- **What a field is read as**, if the default is right where the field is left out. -/
theorem withDefault_eq {α : Type} {default : α} {read : σ → ReadM α} {a : α}
    (h : HoldsRecord holds places fields) {v : Option Value} (hname : (name, v) ∈ fields)
    (hdefault : v = none → default = a) (hread : ∀ w ∈ v, ∀ p, holds p w → read p = pure a) :
    withDefault default read name places = pure a := by
  cases v with
  | none =>
    rw [withDefault, h.field?_of_none hname, pure_bind, hdefault rfl]
  | some w =>
    obtain ⟨p, hp, hholds⟩ := h.exists_field? hname
    rw [withDefault, hp, pure_bind]
    exact hread w rfl p hholds

end HoldsRecord

/-! ## What fields hold -/

variable [Readable σ] {holds : σ → Value → Prop} (hfaithful : IsFaithful holds)

include hfaithful

/-- A text is read as one that may also be missing. -/
theorem IsFaithful.optionalText {p : σ} {t : Text} (h : holds p (.text t)) :
    Readable.optionalText p = pure (some t) := by
  obtain ⟨q, hq, hholds⟩ := hfaithful.given h
  rw [Readable.optionalText, hq, pure_bind]
  dsimp only
  rw [hfaithful.text hholds, pure_bind]

/-- An integer of thirty-two bits is read as it is. -/
theorem IsFaithful.int32 {p : σ} {n : Int32} (h : holds p (.number (.integer n.toInt))) :
    Readable.int32 p = pure n := by
  have hlow := n.le_toInt
  have hhigh := n.toInt_lt
  have hread : Readable.integer p = pure n.toInt := hfaithful.integer h (by omega)
  rw [Readable.int32, hread, pure_bind, if_pos ⟨hlow, hhigh⟩, Int32.ofInt_toInt]

/-- A record is read from the places of its fields. -/
theorem IsFaithful.exists_holdsRecord {p : σ} {fields : List (String × Option Value)}
    (h : holds p (.mapping (recordOf fields))) (hnodup : (fields.map Prod.fst).Nodup) :
    ∃ places, Readable.fields p = pure places ∧ HoldsRecord holds places fields := by
  obtain ⟨places, hplaces, hholds⟩ := hfaithful.fields h fun pair hpair => by
    obtain ⟨name, _, hname⟩ := mem_recordOf_iff.1 hpair
    exact ⟨_, hname⟩
  exact ⟨places, hplaces, hnodup, hholds⟩

/-- A list of records is read record by record. -/
theorem IsFaithful.records {α : Type} {read : List (Text × σ) → ReadM α}
    {fields : α → List (String × Option Value)} {as : List α} {p : σ}
    (h : holds p (.sequence (as.map fun a => .mapping (recordOf (fields a)))))
    (hnodup : ∀ a, ((fields a).map Prod.fst).Nodup)
    (hread : ∀ a places, HoldsRecord holds places (fields a) → read places = pure a) :
    Readable.records read p = pure as := by
  obtain ⟨qs, hqs, hholds⟩ := hfaithful.items h
  rw [Readable.records, hqs, pure_bind]
  refine mapM_eq_pure ((List.forall₂_map_right_iff.1 hholds).imp fun q a hq => ?_)
  obtain ⟨places, hplaces, hrecord⟩ := hfaithful.exists_holdsRecord hq (hnodup a)
  rw [hplaces, pure_bind]
  exact hread a places hrecord

end Readable

end InstallerRegistry.Yaml
