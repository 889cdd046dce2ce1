import InstallerRegistry.Proofs.Component

/-!
# Which entries have components

Making components fails at the first entry that cannot be written or whose own identifier cannot be
used. What an entry brings cannot be used if it is no identifier or if it is taken, and it may be
taken in two ways: another entry has brought it (`Entry.HaveDistinctIds` says that none has), or it
has been derived for an entry before it (`Entry.NoneDerivedBefore`). Together with writing, these
are all the reasons there are (`Component.exists_list_iff`).

The second way depends on the order of the entries, the first one does not. Entries that bring
identifiers can always be moved to the front (`Entry.noneDerivedBefore_explicitFirst`), where
nothing has been derived yet.
-/

namespace InstallerRegistry

namespace Entry

/-- Can an installer write the entry? -/
structure IsWritable (e : Entry) : Prop where
  value : e.value ≠ none
  hive : e.hive ≠ .currentConfig

/-- Are the identifiers that entries bring valid, and no two of them the same? -/
structure HaveDistinctIds (entries : List Entry) : Prop where
  valid : ∀ e ∈ entries, ∀ id ∈ e.id, Identifier.isValid id
  nodup : (entries.filterMap Entry.id).Nodup

/-- The identifiers that are derived for the entries that bring none, those in `used` being taken
before the first. -/
def derivedIds (used : List Text) : List Entry → List Text
  | [] => []
  | e :: rest =>
    match e.id with
    | some id => derivedIds (id :: used) rest
    | none => e.idWith used :: derivedIds (e.idWith used :: used) rest

/-- Is no identifier that an entry brings derived for one before it? -/
def NoneDerivedBefore (entries : List Entry) : Prop :=
  ∀ before e, before ++ [e] <+: entries → ∀ id ∈ e.id, id ∉ derivedIds [] before

/-! ## One entry -/

theorem exists_setValue_iff {e : Entry} : (∃ v, e.setValue = .ok v) ↔ e.value ≠ none := by
  simp only [setValue_eq_ok_iff, Option.ne_none_iff_exists']

theorem exists_root_iff {e : Entry} : (∃ root, e.root = .ok root) ↔ e.hive ≠ .currentConfig := by
  simp only [root_eq_ok_iff]
  exact Hive.exists_installerRoot?_iff

end Entry

/-- **An entry has a component** if it can be written and its own identifier can be used. -/
theorem Component.exists_ofEntry_iff {used : List Text} {e : Entry} :
    (∃ c, ofEntry used e = .ok c)
      ↔ e.IsWritable ∧ ∀ id ∈ e.id, Identifier.isValid id ∧ id ∉ used := by
  constructor
  · rintro ⟨c, h⟩
    obtain ⟨v, hvalue, h⟩ := bind_eq_ok_iff.1 h
    obtain ⟨root, hroot, h⟩ := bind_eq_ok_iff.1 h
    obtain ⟨id, hid, _⟩ := bind_eq_ok_iff.1 h
    exact ⟨⟨Entry.exists_setValue_iff.1 ⟨v, hvalue⟩, Entry.exists_root_iff.1 ⟨root, hroot⟩⟩,
      (Entry.chooseId_eq_ok_iff.1 hid).1⟩
  · rintro ⟨⟨hvalue, hhive⟩, hid⟩
    obtain ⟨v, hvalue⟩ := Entry.exists_setValue_iff.2 hvalue
    obtain ⟨root, hroot⟩ := Entry.exists_root_iff.2 hhive
    have hid := Entry.chooseId_eq_ok_iff.2 ⟨hid, rfl⟩
    exact ⟨_, bind_eq_ok_iff.2 ⟨v, hvalue, bind_eq_ok_iff.2 ⟨root, hroot,
      bind_eq_ok_iff.2 ⟨_, hid, rfl⟩⟩⟩⟩

/-! ## All of them -/

namespace Component

theorem exists_listFrom_cons_iff {used : List Text} {e : Entry} {rest : List Entry} :
    (∃ cs, listFrom used (e :: rest) = .ok cs)
      ↔ (∃ c, ofEntry used e = .ok c) ∧ ∃ cs, listFrom (e.idWith used :: used) rest = .ok cs := by
  have hid : ∀ c, ofEntry used e = .ok c → c.id = e.idWith used :=
    fun c hc => (Entry.chooseId_eq_ok_iff.1 (ofEntry_ok hc).2.2).2
  constructor
  · rintro ⟨cs, h⟩
    obtain ⟨c, cs', hc, hcs', _⟩ := listFrom_cons h
    exact ⟨⟨c, hc⟩, ⟨cs', hid c hc ▸ hcs'⟩⟩
  · rintro ⟨⟨c, hc⟩, ⟨cs', hcs'⟩⟩
    rw [← hid c hc] at hcs'
    exact ⟨c :: cs', bind_eq_ok_iff.2 ⟨c, hc, bind_eq_ok_iff.2 ⟨cs', hcs', rfl⟩⟩⟩

/-- **Entries have components** if all of them can be written and no identifier is brought that
cannot be used: because it is none, was taken from the start, or has been brought or derived
before. -/
theorem exists_listFrom_iff {used : List Text} {entries : List Entry} :
    (∃ cs, listFrom used entries = .ok cs)
      ↔ (∀ e ∈ entries, e.IsWritable) ∧ ∀ before e, before ++ [e] <+: entries → ∀ id ∈ e.id,
        Identifier.isValid id ∧ id ∉ used ∧ id ∉ before.filterMap Entry.id
          ∧ id ∉ Entry.derivedIds used before := by
  induction entries generalizing used with
  | nil => simp [listFrom]
  | cons e rest ih =>
    -- what is taken for the rest is what was taken, and the identifier of the first entry
    have hused : ∀ before id, (id ∉ e.idWith used :: used ∧ id ∉ before.filterMap Entry.id
          ∧ id ∉ Entry.derivedIds (e.idWith used :: used) before)
        ↔ (id ∉ used ∧ id ∉ (e :: before).filterMap Entry.id
          ∧ id ∉ Entry.derivedIds used (e :: before)) := by
      intro before id
      cases hid : e.id with
      | none =>
        simp only [Entry.derivedIds, hid, List.filterMap_cons_none hid, List.mem_cons, not_or]
        exact ⟨fun ⟨⟨h₁, h₂⟩, h₃, h₄⟩ => ⟨h₂, h₃, h₁, h₄⟩,
          fun ⟨h₂, h₃, h₁, h₄⟩ => ⟨⟨h₁, h₂⟩, h₃, h₄⟩⟩
      | some given =>
        simp only [Entry.derivedIds, Entry.idWith, hid, Option.getD_some,
          List.filterMap_cons_some hid, List.mem_cons, not_or]
        exact ⟨fun ⟨⟨h₁, h₂⟩, h₃, h₄⟩ => ⟨h₂, ⟨h₁, h₃⟩, h₄⟩,
          fun ⟨h₂, ⟨h₁, h₃⟩, h₄⟩ => ⟨⟨h₁, h₂⟩, h₃, h₄⟩⟩
    rw [exists_listFrom_cons_iff, exists_ofEntry_iff, ih, List.forall_mem_cons,
      forall_prefix_cons_iff]
    simp only [hused, List.filterMap_nil, Entry.derivedIds, List.not_mem_nil, not_false_iff,
      and_true]
    exact ⟨fun ⟨⟨h₁, h₂⟩, h₃, h₄⟩ => ⟨⟨h₁, h₃⟩, h₂, h₄⟩,
      fun ⟨⟨h₁, h₃⟩, h₂, h₄⟩ => ⟨⟨h₁, h₂⟩, h₃, h₄⟩⟩

/-- **All reasons for entries to have no components**: one cannot be written, the identifiers they
bring are not distinct, or one of these has been derived before. -/
theorem exists_list_iff {entries : List Entry} :
    (∃ cs, list entries = .ok cs)
      ↔ (∀ e ∈ entries, e.IsWritable) ∧ Entry.HaveDistinctIds entries
        ∧ Entry.NoneDerivedBefore entries := by
  rw [list, exists_listFrom_iff]
  refine and_congr_right fun _ => ⟨fun h => ⟨⟨fun e he id hid => ?_, ?_⟩, ?_⟩, ?_⟩
  · obtain ⟨before, after, rfl⟩ := List.append_of_mem he
    have hprefix : before ++ [e] <+: before ++ e :: after := ⟨after, by simp⟩
    exact (h before e hprefix id hid).1
  · exact nodup_filterMap_iff.2 fun before e hprefix id hid => (h before e hprefix id hid).2.2.1
  · exact fun before e hprefix id hid => (h before e hprefix id hid).2.2.2
  · rintro ⟨hdistinct, hderived⟩ before e hprefix id hid
    have he : e ∈ entries := hprefix.subset (List.mem_append_right _ (List.mem_singleton_self e))
    have hbrought := nodup_filterMap_iff.1 hdistinct.nodup before e hprefix id hid
    exact ⟨hdistinct.valid e he id hid, List.not_mem_nil, hbrought,
      hderived before e hprefix id hid⟩

end Component

/-! ## Orders of entries -/

namespace Entry

/-- What entries bring does not depend on their order. -/
theorem HaveDistinctIds.perm {entries entries' : List Entry} (h : HaveDistinctIds entries)
    (hperm : entries'.Perm entries) : HaveDistinctIds entries' where
  valid e he := h.valid e (hperm.subset he)
  nodup := (hperm.filterMap Entry.id).nodup_iff.2 h.nodup

theorem derivedIds_eq_nil {entries : List Entry} (h : ∀ e ∈ entries, e.id ≠ none)
    (used : List Text) : derivedIds used entries = [] := by
  induction entries generalizing used with
  | nil => rfl
  | cons e rest ih =>
    obtain ⟨id, hid⟩ := Option.ne_none_iff_exists'.1 (h e List.mem_cons_self)
    rw [derivedIds, hid]
    exact ih (fun e' he' => h e' (List.mem_cons_of_mem _ he')) _

/-- **Identifiers that are brought first** meet none that have been derived. -/
theorem noneDerivedBefore_append {a b : List Entry} (ha : ∀ e ∈ a, e.id ≠ none)
    (hb : ∀ e ∈ b, e.id = none) : NoneDerivedBefore (a ++ b) := by
  intro before e hprefix id hid
  -- the entry brings an identifier, so it stands in the first part with all those before it
  have hbefore : before ++ [e] <+: a := by
    rcases List.prefix_or_prefix_of_prefix hprefix (List.prefix_append a b) with h | h
    · exact h
    · rcases List.prefix_concat_iff.1 h with h | ⟨t, rfl⟩
      · exact h ▸ List.prefix_rfl
      · rw [List.append_assoc, List.prefix_append_right_inj] at hprefix
        have he : e ∈ b := hprefix.subset (List.mem_append_right _ (List.mem_singleton_self e))
        rw [hb e he] at hid
        exact absurd hid nofun
  rw [derivedIds_eq_nil (fun e' he' => ha e' (hbefore.subset (List.mem_append_left _ he')))]
  exact List.not_mem_nil

/-- The entries that bring identifiers, and behind them the others. -/
def explicitFirst (entries : List Entry) : List Entry :=
  entries.filter (·.id.isSome) ++ entries.filter (!·.id.isSome)

theorem explicitFirst_perm (entries : List Entry) : (explicitFirst entries).Perm entries :=
  List.filter_append_perm _ entries

theorem noneDerivedBefore_explicitFirst (entries : List Entry) :
    NoneDerivedBefore (explicitFirst entries) := by
  refine noneDerivedBefore_append (fun e he => ?_) (fun e he => ?_)
  · exact Option.isSome_iff_ne_none.1 (List.mem_filter.1 he).2
  · simpa using (List.mem_filter.1 he).2

end Entry

end InstallerRegistry
