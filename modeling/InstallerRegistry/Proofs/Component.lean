import InstallerRegistry.Component
import InstallerRegistry.Proofs.Except
import InstallerRegistry.Proofs.Identifier
import Mathlib.Data.List.Nodup

/-!
# Components of entries

Making components keeps every entry and its place in the order (`Component.listFrom_ok`), and no two
components have one identifier (`Component.nodup_listFrom`), because each identifier is chosen with
those before it taken.
-/

namespace InstallerRegistry

/-! ## One component -/

theorem Entry.setValue_eq_ok_iff {e : Entry} {v : RegistryValue} :
    e.setValue = .ok v ↔ e.value = some v := by
  unfold Entry.setValue
  cases e.value with
  | none => exact ⟨nofun, nofun⟩
  | some w => rw [Except.ok.injEq, Option.some_inj]

theorem Entry.root_eq_ok_iff {e : Entry} {root : Text} :
    e.root = .ok root ↔ e.hive.installerRoot? = some root := by
  unfold Entry.root
  cases e.hive.installerRoot? with
  | none => exact ⟨nofun, nofun⟩
  | some r => rw [Except.ok.injEq, Option.some_inj]

/-- The identifier that is meant for an entry, those in `used` being taken: the one it brings, or a
fresh one. -/
def Entry.idWith (used : List Text) (e : Entry) : Text :=
  e.id.getD (Identifier.fresh used (Identifier.ofName e.name))

/-- **An identifier is chosen** unless one is brought that is none, or is taken. -/
theorem Entry.chooseId_eq_ok_iff {used : List Text} {e : Entry} {id : Text} :
    e.chooseId used = .ok id
      ↔ (∀ given ∈ e.id, Identifier.isValid given ∧ given ∉ used) ∧ id = e.idWith used := by
  unfold Entry.chooseId Entry.idWith
  cases e.id with
  | none =>
    rw [Except.ok.injEq, eq_comm, Option.getD_none]
    exact ⟨fun h => ⟨nofun, h⟩, And.right⟩
  | some given =>
    simp only [Option.mem_some_iff, forall_eq', Option.getD_some]
    split
    next hinvalid => exact ⟨nofun, fun h => absurd h.1.1 (by simpa using hinvalid)⟩
    next hvalid =>
      split
      next hused => exact ⟨nofun, fun h => absurd (by simpa using hused) h.1.2⟩
      next hnew =>
        rw [Except.ok.injEq, eq_comm]
        exact ⟨fun h => ⟨⟨by simpa using hvalid, by simpa using hnew⟩, h⟩, And.right⟩

/-- Identifiers that are taken are not chosen. -/
theorem Entry.chooseId_notMem {used : List Text} {e : Entry} {id : Text}
    (h : e.chooseId used = .ok id) : id ∉ used := by
  obtain ⟨hgiven, rfl⟩ := Entry.chooseId_eq_ok_iff.1 h
  unfold Entry.idWith
  cases hid : e.id with
  | none => exact Identifier.fresh_notMem used _
  | some given => exact (hgiven given hid).2

/-- Is the identifier the one that the entry brings, or if it brings none, derived from its name? -/
def Entry.HasId (e : Entry) (id : Text) : Prop :=
  match e.id with
  | some given => id = given
  | none => Identifier.IsDerived e.name id

/-- An identifier that is chosen for an entry is one it may have, and has the shape of one. -/
theorem Entry.hasId_of_chooseId {used : List Text} {e : Entry} {id : Text}
    (h : e.chooseId used = .ok id) : e.HasId id ∧ Identifier.HasShape id := by
  obtain ⟨hgiven, rfl⟩ := Entry.chooseId_eq_ok_iff.1 h
  unfold Entry.HasId Entry.idWith
  cases hid : e.id with
  | none =>
    have hderived := Identifier.isDerived_fresh used e.name
    exact ⟨hderived, hderived.hasShape⟩
  | some given => exact ⟨rfl, Identifier.hasShape_of_isValid (hgiven given hid).1⟩

namespace Component

/-- A **faithful** component says what its entry does. -/
structure IsFaithful (c : Component) : Prop where
  id : c.entry.HasId c.id
  value : c.entry.value = some c.value
  root : c.entry.hive.installerRoot? = some c.root

theorem ofEntry_ok {used : List Text} {e : Entry} {c : Component} (h : ofEntry used e = .ok c) :
    c.entry = e ∧ c.IsFaithful ∧ e.chooseId used = .ok c.id := by
  obtain ⟨v, hvalue, h⟩ := bind_eq_ok_iff.1 h
  obtain ⟨root, hroot, h⟩ := bind_eq_ok_iff.1 h
  obtain ⟨id, hid, h⟩ := bind_eq_ok_iff.1 h
  cases h
  refine ⟨rfl, ⟨(Entry.hasId_of_chooseId hid).1, ?_, ?_⟩, hid⟩
  · exact Entry.setValue_eq_ok_iff.1 hvalue
  · exact Entry.root_eq_ok_iff.1 hroot

/-! ## All of them -/

theorem listFrom_cons {used : List Text} {e : Entry} {rest : List Entry} {cs : List Component}
    (h : listFrom used (e :: rest) = .ok cs) :
    ∃ c cs', ofEntry used e = .ok c ∧ listFrom (c.id :: used) rest = .ok cs' ∧ cs = c :: cs' := by
  obtain ⟨c, hc, h⟩ := bind_eq_ok_iff.1 h
  obtain ⟨cs', hcs, h⟩ := bind_eq_ok_iff.1 h
  exact ⟨c, cs', hc, hcs, (Except.ok.inj h).symm⟩

/-- A component has been made of its entry. -/
theorem exists_ofEntry_of_mem {used : List Text} {entries : List Entry} {cs : List Component}
    (h : listFrom used entries = .ok cs) {c : Component} (hc : c ∈ cs) :
    ∃ used, ofEntry used c.entry = .ok c := by
  induction entries generalizing used cs with
  | nil =>
    rw [← Except.ok.inj h] at hc
    exact absurd hc List.not_mem_nil
  | cons e rest ih =>
    obtain ⟨c', cs', hc', hcs', rfl⟩ := listFrom_cons h
    rcases List.mem_cons.1 hc with rfl | hc
    · exact ⟨used, by rw [(ofEntry_ok hc').1, hc']⟩
    · exact ih hcs' hc

/-- **Every entry has its component**, in the order of the entries. -/
theorem listFrom_ok {used : List Text} {entries : List Entry} {cs : List Component}
    (h : listFrom used entries = .ok cs) :
    cs.map Component.entry = entries ∧ ∀ c ∈ cs, c.IsFaithful := by
  induction entries generalizing used cs with
  | nil =>
    rw [← Except.ok.inj h]
    exact ⟨rfl, fun c hc => absurd hc List.not_mem_nil⟩
  | cons e rest ih =>
    obtain ⟨c, cs', hc, hcs', rfl⟩ := listFrom_cons h
    obtain ⟨hentry, hfaithful, _⟩ := ofEntry_ok hc
    obtain ⟨hentries, hrest⟩ := ih hcs'
    exact ⟨by rw [List.map_cons, hentry, hentries], List.forall_mem_cons.2 ⟨hfaithful, hrest⟩⟩

/-- **No two components have one identifier**, and none has one that was taken. -/
theorem nodup_listFrom {used : List Text} {entries : List Entry} {cs : List Component}
    (h : listFrom used entries = .ok cs) :
    (cs.map id).Nodup ∧ ∀ c ∈ cs, c.id ∉ used := by
  induction entries generalizing used cs with
  | nil =>
    rw [← Except.ok.inj h]
    exact ⟨List.nodup_nil, fun c hc => absurd hc List.not_mem_nil⟩
  | cons e rest ih =>
    obtain ⟨c, cs', hc, hcs', rfl⟩ := listFrom_cons h
    -- the identifier of the first is taken for all that follow
    obtain ⟨hnodup, hnew⟩ := ih hcs'
    refine ⟨List.nodup_cons.2 ⟨fun hmem => ?_, hnodup⟩, fun c' hc' => ?_⟩
    · obtain ⟨c', hc', hid⟩ := List.mem_map.1 hmem
      exact hnew c' hc' (hid ▸ List.mem_cons_self)
    · rcases List.mem_cons.1 hc' with rfl | hc'
      · exact Entry.chooseId_notMem (ofEntry_ok hc).2.2
      · exact fun hused => hnew c' hc' (List.mem_cons_of_mem _ hused)

end Component

end InstallerRegistry
