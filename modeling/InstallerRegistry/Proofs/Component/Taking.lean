import InstallerRegistry.Proofs.Component
import InstallerRegistry.Proofs.Identifier.Search

/-!
# Identifiers that are taken

Making components hands the identifiers in use from one entry to the next. Seen as a computation
over these identifiers (`Taking`), choosing an identifier also takes it, and this computation has
an outcome of its own when it fails (`Entry.takeId`): what was in use before is in use afterwards,
and nothing else. Components are made by running it for one entry after another
(`Component.listFrom_eq_run`).
-/

namespace InstallerRegistry

/-- **Taking identifiers**: a computation over the identifiers in use, which can fail. -/
abbrev Taking (α : Type) := ExceptT RegistryError (StateM (List Text)) α

namespace Taking

/-- Takes an identifier, and says whether it was free. -/
def take (id : Text) : Taking Bool :=
  modifyGet fun used => (!used.contains id, used.insert id)

variable {α β : Type}

/-- What comes next starts with the identifiers that are in use by then, unless there was an
error. -/
theorem run_bind (x : Taking α) (f : α → Taking β) (used : List Text) :
    (x >>= f).run.run used = match x.run.run used with
      | (.ok a, taken) => (f a).run.run taken
      | (.error err, taken) => (.error err, taken) := by
  rw [ExceptT.run_bind, StateT.run_bind]
  obtain ⟨_ | a, taken⟩ := x.run.run used <;> rfl

/-- What does not look at the identifiers leaves them as they are. -/
theorem run_lift_bind (x : Except RegistryError α) (f : α → Taking β) (used : List Text) :
    ((x : Taking α) >>= f).run.run used = match x with
      | .ok a => (f a).run.run used
      | .error err => (.error err, used) := by
  cases x <;> rfl

theorem run_take_of_mem {id : Text} {used : List Text} (h : id ∈ used) :
    (take id).run.run used = (.ok false, used) := by
  show (Except.ok (!used.contains id), used.insert id) = _
  rw [List.insert_of_mem h, List.contains_iff_mem.2 h]
  rfl

theorem run_take_of_notMem {id : Text} {used : List Text} (h : id ∉ used) :
    (take id).run.run used = (.ok true, id :: used) := by
  have hnew : used.contains id = false := by simpa using h
  show (Except.ok (!used.contains id), used.insert id) = _
  rw [List.insert_of_not_mem h, hnew]
  rfl

end Taking

/-- Takes an identifier for an entry: the one that it brings, or a fresh one. -/
def Entry.takeId (e : Entry) : Taking Text := do
  match e.id with
  | none =>
    let id := Identifier.fresh (← get) (Identifier.ofName e.name)
    let _ ← Taking.take id
    return id
  | some id =>
    unless Identifier.isValid id do
      throw (.configuration (.invalidId id))
    unless ← Taking.take id do
      throw (.configuration (.duplicateId id))
    return id

/-- Makes the component of an entry and takes its identifier. -/
def Component.take (e : Entry) : Taking Component := do
  let value ← e.setValue
  let root ← e.root
  let id ← e.takeId
  return { id, root, value, entry := e }

/-! ## One entry -/

/-- **The contract of taking an identifier**: the one that is chosen is in use afterwards, along with
those that were before; and if none can be chosen, these are the ones in use, as before. -/
theorem Entry.run_takeId (e : Entry) (used : List Text) :
    e.takeId.run.run used = match e.chooseId used with
      | .ok id => (.ok id, id :: used)
      | .error err => (.error err, used) := by
  unfold takeId chooseId
  cases e.id with
  | none =>
    have hfree := Identifier.fresh_notMem used (Identifier.ofName e.name)
    show ((Taking.take _ >>= fun _ => pure _ : Taking Text).run.run used) = _
    rw [Taking.run_bind, Taking.run_take_of_notMem hfree]
    rfl
  | some id =>
    dsimp only
    cases hvalid : Identifier.isValid id with
    | false => rfl
    | true =>
      show ((Taking.take id >>= fun new => _ : Taking Text).run.run used) = _
      rw [Taking.run_bind]
      by_cases hused : id ∈ used
      · rw [Taking.run_take_of_mem hused, List.contains_iff_mem.2 hused]
        rfl
      · have hnew : used.contains id = false := by simpa using hused
        rw [Taking.run_take_of_notMem hused, hnew]
        rfl

/-! ## All of them -/

theorem Component.run_take (e : Entry) (used : List Text) :
    (take e).run.run used = match ofEntry used e with
      | .ok c => (.ok c, c.id :: used)
      | .error err => (.error err, used) := by
  unfold take ofEntry
  rw [Taking.run_lift_bind]
  cases e.setValue with
  | error err => rfl
  | ok value =>
    dsimp only
    rw [Taking.run_lift_bind]
    cases e.root with
    | error err => rfl
    | ok root =>
      dsimp only
      rw [Taking.run_bind, Entry.run_takeId]
      cases e.chooseId used <;> rfl

/-- **Components are made by taking identifiers** for one entry after another. -/
theorem Component.listFrom_eq_run (used : List Text) (entries : List Entry) :
    listFrom used entries = ((entries.mapM take).run.run used).1 := by
  induction entries generalizing used with
  | nil => rfl
  | cons e rest ih =>
    rw [List.mapM_cons, Taking.run_bind, run_take, listFrom]
    cases ofEntry used e with
    | error err => rfl
    | ok c =>
      show (listFrom (c.id :: used) rest >>= fun cs => pure (c :: cs))
        = ((rest.mapM take >>= fun cs => pure (c :: cs)).run.run (c.id :: used)).1
      rw [ih, Taking.run_bind]
      obtain ⟨_ | cs, taken⟩ := (rest.mapM take).run.run (c.id :: used) <;> rfl

/-- **Taking an identifier for an entry.** It comes out as the one that is chosen. If the entry
brings none, the search for one stops, after no more turns than there are identifiers in use, at
the first that is free, and this one is in use afterwards besides those that were. If the entry's
own is rejected, the identifiers in use stay what they were. -/
theorem Entry.takeId_outcome (used : List Text) (e : Entry) :
    (e.takeId.run.run used).1 = e.chooseId used
      ∧ (e.id = none → ∃ turns id, turns ≤ used.toFinset.card
        ∧ Identifier.Search.Stops used (Identifier.ofName e.name)
          (.start (Identifier.ofName e.name)) turns id
        ∧ Identifier.Search.IsFirstFree used (Identifier.ofName e.name) id
        ∧ id ∉ used ∧ e.takeId.run.run used = (.ok id, id :: used))
      ∧ ∀ err, e.chooseId used = .error err → e.takeId.run.run used = (.error err, used) := by
  refine ⟨?_, fun hid => ?_, fun err herr => ?_⟩
  · rw [run_takeId]
    cases e.chooseId used <;> rfl
  · obtain ⟨turns, hturns, hstops⟩ :=
      Identifier.Search.stops_fresh used (Identifier.ofName e.name)
    have hchosen : e.chooseId used = .ok (Identifier.fresh used (Identifier.ofName e.name)) := by
      rw [chooseId, hid]
    refine ⟨turns, _, hturns, hstops, hstops.isFirstFree, Identifier.fresh_notMem _ _, ?_⟩
    rw [run_takeId, hchosen]
  · rw [run_takeId, herr]

/-- Identifiers in use, the first of them twice. -/
def crowdedIds : List Text :=
  ["RegValue_A".toList, "RegValue_A_3".toList, "RegValue_A_2".toList, "RegValue_A_5".toList,
    "RegValue_A".toList]

/-- An entry that brings no identifier. -/
def crowdedEntry : Entry :=
  { name := ['A'] }

/-- An entry that brings an identifier that is in use. -/
def rejectedEntry : Entry :=
  { name := ['B'], id := some "RegValue_A_3".toList }

/-- The number left free between others is found, and an identifier in use is rejected. -/
theorem Entry.takeId_outcome_crowdedIds :
    (crowdedEntry.id = none ∧ ∃ turns id, turns ≤ crowdedIds.toFinset.card
        ∧ Identifier.Search.Stops crowdedIds (Identifier.ofName crowdedEntry.name)
          (.start (Identifier.ofName crowdedEntry.name)) turns id
        ∧ Identifier.Search.IsFirstFree crowdedIds (Identifier.ofName crowdedEntry.name) id
        ∧ id ∉ crowdedIds ∧ crowdedEntry.takeId.run.run crowdedIds = (.ok id, id :: crowdedIds))
      ∧ ∃ err, rejectedEntry.chooseId crowdedIds = .error err
        ∧ rejectedEntry.takeId.run.run crowdedIds = (.error err, crowdedIds) :=
  ⟨⟨rfl, (takeId_outcome crowdedIds crowdedEntry).2.1 rfl⟩,
    ⟨_, rfl, (takeId_outcome crowdedIds rejectedEntry).2.2 _ rfl⟩⟩

/-- Three turns lead to the number four. -/
example : crowdedEntry.takeId.run.run crowdedIds
    = (.ok "RegValue_A_4".toList, "RegValue_A_4".toList :: crowdedIds) :=
  rfl

end InstallerRegistry
