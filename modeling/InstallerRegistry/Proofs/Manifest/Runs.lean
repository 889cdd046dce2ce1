import InstallerRegistry.Manifest.Contents
import InstallerRegistry.Proofs.Lists
import InstallerRegistry.Proofs.Text.Cutting
import Mathlib.Data.List.SplitBy

/-!
# Entries cut into blocks

A manifest that is made of entries has a block for each **run** of neighbours that belong to one key
in one view of the registry, and the runs are as long as they can be (`AreRuns`). The entries are
compared by the paths of their keys; as a path says which hive and which key it leads to
(`Entry.pathOf_inj`), that is as good as comparing these, and so the runs are the only ones.

Within a block the values stand by their written names, and what is given to a name later takes the
place of what it was given before: so the names stand in the order in which they come up first, each
with the value it is given last (`IsLastValue`).
-/

namespace InstallerRegistry

open Yaml (Value Mapping)

/-! ## Runs of entries -/

namespace Entry

theorem cut?_pathOf (hive : Hive) (key : Text) :
    Text.cut? '\\' (pathOf hive key) = if key = [] then none else some (hive.shortName, key) := by
  have hshort : '\\' ∉ hive.shortName := by cases hive <;> decide
  cases key with
  | nil => exact Text.cut?_of_notMem hshort
  | cons c key => exact Text.cut?_append hshort (c :: key)

/-- **The path of a key** says which hive it is under and which key it is. -/
theorem pathOf_inj {hive hive' : Hive} {key key' : Text} :
    pathOf hive key = pathOf hive' key' ↔ hive = hive' ∧ key = key' := by
  refine ⟨fun h => ?_, fun ⟨h, h'⟩ => h ▸ h' ▸ rfl⟩
  -- the first backslash, if there is any, ends the name of the hive
  have hcut := congrArg (Text.cut? '\\') h
  rw [cut?_pathOf, cut?_pathOf] at hcut
  cases key with
  | nil =>
    cases key' with
    | nil => exact ⟨Hive.eq_of_shortName_eq h, rfl⟩
    | cons c' key' => exact absurd hcut nofun
  | cons c key =>
    cases key' with
    | nil => exact absurd hcut nofun
    | cons c' key' =>
      obtain ⟨hname, hkey⟩ := Prod.mk.inj (Option.some.inj hcut)
      exact ⟨Hive.eq_of_shortName_eq hname, hkey⟩

/-- Do two entries belong to one key, in one view of the registry? -/
structure SameKey (a b : Entry) : Prop where
  hive : a.hive = b.hive
  key : a.key = b.key
  win64 : a.win64 = b.win64

theorem SameKey.symm {a b : Entry} (h : a.SameKey b) : b.SameKey a :=
  ⟨h.hive.symm, h.key.symm, h.win64.symm⟩

theorem SameKey.trans {a b c : Entry} (h : a.SameKey b) (h' : b.SameKey c) : a.SameKey c :=
  ⟨h.hive.trans h'.hive, h.key.trans h'.key, h.win64.trans h'.win64⟩

instance : Trans SameKey SameKey SameKey := ⟨SameKey.trans⟩

instance : Std.Symm SameKey := ⟨fun _ _ => SameKey.symm⟩

theorem sameKey_iff {a b : Entry} : a.SameKey b ↔ a.path = b.path ∧ a.win64 = b.win64 := by
  rw [path, path, pathOf_inj, and_assoc]
  exact ⟨fun ⟨h, h', h''⟩ => ⟨h, h', h''⟩, fun ⟨h, h', h''⟩ => ⟨h, h', h''⟩⟩

end Entry

namespace Manifest

theorem inOneBlock_iff {a b : Entry} : inOneBlock a b = true ↔ a.SameKey b := by
  rw [inOneBlock, Bool.and_eq_true, beq_iff_eq, beq_iff_eq, Entry.sameKey_iff]

/-- **The runs of a list of entries**: it is cut where the key or the view changes, and only
there. -/
structure AreRuns (entries : List Entry) (runs : List (List Entry)) : Prop where
  flatten : runs.flatten = entries
  ne_nil : ∀ run ∈ runs, run ≠ []
  alike : ∀ run ∈ runs, ∀ a ∈ run, ∀ b ∈ run, a.SameKey b
  differ : runs.IsChain fun run next => ∀ a ∈ run, ∀ b ∈ next, ¬ a.SameKey b

/-- Neighbours that are alike are all alike. -/
theorem isChain_inOneBlock_iff {run : List Entry} :
    (run.IsChain fun a b => inOneBlock a b) ↔ ∀ a ∈ run, ∀ b ∈ run, a.SameKey b := by
  simp only [inOneBlock_iff]
  rw [List.isChain_iff_pairwise]
  constructor
  · intro h a ha b hb
    exact h.forall_of_forall (fun _ _ => ⟨rfl, rfl, rfl⟩) ha hb
  · intro h
    exact List.pairwise_of_forall_mem_list fun a ha b hb => h a ha b hb

/-- Of two runs, all entries differ if those where they meet do. -/
theorem inOneBlock_getLast_head_iff {run next : List Entry} (hrun : run ≠ []) (hnext : next ≠ [])
    (halike : ∀ a ∈ run, ∀ b ∈ run, a.SameKey b) (halike' : ∀ a ∈ next, ∀ b ∈ next, a.SameKey b) :
    (∃ h h', inOneBlock (run.getLast h) (next.head h') = false)
      ↔ ∀ a ∈ run, ∀ b ∈ next, ¬ a.SameKey b := by
  have hmeet : inOneBlock (run.getLast hrun) (next.head hnext) = false
      ↔ ¬ (run.getLast hrun).SameKey (next.head hnext) := by
    rw [← inOneBlock_iff, Bool.not_eq_true]
  constructor
  · rintro ⟨_, _, h⟩ a ha b hb hab
    exact hmeet.1 h (((halike _ (List.getLast_mem hrun) a ha).trans hab).trans
      (halike' b hb _ (List.head_mem hnext)))
  · intro h
    exact ⟨hrun, hnext, hmeet.2 (h _ (List.getLast_mem hrun) _ (List.head_mem hnext))⟩

/-- **The runs** are what the entries are split into. -/
theorem areRuns_iff {entries : List Entry} {runs : List (List Entry)} :
    AreRuns entries runs ↔ entries.splitBy inOneBlock = runs := by
  rw [List.splitBy_eq_iff]
  constructor
  · rintro ⟨hflatten, hne, halike, hdiffer⟩
    refine ⟨hflatten.symm, fun h => hne [] h rfl,
      fun run hrun => isChain_inOneBlock_iff.2 (halike run hrun), ?_⟩
    refine (List.IsChain.iff_of_mem_imp fun run next hrun hnext => ?_).2 hdiffer
    exact inOneBlock_getLast_head_iff (hne run hrun) (hne next hnext) (halike run hrun)
      (halike next hnext)
  · rintro ⟨hflatten, hne, hchain, hmeet⟩
    have hne : ∀ run ∈ runs, run ≠ [] := fun run hrun h => hne (h ▸ hrun)
    have halike : ∀ run ∈ runs, ∀ a ∈ run, ∀ b ∈ run, a.SameKey b :=
      fun run hrun => isChain_inOneBlock_iff.1 (hchain run hrun)
    refine ⟨hflatten.symm, hne, halike, ?_⟩
    refine (List.IsChain.iff_of_mem_imp fun run next hrun hnext => ?_).1 hmeet
    exact inOneBlock_getLast_head_iff (hne run hrun) (hne next hnext) (halike run hrun)
      (halike next hnext)

end Manifest

/-! ## The values of a block -/

namespace Entry

/-- The name of an entry as it is written, which is never empty. -/
def writtenName (e : Entry) : Text :=
  if e.name = [] then defaultName else e.name

/-- The value of an entry as it is written, if it is set. -/
def writtenValue (e : Entry) : Value :=
  e.value.elim .null RegistryValue.toYaml

end Entry

namespace Manifest

theorem pairOf_eq (e : Entry) : pairOf e = (.text e.writtenName, e.writtenValue) := by
  rcases e with ⟨id, hive, key, _ | ⟨c, name⟩, _ | value, feature, condition, win64⟩ <;> rfl

/-- Is this what the run gives to the written name in the end? -/
def IsLastValue (run : List Entry) (name : Text) (v : Value) : Prop :=
  ∃ before e after, run = before ++ e :: after ∧ e.writtenName = name
    ∧ (∀ later ∈ after, later.writtenName ≠ name) ∧ v = e.writtenValue

/-- An entry behind the run gives its value to its name. -/
theorem isLastValue_last (run : List Entry) (e : Entry) :
    IsLastValue (run ++ [e]) e.writtenName e.writtenValue :=
  ⟨run, e, [], rfl, rfl, nofun, rfl⟩

/-- It leaves the other names what they have. -/
theorem IsLastValue.concat {run : List Entry} {name : Text} {v : Value}
    (h : IsLastValue run name v) {e : Entry} (hname : name ≠ e.writtenName) :
    IsLastValue (run ++ [e]) name v := by
  obtain ⟨before, x, after, rfl, hx, hafter, hv⟩ := h
  refine ⟨before, x, after ++ [e], by rw [List.append_assoc, List.cons_append], hx, ?_, hv⟩
  intro later hlater
  rcases List.mem_append.1 hlater with hlater | hlater
  · exact hafter later hlater
  · rw [List.mem_singleton.1 hlater]
    exact hname.symm

/-- Do the pairs stand one by one for the names, with values of this kind? -/
def StandFor (Q : Text → Value → Prop) (names : List Text) (pairs : Mapping) : Prop :=
  List.Forall₂ (fun name pair => pair.1 = .text name ∧ Q name pair.2) names pairs

/-- **Inserting a value** gives it to its name, and leaves the others what they have. -/
theorem StandFor.insert {Q Q' : Text → Value → Prop} {names : List Text} {pairs : Mapping}
    (h : StandFor Q names pairs) (hnames : names.Nodup) {name : Text} {v : Value}
    (hkept : ∀ other w, other ≠ name → Q other w → Q' other w) (hnew : Q' name v) :
    StandFor Q' (if name ∈ names then names else names ++ [name])
      (Mapping.insert pairs (.text name) v) := by
  induction h with
  | nil => exact .cons ⟨rfl, hnew⟩ .nil
  | @cons first pair names pairs hfirst hrest ih =>
    obtain ⟨hnotMem, hnames⟩ := List.nodup_cons.1 hnames
    obtain ⟨k, w⟩ := pair
    obtain ⟨rfl, hw⟩ : k = .text first ∧ Q first w := hfirst
    rw [Mapping.insert, Value.same]
    by_cases hname : name = first
    · -- the name is not among the others, which therefore keep their values
      rw [if_pos (beq_iff_eq.2 hname), if_pos (hname ▸ List.mem_cons_self)]
      have hothers : ∀ other ∈ names, other ≠ name :=
        fun other hother heq => hnotMem (hname ▸ heq ▸ hother)
      exact .cons ⟨rfl, hname ▸ hnew⟩ (((List.forall₂_and_left names pairs).2 ⟨hothers, hrest⟩).imp
        fun other pair ⟨hother, hpair⟩ => ⟨hpair.1, hkept _ _ hother hpair.2⟩)
    · rw [if_neg (fun h => hname (beq_iff_eq.1 h))]
      have hmem : name ∈ first :: names ↔ name ∈ names := by
        rw [List.mem_cons, or_iff_right hname]
      have hcons : (if name ∈ first :: names then first :: names else first :: names ++ [name])
          = first :: if name ∈ names then names else names ++ [name] := by
        simp only [hmem]
        split <;> rfl
      rw [hcons]
      exact .cons ⟨rfl, hkept _ _ (Ne.symm hname) hw⟩ (ih hnames)

/-- **The values of a run** stand for its written names, in the order in which they come up, and are
those that the run gives last. -/
theorem standFor_ofPairs (run : List Entry) :
    StandFor (IsLastValue run) (run.map Entry.writtenName).eraseDups
      (Mapping.ofPairs (run.map pairOf)) := by
  induction run using List.reverseRecOn with
  | nil => exact .nil
  | append_singleton run e ih =>
    rw [List.map_append, List.map_singleton, eraseDups_concat, List.map_append, List.map_singleton,
      Mapping.ofPairs, List.foldl_append, pairOf_eq]
    exact ih.insert (nodup_eraseDups _) (fun _ _ hother h => h.concat hother)
      (isLastValue_last run e)

/-- **A block that holds a run**: it is under the key of the run and in its view, and has a value
for each of its written names, in the order in which they come up, which is the one that the run
gives last. -/
structure HoldsRun (feature : Option Text) (run : List Entry) (b : Block) : Prop where
  key : ∀ e ∈ run, b.key = e.path
  win64 : ∀ e ∈ run, b.win64 = e.win64
  feature : b.feature = feature
  condition : b.condition = none
  values : StandFor (IsLastValue run) (run.map Entry.writtenName).eraseDups b.values

/-- The block of a run holds it. -/
theorem holdsRun_of_blockOf {feature : Option Text} {run : List Entry} (hne : run ≠ [])
    (halike : ∀ a ∈ run, ∀ b ∈ run, a.SameKey b) :
    ∃ b, blockOf feature run = some b ∧ HoldsRun feature run b := by
  cases run with
  | nil => exact absurd rfl hne
  | cons e rest =>
    have hsame : ∀ x ∈ e :: rest, e.path = x.path ∧ e.win64 = x.win64 :=
      fun x hx => Entry.sameKey_iff.1 (halike e List.mem_cons_self x hx)
    exact ⟨_, rfl, fun x hx => (hsame x hx).1, fun x hx => (hsame x hx).2, rfl, rfl,
      standFor_ofPairs (e :: rest)⟩

/-- Blocks that hold neighbouring runs are under different keys or in different views. -/
theorem HoldsRun.ne {feature : Option Text} {run next : List Entry} {b b' : Block}
    (h : HoldsRun feature run b) (h' : HoldsRun feature next b') (hrun : run ≠ [])
    (hnext : next ≠ []) (hdiffer : ∀ x ∈ run, ∀ y ∈ next, ¬ x.SameKey y) :
    b.key ≠ b'.key ∨ b.win64 ≠ b'.win64 := by
  obtain ⟨x, hx⟩ := List.exists_mem_of_ne_nil run hrun
  obtain ⟨y, hy⟩ := List.exists_mem_of_ne_nil next hnext
  have hne := hdiffer x hx y hy
  rwa [Entry.sameKey_iff, ← h.key x hx, ← h'.key y hy, ← h.win64 x hx, ← h'.win64 y hy,
    not_and_or] at hne

/-- **A manifest of entries** has a block for each run of them, and there is only one way to cut
them into runs. -/
theorem registry_ofEntries (feature : Option Text) (entries : List Entry) :
    ∃ runs, AreRuns entries runs ∧ (∀ runs', AreRuns entries runs' → runs' = runs)
      ∧ List.Forall₂ (HoldsRun feature) runs (ofEntries feature entries).registry
      ∧ (ofEntries feature entries).registry.IsChain fun b b' =>
          b.key ≠ b'.key ∨ b.win64 ≠ b'.win64 := by
  have hruns : AreRuns entries (entries.splitBy inOneBlock) := areRuns_iff.2 rfl
  have hholds : List.Forall₂ (HoldsRun feature) (entries.splitBy inOneBlock)
      (ofEntries feature entries).registry :=
    forall₂_filterMap fun run hrun =>
      holdsRun_of_blockOf (hruns.ne_nil run hrun) (hruns.alike run hrun)
  refine ⟨_, hruns, fun runs' h => (areRuns_iff.1 h).symm, hholds, ?_⟩
  refine isChain_of_forall₂ hholds hruns.differ fun run next b b' hrun hnext h h' hdiffer => ?_
  exact h.ne h' (hruns.ne_nil run hrun) (hruns.ne_nil next hnext) hdiffer

end Manifest

end InstallerRegistry
