import InstallerRegistry.Proofs.Identifier
import Mathlib.Data.Nat.Find
import Mathlib.Order.Bounds.Basic

/-!
# The search for a fresh identifier

A fresh identifier is found by counting: as long as the identifier at hand is in use, the search
makes a turn to the next number (`Identifier.Search.turn`). Nothing in this loop gets smaller, so
that it stops has to be said of what it meets: the identifiers it looks at are pairwise different,
and each turn takes one that is in use, so there are no more turns than identifiers in use
(`Identifier.Search.exists_idAfter_notMem`).

Where it stops is the first one that is free, so the plain identifier if possible, and otherwise the
one with the least number from two on (`Identifier.Search.Stops.isFirstFree`). This is the fresh
identifier (`Identifier.Search.stops_fresh`).
-/

namespace InstallerRegistry.Identifier

/-- **A search** has counted up to a number and looks at an identifier. -/
structure Search where
  number : Nat
  id : Text

namespace Search

/-- In the beginning, a search looks at the plain identifier. -/
def start (base : Text) : Search :=
  ⟨1, base⟩

/-- A turn of a search: it counts one further and looks at the identifier with that number. -/
def turn (base : Text) (s : Search) : Search :=
  ⟨s.number + 1, numbered base (s.number + 1)⟩

/-- **A search stops** after some turns at an identifier: it makes turns as long as the one it looks
at is in use. -/
inductive Stops (used : List Text) (base : Text) : Search → Nat → Text → Prop
  | free {s : Search} (h : s.id ∉ used) : Stops used base s 0 s.id
  | inUse {s : Search} {turns : Nat} {id : Text} (h : s.id ∈ used)
      (rest : Stops used base (s.turn base) turns id) : Stops used base s (turns + 1) id

/-- The identifier **first free**: the plain one, or the one with the least number from two on. -/
def IsFirstFree (used : List Text) (base id : Text) : Prop :=
  (base ∉ used ∧ id = base)
    ∨ (base ∈ used ∧ ∃ n, IsLeast {n | 2 ≤ n ∧ numbered base n ∉ used} n ∧ id = numbered base n)

/-! ## Turns -/

/-- The identifier that a search looks at after some turns, if it makes them. -/
def idAfter (base : Text) (turns : Nat) : Text :=
  ((turn base)^[turns] (start base)).id

theorem iterate_turn_start (base : Text) (turns : Nat) :
    (turn base)^[turns + 1] (start base) = ⟨turns + 2, numbered base (turns + 2)⟩ := by
  induction turns with
  | zero => rfl
  | succ turns ih => rw [Function.iterate_succ_apply', ih, turn]

theorem idAfter_succ (base : Text) (turns : Nat) :
    idAfter base (turns + 1) = numbered base (turns + 2) := by
  rw [idAfter, iterate_turn_start]

theorem candidates_eq (base : Text) (count : Nat) :
    candidates base count = (List.range (count + 1)).map (idAfter base) := by
  rw [List.range_succ_eq_map, List.map_cons, List.map_map, candidates]
  exact congrArg _ (List.map_congr_left fun i _ => (idAfter_succ base i).symm)

/-- A search stops after as many turns as there are identifiers in use before the first free one. -/
theorem stops_iff {used : List Text} {base : Text} {s : Search} {turns : Nat} {id : Text} :
    Stops used base s turns id
      ↔ (∀ j < turns, ((turn base)^[j] s).id ∈ used) ∧ ((turn base)^[turns] s).id ∉ used
        ∧ id = ((turn base)^[turns] s).id := by
  induction turns generalizing s with
  | zero =>
    constructor
    · rintro ⟨h⟩
      exact ⟨fun j hj => absurd hj (Nat.not_lt_zero j), h, rfl⟩
    · rintro ⟨_, h, rfl⟩
      exact .free h
  | succ turns ih =>
    rw [Function.iterate_succ_apply]
    constructor
    · rintro (_ | ⟨h, rest⟩)
      obtain ⟨hused, hfree⟩ := ih.1 rest
      refine ⟨fun j hj => ?_, hfree⟩
      cases j with
      | zero => exact h
      | succ j => exact hused j (Nat.lt_of_succ_lt_succ hj)
    · rintro ⟨hused, hfree⟩
      exact .inUse (hused 0 (Nat.succ_pos turns))
        (ih.2 ⟨fun j hj => hused (j + 1) (Nat.succ_lt_succ hj), hfree⟩)

/-! ## The first free identifier -/

/-- One of the first turns meets an identifier that is free. -/
theorem exists_idAfter_notMem (used : List Text) (base : Text) :
    ∃ turns ≤ used.toFinset.card, idAfter base turns ∉ used := by
  obtain ⟨id, hid, hfree⟩ := exists_candidate_notMem (le_refl used.toFinset.card) base
  rw [candidates_eq] at hid
  obtain ⟨turns, hturns, rfl⟩ := List.mem_map.1 hid
  exact ⟨turns, Nat.lt_succ_iff.1 (List.mem_range.1 hturns), hfree⟩

/-- **The search stops** at the fresh identifier, after no more turns than there are identifiers in
use. -/
theorem stops_fresh (used : List Text) (base : Text) :
    ∃ turns ≤ used.toFinset.card, Stops used base (start base) turns (fresh used base) := by
  have hfree : ∃ turns, idAfter base turns ∉ used :=
    (exists_idAfter_notMem used base).imp fun _ => And.right
  obtain ⟨turns, hturns, hid⟩ := exists_idAfter_notMem used base
  have hle : Nat.find hfree ≤ used.toFinset.card := (Nat.find_min' hfree hid).trans hturns
  have hbefore : ∀ j < Nat.find hfree, idAfter base j ∈ used :=
    fun j hj => not_not.1 (Nat.find_min hfree hj)
  have hfresh : fresh used base = idAfter base (Nat.find hfree) := by
    have hfind : (List.range (used.length + 1)).find? (fun j => !used.contains (idAfter base j))
        = some (Nat.find hfree) := by
      rw [List.find?_range_eq_some]
      refine ⟨by simpa using Nat.find_spec hfree, ?_, fun j hj => by simpa using hbefore j hj⟩
      exact List.mem_range.2 (Nat.lt_succ_of_le (hle.trans (List.toFinset_card_le used)))
    rw [fresh, candidates_eq, List.find?_map]
    exact congrArg (fun found => (found.map (idAfter base)).getD base) hfind
  exact ⟨Nat.find hfree, hle, stops_iff.2 ⟨hbefore, Nat.find_spec hfree, hfresh⟩⟩

/-- **Where a search stops** is the first free identifier. -/
theorem Stops.isFirstFree {used : List Text} {base id : Text} {turns : Nat}
    (h : Stops used base (start base) turns id) : IsFirstFree used base id := by
  obtain ⟨hused, hfree, rfl⟩ := stops_iff.1 h
  cases turns with
  | zero => exact .inl ⟨hfree, rfl⟩
  | succ turns =>
    rw [← idAfter, idAfter_succ] at hfree ⊢
    refine .inr ⟨hused 0 (Nat.succ_pos turns), turns + 2, ⟨⟨Nat.le_add_left 2 turns, hfree⟩, ?_⟩,
      rfl⟩
    rintro m ⟨hm, hmfree⟩
    -- a smaller number has been met in an earlier turn
    refine Nat.le_of_not_lt fun hlt => hmfree ?_
    obtain ⟨j, rfl⟩ := Nat.exists_eq_add_of_le' hm
    have hmet := hused (j + 1) (by omega)
    rwa [← idAfter, idAfter_succ] at hmet

end Search

end InstallerRegistry.Identifier
