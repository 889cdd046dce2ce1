import InstallerRegistry.Proofs.Lists
import Mathlib.Data.Nat.Find

/-!
# Computations that can fail

A sequence of steps succeeds if each of them does, on the result of the one before
(`bind_eq_ok_iff`), and it fails where the first of them does (`bind_eq_error_iff`). A traversal of
a list succeeds if every step does, and then its results stand one by one for the items
(`mapM_eq_ok_iff`), so that facts about what it returns are facts about pairs of an item and its
result. It fails with the first error that one of its steps fails with (`mapM_eq_error_iff`), where
the first error is the one at the least position (`FirstError`).
-/

namespace InstallerRegistry

variable {α β ε : Type}

theorem bind_eq_ok_iff {x : Except ε α} {f : α → Except ε β} {b : β} :
    x >>= f = .ok b ↔ ∃ a, x = .ok a ∧ f a = .ok b := by
  cases x with
  | error e => exact ⟨nofun, nofun⟩
  | ok a => exact ⟨fun h => ⟨a, rfl, h⟩, fun ⟨_, h, h'⟩ => Except.ok.inj h ▸ h'⟩

theorem bind_eq_error_iff {x : Except ε α} {f : α → Except ε β} {e : ε} :
    x >>= f = .error e ↔ x = .error e ∨ ∃ a, x = .ok a ∧ f a = .error e := by
  cases x with
  | error e' =>
    show Except.error e' = Except.error e ↔ _
    rw [Except.error.injEq, Except.error.injEq]
    exact ⟨.inl, fun h => h.resolve_right nofun⟩
  | ok a => exact ⟨fun h => .inr ⟨a, rfl, h⟩, fun h =>
      (h.resolve_left nofun).elim fun _ ⟨h, h'⟩ => Except.ok.inj h ▸ h'⟩

/-- **A traversal succeeds** exactly if each of its steps does. -/
theorem mapM_eq_ok_iff {f : α → Except ε β} {l : List α} {l' : List β} :
    l.mapM f = .ok l' ↔ List.Forall₂ (fun a b => f a = .ok b) l l' := by
  induction l generalizing l' with
  | nil => cases l' <;> simp [pure, Except.pure]
  | cons a l ih =>
    rw [List.mapM_cons, bind_eq_ok_iff]
    constructor
    · rintro ⟨b, hb, h⟩
      obtain ⟨bs, hbs, h⟩ := bind_eq_ok_iff.1 h
      cases h
      exact .cons hb (ih.1 hbs)
    · rintro (_ | ⟨hb, hbs⟩)
      exact ⟨_, hb, bind_eq_ok_iff.2 ⟨_, ih.2 hbs, rfl⟩⟩

/-- There is a result of a traversal exactly if there is one of each of its steps. -/
theorem exists_mapM_eq_ok_iff {f : α → Except ε β} {l : List α} :
    (∃ l', l.mapM f = .ok l') ↔ ∀ a ∈ l, ∃ b, f a = .ok b := by
  simp only [mapM_eq_ok_iff]
  induction l with
  | nil => exact ⟨fun _ a ha => absurd ha List.not_mem_nil, fun _ => ⟨[], .nil⟩⟩
  | cons a l ih =>
    rw [List.forall_mem_cons, ← ih]
    constructor
    · rintro ⟨_, _ | ⟨hb, hbs⟩⟩
      exact ⟨⟨_, hb⟩, ⟨_, hbs⟩⟩
    · rintro ⟨⟨b, hb⟩, ⟨bs, hbs⟩⟩
      exact ⟨b :: bs, .cons hb hbs⟩

/-- Traversals whose steps have the same outcomes have the same outcome. -/
theorem mapM_eq_mapM_of_forall₂ {γ : Type} {f : α → Except ε γ} {g : β → Except ε γ} {l : List α}
    {l' : List β} (h : List.Forall₂ (fun a b => f a = g b) l l') : l.mapM f = l'.mapM g := by
  induction h with
  | nil => rfl
  | cons hab _ ih => rw [List.mapM_cons, List.mapM_cons, hab, ih]

/-- What a traversal returns comes from its items. -/
theorem exists_of_mem_mapM {f : α → Except ε β} {l : List α} {l' : List β}
    (h : l.mapM f = .ok l') {b : β} (hb : b ∈ l') : ∃ a ∈ l, f a = .ok b :=
  exists_left_of_forall₂ (mapM_eq_ok_iff.1 h) hb

/-- Checking along a list is checking its first item, and then the others. -/
theorem forM_cons {f : α → Except ε Unit} {a : α} {l : List α} :
    (a :: l).forM f = f a >>= fun _ => l.forM f :=
  rfl

/-- Checking every item succeeds exactly if each of the checks does. -/
theorem forM_eq_ok_iff {f : α → Except ε Unit} {l : List α} :
    l.forM f = .ok () ↔ ∀ a ∈ l, f a = .ok () := by
  induction l with
  | nil => exact ⟨fun _ a ha => absurd ha List.not_mem_nil, fun _ => rfl⟩
  | cons a l ih =>
    rw [forM_cons, bind_eq_ok_iff, List.forall_mem_cons, ← ih]
    exact ⟨fun ⟨_, h, h'⟩ => ⟨h, h'⟩, fun ⟨h, h'⟩ => ⟨(), h, h'⟩⟩

/-- Looking along what some items give is looking along the items. -/
theorem forM_filterMap {f : β → Except ε Unit} {g : α → Option β} {l : List α} :
    (l.filterMap g).forM f = l.forM fun a => (g a).elim (.ok ()) f := by
  induction l with
  | nil => rfl
  | cons a l ih =>
    cases hg : g a with
    | none =>
      rw [List.filterMap_cons_none hg, ih, forM_cons, hg]
      rfl
    | some b =>
      rw [List.filterMap_cons_some hg, forM_cons, ih, forM_cons, hg, Option.elim_some]

/-- Success does not depend on how errors are reported. -/
theorem mapError_eq_ok_iff {ε' : Type} {f : ε → ε'} {x : Except ε α} {a : α} :
    x.mapError f = .ok a ↔ x = .ok a := by
  cases x with
  | error e => exact ⟨nofun, nofun⟩
  | ok b =>
    show Except.ok b = Except.ok a ↔ _
    rw [Except.ok.injEq, Except.ok.injEq]

/-! ## The first error -/

/-- **The first error** of those that there are at some places. -/
def FirstError (P : ℕ → ε → Prop) (e : ε) : Prop :=
  ∃ i, P i e ∧ ∀ j < i, ∀ e', ¬ P j e'

/-- The first error is at the first place, or there is none and it is the first one of those behind
it. -/
theorem firstError_iff {P : ℕ → ε → Prop} {e : ε} :
    FirstError P e ↔ P 0 e ∨ (∀ e', ¬ P 0 e') ∧ FirstError (fun i => P (i + 1)) e := by
  constructor
  · rintro ⟨i, hi, hbefore⟩
    cases i with
    | zero => exact .inl hi
    | succ i =>
      exact .inr ⟨hbefore 0 (Nat.succ_pos i),
        i, hi, fun j hj => hbefore (j + 1) (Nat.succ_lt_succ hj)⟩
  · rintro (h | ⟨hzero, i, hi, hbefore⟩)
    · exact ⟨0, h, fun j hj => absurd hj (Nat.not_lt_zero j)⟩
    · refine ⟨i + 1, hi, fun j hj => ?_⟩
      cases j with
      | zero => exact hzero
      | succ j => exact hbefore j (Nat.lt_of_succ_lt_succ hj)

/-- Where there are no errors but at the first place, the first error is there. -/
theorem firstError_iff_zero {P : ℕ → ε → Prop} (h : ∀ i e, ¬ P (i + 1) e) {e : ε} :
    FirstError P e ↔ P 0 e := by
  rw [firstError_iff]
  exact or_iff_left fun ⟨_, i, hi, _⟩ => h i e hi

/-- There is a first error if there is any. -/
theorem exists_firstError_iff {P : ℕ → ε → Prop} : (∃ e, FirstError P e) ↔ ∃ i e, P i e := by
  classical
  constructor
  · rintro ⟨e, i, hi, _⟩
    exact ⟨i, e, hi⟩
  · intro h
    obtain ⟨e, he⟩ := Nat.find_spec h
    exact ⟨e, Nat.find h, he, fun j hj e' he' => Nat.find_min h hj ⟨e', he'⟩⟩

theorem firstError_congr {P Q : ℕ → ε → Prop} (h : ∀ i e, P i e ↔ Q i e) {e : ε} :
    FirstError P e ↔ FirstError Q e := by
  simp only [FirstError, h]

/-- The first error of something that may be there. -/
theorem firstError_exists_iff {o : Option α} {P : α → ℕ → ε → Prop} {e : ε} :
    FirstError (fun i e => ∃ a, o = some a ∧ P a i e) e ↔ ∃ a, o = some a ∧ FirstError (P a) e := by
  cases o with
  | none => exact ⟨fun ⟨_, ⟨_, h, _⟩, _⟩ => absurd h nofun, fun ⟨_, h, _⟩ => absurd h nofun⟩
  | some a => simp only [Option.some_inj, exists_eq_left']

/-- There is a result exactly if there is no error. -/
theorem exists_eq_ok_iff {x : Except ε α} : (∃ a, x = .ok a) ↔ ∀ e, ¬ x = .error e := by
  cases x with
  | error e => exact ⟨nofun, fun h => absurd rfl (h e)⟩
  | ok a => exact ⟨nofun, fun _ => ⟨a, rfl⟩⟩

theorem eq_ok_iff_forall_ne_error {x : Except ε Unit} : x = .ok () ↔ ∀ e, ¬ x = .error e := by
  rw [← exists_eq_ok_iff]
  exact ⟨fun h => ⟨(), h⟩, fun ⟨_, h⟩ => h⟩

/-- **Two steps fail** with the first error of some places, if the first step fails with the error
at the first place, and the second one with the first error behind it. -/
theorem bind_eq_error_iff_firstError {x : Except ε α} {f : α → Except ε β} {P : ℕ → ε → Prop}
    {e : ε} (hfirst : ∀ e', x = .error e' ↔ P 0 e')
    (hbehind : ∀ a, x = .ok a → (f a = .error e ↔ FirstError (fun i => P (i + 1)) e)) :
    x >>= f = .error e ↔ FirstError P e := by
  rw [firstError_iff, bind_eq_error_iff]
  simp only [← hfirst]
  rw [← exists_eq_ok_iff, ← exists_and_right]
  exact or_congr_right (exists_congr fun a => and_congr_right (hbehind a))

/-- What is done with a result in the end does not fail. -/
theorem bind_pure_eq_error_iff {x : Except ε α} {f : α → β} {e : ε} :
    (x >>= fun a => pure (f a)) = .error e ↔ x = .error e := by
  rw [bind_eq_error_iff]
  exact ⟨fun h => h.resolve_right fun ⟨_, _, h'⟩ => absurd h' nofun, .inl⟩

/-- **A traversal fails** with the first error that one of its steps fails with. -/
theorem mapM_eq_error_iff {f : α → Except ε β} {l : List α} {e : ε} :
    l.mapM f = .error e ↔ FirstError (fun i e => ∃ a, l[i]? = some a ∧ f a = .error e) e := by
  induction l with
  | nil => exact ⟨nofun, fun ⟨_, ⟨_, h, _⟩, _⟩ => absurd h nofun⟩
  | cons a l ih =>
    rw [List.mapM_cons]
    refine bind_eq_error_iff_firstError (fun e' => ?_) fun _ _ => bind_pure_eq_error_iff.trans ih
    simp only [List.getElem?_cons_zero, Option.some_inj, exists_eq_left']

/-- Checks along a list are a traversal whose results say nothing. -/
theorem forM_eq_mapM {f : α → Except ε Unit} {l : List α} :
    l.forM f = l.mapM f >>= fun _ => .ok () := by
  induction l with
  | nil => rfl
  | cons a l ih =>
    rw [forM_cons, ih, List.mapM_cons]
    cases f a with
    | error e => rfl
    | ok u => cases l.mapM f <;> rfl

theorem forM_eq_error_iff {f : α → Except ε Unit} {l : List α} {e : ε} :
    l.forM f = .error e ↔ FirstError (fun i e => ∃ a, l[i]? = some a ∧ f a = .error e) e := by
  rw [forM_eq_mapM, ← mapM_eq_error_iff]
  exact bind_pure_eq_error_iff

end InstallerRegistry
