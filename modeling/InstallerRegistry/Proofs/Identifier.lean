import InstallerRegistry.Identifier
import InstallerRegistry.Proofs.Lists
import Mathlib.Data.Finset.Card
import Mathlib.Data.List.Nodup

/-!
# Fresh identifiers

A fresh identifier differs from all that are in use (`Identifier.fresh_notMem`): the candidates are
pairwise different, and there is one more of them than there are identifiers in use.
-/

namespace InstallerRegistry.Identifier

theorem ofNat_injective {m n : Nat} (h : Text.ofNat m = Text.ofNat n) : m = n := by
  have hread : ∀ k, Nat.ofDigitChars 10 (Text.ofNat k) 0 = k :=
    fun _ => Nat.ofDigitChars_ten_toDigits
  rw [← hread m, h, hread]

theorem numbered_injective {base : Text} {m n : Nat} (h : numbered base m = numbered base n) :
    m = n :=
  ofNat_injective (List.cons.inj (List.append_cancel_left h)).2

/-- The candidates are pairwise different. -/
theorem nodup_candidates (base : Text) (count : Nat) : (candidates base count).Nodup := by
  refine List.nodup_cons.2 ⟨fun h => ?_, ?_⟩
  · obtain ⟨i, _, hi⟩ := List.mem_map.1 h
    have hlength := congrArg List.length hi
    simp [numbered] at hlength
  · refine List.nodup_range.map fun i j h => ?_
    exact Nat.add_right_cancel (numbered_injective h)

/-- A fresh identifier is the one it is made from, or this one with a number from two on. -/
theorem fresh_eq_or (used : List Text) (base : Text) :
    fresh used base = base ∨ ∃ n, 2 ≤ n ∧ fresh used base = numbered base n := by
  unfold fresh
  cases hfind : (candidates base used.length).find? fun id => !used.contains id with
  | none => exact .inl rfl
  | some id =>
    rcases List.mem_cons.1 (List.mem_of_find?_eq_some hfind) with rfl | h
    · exact .inl rfl
    · obtain ⟨i, _, rfl⟩ := List.mem_map.1 h
      exact .inr ⟨i + 2, Nat.le_add_left 2 i, rfl⟩

/-- **Not all candidates are in use** if there is one more of them than identifiers in use. -/
theorem exists_candidate_notMem {used : List Text} {count : Nat} (h : used.toFinset.card ≤ count)
    (base : Text) : ∃ id ∈ candidates base count, id ∉ used := by
  by_contra hnone
  have hsubset : (candidates base count).toFinset ⊆ used.toFinset := by
    intro id hid
    rw [List.mem_toFinset] at hid ⊢
    exact not_not.1 fun hfree => hnone ⟨id, hid, hfree⟩
  have hcard := Finset.card_le_card hsubset
  rw [List.toFinset_card_of_nodup (nodup_candidates base count), candidates, List.length_cons,
    List.length_map, List.length_range] at hcard
  omega

/-- **A fresh identifier is not in use.** -/
theorem fresh_notMem (used : List Text) (base : Text) : fresh used base ∉ used := by
  unfold fresh
  cases hfind : (candidates base used.length).find? fun id => !used.contains id with
  | some id => simpa using List.find?_some hfind
  | none =>
    obtain ⟨id, hid, hfree⟩ := exists_candidate_notMem (List.toFinset_card_le used) base
    exact absurd (List.find?_eq_none.1 hfind id hid) (by simpa using hfree)

/-! ## What identifiers look like -/

/-- The **shape** of an identifier: what it starts with and what it is made of, however long it
is. -/
structure HasShape (id : Text) : Prop where
  head : ∃ c ∈ id.head?, isStart c
  all : ∀ c ∈ id, isPart c

theorem isPart_of_isStart {c : Char} (h : isStart c) : isPart c := by
  unfold isStart at h
  rw [isPart, Char.isAlphanum]
  rcases Bool.or_eq_true_iff.1 h with h | h <;> simp [h]

/-- **An identifier is valid** exactly if it has the shape of one and is not too long. -/
theorem isValid_iff {id : Text} : isValid id ↔ HasShape id ∧ id.length ≤ maxLength := by
  cases id with
  | nil => exact iff_of_false (by decide) fun h => absurd h.1.head (by simp)
  | cons c rest =>
    simp only [isValid, Bool.and_eq_true, decide_eq_true_eq]
    refine and_congr_left fun _ => ⟨fun ⟨hstart, hrest⟩ => ?_, fun h => ?_⟩
    · exact ⟨⟨c, rfl, hstart⟩,
        List.forall_mem_cons.2 ⟨isPart_of_isStart hstart, List.all_eq_true.1 hrest⟩⟩
    · obtain ⟨d, hd, hstart⟩ := h.head
      obtain rfl : c = d := Option.some.inj hd
      exact ⟨hstart, List.all_eq_true.2 (List.forall_mem_cons.1 h.all).2⟩

theorem hasShape_of_isValid {id : Text} (h : isValid id) : HasShape id :=
  (isValid_iff.1 h).1

theorem HasShape.append {id t : Text} (h : HasShape id) (ht : ∀ c ∈ t, isPart c) :
    HasShape (id ++ t) := by
  obtain ⟨c, hc, hstart⟩ := h.head
  refine ⟨⟨c, ?_, hstart⟩, fun d hd => ?_⟩
  · rw [List.head?_append, hc]
    rfl
  · exact (List.mem_append.1 hd).elim (h.all d) (ht d)

theorem isPart_ofNat (n : Nat) : ∀ c ∈ Text.ofNat n, isPart c := by
  intro c hc
  have hdigit : c.isDigit := Nat.isDigit_of_mem_toDigits (by decide) (by decide) hc
  simp [isPart, Char.isAlphanum, hdigit]

/-- What a character of a name is in an identifier. -/
def StandsFor (c d : Char) : Prop :=
  d = if isPart c then c else '_'

/-- There is one text whose characters stand for those of another. -/
theorem forall₂_standsFor_iff {t stem : Text} :
    List.Forall₂ StandsFor t stem ↔ stem = sanitize t := by
  have hstandsFor : StandsFor = fun c d => (if isPart c then c else '_') = d := by
    funext c d
    exact propext eq_comm
  rw [hstandsFor, eq_comm, sanitize, ← List.forall₂_eq_eq_eq, List.forall₂_map_left_iff]

/-- What an identifier has of a name: the name with underscores for the characters that no
identifier has. The empty name is that of a default value. -/
def IsStem (name stem : Text) : Prop :=
  (name = [] ∧ stem = "Default".toList) ∨ (name ≠ [] ∧ List.Forall₂ StandsFor name stem)

/-- Is the identifier **derived** from the name of a value? Behind its beginning it has the stem of
the name, and there may be a number from two on. -/
def IsDerived (name id : Text) : Prop :=
  ∃ stem number, id = "RegValue_".toList ++ stem ++ number ∧ IsStem name stem
    ∧ (number = [] ∨ ∃ n, 2 ≤ n ∧ number = '_' :: Text.ofNat n)

theorem exists_isStem (name : Text) :
    ∃ stem, IsStem name stem ∧ ofName name = "RegValue_".toList ++ stem := by
  unfold ofName
  by_cases h : name = []
  · rw [if_pos (List.isEmpty_iff.2 h)]
    exact ⟨_, .inl ⟨h, rfl⟩, rfl⟩
  · rw [if_neg (mt List.isEmpty_iff.1 h)]
    exact ⟨_, .inr ⟨h, forall₂_standsFor_iff.2 rfl⟩, rfl⟩

/-- **A fresh identifier for a name is derived from it.** -/
theorem isDerived_fresh (used : List Text) (name : Text) :
    IsDerived name (fresh used (ofName name)) := by
  obtain ⟨stem, hstem, hname⟩ := exists_isStem name
  rcases fresh_eq_or used (ofName name) with h | ⟨n, hn, h⟩
  · exact ⟨stem, [], by rw [h, hname, List.append_nil], hstem, .inl rfl⟩
  · exact ⟨stem, '_' :: Text.ofNat n, by rw [h, hname, numbered], hstem, .inr ⟨n, hn, rfl⟩⟩

theorem isPart_of_isStem {name stem : Text} (h : IsStem name stem) : ∀ c ∈ stem, isPart c := by
  rcases h with ⟨_, rfl⟩ | ⟨_, h⟩
  · exact List.all_eq_true.1 rfl
  · intro d hd
    obtain ⟨c, _, rfl⟩ := exists_left_of_forall₂ h hd
    split
    next h => exact h
    next => decide

/-- **A derived identifier has the shape of one.** -/
theorem IsDerived.hasShape {name id : Text} (h : IsDerived name id) : HasShape id := by
  obtain ⟨stem, number, rfl, hstem, hnumber⟩ := h
  have hstart : HasShape "RegValue_".toList := ⟨⟨'R', rfl, by decide⟩, List.all_eq_true.1 rfl⟩
  refine (hstart.append (isPart_of_isStem hstem)).append ?_
  rcases hnumber with rfl | ⟨n, _, rfl⟩
  · exact fun c hc => absurd hc List.not_mem_nil
  · exact List.forall_mem_cons.2 ⟨by decide, isPart_ofNat n⟩

end InstallerRegistry.Identifier
