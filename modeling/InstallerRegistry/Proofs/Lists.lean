import Mathlib.Data.List.Chain
import Mathlib.Data.List.Forall2
import Mathlib.Data.List.Induction
import Mathlib.Data.List.Nodup

/-!
# Lists

What the proofs about manifests and fragments need to know about lists: partners in two lists that
stand in a relation one by one, what holds of each item and those before it, a list without its
repetitions, and the only item of a list that has a key.
-/

namespace InstallerRegistry

variable {α β γ : Type}

/-! ## Partners -/

theorem exists_right_of_forall₂ {R : α → β → Prop} {l : List α} {l' : List β}
    (h : List.Forall₂ R l l') {a : α} (ha : a ∈ l) : ∃ b ∈ l', R a b := by
  induction h with
  | nil => exact absurd ha List.not_mem_nil
  | cons hab _ ih =>
    rcases List.mem_cons.1 ha with rfl | ha
    · exact ⟨_, List.mem_cons_self, hab⟩
    · obtain ⟨b, hb, hab⟩ := ih ha
      exact ⟨b, List.mem_cons_of_mem _ hb, hab⟩

theorem exists_left_of_forall₂ {R : α → β → Prop} {l : List α} {l' : List β}
    (h : List.Forall₂ R l l') {b : β} (hb : b ∈ l') : ∃ a ∈ l, R a b :=
  exists_right_of_forall₂ (R := flip R) h.flip hb

/-- The partner of an item stands between those of the items before it and behind it. -/
theorem exists_append_cons_of_forall₂ {R : α → β → Prop} {before after : List α} {a : α}
    {l' : List β} (h : List.Forall₂ R (before ++ a :: after) l') :
    ∃ before' b after', l' = before' ++ b :: after' ∧ List.Forall₂ R before before' ∧ R a b
      ∧ List.Forall₂ R after after' := by
  induction before generalizing l' with
  | nil =>
    obtain ⟨b, after', hab, hafter, rfl⟩ := List.forall₂_cons_left_iff.1 h
    exact ⟨[], b, after', rfl, .nil, hab, hafter⟩
  | cons c before ih =>
    obtain ⟨d, l', hcd, hl', rfl⟩ := List.forall₂_cons_left_iff.1 h
    obtain ⟨before', b, after', rfl, hbefore, hab, hafter⟩ := ih hl'
    exact ⟨d :: before', b, after', rfl, .cons hcd hbefore, hab, hafter⟩

/-- Items that each have a partner have a list of partners. -/
theorem exists_forall₂ {R : α → β → Prop} {l : List α} (h : ∀ a ∈ l, ∃ b, R a b) :
    ∃ l', List.Forall₂ R l l' := by
  induction l with
  | nil => exact ⟨[], .nil⟩
  | cons a l ih =>
    obtain ⟨⟨b, hb⟩, hl⟩ := List.forall_mem_cons.1 h
    obtain ⟨l', hl'⟩ := ih hl
    exact ⟨b :: l', .cons hb hl'⟩

/-- Where each pair of partners has something in between, there is a list of these things. -/
theorem exists_between_of_forall₂ {R : α → β → Prop} {S : α → γ → Prop} {T : γ → β → Prop}
    {l : List α} {l' : List β} (h : List.Forall₂ R l l')
    (hR : ∀ a b, R a b → ∃ c, S a c ∧ T c b) :
    ∃ between, List.Forall₂ S l between ∧ List.Forall₂ T between l' := by
  induction h with
  | nil => exact ⟨[], .nil, .nil⟩
  | cons hab _ ih =>
    obtain ⟨c, hac, hcb⟩ := hR _ _ hab
    obtain ⟨between, hleft, hright⟩ := ih
    exact ⟨c :: between, .cons hac hleft, .cons hcb hright⟩

/-- Where each partner gives one thing, what all of them give stands in the order of the items. -/
theorem forall₂_flatMap_of_singleton {R : α → β → Prop} {S : α → γ → Prop} {f : β → List γ}
    {l : List α} {l' : List β} (h : List.Forall₂ R l l')
    (hR : ∀ a b, R a b → ∃ c, f b = [c] ∧ S a c) : List.Forall₂ S l (l'.flatMap f) := by
  induction h with
  | nil => exact .nil
  | cons hab _ ih =>
    obtain ⟨c, hc, hac⟩ := hR _ _ hab
    rw [List.flatMap_cons, hc]
    exact .cons hac ih

theorem map_eq_map_of_forall₂ {f : α → γ} {g : β → γ} {l : List α} {l' : List β}
    (h : List.Forall₂ (fun a b => g b = f a) l l') : l'.map g = l.map f := by
  induction h with
  | nil => rfl
  | cons hab _ ih => rw [List.map_cons, List.map_cons, hab, ih]

theorem forall_mem_iff_of_forall₂ {p : α → Prop} {q : β → Prop} {l : List α} {l' : List β}
    (h : List.Forall₂ (fun a b => q b ↔ p a) l l') : (∀ b ∈ l', q b) ↔ ∀ a ∈ l, p a := by
  induction h with
  | nil => exact iff_of_true nofun nofun
  | cons hab _ ih => rw [List.forall_mem_cons, List.forall_mem_cons, hab, ih]

/-- What holds of pairs of items holds of the pairs of their partners, if it goes over to them. -/
theorem pairwise_iff_of_forall₂ {R : α → β → Prop} {D S : α → α → Prop} {T : β → β → Prop}
    {l : List α} {l' : List β} (h : List.Forall₂ R l l') (hD : l.Pairwise D)
    (hR : ∀ a a' b b', D a a' → R a b → R a' b' → (T b b' ↔ S a a')) :
    l'.Pairwise T ↔ l.Pairwise S := by
  induction h with
  | nil => exact iff_of_true .nil .nil
  | @cons a b l l' hab hl ih =>
    obtain ⟨ha, hD⟩ := List.pairwise_cons.1 hD
    have hfirst : List.Forall₂ (fun a' b' => T b b' ↔ S a a') l l' :=
      ((List.forall₂_and_left _ _).2 ⟨ha, hl⟩).imp fun a' b' h => hR _ _ _ _ h.1 hab h.2
    rw [List.pairwise_cons, List.pairwise_cons, ih hD, forall_mem_iff_of_forall₂ hfirst]

/-- Partners stay partners when both lists are sorted, if they are in the same order. -/
theorem forall₂_mergeSort {R : α → β → Prop} {le : α → α → Bool} {le' : β → β → Bool}
    {l : List α} {l' : List β} (h : List.Forall₂ R l l')
    (hle : ∀ a b a' b', R a b → R a' b' → le a a' = le' b b') :
    List.Forall₂ R (l.mergeSort le) (l'.mergeSort le') := by
  -- both are what is left of the sorted list of pairs
  obtain ⟨hlength, hpairs⟩ := List.forall₂_iff_zip.1 h
  have hleft : ((l.zip l').mergeSort fun x y => le x.1 y.1).map Prod.fst = l.mergeSort le := by
    refine (List.map_mergeSort (s := le) (f := Prod.fst) fun _ _ _ _ => rfl).trans ?_
    rw [List.map_fst_zip (Nat.le_of_eq hlength)]
  have hright : ((l.zip l').mergeSort fun x y => le x.1 y.1).map Prod.snd = l'.mergeSort le' := by
    refine (List.map_mergeSort (s := le') (f := Prod.snd)
      fun x hx y hy => hle _ _ _ _ (hpairs hx) (hpairs hy)).trans ?_
    rw [List.map_snd_zip (Nat.le_of_eq hlength.symm)]
  rw [← hleft, ← hright, List.forall₂_map_left_iff, List.forall₂_map_right_iff, List.forall₂_same]
  exact fun x hx => hpairs (List.mem_mergeSort.1 hx)

/-- Items that each give something have what they give as their partners. -/
theorem forall₂_filterMap {R : α → β → Prop} {f : α → Option β} {l : List α}
    (h : ∀ a ∈ l, ∃ b, f a = some b ∧ R a b) : List.Forall₂ R l (l.filterMap f) := by
  induction l with
  | nil => exact .nil
  | cons a l ih =>
    obtain ⟨⟨b, hb, hab⟩, hl⟩ := List.forall_mem_cons.1 h
    rw [List.filterMap_cons_some hb]
    exact .cons hab (ih hl)

/-- What holds of neighbours holds of the partners of neighbours, if it goes over to them. -/
theorem isChain_of_forall₂ {R : α → β → Prop} {S : α → α → Prop} {T : β → β → Prop} {l : List α}
    {l' : List β} (h : List.Forall₂ R l l') (hchain : l.IsChain S)
    (hR : ∀ a a' b b', a ∈ l → a' ∈ l → R a b → R a' b' → S a a' → T b b') : l'.IsChain T := by
  induction h with
  | nil => exact .nil
  | @cons a b l l' hab hl ih =>
    have hrest := ih hchain.tail fun a a' b b' ha ha' =>
      hR a a' b b' (List.mem_cons_of_mem _ ha) (List.mem_cons_of_mem _ ha')
    cases hl with
    | nil => exact .singleton b
    | cons hab' hl =>
      refine .cons_cons (hR _ _ _ _ List.mem_cons_self (List.mem_cons_of_mem _ List.mem_cons_self)
        hab hab' (List.isChain_cons_cons.1 hchain).1) hrest

/-! ## Items and what is before them -/

theorem forall_prefix_cons_iff {a : α} {l : List α} {P : List α → α → Prop} :
    (∀ before b, before ++ [b] <+: a :: l → P before b)
      ↔ P [] a ∧ ∀ before b, before ++ [b] <+: l → P (a :: before) b := by
  constructor
  · intro h
    exact ⟨h [] a (List.prefix_append [a] l), fun before b hbefore =>
      h (a :: before) b (List.cons_prefix_cons.2 ⟨rfl, hbefore⟩)⟩
  · rintro ⟨ha, hl⟩ before b h
    cases before with
    | nil =>
      obtain ⟨rfl, _⟩ := List.cons_prefix_cons.1 h
      exact ha
    | cons c before =>
      obtain ⟨rfl, hrest⟩ := List.cons_prefix_cons.1 h
      exact hl before b hrest

theorem forall_prefix_concat_iff {a : α} {l : List α} {P : List α → α → Prop} :
    (∀ before b, before ++ [b] <+: l ++ [a] → P before b)
      ↔ P l a ∧ ∀ before b, before ++ [b] <+: l → P before b := by
  simp only [List.prefix_concat_iff]
  constructor
  · exact fun h => ⟨h l a (.inl rfl), fun before b hbefore => h before b (.inr hbefore)⟩
  · rintro ⟨ha, hl⟩ before b (h | h)
    · obtain ⟨rfl, hlast⟩ := List.append_inj' h rfl
      rw [List.singleton_inj.1 hlast]
      exact ha
    · exact hl before b h

/-- What is picked from a list is pairwise different if nothing is picked again. -/
theorem nodup_filterMap_iff {f : α → Option β} {l : List α} :
    (l.filterMap f).Nodup
      ↔ ∀ before a, before ++ [a] <+: l → ∀ b ∈ f a, b ∉ before.filterMap f := by
  induction l using List.reverseRecOn with
  | nil => simp
  | append_singleton l a ih =>
    rw [forall_prefix_concat_iff, ← ih, List.filterMap_append, List.nodup_append_comm]
    cases hfa : f a with
    | none => simp [hfa]
    | some b => simp [hfa]

/-! ## Lists without their repetitions -/

section Repetitions

variable [BEq α] [LawfulBEq α]

theorem eraseDups_concat (l : List α) (a : α) :
    (l ++ [a]).eraseDups = if a ∈ l.eraseDups then l.eraseDups else l.eraseDups ++ [a] := by
  rw [List.eraseDups_append]
  by_cases h : a ∈ l
  · have hremoved : [a].removeAll l = [] := by simp [List.removeAll, h]
    rw [hremoved, if_pos (List.mem_eraseDups.2 h)]
    exact List.append_nil _
  · have hkept : [a].removeAll l = [a] := by simp [List.removeAll, h]
    rw [hkept, if_neg (mt List.mem_eraseDups.1 h)]
    rfl

theorem nodup_eraseDups (l : List α) : l.eraseDups.Nodup := by
  induction l using List.reverseRecOn with
  | nil => exact List.nodup_nil
  | append_singleton l a ih =>
    rw [eraseDups_concat]
    split
    next => exact ih
    next h => exact List.nodup_append_comm.1 (List.nodup_cons.2 ⟨h, ih⟩)

end Repetitions

/-! ## Keys -/

variable [DecidableEq β] {key : α → β}

/-- **Only one item has its key** if the keys are pairwise different. -/
theorem filter_key_eq_singleton {l : List α} (h : (l.map key).Nodup) {a : α} (ha : a ∈ l) :
    l.filter (fun b => key b = key a) = [a] := by
  induction l with
  | nil => exact absurd ha List.not_mem_nil
  | cons b l ih =>
    obtain ⟨hb, hl⟩ := List.nodup_cons.1 h
    rcases List.mem_cons.1 ha with rfl | ha
    · have hrest : l.filter (fun b => key b = key a) = [] := by
        rw [List.filter_eq_nil_iff]
        intro c hc hkey
        exact hb (List.mem_map.2 ⟨c, hc, by simpa using hkey⟩)
      rw [List.filter_cons_of_pos (by simp), hrest]
    · have hne : key b ≠ key a := fun hkey => hb (hkey ▸ List.mem_map_of_mem ha)
      rw [List.filter_cons_of_neg (by simpa using hne), ih hl ha]

/-- What belongs to one key is found once, under the item that has it. -/
theorem flatMap_key_eq {l : List α} (h : (l.map key).Nodup) {a : α} (ha : a ∈ l) (c : List γ) :
    (l.flatMap fun b => if key b = key a then c else []) = c := by
  have hfilter : ∀ l : List α, (l.flatMap fun b => if key b = key a then c else [])
      = (l.filter fun b => key b = key a).flatMap fun _ => c := by
    intro l
    induction l with
    | nil => rfl
    | cons b l ih =>
      rw [List.flatMap_cons, ih]
      by_cases hb : key b = key a
      · rw [if_pos hb, List.filter_cons_of_pos (by simpa using hb), List.flatMap_cons]
      · rw [if_neg hb, List.filter_cons_of_neg (by simpa using hb), List.nil_append]
  rw [hfilter, filter_key_eq_singleton h ha, List.flatMap_singleton]

end InstallerRegistry
