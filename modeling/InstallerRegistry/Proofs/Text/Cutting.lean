import InstallerRegistry.Text.Blank

/-!
# Cutting and trimming

What a reader gets out of a text that a writer has put together: the piece before a separator that
does not stand in it, and the text between two blank margins. The statements go from the pieces to
the text, so they are the ones that undo a writer; the other direction, that cutting loses nothing,
stands beside the operations (`Text.join_splitOn`, `Text.eq_of_cut?`).
-/

namespace InstallerRegistry.Text

variable {sep : Char} {a b t : Text} {p : Char → Bool}

/-! ## Cutting at a separator -/

/-- A text is cut at the first separator. -/
theorem cut?_append (h : sep ∉ a) (b : Text) : cut? sep (a ++ sep :: b) = some (a, b) := by
  induction a with
  | nil => simp [cut?]
  | cons c a ih =>
    obtain ⟨hc, ha⟩ := not_or.1 (fun h' => h (List.mem_cons.2 h'))
    rw [List.cons_append, cut?, if_neg (Ne.symm hc), ih ha]
    rfl

theorem cut?_of_notMem (h : sep ∉ t) : cut? sep t = none := by
  cases ht : cut? sep t with
  | none => rfl
  | some parts => exact absurd (by rw [eq_of_cut? ht]; simp) h

/-- What stands before the first separator is free of separators. -/
theorem notMem_of_cut? (h : cut? sep t = some (a, b)) : sep ∉ a := by
  induction t generalizing a with
  | nil => exact absurd h nofun
  | cons c t ih =>
    rw [cut?] at h
    split at h
    next =>
      rw [← (Prod.mk.inj (Option.some.inj h)).1]
      exact List.not_mem_nil
    next hc =>
      obtain ⟨⟨a', _⟩, hcut, ⟨⟩⟩ := Option.map_eq_some_iff.1 h
      rw [List.mem_cons]
      exact not_or.2 ⟨Ne.symm hc, ih hcut⟩

/-- A text that cannot be cut is free of separators. -/
theorem notMem_of_cut?_eq_none (h : cut? sep t = none) : sep ∉ t := by
  intro hmem
  obtain ⟨a, b, rfl, ha⟩ := List.eq_append_cons_of_mem hmem
  rw [cut?_append ha] at h
  exact absurd h nofun

/-- A longer separator is found where its first character stands first. -/
theorem cutAt?_append (h : sep ∉ a) (tail b : Text) :
    cutAt? (sep :: tail) (a ++ (sep :: tail ++ b)) = some (a, b) := by
  induction a with
  | nil =>
    rw [List.nil_append, List.cons_append, cutAt?, ← List.cons_append, after?_append]
  | cons c a ih =>
    obtain ⟨hc, ha⟩ := not_or.1 (fun h' => h (List.mem_cons.2 h'))
    rw [List.cons_append, cutAt?, after?, if_neg hc]
    dsimp only
    rw [ih ha]
    rfl

/-- A separator separates the pieces before it from those behind it. -/
theorem splitOn_append_cons (a b : Text) :
    splitOn sep (a ++ sep :: b) = splitOn sep a ++ splitOn sep b := by
  induction a with
  | nil => simp [splitOn]
  | cons c a ih =>
    rw [List.cons_append, splitOn, splitOn, ih]
    split
    next => rfl
    next =>
      cases hpieces : splitOn sep a with
      | nil => exact absurd hpieces (splitOn_ne_nil sep a)
      | cons piece pieces => rfl

@[simp] theorem splitOn_cons_self (sep : Char) (t : Text) :
    splitOn sep (sep :: t) = [] :: splitOn sep t :=
  if_pos rfl

theorem splitOn_cons_of_ne {c : Char} (h : c ≠ sep) (t : Text) :
    splitOn sep (c :: t) = (c :: (splitOn sep t).headD []) :: (splitOn sep t).tail := by
  rw [splitOn, if_neg h]
  cases hpieces : splitOn sep t with
  | nil => exact absurd hpieces (splitOn_ne_nil sep t)
  | cons piece pieces => rfl

theorem splitOn_of_notMem (h : sep ∉ t) : splitOn sep t = [t] := by
  induction t with
  | nil => rfl
  | cons c t ih =>
    obtain ⟨hc, ht⟩ := not_or.1 (fun h' => h (List.mem_cons.2 h'))
    rw [splitOn, if_neg (Ne.symm hc), ih ht]

theorem splitOn_append (h : sep ∉ a) (b : Text) :
    splitOn sep (a ++ sep :: b) = a :: splitOn sep b := by
  rw [splitOn_append_cons, splitOn_of_notMem h]
  rfl

/-- Pieces without separators are found again when they are joined. -/
theorem splitOn_join {pieces : List Text} (hne : pieces ≠ []) (h : ∀ piece ∈ pieces, sep ∉ piece) :
    splitOn sep (join [sep] pieces) = pieces := by
  induction pieces with
  | nil => exact absurd rfl hne
  | cons piece pieces ih =>
    obtain ⟨hpiece, hpieces⟩ := List.forall_mem_cons.1 h
    cases pieces with
    | nil => exact splitOn_of_notMem hpiece
    | cons next pieces =>
      rw [join, List.append_assoc, List.singleton_append, splitOn_append hpiece,
        ih (List.cons_ne_nil _ _) hpieces]

/-- Behind the first of joined pieces, the separator stands before each of the others. -/
theorem join_cons (sep piece : Text) (pieces : List Text) :
    join sep (piece :: pieces) = piece ++ pieces.flatMap (sep ++ ·) := by
  induction pieces generalizing piece with
  | nil => exact (List.append_nil piece).symm
  | cons next pieces ih => rw [join, ih, List.flatMap_cons, List.append_assoc, List.append_assoc]

/-- Joined pieces end as the last one of them does. -/
theorem exists_getLast?_join (sep : Char) {pieces : List Text} (hne : pieces ≠ [])
    (h : ∀ piece ∈ pieces, piece ≠ []) :
    ∃ piece ∈ pieces, (join [sep] pieces).getLast? = piece.getLast? := by
  induction pieces with
  | nil => exact absurd rfl hne
  | cons piece pieces ih =>
    cases pieces with
    | nil => exact ⟨piece, List.mem_cons_self, rfl⟩
    | cons next pieces =>
      obtain ⟨last, hlast, heq⟩ := ih (List.cons_ne_nil _ _) (List.forall_mem_cons.1 h).2
      refine ⟨last, List.mem_cons_of_mem _ hlast, ?_⟩
      have hsome : last.getLast?.isSome :=
        List.getLast?_isSome.2 (h last (List.mem_cons_of_mem _ hlast))
      rw [join, List.getLast?_append, heq, Option.or_of_isSome hsome]

/-- The pieces hold the characters of the text other than separators. -/
theorem mem_splitOn_iff {c : Char} (t : Text) :
    (∃ piece ∈ splitOn sep t, c ∈ piece) ↔ c ∈ t ∧ c ≠ sep := by
  induction t with
  | nil => simp [splitOn]
  | cons x t ih =>
    rw [splitOn]
    split
    next hx =>
      simp only [List.mem_cons, exists_eq_or_imp, List.not_mem_nil, false_or, hx]
      rw [ih]
      exact ⟨fun h => ⟨.inr h.1, h.2⟩, fun h => ⟨h.1.resolve_left h.2, h.2⟩⟩
    next hx =>
      cases hpieces : splitOn sep t with
      | nil => exact absurd hpieces (splitOn_ne_nil sep t)
      | cons piece pieces =>
        rw [hpieces] at ih
        simp only [List.mem_cons, exists_eq_or_imp] at ih ⊢
        rw [or_assoc, ih]
        constructor
        · rintro (rfl | h)
          · exact ⟨.inl rfl, hx⟩
          · exact ⟨.inr h.1, h.2⟩
        · rintro ⟨h | h, hc⟩
          · exact .inl h
          · exact .inr ⟨h, hc⟩

theorem notMem_of_mem_splitOn {piece : Text} (h : piece ∈ splitOn sep t) : sep ∉ piece :=
  fun hsep => ((mem_splitOn_iff t).1 ⟨piece, h, hsep⟩).2 rfl

theorem length_splitOn (t : Text) : (splitOn sep t).length = t.count sep + 1 := by
  induction t with
  | nil => rfl
  | cons c t ih =>
    rw [splitOn]
    split
    next h => rw [List.length_cons, ih, h, List.count_cons_self]
    next h =>
      obtain ⟨piece, pieces, hpieces⟩ := List.exists_cons_of_ne_nil (splitOn_ne_nil sep t)
      rw [hpieces] at ih ⊢
      rw [List.count_cons_of_ne h, ← ih]
      rfl

/-- The last piece is empty only behind a separator. -/
theorem getLast?_splitOn_concat {c : Char} (h : c ≠ sep) (t : Text) :
    (splitOn sep (t ++ [c])).getLast? ≠ some [] := by
  induction t with
  | nil => simp [splitOn, h]
  | cons x t ih =>
    obtain ⟨piece, pieces, hpieces⟩ := List.exists_cons_of_ne_nil (splitOn_ne_nil sep (t ++ [c]))
    rw [hpieces] at ih
    rw [List.cons_append, splitOn, hpieces]
    split
    next => rwa [List.getLast?_cons_cons]
    next =>
      cases pieces with
      | nil => simp
      | cons next pieces => rwa [List.getLast?_cons_cons] at ih ⊢

/-- **Splitting at one separator and joining with another** puts the one in place of the other. -/
theorem join_splitOn_eq_map (c d : Char) (t : Text) :
    join [d] (splitOn c t) = t.map fun x => if x = c then d else x := by
  induction t with
  | nil => rfl
  | cons x t ih =>
    obtain ⟨q, qs, hq⟩ := List.exists_cons_of_ne_nil (splitOn_ne_nil c t)
    rw [hq] at ih
    by_cases hx : x = c
    · rw [splitOn, if_pos hx, hq, join, ih, List.map_cons, if_pos hx]
      rfl
    · rw [splitOn, if_neg hx, hq, List.map_cons, if_neg hx, ← ih]
      cases qs <;> simp [join]

/-- Texts that each end with the separator are the joined texts with one more at the end. -/
theorem flatMap_concat_eq_join {pieces : List Text} (hne : pieces ≠ []) :
    pieces.flatMap (· ++ [sep]) = join [sep] pieces ++ [sep] := by
  induction pieces with
  | nil => exact absurd rfl hne
  | cons piece pieces ih =>
    cases pieces with
    | nil => simp [join]
    | cons next pieces =>
      rw [List.flatMap_cons, ih (List.cons_ne_nil _ _), join]
      simp only [List.append_assoc]

/-! ## Characters of a kind -/

/-- What is of a kind is taken from a text up to the first character that is not. -/
theorem span_append (ha : ∀ c ∈ a, p c = true) (hb : ∀ c ∈ b.head?, p c = false) :
    (a ++ b).takeWhile p = a ∧ (a ++ b).dropWhile p = b := by
  rw [List.takeWhile_append_of_pos ha, List.dropWhile_append_of_pos ha]
  cases b with
  | nil => exact ⟨List.append_nil a, rfl⟩
  | cons c b =>
    have hc : ¬ p c = true := by simp [hb c rfl]
    exact ⟨by rw [List.takeWhile_cons_of_neg hc, List.append_nil], List.dropWhile_cons_of_neg hc⟩

/-! ## Trimming -/

theorem dropEndWhile_append_of_all (a : Text) (h : ∀ c ∈ b, p c = true) :
    dropEndWhile p (a ++ b) = dropEndWhile p a := by
  unfold dropEndWhile
  rw [List.reverse_append,
    List.dropWhile_append_of_pos (fun c hc => h c (List.mem_reverse.1 hc))]

/-- Nothing is dropped but at the end. -/
theorem dropEndWhile_isPrefix (p : Char → Bool) (t : Text) : dropEndWhile p t <+: t := by
  rw [dropEndWhile, ← List.reverse_suffix, List.reverse_reverse]
  exact List.dropWhile_suffix p

/-- A text whose last character stays is not shortened. -/
theorem dropEndWhile_eq_self (h : ∀ c ∈ t.getLast?, p c = false) : dropEndWhile p t = t := by
  unfold dropEndWhile
  cases ht : t.reverse with
  | nil => rw [List.reverse_eq_nil_iff.1 ht]; rfl
  | cons c rest =>
    have hc : t.getLast? = some c := by
      rw [← List.reverse_reverse t, ht, List.getLast?_reverse]
      rfl
    rw [List.dropWhile_cons_of_neg (by simp [h c hc]), ← ht, List.reverse_reverse]

/-- A text whose first character stays keeps it. -/
theorem dropEndWhile_cons {c : Char} (h : p c = false) (t : Text) :
    dropEndWhile p (c :: t) = c :: dropEndWhile p t := by
  unfold dropEndWhile
  rw [List.reverse_cons, List.dropWhile_append]
  split
  next hall =>
    rw [List.dropWhile_cons_of_neg (by simp [h]), List.isEmpty_iff.1 hall]
    rfl
  next => rw [List.reverse_append, List.reverse_singleton, List.singleton_append]

/-- **Margins do not count**: what stands around a text and is dropped from its ends might as well
not be there. -/
theorem dropAround_margins (ha : ∀ c ∈ a, p c = true) (hb : ∀ c ∈ b, p c = true) :
    dropAround p (a ++ t ++ b) = dropAround p t := by
  unfold dropAround
  rw [List.append_assoc, List.dropWhile_append_of_pos ha, List.dropWhile_append]
  split
  next h =>
    have hb' : b.dropWhile p = [] := by
      rw [← List.append_nil b, List.dropWhile_append_of_pos hb, List.dropWhile_nil]
    rw [hb', List.isEmpty_iff.1 h]
  next => exact dropEndWhile_append_of_all _ hb

/-- A text that neither starts nor ends with what is dropped stays as it is. -/
theorem dropAround_eq_self (h₁ : ∀ c ∈ t.head?, p c = false)
    (h₂ : ∀ c ∈ t.getLast?, p c = false) : dropAround p t = t := by
  have hstart : t.dropWhile p = t := by
    cases t with
    | nil => rfl
    | cons c t => exact List.dropWhile_cons_of_neg (by simp [h₁ c rfl])
  rw [dropAround, hstart, dropEndWhile_eq_self h₂]

theorem head?_dropAround (p : Char → Bool) (t : Text) :
    ∀ c ∈ (dropAround p t).head?, p c = false := by
  intro c hc
  have hprefix : dropAround p t <+: t.dropWhile p := dropEndWhile_isPrefix p (t.dropWhile p)
  obtain ⟨rest, hrest⟩ := hprefix
  cases hd : dropAround p t with
  | nil => rw [hd] at hc; exact absurd hc (by simp)
  | cons c' t' =>
    rw [hd] at hc hrest
    rw [← Option.some.inj hc]
    have hne : t.dropWhile p ≠ [] := by
      rw [← hrest]
      exact List.cons_ne_nil _ _
    have hhead := List.head_dropWhile_not p hne
    simp only [← hrest, List.cons_append, List.head_cons] at hhead
    exact hhead

theorem getLast?_dropAround (p : Char → Bool) (t : Text) :
    ∀ c ∈ (dropAround p t).getLast?, p c = false := by
  intro c hc
  rw [dropAround, dropEndWhile, List.getLast?_reverse] at hc
  have hne : (t.dropWhile p).reverse.dropWhile p ≠ [] := fun h => by
    rw [h] at hc
    exact absurd hc (by simp)
  have hhead := List.head_dropWhile_not p hne
  rw [List.head?_eq_some_head hne] at hc
  rwa [Option.some.inj hc] at hhead

theorem mem_of_mem_dropAround {c : Char} (h : c ∈ dropAround p t) : c ∈ t := by
  rw [dropAround, dropEndWhile, List.mem_reverse] at h
  have h' := (List.dropWhile_suffix p).subset h
  exact (List.dropWhile_suffix p).subset (List.mem_reverse.1 h')

/-- Nothing is dropped but what is to be dropped. -/
theorem filter_dropAround (p : Char → Bool) (t : Text) :
    (dropAround p t).filter (fun c => !p c) = t.filter fun c => !p c := by
  have hstart : ∀ t : Text, (t.dropWhile p).filter (fun c => !p c) = t.filter fun c => !p c := by
    intro t
    induction t with
    | nil => rfl
    | cons c t ih => by_cases hc : p c <;> simp [hc, ih]
  rw [dropAround, dropEndWhile, List.filter_reverse, hstart, List.filter_reverse,
    List.reverse_reverse, hstart]

end InstallerRegistry.Text
