import InstallerRegistry.Proofs.Xml.Reader

/-!
# A processor of XML

A conforming processor does more than read tags. A document may only have characters that XML 1.0
allows (`Xml.isAllowed`). Before anything else, line ends are made the same: a carriage return, with
or without a line feed behind it, becomes a line feed (`Xml.normalizeLineEnds`). In the value of an
attribute, the white space that stands there literally then becomes blanks (`Xml.blankSpaces`).

None of the five references that the reader knows stands for white space, so all white space it
finds in a value is literal. The processor of this module (`Xml.Element.processed?`) is therefore
the reader between these two changes. Both together are what is reported of a value
(`Xml.reported`); a text is reported as it is if its characters are plain (`Xml.isPlain`).
-/

namespace InstallerRegistry.Xml

/-! ## Characters and white space -/

/-- Does XML 1.0 allow the character? -/
def isAllowed (c : Char) : Bool :=
  c == '\t' || c == '\n' || c == '\r'
    || 0x20 ≤ c.toNat && c.toNat ≤ 0xD7FF || 0xE000 ≤ c.toNat && c.toNat ≤ 0xFFFD
    || 0x10000 ≤ c.toNat && c.toNat ≤ 0x10FFFF

/-- The text with line feeds for all line ends. -/
def normalizeLineEnds : Text → Text
  | [] => []
  | '\r' :: '\n' :: t => '\n' :: normalizeLineEnds t
  | c :: t => (if c = '\r' then '\n' else c) :: normalizeLineEnds t

/-- The text with blanks for all white space. -/
def blankSpaces (t : Text) : Text :=
  t.map fun c => if isSpace c then ' ' else c

/-- What is reported of a value: each line end is one blank, and so is any other white space. -/
def reported (t : Text) : Text :=
  blankSpaces (normalizeLineEnds t)

/-- Is the character reported as itself? -/
def isPlain (c : Char) : Bool :=
  isAllowed c && (c == ' ' || !isSpace c)

theorem isAllowed_of_isPlain {c : Char} (h : isPlain c) : isAllowed c :=
  (Bool.and_eq_true_iff.1 h).1

theorem normalizeLineEnds_cons_of_ne {c : Char} (h : c ≠ '\r') (t : Text) :
    normalizeLineEnds (c :: t) = c :: normalizeLineEnds t := by
  rw [normalizeLineEnds, if_neg h]
  exact fun t' hc _ => h hc

/-- Before a text that does not start with a line feed, line ends are those of the text alone. -/
theorem normalizeLineEnds_append (t : Text) {rest : Text} (h : rest.head? ≠ some '\n') :
    normalizeLineEnds (t ++ rest) = normalizeLineEnds t ++ normalizeLineEnds rest := by
  fun_induction normalizeLineEnds t with
  | case1 => rfl
  | case2 t ih =>
    rw [List.cons_append, List.cons_append, normalizeLineEnds, ih]
    rfl
  | case3 c t hne ih =>
    rw [List.cons_append, normalizeLineEnds, ih]
    · rfl
    · -- no carriage return and line feed come together where the texts meet
      intro t' hc ht
      cases t with
      | nil => exact h (by rw [show rest = '\n' :: t' from ht]; rfl)
      | cons d t => exact hne t hc (by rw [(List.cons.inj ht).1])

theorem normalizeLineEnds_append_of_notMem {t : Text} (h : '\r' ∉ t) (rest : Text) :
    normalizeLineEnds (t ++ rest) = t ++ normalizeLineEnds rest := by
  induction t with
  | nil => rfl
  | cons c t ih =>
    obtain ⟨hc, ht⟩ := List.ne_and_not_mem_of_not_mem_cons h
    rw [List.cons_append, normalizeLineEnds_cons_of_ne (Ne.symm hc), ih ht, List.cons_append]

theorem eq_or_mem_of_mem_normalizeLineEnds {t : Text} {c : Char}
    (h : c ∈ normalizeLineEnds t) : c = '\n' ∨ c ∈ t := by
  fun_induction normalizeLineEnds t with
  | case1 => exact .inr h
  | case2 t ih =>
    rcases List.mem_cons.1 h with rfl | h
    · exact .inl rfl
    · exact (ih h).imp_right fun hc => List.mem_cons_of_mem _ (List.mem_cons_of_mem _ hc)
  | case3 d t hne ih =>
    rcases List.mem_cons.1 h with rfl | h
    · split
      next => exact .inl rfl
      next => exact .inr List.mem_cons_self
    · exact (ih h).imp_right (List.mem_cons_of_mem _)

/-- What is reported of characters that are allowed is plain. -/
theorem isPlain_of_mem_reported {t : Text} (h : ∀ c ∈ t, isAllowed c) :
    ∀ c ∈ reported t, isPlain c := by
  refine List.forall_mem_map.2 fun c hc => ?_
  split
  next => decide
  next hspace =>
    rcases eq_or_mem_of_mem_normalizeLineEnds hc with rfl | hc
    · exact absurd rfl hspace
    · simp [isPlain, h c hc, hspace]

example : reported "a\r\n\tb\rc".toList = "a  b c".toList := by decide

/-- Plain characters are reported as they are. -/
theorem reported_eq_self {t : Text} (h : ∀ c ∈ t, isPlain c) : reported t = t := by
  have hspace : ∀ c ∈ t, (if isSpace c then ' ' else c) = c := by
    intro c hc
    have hplain := h c hc
    split
    next hspace => simp_all [isPlain]
    next => rfl
  have hreturn : '\r' ∉ t := fun hmem => absurd (h '\r' hmem) (by decide)
  have hlines : normalizeLineEnds t = t := by
    have h := normalizeLineEnds_append_of_notMem hreturn []
    rwa [List.append_nil, normalizeLineEnds, List.append_nil] at h
  rw [reported, hlines, blankSpaces, List.map_congr_left hspace, List.map_id']

/-! ## The processor -/

namespace Element

mutual

/-- An element with the values of its attributes, and of those inside it, changed. -/
def mapValues (f : Text → Text) : Element → Element
  | ⟨name, attributes, children⟩ =>
    ⟨name, attributes.map (Prod.map id f), mapValuesAll f children⟩

/-- Some elements with the values of attributes changed. -/
def mapValuesAll (f : Text → Text) : List Element → List Element
  | [] => []
  | x :: xs => mapValues f x :: mapValuesAll f xs

end

mutual

/-- The values of the attributes of an element and of those inside it. -/
def values : Element → List Text
  | ⟨_, attributes, children⟩ => attributes.map Prod.snd ++ valuesAll children

/-- The values of the attributes of some elements. -/
def valuesAll : List Element → List Text
  | [] => []
  | x :: xs => values x ++ valuesAll xs

end

/-- **What a processor reports** of a document that it accepts. -/
def processed? (t : Text) : Option Element :=
  if t.all isAllowed then (ofText? (normalizeLineEnds t)).map (mapValues blankSpaces) else none

theorem mapValuesAll_append (f : Text → Text) (xs ys : List Element) :
    mapValuesAll f (xs ++ ys) = mapValuesAll f xs ++ mapValuesAll f ys := by
  induction xs with
  | nil => rfl
  | cons x xs ih => rw [List.cons_append, mapValuesAll, mapValuesAll, ih, List.cons_append]

theorem valuesAll_append (xs ys : List Element) :
    valuesAll (xs ++ ys) = valuesAll xs ++ valuesAll ys := by
  induction xs with
  | nil => rfl
  | cons x xs ih => rw [List.cons_append, valuesAll, valuesAll, ih, List.append_assoc]

theorem forall_mem_valuesAll_iff {xs : List Element} {p : Text → Prop} :
    (∀ v ∈ valuesAll xs, p v) ↔ ∀ x ∈ xs, ∀ v ∈ x.values, p v := by
  induction xs with
  | nil => exact iff_of_true nofun nofun
  | cons x xs ih => rw [valuesAll, List.forall_mem_append, ih, List.forall_mem_cons]

mutual

theorem mapValues_mapValues (f g : Text → Text) (x : Element) :
    (x.mapValues f).mapValues g = x.mapValues (g ∘ f) := by
  obtain ⟨name, attributes, children⟩ := x
  rw [mapValues, mapValues, mapValues, mapValuesAll_mapValuesAll, List.map_map]
  rfl

theorem mapValuesAll_mapValuesAll (f g : Text → Text) (xs : List Element) :
    mapValuesAll g (mapValuesAll f xs) = mapValuesAll (g ∘ f) xs := by
  cases xs with
  | nil => rfl
  | cons x xs =>
    rw [mapValuesAll, mapValuesAll, mapValuesAll, mapValues_mapValues, mapValuesAll_mapValuesAll]

end

mutual

theorem values_mapValues (f : Text → Text) (x : Element) :
    (x.mapValues f).values = x.values.map f := by
  obtain ⟨name, attributes, children⟩ := x
  rw [mapValues, values, values, valuesAll_mapValuesAll, List.map_append, List.map_map,
    List.map_map]
  rfl

theorem valuesAll_mapValuesAll (f : Text → Text) (xs : List Element) :
    valuesAll (mapValuesAll f xs) = (valuesAll xs).map f := by
  cases xs with
  | nil => rfl
  | cons x xs =>
    rw [mapValuesAll, valuesAll, valuesAll, values_mapValues, valuesAll_mapValuesAll,
      List.map_append]

end

mutual

theorem mapValues_eq_self {f : Text → Text} {x : Element} (h : ∀ v ∈ x.values, f v = v) :
    x.mapValues f = x := by
  obtain ⟨name, attributes, children⟩ := x
  rw [values, List.forall_mem_append] at h
  have hattributes : ∀ a ∈ attributes, Prod.map id f a = a :=
    fun a ha => Prod.ext rfl (h.1 a.2 (List.mem_map_of_mem ha))
  rw [mapValues, List.map_congr_left hattributes, List.map_id', mapValuesAll_eq_self h.2]

theorem mapValuesAll_eq_self {f : Text → Text} {xs : List Element}
    (h : ∀ v ∈ valuesAll xs, f v = v) : mapValuesAll f xs = xs := by
  cases xs with
  | nil => rfl
  | cons x xs =>
    rw [valuesAll, List.forall_mem_append] at h
    rw [mapValuesAll, mapValues_eq_self h.1, mapValuesAll_eq_self h.2]

end

end Element

end InstallerRegistry.Xml
