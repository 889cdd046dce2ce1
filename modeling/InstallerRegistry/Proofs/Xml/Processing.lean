import InstallerRegistry.Proofs.Xml.Processor
import InstallerRegistry.Proofs.Xml.Reading

/-!
# What a processor reports of a printed tree

What is printed around the values of attributes is printable ASCII and line feeds: indentation,
brackets, names and comments (`Xml.isLayout`). So all that a processor objects to or changes is in
those values. The document of a tree is accepted exactly if they have only characters that are
allowed, and then each of them is reported on its own (`Xml.processed?_document`).
-/

namespace InstallerRegistry.Xml

/-! ## Trees with values changed -/

mutual

/-- A tree with the values of its attributes changed. -/
def mapValues (f : Text → Text) : Xml → Xml
  | leaf name attributes => leaf name (attributes.map (Prod.map id f))
  | element name attributes children =>
    element name (attributes.map (Prod.map id f)) (mapValuesAll f children)
  | comment t => comment t
  | gap => gap

/-- Some trees with the values of their attributes changed. -/
def mapValuesAll (f : Text → Text) : List Xml → List Xml
  | [] => []
  | x :: xs => mapValues f x :: mapValuesAll f xs

end

theorem WellNamed.mapValues {name : Text} {attributes : List Attribute}
    (h : WellNamed name attributes) (f : Text → Text) :
    WellNamed name (attributes.map (Prod.map id f)) where
  isName := h.isName
  areNames a ha := by
    obtain ⟨b, hb, rfl⟩ := List.mem_map.1 ha
    exact h.areNames b hb
  nodup := by
    rw [List.map_map]
    exact h.nodup

mutual

/-- A tree shows its elements with values changed if its own are. -/
theorem isReadable_mapValues (f : Text → Text) {x : Xml} (h : IsReadable x) :
    IsReadable (x.mapValues f) := by
  cases x with
  | leaf name attributes => exact WellNamed.mapValues h f
  | element name attributes children =>
    exact ⟨h.1.mapValues f, areReadable_mapValuesAll f h.2⟩
  | comment t => exact h
  | gap => trivial

theorem areReadable_mapValuesAll (f : Text → Text) {xs : List Xml} (h : AreReadable xs) :
    AreReadable (mapValuesAll f xs) := by
  cases xs with
  | nil => trivial
  | cons x xs => exact ⟨isReadable_mapValues f h.1, areReadable_mapValuesAll f h.2⟩

end

mutual

theorem elements_mapValues (f : Text → Text) (x : Xml) :
    elements (x.mapValues f) = Element.mapValuesAll f (elements x) := by
  cases x with
  | leaf name attributes => rfl
  | element name attributes children =>
    rw [mapValues, elements, elementsOfAll_mapValuesAll]
    rfl
  | comment t => rfl
  | gap => rfl

theorem elementsOfAll_mapValuesAll (f : Text → Text) (xs : List Xml) :
    elementsOfAll (mapValuesAll f xs) = Element.mapValuesAll f (elementsOfAll xs) := by
  cases xs with
  | nil => rfl
  | cons x xs =>
    rw [mapValuesAll, elementsOfAll, elementsOfAll, elements_mapValues,
      elementsOfAll_mapValuesAll, Element.mapValuesAll_append]

end

/-! ## What a printed tree is made of -/

/-- Is the character a printable one of ASCII? -/
def isPrintable (c : Char) : Bool :=
  0x20 ≤ c.toNat && c.toNat ≤ 0x7E

/-- Is the character one that stands around values? -/
def isLayout (c : Char) : Bool :=
  isPrintable c || c == '\n'

mutual

/-- Are the comments of a tree printable? -/
def HasPrintableComments : Xml → Prop
  | leaf _ _ => True
  | element _ _ children => HavePrintableComments children
  | comment t => ∀ c ∈ t, isPrintable c
  | gap => True

/-- Are the comments of some trees printable? -/
def HavePrintableComments : List Xml → Prop
  | [] => True
  | x :: xs => HasPrintableComments x ∧ HavePrintableComments xs

end

theorem havePrintableComments_iff {xs : List Xml} :
    HavePrintableComments xs ↔ ∀ x ∈ xs, HasPrintableComments x := by
  induction xs with
  | nil => exact ⟨fun _ x hx => absurd hx List.not_mem_nil, fun _ => trivial⟩
  | cons x xs ih => rw [HavePrintableComments, ih, List.forall_mem_cons]

theorem Element.valuesAll_elements_leaf (name : Text) (attributes : List Attribute) :
    valuesAll (elements (.leaf name attributes)) = attributes.map Prod.snd := by
  rw [elements, valuesAll, valuesAll, values, valuesAll, List.append_nil, List.append_nil]

theorem Element.valuesAll_elements_element (name : Text) (attributes : List Attribute)
    (children : List Xml) : valuesAll (elements (.element name attributes children))
      = attributes.map Prod.snd ++ valuesAll (elementsOfAll children) := by
  rw [elements, valuesAll, valuesAll, values, List.append_nil]

theorem isPrintable_of_isAlphanum {c : Char} (h : c.isAlphanum) : isPrintable c := by
  have hrange : ∀ low high : UInt32, 0x20 ≤ low.toNat → high.toNat ≤ 0x7E →
      low ≤ c.val ∧ c.val ≤ high → isPrintable c := by
    intro low high hlow hhigh h
    have hval : c.val.toNat = c.toNat := rfl
    simp only [UInt32.le_iff_toNat_le, hval] at h
    simp only [isPrintable, Bool.and_eq_true, decide_eq_true_eq]
    omega
  rcases Bool.or_eq_true_iff.1 h with h | hdigit
  · rcases Bool.or_eq_true_iff.1 h with hupper | hlower
    · exact hrange 65 90 (by decide) (by decide) (of_decide_eq_true hupper)
    · have h := Bool.and_eq_true_iff.1 hlower
      exact hrange 97 122 (by decide) (by decide) (h.imp of_decide_eq_true of_decide_eq_true)
  · have h := Bool.and_eq_true_iff.1 hdigit
    exact hrange 48 57 (by decide) (by decide) (h.imp of_decide_eq_true of_decide_eq_true)

theorem isPrintable_of_isName {name : Text} (h : isName name) : ∀ c ∈ name, isPrintable c := by
  intro c hc
  have hpart := isNamePart_of_isName h c hc
  simp only [isNamePart, isNameStart, Bool.or_eq_true, beq_iff_eq] at hpart
  rcases hpart with ((((h | rfl) | rfl) | h) | rfl) | rfl
  · exact isPrintable_of_isAlphanum (by simp [Char.isAlphanum, h])
  · decide
  · decide
  · exact isPrintable_of_isAlphanum (by simp [Char.isAlphanum, h])
  · decide
  · decide

theorem isLayout_of_isPrintable {t : Text} (h : ∀ c ∈ t, isPrintable c) : ∀ c ∈ t, isLayout c :=
  fun c hc => Bool.or_eq_true_iff.2 (.inl (h c hc))

theorem isLayout_of_mem_indent (level : Nat) : ∀ c ∈ indent level, isLayout c := by
  intro c hc
  rw [List.eq_of_mem_replicate hc]
  decide

theorem isLayout_opening {name : Text} (h : isName name) (level : Nat) :
    ∀ c ∈ indent level ++ '<' :: name, isLayout c :=
  List.forall_mem_append.2 ⟨isLayout_of_mem_indent level, List.forall_mem_cons.2
    ⟨(by decide : isLayout '<'), isLayout_of_isPrintable (isPrintable_of_isName h)⟩⟩

theorem isLayout_attributeOpening {name : Text} (h : isName name) :
    ∀ c ∈ ' ' :: name ++ "=\"".toList, isLayout c :=
  List.forall_mem_append.2 ⟨List.forall_mem_cons.2
    ⟨(by decide : isLayout ' '), isLayout_of_isPrintable (isPrintable_of_isName h)⟩,
    List.all_eq_true.1 rfl⟩

/-- A character is written as it is, or both it and its reference are printable. -/
theorem escapeChar_eq_or (c : Char) :
    escapeChar c = [c] ∨ ∀ d ∈ c :: escapeChar c, isPrintable d := by
  rcases mem_references_or_escapeChar_eq c with href | ⟨hself, _⟩
  · have hprintable : ∀ r ∈ references, (r.1 :: r.2).all isPrintable := by decide
    exact .inr (List.all_eq_true.1 (hprintable _ href))
  · exact .inl hself

section Characters

variable {p : Char → Prop} (hp : ∀ c, isLayout c → p c)

include hp

theorem forall_mem_of_isLayout {t : Text} (h : ∀ c ∈ t, isLayout c) : ∀ c ∈ t, p c :=
  fun c hc => hp c (h c hc)

theorem forall_mem_escape_iff {t : Text} : (∀ c ∈ escape t, p c) ↔ ∀ c ∈ t, p c := by
  have hchar : ∀ c, (∀ d ∈ escapeChar c, p d) ↔ p c := by
    intro c
    rcases escapeChar_eq_or c with h | h
    · rw [h, List.forall_mem_singleton]
    · obtain ⟨hc, hreference⟩ := List.forall_mem_cons.1 (isLayout_of_isPrintable h)
      exact ⟨fun _ => hp c hc, fun _ => forall_mem_of_isLayout hp hreference⟩
  rw [escape_eq_flatMap, List.forall_mem_flatMap]
  exact forall₂_congr fun c _ => hchar c

/-- Layout before a text does not matter. -/
theorem forall_mem_append_iff_right {s t : Text} (h : ∀ c ∈ s, isLayout c) :
    (∀ c ∈ s ++ t, p c) ↔ ∀ c ∈ t, p c := by
  rw [List.forall_mem_append]
  exact and_iff_right (forall_mem_of_isLayout hp h)

/-- Layout behind a text does not matter. -/
theorem forall_mem_append_iff_left {s t : Text} (h : ∀ c ∈ t, isLayout c) :
    (∀ c ∈ s ++ t, p c) ↔ ∀ c ∈ s, p c := by
  rw [List.forall_mem_append]
  exact and_iff_left (forall_mem_of_isLayout hp h)

theorem forall_mem_printAttributes_iff {attributes : List Attribute}
    (h : ∀ a ∈ attributes, isName a.1) :
    (∀ c ∈ attributes.flatMap printAttribute, p c)
      ↔ ∀ v ∈ attributes.map Prod.snd, ∀ c ∈ v, p c := by
  rw [List.forall_mem_flatMap, List.forall_mem_map]
  refine forall₂_congr fun a ha => ?_
  have hquote : ∀ c ∈ ['"'], isLayout c := List.all_eq_true.1 rfl
  rw [printAttribute, forall_mem_append_iff_left hp hquote,
    forall_mem_append_iff_right hp (isLayout_attributeOpening (h a ha)), forall_mem_escape_iff hp]

theorem forall_mem_open_iff {name : Text} {attributes : List Attribute}
    (h : WellNamed name attributes) (level : Nat) :
    (∀ c ∈ indent level ++ '<' :: name ++ attributes.flatMap printAttribute, p c)
      ↔ ∀ v ∈ attributes.map Prod.snd, ∀ c ∈ v, p c := by
  rw [forall_mem_append_iff_right hp (isLayout_opening h.isName level),
    forall_mem_printAttributes_iff hp h.areNames]

end Characters

mutual

/-- **What a printed tree is made of**, apart from its layout, is in the values of attributes. -/
theorem forall_mem_print_iff {p : Char → Prop} (hp : ∀ c, isLayout c → p c) {x : Xml}
    (h : IsReadable x) (hcomments : HasPrintableComments x) (level : Nat) :
    (∀ c ∈ print level x, p c)
      ↔ ∀ v ∈ Element.valuesAll (elements x), ∀ c ∈ v, p c := by
  cases x with
  | leaf name attributes =>
    have hclosing : ∀ c ∈ " />\n".toList, isLayout c := List.all_eq_true.1 rfl
    rw [print, forall_mem_append_iff_left hp hclosing, forall_mem_open_iff hp h,
      Element.valuesAll_elements_leaf]
  | element name attributes children =>
    have hbracket : ∀ c ∈ ">\n".toList, isLayout c := List.all_eq_true.1 rfl
    have hslash : ∀ c ∈ "</".toList, isLayout c := List.all_eq_true.1 rfl
    have hname := isLayout_of_isPrintable (isPrintable_of_isName h.1.isName)
    rw [print, forall_mem_append_iff_left hp hbracket, forall_mem_append_iff_left hp hname,
      forall_mem_append_iff_left hp hslash,
      forall_mem_append_iff_left hp (isLayout_of_mem_indent level), List.forall_mem_append,
      forall_mem_append_iff_left hp hbracket, forall_mem_open_iff hp h.1,
      forall_mem_printAll_iff hp h.2 hcomments, Element.valuesAll_elements_element,
      List.forall_mem_append]
  | comment t =>
    have hopening : ∀ c ∈ "<!-- ".toList, isLayout c := List.all_eq_true.1 rfl
    have hclosing : ∀ c ∈ " -->\n".toList, isLayout c := List.all_eq_true.1 rfl
    rw [print, forall_mem_append_iff_left hp hclosing,
      forall_mem_append_iff_left hp (isLayout_of_isPrintable hcomments),
      forall_mem_append_iff_left hp hopening]
    exact iff_of_true (forall_mem_of_isLayout hp (isLayout_of_mem_indent level)) nofun
  | gap => exact iff_of_true (List.forall_mem_singleton.2 (hp _ (by decide))) nofun

theorem forall_mem_printAll_iff {p : Char → Prop} (hp : ∀ c, isLayout c → p c) {xs : List Xml}
    (h : AreReadable xs) (hcomments : HavePrintableComments xs) (level : Nat) :
    (∀ c ∈ printAll level xs, p c)
      ↔ ∀ v ∈ Element.valuesAll (elementsOfAll xs), ∀ c ∈ v, p c := by
  cases xs with
  | nil => exact iff_of_true nofun nofun
  | cons x xs =>
    rw [printAll, List.forall_mem_append, forall_mem_print_iff hp h.1 hcomments.1,
      forall_mem_printAll_iff hp h.2 hcomments.2, elementsOfAll, Element.valuesAll_append,
      List.forall_mem_append]

end

/-! ## Line ends of a printed tree -/

theorem head?_escape_ne {t : Text} (h : t.head? ≠ some '\n') : (escape t).head? ≠ some '\n' := by
  cases t with
  | nil => exact nofun
  | cons c t =>
    have hc : c ≠ '\n' := fun hc => h (by rw [hc]; rfl)
    rw [escape_cons]
    unfold escapeChar
    split <;> simp [hc]

/-- **Escaping keeps line ends** as they are. -/
theorem normalizeLineEnds_escape (t : Text) :
    normalizeLineEnds (escape t) = escape (normalizeLineEnds t) := by
  have hreturn : ∀ t, escape ('\r' :: t) = '\r' :: escape t := escape_cons '\r'
  have hfeed : ∀ t, escape ('\n' :: t) = '\n' :: escape t := escape_cons '\n'
  fun_induction normalizeLineEnds t with
  | case1 => rfl
  | case2 t ih => rw [hreturn, hfeed, hfeed, normalizeLineEnds, ih]
  | case3 c t hne ih =>
    by_cases hc : c = '\r'
    · subst hc
      have hhead : t.head? ≠ some '\n' := by
        intro hhead
        obtain ⟨t', rfl⟩ := List.head?_eq_some_iff.1 hhead
        exact hne t' rfl rfl
      rw [hreturn, normalizeLineEnds, if_pos rfl, hfeed, ih]
      intro t' _ ht
      exact head?_escape_ne hhead (by rw [ht]; rfl)
    · have hchar : '\r' ∉ escapeChar c := by
        rcases escapeChar_eq_or c with h | h
        · rw [h, List.mem_singleton]
          exact Ne.symm hc
        · exact fun hmem => absurd (h '\r' (List.mem_cons_of_mem _ hmem)) (by decide)
      rw [escape_cons, normalizeLineEnds_append_of_notMem hchar, if_neg hc, escape_cons, ih]

theorem normalizeLineEnds_append_of_isLayout {t : Text} (h : ∀ c ∈ t, isLayout c) (rest : Text) :
    normalizeLineEnds (t ++ rest) = t ++ normalizeLineEnds rest :=
  normalizeLineEnds_append_of_notMem (fun hmem => absurd (h '\r' hmem) (by decide)) rest

theorem normalizeLineEnds_printAttribute {a : Attribute} (h : isName a.1) (rest : Text) :
    normalizeLineEnds (printAttribute a ++ rest)
      = printAttribute (Prod.map id normalizeLineEnds a) ++ normalizeLineEnds rest := by
  -- the quote behind the value keeps its last line end from what follows
  have hquote : normalizeLineEnds (escape a.2 ++ '"' :: rest)
      = escape (normalizeLineEnds a.2) ++ '"' :: normalizeLineEnds rest := by
    have hne : ('"' :: rest).head? ≠ some '\n' :=
      fun h => absurd (Option.some.inj h) (by decide)
    rw [normalizeLineEnds_append _ hne, normalizeLineEnds_escape,
      normalizeLineEnds_cons_of_ne (by decide)]
  have hprint : ∀ (b : Attribute) (t : Text), printAttribute b ++ t
      = (' ' :: b.1 ++ "=\"".toList) ++ (escape b.2 ++ '"' :: t) := by
    intro b t
    rw [printAttribute, List.append_assoc, List.append_assoc]
    rfl
  rw [hprint, hprint, normalizeLineEnds_append_of_isLayout (isLayout_attributeOpening h), hquote]
  rfl

theorem normalizeLineEnds_printAttributes {attributes : List Attribute}
    (h : ∀ a ∈ attributes, isName a.1) (rest : Text) :
    normalizeLineEnds (attributes.flatMap printAttribute ++ rest)
      = (attributes.map (Prod.map id normalizeLineEnds)).flatMap printAttribute
        ++ normalizeLineEnds rest := by
  induction attributes with
  | nil => rfl
  | cons a attributes ih =>
    obtain ⟨ha, hattributes⟩ := List.forall_mem_cons.1 h
    rw [List.flatMap_cons, List.append_assoc, normalizeLineEnds_printAttribute ha,
      ih hattributes, List.map_cons, List.flatMap_cons, List.append_assoc]

theorem normalizeLineEnds_open {name : Text} {attributes : List Attribute}
    (h : WellNamed name attributes) (level : Nat) (rest : Text) :
    normalizeLineEnds (indent level ++ '<' :: name ++ attributes.flatMap printAttribute ++ rest)
      = indent level ++ '<' :: name
        ++ (attributes.map (Prod.map id normalizeLineEnds)).flatMap printAttribute
        ++ normalizeLineEnds rest := by
  rw [List.append_assoc, normalizeLineEnds_append_of_isLayout (isLayout_opening h.isName level),
    normalizeLineEnds_printAttributes h.areNames, ← List.append_assoc]

mutual

/-- **Line ends of a printed tree** are those in the values of its attributes. -/
theorem normalizeLineEnds_print {x : Xml} (h : IsReadable x) (hcomments : HasPrintableComments x)
    (level : Nat) (rest : Text) :
    normalizeLineEnds (print level x ++ rest)
      = print level (x.mapValues normalizeLineEnds) ++ normalizeLineEnds rest := by
  cases x with
  | leaf name attributes =>
    have hclosing : ∀ c ∈ " />\n".toList, isLayout c := List.all_eq_true.1 rfl
    rw [print, List.append_assoc, normalizeLineEnds_open h,
      normalizeLineEnds_append_of_isLayout hclosing, ← List.append_assoc]
    rfl
  | element name attributes children =>
    have hbracket : ∀ c ∈ ">\n".toList, isLayout c := List.all_eq_true.1 rfl
    have hslash : ∀ c ∈ "</".toList, isLayout c := List.all_eq_true.1 rfl
    have hname := isLayout_of_isPrintable (isPrintable_of_isName h.1.isName)
    rw [print, List.append_assoc, List.append_assoc, List.append_assoc, List.append_assoc,
      List.append_assoc, List.append_assoc, normalizeLineEnds_open h.1,
      normalizeLineEnds_append_of_isLayout hbracket, normalizeLineEnds_printAll h.2 hcomments,
      normalizeLineEnds_append_of_isLayout (isLayout_of_mem_indent level),
      normalizeLineEnds_append_of_isLayout hslash, normalizeLineEnds_append_of_isLayout hname,
      normalizeLineEnds_append_of_isLayout hbracket, mapValues, print]
    simp only [List.append_assoc]
  | comment t =>
    have hopening : ∀ c ∈ "<!-- ".toList, isLayout c := List.all_eq_true.1 rfl
    have hclosing : ∀ c ∈ " -->\n".toList, isLayout c := List.all_eq_true.1 rfl
    rw [print, List.append_assoc, List.append_assoc, List.append_assoc,
      normalizeLineEnds_append_of_isLayout (isLayout_of_mem_indent level),
      normalizeLineEnds_append_of_isLayout hopening,
      normalizeLineEnds_append_of_isLayout (isLayout_of_isPrintable hcomments),
      normalizeLineEnds_append_of_isLayout hclosing, mapValues, print]
    simp only [List.append_assoc]
  | gap => exact normalizeLineEnds_append_of_isLayout (List.forall_mem_singleton.2 rfl) rest

theorem normalizeLineEnds_printAll {xs : List Xml} (h : AreReadable xs)
    (hcomments : HavePrintableComments xs) (level : Nat) (rest : Text) :
    normalizeLineEnds (printAll level xs ++ rest)
      = printAll level (mapValuesAll normalizeLineEnds xs) ++ normalizeLineEnds rest := by
  cases xs with
  | nil => rfl
  | cons x xs =>
    rw [printAll, List.append_assoc, normalizeLineEnds_print h.1 hcomments.1,
      normalizeLineEnds_printAll h.2 hcomments.2, mapValuesAll, printAll, List.append_assoc]

end

/-! ## Documents -/

theorem isPlain_of_isPrintable (c : Char) (h : isPrintable c) : isPlain c := by
  have hallowed : isAllowed c := by
    simp only [isPrintable, isAllowed, Bool.or_eq_true, Bool.and_eq_true, decide_eq_true_eq,
      beq_iff_eq] at h ⊢
    omega
  have hspace : c = ' ' ∨ isSpace c = false := by
    by_cases hc : c = ' '
    · exact .inl hc
    · refine .inr (Bool.eq_false_iff.2 fun hspace => ?_)
      simp only [isSpace, Bool.or_eq_true, beq_iff_eq] at hspace
      rcases hspace with ((hc' | rfl) | rfl) | rfl
      · exact hc hc'
      · exact absurd h (by decide)
      · exact absurd h (by decide)
      · exact absurd h (by decide)
  simp [isPlain, hallowed, hspace]

theorem isAllowed_of_isPrintable (c : Char) (h : isPrintable c) : isAllowed c :=
  isAllowed_of_isPlain (isPlain_of_isPrintable c h)

theorem isAllowed_of_isLayout (c : Char) (h : isLayout c) : isAllowed c := by
  rcases Bool.or_eq_true_iff.1 h with h | h
  · exact isAllowed_of_isPrintable c h
  · rw [beq_iff_eq.1 h]
    decide

theorem isLayout_of_mem_prolog : ∀ c ∈ prolog "Generated by wix-reg".toList, isLayout c :=
  List.all_eq_true.1 rfl

/-- Trees with values changed show elements with values changed. -/
theorem Shows.mapValuesAll {xs : List Xml} {ys : List Element} (h : Shows xs ys)
    (f : Text → Text) : Shows (mapValuesAll f xs) (Element.mapValuesAll f ys) :=
  ⟨areReadable_mapValuesAll f h.readable, by rw [elementsOfAll_mapValuesAll, h.elements_eq]⟩

/-- **What a processor reports of a document** is the element that it shows, with what is reported
of the values of its attributes. The document is accepted if these have only characters that are
allowed. -/
theorem processed?_document {x : Xml} {e : Element} (h : Shows [x] [e])
    (hcomments : HasPrintableComments x) :
    Element.processed? (prolog "Generated by wix-reg".toList ++ print 0 x)
      = if e.values.all (·.all isAllowed) then some (e.mapValues reported) else none := by
  have hallowed : (prolog "Generated by wix-reg".toList ++ print 0 x).all isAllowed = true
      ↔ e.values.all (·.all isAllowed) = true := by
    have hvalues := forall_mem_print_iff isAllowed_of_isLayout h.readable.1 hcomments 0
    have helements : Element.valuesAll (elements x) = e.values := by
      have helements := congrArg Element.valuesAll h.elements_eq
      rwa [elementsOfAll, elementsOfAll, List.append_nil, Element.valuesAll, Element.valuesAll,
        List.append_nil] at helements
    rw [helements] at hvalues
    rw [List.all_eq_true, forall_mem_append_iff_right isAllowed_of_isLayout isLayout_of_mem_prolog,
      hvalues]
    simp only [List.all_eq_true]
  have hlines : normalizeLineEnds (prolog "Generated by wix-reg".toList ++ print 0 x)
      = prolog "Generated by wix-reg".toList ++ print 0 (x.mapValues normalizeLineEnds) := by
    have hprint := normalizeLineEnds_print h.readable.1 hcomments 0 []
    rw [List.append_nil, normalizeLineEnds, List.append_nil] at hprint
    rw [normalizeLineEnds_append_of_isLayout isLayout_of_mem_prolog, hprint]
  have hread := ofText?_document (h.mapValuesAll normalizeLineEnds)
  rw [Element.processed?, hlines, hread, Option.map_some, Element.mapValues_mapValues]
  exact if_congr hallowed rfl rfl

end InstallerRegistry.Xml
