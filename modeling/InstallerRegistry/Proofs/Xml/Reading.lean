import InstallerRegistry.Proofs.Text.Cutting
import InstallerRegistry.Proofs.Xml.Escaping
import Mathlib.Data.List.Forall2

/-!
# A printed tree is read back

Whatever stands in the attributes of a tree, the reader finds again the elements that were printed
(`Xml.ofText?_document`). The proof goes through the reader's layers from the inside: an attribute's
value, the attributes of a tag, the tags of a tree, and their nesting. Each layer is stated for what
it reads at the start of a text and any text behind it, and those for trees are by induction on the
tree, with one case for each kind of node.
-/

namespace InstallerRegistry.Xml

/-! ## Attributes -/

theorem isNamePart_of_isName {name : Text} (h : isName name) : ∀ c ∈ name, isNamePart c := by
  cases name with
  | nil => exact fun c hc => absurd hc List.not_mem_nil
  | cons c name =>
    obtain ⟨hstart, hparts⟩ := Bool.and_eq_true_iff.1 h
    intro d hd
    rcases List.mem_cons.1 hd with rfl | hd
    · simp [isNamePart, hstart]
    · exact List.all_eq_true.1 hparts d hd

/-- A name ends where a character follows that no name has. -/
theorem name?_append {name rest : Text} (h : isName name)
    (hrest : ∀ c ∈ rest.head?, isNamePart c = false) :
    name? (name ++ rest) = some (name, rest) := by
  obtain ⟨hname, hbehind⟩ := Text.span_append (isNamePart_of_isName h) hrest
  rw [name?, hname, hbehind, if_pos h]

theorem isNamePart_of_isSpace {c : Char} (h : isSpace c = true) : isNamePart c = false := by
  simp only [isSpace, Bool.or_eq_true, beq_iff_eq] at h
  rcases h with ((rfl | rfl) | rfl) | rfl <;> decide

/-- No white space is dropped before a name. -/
theorem dropWhile_isSpace_of_isName {name : Text} (h : isName name) (rest : Text) :
    (name ++ rest).dropWhile isSpace = name ++ rest := by
  cases name with
  | nil => exact absurd h (by decide)
  | cons c name =>
    have hpart := isNamePart_of_isName h c List.mem_cons_self
    refine List.dropWhile_cons_of_neg fun hspace => ?_
    rw [isNamePart_of_isSpace hspace] at hpart
    exact absurd hpart (by decide)

/-- **An attribute is read back** with its value. -/
theorem attribute?_append {a : Attribute} (h : isName a.1) (rest : Text) :
    attribute? (a.1 ++ ("=\"".toList ++ (escape a.2 ++ '"' :: rest))) = some (a, rest) := by
  have hname : name? (a.1 ++ ("=\"".toList ++ (escape a.2 ++ '"' :: rest)))
      = some (a.1, "=\"".toList ++ (escape a.2 ++ '"' :: rest)) :=
    name?_append h fun c hc => by rw [← Option.some.inj hc]; decide
  have hquoted : Text.after? ['=', '"'] ("=\"".toList ++ (escape a.2 ++ '"' :: rest))
      = some (escape a.2 ++ '"' :: rest) := Text.after?_append ['=', '"'] _
  have hquote : '"' ∉ escape a.2 := (isEscaped_escape a.2).noMarkup '"' (by decide)
  have hcut := Text.cut?_append hquote rest
  simp only [attribute?, hname, hquoted, hcut, expand?_escape, Option.bind_eq_bind,
    Option.bind_some, Option.pure_def]

theorem attribute?_printAttribute {a : Attribute} (h : isName a.1) (rest : Text) :
    (afterSpace? (printAttribute a ++ rest)).bind attribute? = some (a, rest) := by
  have hprint : printAttribute a ++ rest
      = ' ' :: (a.1 ++ ("=\"".toList ++ (escape a.2 ++ '"' :: rest))) := by
    simp [printAttribute]
  rw [hprint, afterSpace?, if_pos (by decide), dropWhile_isSpace_of_isName h, Option.bind_some,
    attribute?_append h]

/-- **The attributes of a tag are read back**, up to what is no attribute. -/
theorem attributes?_append {attributes : List Attribute} (h : ∀ a ∈ attributes, isName a.1)
    {rest : Text} (hrest : (afterSpace? rest).bind attribute? = none) :
    attributes? (attributes.flatMap printAttribute ++ rest) = some (attributes, rest) := by
  induction attributes with
  | nil => rw [List.flatMap_nil, List.nil_append, attributes?, hrest]
  | cons a attributes ih =>
    -- the reader goes on only if it has read something
    have hlength : (attributes.flatMap printAttribute ++ rest).length
        < (printAttribute a ++ (attributes.flatMap printAttribute ++ rest)).length := by
      simp [printAttribute]
      omega
    rw [List.flatMap_cons, List.append_assoc, attributes?,
      attribute?_printAttribute (h a List.mem_cons_self)]
    dsimp only
    rw [if_pos hlength, ih fun b hb => h b (List.mem_cons_of_mem _ hb)]
    rfl

/-! ## Tags -/

/-- Names that a reader accepts: those of an element and of its attributes. -/
structure WellNamed (name : Text) (attributes : List Attribute) : Prop where
  isName : isName name
  areNames : ∀ a ∈ attributes, Xml.isName a.1
  nodup : (attributes.map Prod.fst).Nodup

theorem openTag?_append {name : Text} {attributes : List Attribute}
    (h : WellNamed name attributes) {rest : Text}
    (hhead : ∀ c ∈ rest.head?, isNamePart c = false)
    (hrest : (afterSpace? rest).bind attribute? = none) :
    openTag? (name ++ (attributes.flatMap printAttribute ++ rest))
      = close? name attributes (rest.dropWhile isSpace) := by
  have hname : name? (name ++ (attributes.flatMap printAttribute ++ rest))
      = some (name, attributes.flatMap printAttribute ++ rest) :=
    name?_append h.isName fun c hc => by
      cases attributes with
      | nil => exact hhead c hc
      | cons a attributes =>
        rw [← Option.some.inj hc]
        decide
  simp only [openTag?, hname, attributes?_append h.areNames hrest, Option.bind_eq_bind,
    Option.bind_some]
  exact if_pos h.nodup

/-- What stands in brackets behind a name is a tag with this name. -/
theorem markup?_name {name : Text} (h : isName name) (rest : Text) :
    markup? ('<' :: (name ++ rest))
      = (openTag? (name ++ rest)).map fun (tag, rest) => (some tag, rest) := by
  cases name with
  | nil => exact absurd h (by decide)
  | cons c name =>
    have hstart := (Bool.and_eq_true_iff.1 h).1
    have hne : ∀ d, isNameStart d = false → c ≠ d := fun d hd hc => by
      rw [← hc, hstart] at hd
      exact absurd hd (by decide)
    rw [List.cons_append, markup?]
    · exact fun t ht => hne '?' (by decide) (List.cons.inj ht).1
    · exact fun t ht => hne '!' (by decide) (List.cons.inj ht).1
    · exact fun t ht => hne '/' (by decide) (List.cons.inj ht).1

/-! ### Tags and what is between them -/

theorem tags?_space {space : Text} (h : ∀ c ∈ space, isSpace c) (t : Text) :
    tags? (space ++ t) = tags? t := by
  rw [tags?, tags?, List.dropWhile_append_of_pos h]

theorem tags?_markup {t rest : Text} {tag : Option Tag} (h : markup? t = some (tag, rest))
    (hlength : rest.length < t.length) : tags? t = (tags? rest).map (tag.toList ++ ·) := by
  -- markup starts with its bracket, so there is no white space to pass over
  obtain ⟨t', rfl⟩ : ∃ t', t = '<' :: t' := by
    unfold markup? at h
    split at h
    next => exact ⟨_, rfl⟩
    next => exact ⟨_, rfl⟩
    next => exact ⟨_, rfl⟩
    next => exact ⟨_, rfl⟩
    next => exact absurd h (by simp)
  have hspace : ('<' :: t').dropWhile isSpace = '<' :: t' :=
    List.dropWhile_cons_of_neg (by decide)
  rw [tags?, hspace, if_neg (by simp), h]
  exact if_pos hlength

theorem isSpace_of_mem_indent {level : Nat} : ∀ c ∈ indent level, isSpace c := by
  intro c hc
  rw [List.eq_of_mem_replicate hc]
  decide

/-- **A line of markup is passed**, whatever level it is printed at, and adds its tag. -/
theorem tags?_line {t rest : Text} (tag : Option Tag)
    (h : markup? (t ++ '\n' :: rest) = some (tag, '\n' :: rest)) (level : Nat) :
    tags? (indent level ++ (t ++ '\n' :: rest)) = (tags? rest).map (tag.toList ++ ·) := by
  have hne : t ≠ [] := by
    rintro rfl
    exact absurd h (by simp [markup?])
  have hlength : ('\n' :: rest).length < (t ++ '\n' :: rest).length := by
    rw [List.length_append]
    exact Nat.lt_add_of_pos_left (List.length_pos_iff.2 hne)
  have hfeed : ∀ c ∈ ['\n'], isSpace c := List.forall_mem_singleton.2 rfl
  have hbreak : tags? ('\n' :: rest) = tags? rest := tags?_space hfeed rest
  rw [tags?_space isSpace_of_mem_indent, tags?_markup h hlength, hbreak]

variable {name : Text} {attributes : List Attribute}

theorem tags?_leaf (h : WellNamed name attributes) (level : Nat) (rest : Text) :
    tags? (indent level ++ '<' :: name ++ attributes.flatMap printAttribute ++ " />\n".toList
      ++ rest) = (tags? rest).map (.empty name attributes :: ·) := by
  have hline : indent level ++ '<' :: name ++ attributes.flatMap printAttribute
        ++ " />\n".toList ++ rest
      = indent level ++ ('<' :: (name ++ (attributes.flatMap printAttribute ++ " />".toList))
        ++ '\n' :: rest) := by
    simp
  rw [hline]
  refine tags?_line (some (.empty name attributes)) ?_ level
  rw [List.cons_append, List.append_assoc, List.append_assoc, markup?_name h.isName,
    openTag?_append h (fun c hc => by rw [← Option.some.inj hc]; decide) rfl]
  rfl

theorem tags?_start (h : WellNamed name attributes) (level : Nat) (rest : Text) :
    tags? (indent level ++ '<' :: name ++ attributes.flatMap printAttribute ++ ">\n".toList
      ++ rest) = (tags? rest).map (.start name attributes :: ·) := by
  have hline : indent level ++ '<' :: name ++ attributes.flatMap printAttribute
        ++ ">\n".toList ++ rest
      = indent level ++ ('<' :: (name ++ (attributes.flatMap printAttribute ++ ['>']))
        ++ '\n' :: rest) := by
    simp
  rw [hline]
  refine tags?_line (some (.start name attributes)) ?_ level
  rw [List.cons_append, List.append_assoc, List.append_assoc, markup?_name h.isName,
    openTag?_append h (fun c hc => by rw [← Option.some.inj hc]; decide) rfl]
  rfl

theorem tags?_finish (h : isName name) (level : Nat) (rest : Text) :
    tags? (indent level ++ "</".toList ++ name ++ ">\n".toList ++ rest)
      = (tags? rest).map (.finish name :: ·) := by
  have hline : indent level ++ "</".toList ++ name ++ ">\n".toList ++ rest
      = indent level ++ ('<' :: '/' :: (name ++ ['>']) ++ '\n' :: rest) := by
    simp
  rw [hline]
  refine tags?_line (some (.finish name)) ?_ level
  show (endTag? (name ++ ['>'] ++ '\n' :: rest)).map _ = _
  rw [List.append_assoc, endTag?,
    name?_append h fun c hc => by rw [← Option.some.inj hc]; decide]
  rfl

theorem tags?_comment {t : Text} (h : '-' ∉ t) (level : Nat) (rest : Text) :
    tags? (indent level ++ "<!-- ".toList ++ t ++ " -->\n".toList ++ rest) = tags? rest := by
  have hline : indent level ++ "<!-- ".toList ++ t ++ " -->\n".toList ++ rest
      = indent level ++ ('<' :: '!' :: '-' :: '-' :: (' ' :: t ++ [' '] ++ ['-', '-', '>'])
        ++ '\n' :: rest) := by
    simp
  have hcut : Text.cutAt? ['-', '-'] (' ' :: t ++ [' '] ++ (['-', '-'] ++ '>' :: '\n' :: rest))
      = some (' ' :: t ++ [' '], '>' :: '\n' :: rest) :=
    Text.cutAt?_append (by simp [h]) ['-'] _
  have hmarkup : markup? ('<' :: '!' :: '-' :: '-' :: (' ' :: t ++ [' '] ++ ['-', '-', '>'])
      ++ '\n' :: rest) = some (none, '\n' :: rest) := by
    have htext : ' ' :: t ++ [' '] ++ ['-', '-', '>'] ++ '\n' :: rest
        = ' ' :: t ++ [' '] ++ (['-', '-'] ++ '>' :: '\n' :: rest) := by
      simp
    rw [List.cons_append, List.cons_append, List.cons_append, List.cons_append, htext, markup?,
      hcut]
    rfl
  rw [hline, tags?_line none hmarkup]
  cases tags? rest <;> rfl

/-! ## Trees -/

mutual

/-- Can a reader make out the names and comments of a tree? -/
def IsReadable : Xml → Prop
  | leaf name attributes => WellNamed name attributes
  | element name attributes children => WellNamed name attributes ∧ AreReadable children
  | comment t => '-' ∉ t
  | gap => True

/-- Can a reader make out the names and comments of some trees? -/
def AreReadable : List Xml → Prop
  | [] => True
  | x :: xs => IsReadable x ∧ AreReadable xs

end

mutual

/-- The tags of a tree. -/
def tagsOf : Xml → List Tag
  | leaf name attributes => [.empty name attributes]
  | element name attributes children =>
    .start name attributes :: tagsOfAll children ++ [.finish name]
  | comment _ => []
  | gap => []

/-- The tags of some trees. -/
def tagsOfAll : List Xml → List Tag
  | [] => []
  | x :: xs => tagsOf x ++ tagsOfAll xs

end

mutual

/-- The elements of a tree: one, or none for what is not an element. -/
def elements : Xml → List Element
  | leaf name attributes => [⟨name, attributes, []⟩]
  | element name attributes children => [⟨name, attributes, elementsOfAll children⟩]
  | comment _ => []
  | gap => []

/-- The elements of some trees. -/
def elementsOfAll : List Xml → List Element
  | [] => []
  | x :: xs => elements x ++ elementsOfAll xs

end

mutual

/-- **The tags of a printed tree are read back**, whatever follows. -/
theorem tags?_print {x : Xml} (h : IsReadable x) (level : Nat) (rest : Text) :
    tags? (print level x ++ rest) = (tags? rest).map (tagsOf x ++ ·) := by
  cases x with
  | leaf name attributes =>
    rw [print, tags?_leaf h]
    rfl
  | element name attributes children =>
    have hprint : print level (.element name attributes children) ++ rest
        = indent level ++ '<' :: name ++ attributes.flatMap printAttribute ++ ">\n".toList
          ++ (printAll (level + 1) children
            ++ (indent level ++ "</".toList ++ name ++ ">\n".toList ++ rest)) := by
      rw [print]
      simp only [List.append_assoc]
    rw [hprint, tags?_start h.1, tags?_printAll h.2, tags?_finish h.1.isName]
    cases tags? rest <;> simp [tagsOf]
  | comment t =>
    rw [print, tags?_comment h]
    cases tags? rest <;> rfl
  | gap =>
    have hfeed : ∀ c ∈ ['\n'], isSpace c := List.forall_mem_singleton.2 rfl
    rw [print, tags?_space hfeed]
    cases tags? rest <;> rfl

theorem tags?_printAll {xs : List Xml} (h : AreReadable xs) (level : Nat) (rest : Text) :
    tags? (printAll level xs ++ rest) = (tags? rest).map (tagsOfAll xs ++ ·) := by
  cases xs with
  | nil => cases h' : tags? rest <;> simp [printAll, tagsOfAll, h']
  | cons x xs =>
    rw [printAll, List.append_assoc, tags?_print h.1, tags?_printAll h.2]
    cases tags? rest <;> simp [tagsOfAll]

end

mutual

/-- **Nesting finds the elements of a tree**, behind those that stand before it. -/
theorem nest_tagsOf (x : Xml) (siblings : List Element) (opened : List Opened) (tags : List Tag) :
    nest siblings opened (tagsOf x ++ tags) = nest (siblings ++ elements x) opened tags := by
  cases x with
  | leaf name attributes => rfl
  | element name attributes children =>
    have htags : tagsOf (.element name attributes children) ++ tags
        = .start name attributes :: (tagsOfAll children ++ .finish name :: tags) := by
      simp [tagsOf]
    -- the children close whatever they open, so the end tag meets its own element
    rw [htags, nest, nest_tagsOfAll, nest, if_pos rfl]
    rfl
  | comment t => rw [tagsOf, elements, List.nil_append, List.append_nil]
  | gap => rw [tagsOf, elements, List.nil_append, List.append_nil]

theorem nest_tagsOfAll (xs : List Xml) (siblings : List Element) (opened : List Opened)
    (tags : List Tag) :
    nest siblings opened (tagsOfAll xs ++ tags)
      = nest (siblings ++ elementsOfAll xs) opened tags := by
  cases xs with
  | nil => rw [tagsOfAll, elementsOfAll, List.nil_append, List.append_nil]
  | cons x xs =>
    rw [tagsOfAll, List.append_assoc, nest_tagsOf, nest_tagsOfAll, elementsOfAll,
      List.append_assoc]

end

/-- The lines before the root element are passed over. -/
theorem tags?_prolog (rest : Text) :
    tags? (prolog "Generated by wix-reg".toList ++ rest) = tags? rest := by
  have hdeclaration : markup? ("<?xml version=\"1.0\" encoding=\"UTF-8\"?>".toList
      ++ '\n' :: ("<!--\n  Generated by wix-reg\n-->".toList ++ '\n' :: rest))
      = some (none, '\n' :: ("<!--\n  Generated by wix-reg\n-->".toList ++ '\n' :: rest)) := rfl
  have hcomment : markup? ("<!--\n  Generated by wix-reg\n-->".toList ++ '\n' :: rest)
      = some (none, '\n' :: rest) := rfl
  have hlines : prolog "Generated by wix-reg".toList ++ rest
      = indent 0 ++ ("<?xml version=\"1.0\" encoding=\"UTF-8\"?>".toList
        ++ '\n' :: ("<!--\n  Generated by wix-reg\n-->".toList ++ '\n' :: rest)) := rfl
  have hline := tags?_line none hcomment 0
  rw [show indent 0 = [] from rfl, List.nil_append] at hline
  rw [hlines, tags?_line none hdeclaration, hline]
  cases tags? rest <;> rfl

/-! ## What trees show -/

/-- Trees **show** the elements that a reader finds in them. -/
structure Shows (xs : List Xml) (ys : List Element) : Prop where
  readable : AreReadable xs
  elements_eq : elementsOfAll xs = ys

namespace Shows

variable {xs xs' : List Xml} {ys ys' : List Element}

theorem nil : Shows [] [] :=
  ⟨trivial, rfl⟩

theorem append (h : Shows xs ys) (h' : Shows xs' ys') : Shows (xs ++ xs') (ys ++ ys') := by
  obtain ⟨hreadable, rfl⟩ := h
  induction xs with
  | nil => exact h'
  | cons x xs ih =>
    obtain ⟨hrest, helements⟩ := ih hreadable.2
    exact ⟨⟨hreadable.1, hrest⟩, by
      rw [List.cons_append, elementsOfAll, helements, elementsOfAll, List.append_assoc]⟩

theorem comment {t : Text} (h : '-' ∉ t) (hrest : Shows xs ys) : Shows (.comment t :: xs) ys :=
  ⟨⟨h, hrest.readable⟩, hrest.elements_eq⟩

theorem gap (hrest : Shows xs ys) : Shows (.gap :: xs) ys :=
  ⟨⟨trivial, hrest.readable⟩, hrest.elements_eq⟩

theorem leaf (h : WellNamed name attributes) :
    Shows [.leaf name attributes] [⟨name, attributes, []⟩] :=
  ⟨⟨h, trivial⟩, rfl⟩

theorem element (h : WellNamed name attributes) (hchildren : Shows xs ys) :
    Shows [.element name attributes xs] [⟨name, attributes, ys⟩] :=
  ⟨⟨⟨h, hchildren.readable⟩, trivial⟩, by rw [← hchildren.elements_eq]; rfl⟩

theorem map {α : Type} {f : α → Xml} {g : α → Element} {l : List α}
    (h : ∀ a ∈ l, Shows [f a] [g a]) : Shows (l.map f) (l.map g) := by
  induction l with
  | nil => exact nil
  | cons a l ih =>
    exact (h a List.mem_cons_self).append (ih fun b hb => h b (List.mem_cons_of_mem _ hb))

/-- Trees show what each of them shows, in their order. -/
theorem exists_forall₂ {α : Type} {R : α → Xml → Prop} {S : α → Element → Prop}
    (h : ∀ a x, R a x → ∃ y, Shows [x] [y] ∧ S a y) {l : List α} (hl : List.Forall₂ R l xs) :
    ∃ ys, Shows xs ys ∧ List.Forall₂ S l ys := by
  induction hl with
  | nil => exact ⟨[], nil, .nil⟩
  | cons hax _ ih =>
    obtain ⟨y, hy, hay⟩ := h _ _ hax
    obtain ⟨ys, hys, hrest⟩ := ih
    exact ⟨y :: ys, hy.append hys, .cons hay hrest⟩

end Shows

/-- **A printed tree is read back**: a document of one element is the element it shows. -/
theorem ofText?_document {x : Xml} {e : Element} (h : Shows [x] [e]) :
    Element.ofText? (prolog "Generated by wix-reg".toList ++ print 0 x) = some e := by
  have htags : tags? (prolog "Generated by wix-reg".toList ++ print 0 x) = some (tagsOf x) := by
    have hend : tags? [] = some [] := by
      rw [tags?]
      rfl
    have hprint := tags?_print h.readable.1 0 []
    rw [List.append_nil, hend] at hprint
    rw [tags?_prolog, hprint, Option.map_some, List.append_nil]
  have hnest := nest_tagsOfAll [x] [] [] []
  rw [h.elements_eq] at hnest
  rw [show tagsOfAll [x] ++ [] = tagsOf x by simp [tagsOfAll]] at hnest
  rw [Element.ofText?, htags, Option.bind_eq_bind, Option.bind_some, hnest]
  rfl

end InstallerRegistry.Xml
