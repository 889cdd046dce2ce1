import InstallerRegistry.Proofs.Xml.Reader
import Mathlib.Data.List.Basic

/-!
# Escaping is one pass

A text is escaped by five replacements, and each of them also goes over the references that those
before it have brought in. That this does no harm is a matter of their order: no replacement brings
in a character that a later one looks for, because the ampersand, which all of them bring in, is
replaced first. Under this condition, any replacements are one pass that looks at each character by
itself (`Text.foldl_replace`), and so is escaping (`Xml.escape_eq_flatMap`).

What escaped texts look like can be said without escaping (`Xml.IsEscaped`). Each of them is one
text escaped, and a reader that expands references from left to right finds this text
(`Xml.escape_outcome`).
-/

namespace InstallerRegistry

/-! ## Replacements one after another -/

namespace Text

/-- What one pass writes for a character: what the first replacement that looks for it brings in. -/
def substitute : List (Char × Text) → Char → Text
  | [], c => [c]
  | r :: rs, c => if c = r.1 then r.2 else substitute rs c

theorem substitute_eq_singleton {rs : List (Char × Text)} {c : Char} (h : ∀ r ∈ rs, c ≠ r.1) :
    substitute rs c = [c] := by
  induction rs with
  | nil => rfl
  | cons r rs ih =>
    obtain ⟨hc, hrest⟩ := List.forall_mem_cons.1 h
    rw [substitute, if_neg hc, ih hrest]

/-- A text is left alone if nothing in it is looked for. -/
theorem flatMap_substitute_eq_self {rs : List (Char × Text)} {t : Text}
    (h : ∀ r ∈ rs, r.1 ∉ t) : t.flatMap (substitute rs) = t := by
  have hchar : ∀ c ∈ t, substitute rs c = [c] := fun c hc =>
    substitute_eq_singleton fun r hr hcr => h r hr (hcr ▸ hc)
  rw [List.flatMap_congr hchar, List.flatMap_singleton']

/-- **Replacements are one pass** if none of them brings in what a later one looks for. -/
theorem foldl_replace {rs : List (Char × Text)} (h : rs.Pairwise fun r r' => r'.1 ∉ r.2)
    (t : Text) : rs.foldl (fun t r => t.replace r.1 r.2) t = t.flatMap (substitute rs) := by
  induction rs generalizing t with
  | nil => exact (flatMap_substitute_eq_self (List.forall_mem_nil _)).symm
  | cons r rs ih =>
    obtain ⟨hnew, hrest⟩ := List.pairwise_cons.1 h
    rw [List.foldl_cons, ih hrest, replace, List.flatMap_assoc]
    refine List.flatMap_congr fun c _ => ?_
    by_cases hc : c = r.1
    · -- the later replacements leave what this one has brought in
      rw [if_pos hc, flatMap_substitute_eq_self hnew, substitute, if_pos hc]
    · rw [if_neg hc, List.flatMap_singleton, substitute, if_neg hc]

end Text

namespace Xml

/-! ## Escaping -/

/-- How a character is written in an attribute. -/
def escapeChar : Char → Text
  | '&' => "&amp;".toList
  | '<' => "&lt;".toList
  | '>' => "&gt;".toList
  | '"' => "&quot;".toList
  | '\'' => "&apos;".toList
  | c => [c]

/-- The characters that are replaced and their references, in the order of the replacements. -/
def references : List (Char × Text) :=
  [('&', "&amp;".toList), ('<', "&lt;".toList), ('>', "&gt;".toList), ('"', "&quot;".toList),
    ('\'', "&apos;".toList)]

/-- A character is written as its reference, or as it is if it has none. -/
theorem mem_references_or_escapeChar_eq (c : Char) :
    (c, escapeChar c) ∈ references ∨ escapeChar c = [c] ∧ ∀ r ∈ references, c ≠ r.1 := by
  unfold escapeChar
  split
  next => exact .inl (by decide)
  next => exact .inl (by decide)
  next => exact .inl (by decide)
  next => exact .inl (by decide)
  next => exact .inl (by decide)
  next hamp hlt hgt hquot hapos => exact .inr ⟨rfl, by simp_all [references]⟩

theorem substitute_references (c : Char) : Text.substitute references c = escapeChar c := by
  rcases mem_references_or_escapeChar_eq c with href | ⟨hself, hne⟩
  · exact (by decide : ∀ r ∈ references, Text.substitute references r.1 = r.2) _ href
  · rw [hself, Text.substitute_eq_singleton hne]

theorem escape_eq_foldl (t : Text) :
    escape t = references.foldl (fun t r => t.replace r.1 r.2) t := by
  simp only [escape, references, List.foldl_cons, List.foldl_nil]

/-- **Escaping is one pass** over the characters. -/
theorem escape_eq_flatMap (t : Text) : escape t = t.flatMap escapeChar := by
  have horder : references.Pairwise fun r r' => r'.1 ∉ r.2 := by decide
  rw [escape_eq_foldl, Text.foldl_replace horder, funext substitute_references]

theorem escape_cons (c : Char) (t : Text) : escape (c :: t) = escapeChar c ++ escape t := by
  rw [escape_eq_flatMap, escape_eq_flatMap, List.flatMap_cons]

theorem escapeChar_eq_of_mem_references {r : Char × Text} (h : r ∈ references) :
    escapeChar r.1 = r.2 :=
  (by decide : ∀ r ∈ references, escapeChar r.1 = r.2) r h

theorem escapeChar_ne_nil (c : Char) : escapeChar c ≠ [] := by
  rcases mem_references_or_escapeChar_eq c with h | ⟨h, _⟩
  · exact (by decide : ∀ r ∈ references, r.2 ≠ []) _ h
  · rw [h]
    exact List.cons_ne_nil c []

/-! ## Expanding -/

theorem expand?_escapeChar_append (c : Char) (t : Text) :
    expand? (escapeChar c ++ t) = (expand? t).map (c :: ·) := by
  unfold escapeChar
  split
  next => rfl
  next => rfl
  next => rfl
  next => rfl
  next => rfl
  next hamp hlt _ _ _ =>
    show expand? (c :: t) = _
    rw [expand?, if_neg (not_or.2 ⟨hamp, hlt⟩)] <;> exact fun _ h => absurd h hamp

/-- **Escaping is undone** by the reader. -/
theorem expand?_escape (t : Text) : expand? (escape t) = some t := by
  induction t with
  | nil => rfl
  | cons c t ih =>
    rw [escape_cons, expand?_escapeChar_append, ih]
    rfl

/-! ## Escaped texts -/

/-- **What escaped texts look like**: of the five characters there are only ampersands, and these
belong to references. -/
structure IsEscaped (u : Text) : Prop where
  /-- The other four do not stand in it. -/
  noMarkup : ∀ c ∈ ['<', '>', '"', '\''], c ∉ u
  /-- Every ampersand is the first character of a reference. -/
  startsReference : ∀ before rest, u = before ++ '&' :: rest →
    ∃ r ∈ references, r.2 <+: '&' :: rest

/-- An ampersand in the written form of a character is the first of a reference. -/
theorem mem_references_of_escapeChar_eq {c : Char} {before behind : Text}
    (h : escapeChar c = before ++ '&' :: behind) : (c, '&' :: behind) ∈ references := by
  rcases mem_references_or_escapeChar_eq c with href | ⟨hself, hne⟩
  · rw [h] at href
    cases before with
    | nil => exact href
    | cons d before =>
      have hfirst : ∀ r ∈ references, '&' ∉ r.2.tail := by decide
      exact absurd (List.mem_append_right before List.mem_cons_self) (hfirst _ href)
  · have hamp : '&' ∈ [c] := by
      rw [← hself, h]
      exact List.mem_append_right before List.mem_cons_self
    exact absurd (List.mem_singleton.1 hamp).symm (hne ('&', "&amp;".toList) (by decide))

theorem notMem_escapeChar {d : Char} (h : d ∈ ['<', '>', '"', '\'']) (c : Char) :
    d ∉ escapeChar c := by
  rcases mem_references_or_escapeChar_eq c with href | ⟨hself, hne⟩
  · have hreferences : ∀ r ∈ references, ∀ d ∈ ['<', '>', '"', '\''], d ∉ r.2 := by
      simp [references]
    exact hreferences _ href d h
  · have hreplaced : ['<', '>', '"', '\''] ⊆ references.map Prod.fst := by decide
    obtain ⟨r, hr, rfl⟩ := List.mem_map.1 (hreplaced h)
    rw [hself, List.mem_singleton]
    exact Ne.symm (hne r hr)

namespace IsEscaped

variable {u : Text}

theorem nil : IsEscaped [] where
  noMarkup _ _ := List.not_mem_nil
  startsReference before rest h := absurd h (by simp)

theorem escapeChar_append (h : IsEscaped u) (c : Char) : IsEscaped (escapeChar c ++ u) where
  noMarkup d hd hmem := (List.mem_append.1 hmem).elim (notMem_escapeChar hd c) (h.noMarkup d hd)
  startsReference before rest heq := by
    rcases List.append_eq_append_iff.1 heq with ⟨between, rfl, hrest⟩ | ⟨behind, hchar, hrest⟩
    · exact h.startsReference between rest hrest
    · cases behind with
      | nil => exact h.startsReference [] rest hrest.symm
      | cons d behind =>
        -- the ampersand is in what is written for the character, and starts it
        obtain ⟨rfl, rfl⟩ := List.cons.inj hrest
        exact ⟨_, mem_references_of_escapeChar_eq hchar, u, rfl⟩

theorem of_append {t : Text} (h : IsEscaped (t ++ u)) : IsEscaped u where
  noMarkup c hc hmem := h.noMarkup c hc (List.mem_append_right t hmem)
  startsReference before rest heq :=
    h.startsReference (t ++ before) rest (by rw [heq, List.append_assoc])

/-- **An escaped text starts with a written character**, if with anything. -/
theorem eq_nil_or_escapeChar_append (h : IsEscaped u) :
    u = [] ∨ ∃ c u', u = escapeChar c ++ u' := by
  cases u with
  | nil => exact .inl rfl
  | cons c u =>
    right
    rcases mem_references_or_escapeChar_eq c with href | ⟨hself, _⟩
    · -- of the characters that have a reference, only the ampersand is left
      have hleft : ∀ r ∈ references, r.1 ∈ ['<', '>', '"', '\''] ∨ r.1 = '&' := by decide
      obtain rfl : c = '&' :=
        (hleft _ href).resolve_left fun hc => h.noMarkup c hc List.mem_cons_self
      obtain ⟨r, hr, u', hu⟩ := h.startsReference [] u rfl
      exact ⟨r.1, u', by rw [escapeChar_eq_of_mem_references hr, hu]⟩
    · exact ⟨c, u, by rw [hself, List.singleton_append]⟩

/-- **An escaped text is some text escaped.** -/
theorem exists_escape {u : Text} (h : IsEscaped u) : ∃ t, escape t = u := by
  rcases h.eq_nil_or_escapeChar_append with rfl | ⟨c, u', hu⟩
  · exact ⟨[], rfl⟩
  · have hshorter : u'.length < u.length := by
      rw [hu, List.length_append]
      exact Nat.lt_add_of_pos_left (List.length_pos_iff.2 (escapeChar_ne_nil c))
    rw [hu] at h
    obtain ⟨t, ht⟩ := exists_escape h.of_append
    exact ⟨c :: t, by rw [escape_cons, ht, hu]⟩
termination_by u.length

end IsEscaped

theorem isEscaped_escape (t : Text) : IsEscaped (escape t) := by
  induction t with
  | nil => exact .nil
  | cons c t ih =>
    rw [escape_cons]
    exact ih.escapeChar_append c

/-- **Escaping is one pass that can be undone**: each character is written by itself, the result is
an escaped text and expands to what has been escaped, whatever that looks like, and every escaped
text comes about in this way. -/
theorem escape_outcome :
    (∀ t, escape t = t.flatMap escapeChar)
      ∧ (∀ t, IsEscaped (escape t) ∧ expand? (escape t) = some t)
      ∧ ∀ u, IsEscaped u ↔ ∃ t, escape t = u := by
  refine ⟨escape_eq_flatMap, fun t => ⟨isEscaped_escape t, expand?_escape t⟩,
    fun u => ⟨fun h => h.exists_escape, ?_⟩⟩
  rintro ⟨t, rfl⟩
  exact isEscaped_escape t

example : escape "&lt; < '".toList = "&amp;lt; &lt; &apos;".toList := by decide

end Xml

end InstallerRegistry
