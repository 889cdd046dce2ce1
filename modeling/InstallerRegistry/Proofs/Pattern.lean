import InstallerRegistry.Pattern
import InstallerRegistry.Proofs.Except

/-!
# What patterns stand for

A text without wildcards is a pattern for itself (`Pattern.ofText?_of_isLiteral`), and no other
pattern has a name that it stands for (`Pattern.eq_of_literal?`). Such a text may be put before a
pattern, with a slash between them: what was a pattern stays one, and what was none does not become
one (`Pattern.exists_ofText?_append_iff`), since a pattern is not read differently behind a slash
(`Pattern.partsFrom_eq_ok`).
-/

namespace InstallerRegistry.Pattern

/-- Does the text stand for itself? There is no wildcard in it. -/
structure IsLiteral (t : Text) : Prop where
  noMark : '?' ∉ t
  noStar : '*' ∉ t
  noBracket : '[' ∉ t

instance (t : Text) : Decidable (IsLiteral t) :=
  decidable_of_iff ('?' ∉ t ∧ '*' ∉ t ∧ '[' ∉ t)
    ⟨fun ⟨h, h', h''⟩ => ⟨h, h', h''⟩, fun ⟨h, h', h''⟩ => ⟨h, h', h''⟩⟩

variable {position position' : Nat} {previous previous' : Option Char} {t : Text}

/-! ## Texts without wildcards -/

theorem partsFrom_cons {c : Char} (hmark : c ≠ '?') (hstar : c ≠ '*') (hbracket : c ≠ '[') :
    partsFrom position previous (c :: t)
      = (do return .char c :: (← partsFrom (position + 1) (some c) t)) :=
  partsFrom.eq_9 _ _ _ _ hmark (fun _ h => absurd h hstar) (fun _ h => absurd h hstar) hstar
    hbracket

/-- Literal text at the front of a pattern is read character by character. -/
theorem partsFrom_append {a : Text} (h : IsLiteral a) {parts : List Part} :
    partsFrom position previous (a ++ t) = .ok parts
      ↔ ∃ rest, parts = a.map .char ++ rest
        ∧ partsFrom (position + a.length) ((a.getLast?).or previous) t = .ok rest := by
  induction a generalizing position previous parts with
  | nil =>
    simp
  | cons c a ih =>
    obtain ⟨hmark, hmark'⟩ := not_or.1 (fun h' => h.noMark (List.mem_cons.2 h'))
    obtain ⟨hstar, hstar'⟩ := not_or.1 (fun h' => h.noStar (List.mem_cons.2 h'))
    obtain ⟨hbracket, hbracket'⟩ := not_or.1 (fun h' => h.noBracket (List.mem_cons.2 h'))
    have hlength : position + (c :: a).length = position + 1 + a.length := by
      rw [List.length_cons]
      omega
    have hlast : ((c :: a).getLast?).or previous = (a.getLast?).or (some c) := by
      cases a <;> simp [List.getLast?_cons]
    rw [List.cons_append, partsFrom_cons (Ne.symm hmark) (Ne.symm hstar) (Ne.symm hbracket),
      bind_eq_ok_iff, hlength, hlast]
    simp only [ih ⟨hmark', hstar', hbracket'⟩]
    constructor
    · rintro ⟨_, ⟨rest, rfl, hrest⟩, ⟨⟩⟩
      exact ⟨rest, rfl, hrest⟩
    · rintro ⟨rest, rfl, hrest⟩
      exact ⟨_, ⟨rest, rfl, hrest⟩, rfl⟩

theorem ofText?_of_isLiteral (h : IsLiteral t) : ofText? t = .ok (t.map .char) := by
  have hparts : partsFrom 0 none (t ++ []) = .ok (t.map .char ++ []) :=
    (partsFrom_append h).2 ⟨[], rfl, partsFrom.eq_1 _ _⟩
  rwa [List.append_nil, List.append_nil] at hparts

theorem literal?_eq_some_iff {parts : List Part} :
    literal? parts = some t ↔ parts = t.map .char := by
  induction parts generalizing t with
  | nil => cases t <;> simp [literal?]
  | cons part parts ih => cases part <;> cases t <;> simp [literal?, ih, and_comm]

/-! ## Where a pattern stands -/

/-- A pattern can be read anywhere if it can be read somewhere, as long as a star could stand behind
`previous` in both places. -/
theorem partsFrom_eq_ok
    (hprevious : (previous.isSome && previous != some '/')
      = (previous'.isSome && previous' != some '/'))
    {parts : List Part} (h : partsFrom position previous t = .ok parts) :
    partsFrom position' previous' t = .ok parts := by
  fun_induction partsFrom position previous t generalizing position' previous' parts with
  | case1 =>
    rw [partsFrom]
    exact h
  | case2 position previous rest ih =>
    obtain ⟨behind, hbehind, h⟩ := bind_eq_ok_iff.1 h
    rw [partsFrom, ih rfl hbehind]
    exact h
  | case3 => exact absurd h nofun
  | case4 => exact absurd h nofun
  | case5 position previous hfree =>
    rw [hprevious] at hfree
    rw [partsFrom, if_neg hfree]
    exact h
  | case6 position previous hfree rest _ ih =>
    obtain ⟨behind, hbehind, h⟩ := bind_eq_ok_iff.1 h
    rw [hprevious] at hfree
    rw [partsFrom, if_neg hfree, ih rfl hbehind]
    exact h
  | case7 => exact absurd h nofun
  | case8 position previous rest hthree htwo ih =>
    obtain ⟨behind, hbehind, h⟩ := bind_eq_ok_iff.1 h
    rw [partsFrom, ih rfl hbehind]
    · exact h
    · exact hthree
    · exact htwo
  | case9 position previous inside hset => exact absurd h nofun
  | case10 position previous inside part rest hset hlength taken =>
    rename_i ih
    obtain ⟨behind, hbehind, h⟩ := bind_eq_ok_iff.1 h
    rw [partsFrom, hset]
    dsimp only
    rw [dif_pos hlength, ih rfl hbehind]
    exact h
  | case11 => exact absurd h nofun
  | case12 position previous c rest hmark _ _ hstar hbracket ih =>
    obtain ⟨behind, hbehind, h⟩ := bind_eq_ok_iff.1 h
    rw [partsFrom_cons hmark hstar hbracket, ih rfl hbehind]
    exact h

/-- A slash is a good place for a pattern to start. -/
theorem exists_ofText?_append_iff {a : Text} (h : IsLiteral a) :
    (∃ parts, ofText? (a ++ '/' :: t) = .ok parts) ↔ ∃ parts, ofText? t = .ok parts := by
  have hslash : IsLiteral (a ++ ['/']) :=
    ⟨by simpa using h.noMark, by simpa using h.noStar, by simpa using h.noBracket⟩
  rw [← List.singleton_append, ← List.append_assoc, ofText?, ofText?]
  simp only [partsFrom_append hslash, List.getLast?_concat]
  constructor
  · rintro ⟨_, rest, _, hrest⟩
    exact ⟨rest, partsFrom_eq_ok (by rfl) hrest⟩
  · rintro ⟨rest, hrest⟩
    exact ⟨_, rest, rfl, partsFrom_eq_ok (by rfl) hrest⟩

theorem of_set?_eq_some {part : Part} {rest : Text} (h : set? t = some (part, rest)) :
    ∃ ranges, part = .within ranges ∨ part = .outside ranges := by
  unfold set? at h
  split at h
  next =>
    obtain ⟨_, _, ⟨⟩⟩ := Option.map_eq_some_iff.1 h
    exact ⟨_, .inr rfl⟩
  next => exact absurd h nofun
  next =>
    obtain ⟨_, _, ⟨⟩⟩ := Option.map_eq_some_iff.1 h
    exact ⟨_, .inl rfl⟩
  next => exact absurd h nofun

/-- A pattern that stands for one name is this name. -/
theorem eq_of_literal? {parts : List Part} {given : Text}
    (h : partsFrom position previous t = .ok parts) (hgiven : literal? parts = some given) :
    given = t := by
  fun_induction partsFrom position previous t generalizing parts given with
  | case1 =>
    cases h
    exact (Option.some.inj hgiven).symm
  | case12 position previous c rest hmark _ _ hstar hbracket ih =>
    obtain ⟨behind, hbehind, h⟩ := bind_eq_ok_iff.1 h
    cases h
    obtain ⟨name, hname, rfl⟩ := Option.map_eq_some_iff.1 hgiven
    rw [ih hbehind hname]
  | case3 | case4 | case7 | case9 | case11 => exact absurd h nofun
  | case5 =>
    cases h
    exact absurd hgiven nofun
  | case2 | case6 | case8 =>
    obtain ⟨behind, _, ⟨⟩⟩ := bind_eq_ok_iff.1 h
    exact absurd hgiven nofun
  | case10 position previous inside part rest hset =>
    obtain ⟨behind, _, ⟨⟩⟩ := bind_eq_ok_iff.1 h
    obtain ⟨ranges, rfl | rfl⟩ := of_set?_eq_some hset <;> exact absurd hgiven nofun

/-! ## Names that are only dots -/

/-- A pattern with wildcards that matches one dot, the dot being given, also matches two. -/
theorem isMatch_dots_of_isMatch_dot {parts : List Part} (hhead : parts.head? = some (.char '.'))
    (hliteral : literal? parts = none) (h : isMatch parts ['.'] = true) :
    isMatch parts ['.', '.'] = true := by
  obtain ⟨rest, rfl⟩ := List.head?_eq_some_iff.1 hhead
  cases rest with
  | nil => exact absurd hliteral nofun
  | cons part rest => cases part <;> simp_all [isMatch, suffixes]

end InstallerRegistry.Pattern
