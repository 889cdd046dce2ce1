/-!
# Text

Whatever this library reads, compares or writes is **text**: a list of characters. Lists keep the
reasoning first order: a reader recurses on the characters left, a writer concatenates, and what
the two say to each other is an equation between lists.

The operations here are the ones every format below shares: cutting a text at a separator
(`Text.cut?`, `Text.splitOn`), recognising how it begins or ends (`Text.after?`, `Text.before?`),
replacing a character (`Text.replace`) and writing a number down (`Text.ofNat`, `Text.ofInt`).
Cutting loses nothing: the pieces joined by the separator are the text again (`Text.join_splitOn`,
`Text.eq_of_cut?`).
-/

namespace InstallerRegistry

/-- A **text** is the list of its characters, each a Unicode scalar value. -/
abbrev Text := List Char

namespace Text

/-! ## Cutting at a separator -/

/-- What stands before and after the first `sep`, if there is one. -/
def cut? (sep : Char) : Text → Option (Text × Text)
  | [] => none
  | c :: rest =>
    if c = sep then some ([], rest) else (cut? sep rest).map fun (a, b) => (c :: a, b)

/-- The pieces of a text between its separators: one more than there are separators. -/
def splitOn (sep : Char) : Text → List Text
  | [] => [[]]
  | c :: rest =>
    if c = sep then [] :: splitOn sep rest
    else
      match splitOn sep rest with
      | [] => [[c]]
      | piece :: pieces => (c :: piece) :: pieces

/-- The texts one after another, with `sep` between neighbours. -/
def join (sep : Text) : List Text → Text
  | [] => []
  | [piece] => piece
  | piece :: next :: pieces => piece ++ sep ++ join sep (next :: pieces)

theorem splitOn_ne_nil (sep : Char) (t : Text) : splitOn sep t ≠ [] := by
  cases t with
  | nil => simp [splitOn]
  | cons c rest =>
    unfold splitOn
    split
    · simp
    · split <;> simp

/-- **Splitting loses nothing**: the pieces joined by the separator are the text. -/
theorem join_splitOn (sep : Char) (t : Text) : join [sep] (splitOn sep t) = t := by
  induction t with
  | nil => rfl
  | cons c rest ih =>
    unfold splitOn
    by_cases h : c = sep
    · obtain ⟨p, ps, hp⟩ := List.exists_cons_of_ne_nil (splitOn_ne_nil sep rest)
      simp only [h, if_true]
      rw [hp] at ih ⊢
      simp [join, ih]
    · simp only [h, if_false]
      obtain ⟨p, ps, hp⟩ := List.exists_cons_of_ne_nil (splitOn_ne_nil sep rest)
      rw [hp] at ih ⊢
      cases ps with
      | nil => simpa [join] using ih
      | cons q qs => simpa [join] using ih

/-- **Cutting loses nothing**: the two parts around the separator are the text. -/
theorem eq_of_cut? {sep : Char} {t a b : Text} (h : cut? sep t = some (a, b)) :
    t = a ++ sep :: b := by
  induction t generalizing a with
  | nil => simp [cut?] at h
  | cons c rest ih =>
    unfold cut? at h
    by_cases hc : c = sep
    · simp only [hc, if_true, Option.some.injEq, Prod.mk.injEq] at h
      simp [← h.1, h.2, hc]
    · simp only [hc, if_false, Option.map_eq_some_iff, Prod.mk.injEq, Prod.exists] at h
      obtain ⟨a', b', hab, rfl, rfl⟩ := h
      simp [ih hab]

/-! ## Beginnings and ends -/

/-- What follows `start` in a text that begins with it. -/
def after? : Text → Text → Option Text
  | [], t => some t
  | s :: start, c :: t => if s = c then after? start t else none
  | _ :: _, [] => none

/-- What precedes `ending` in a text that ends with it. -/
def before? (ending t : Text) : Option Text :=
  (after? ending.reverse t.reverse).map List.reverse

/-- Does the text begin with `start`? -/
def startsWith (start t : Text) : Bool :=
  (after? start t).isSome

/-- Does the text end with the character `c`? -/
def endsWith (c : Char) (t : Text) : Bool :=
  t.getLast? == some c

theorem after?_eq_some_iff {start t rest : Text} :
    after? start t = some rest ↔ t = start ++ rest := by
  induction start generalizing t with
  | nil => simp [after?]
  | cons s start ih =>
    cases t with
    | nil => simp [after?]
    | cons c t =>
      by_cases h : s = c
      · simp [after?, h, ih]
      · simp [after?, h, Ne.symm h]

@[simp] theorem after?_append (start rest : Text) : after? start (start ++ rest) = some rest :=
  after?_eq_some_iff.2 rfl

theorem before?_eq_some_iff {ending t rest : Text} :
    before? ending t = some rest ↔ t = rest ++ ending := by
  unfold before?
  rw [Option.map_eq_some_iff]
  constructor
  · rintro ⟨u, hu, rfl⟩
    have := after?_eq_some_iff.1 hu
    rw [← List.reverse_reverse t, this]
    simp
  · rintro rfl
    exact ⟨rest.reverse, by simp, by simp⟩

/-- What stands before and after the first occurrence of `sep`, if there is one. -/
def cutAt? (sep : Text) : Text → Option (Text × Text)
  | [] => (after? sep []).map fun rest => ([], rest)
  | c :: t =>
    match after? sep (c :: t) with
    | some rest => some ([], rest)
    | none => (cutAt? sep t).map fun (a, b) => (c :: a, b)

/-- The text without the characters `p` holds of at its end. -/
def dropEndWhile (p : Char → Bool) (t : Text) : Text :=
  (t.reverse.dropWhile p).reverse

/-- The text without the characters `p` holds of at its start and at its end. -/
def dropAround (p : Char → Bool) (t : Text) : Text :=
  dropEndWhile p (t.dropWhile p)

/-! ## Replacing -/

/-- The text with `new` for each character `old`. -/
def replace (t : Text) (old : Char) (new : Text) : Text :=
  t.flatMap fun c => if c = old then new else [c]

/-! ## Numbers in decimal -/

/-- The decimal digits of a number, without leading zeros. -/
def ofNat (n : Nat) : Text :=
  Nat.toDigits 10 n

/-- The decimal digits of an integer, behind a minus sign if it is negative. -/
def ofInt : Int → Text
  | .ofNat n => ofNat n
  | .negSucc n => '-' :: ofNat (n + 1)

end Text

end InstallerRegistry
