import InstallerRegistry.Proofs.Json.Reader
import InstallerRegistry.Text.JsonString
import Mathlib.Data.List.Forall2

/-!
# Printed JSON is read back

A text reads as a value if the reader takes the value from it wherever one has to come, and goes on
behind it (`Json.ReadsAs`). That is so for strings as they are written, whatever their characters
are, and for the words, and it goes over from the items of an array and the fields of an object to
the whole of it (`Json.readsAs_array`, `Json.readsAs_object`). White space can stand before each
item and before the bracket at the end.
-/

namespace InstallerRegistry.Json

open Xml (isSpace)

/-! ## Strings -/

/-- The number of a control character has two digits, and two zeros before them. -/
theorem exists_digits_of_lt : ∀ n < 0x20, ∃ a b c d,
    List.replicate (4 - (Text.hexOfNat n).length) '0' ++ Text.hexOfNat n = [a, b, c, d]
      ∧ numbered? a b c d = some (Char.ofNat n) := by
  have hdigits : ∀ n < 0x20, List.replicate (4 - (Text.hexOfNat n).length) '0' ++ Text.hexOfNat n
        = ['0', '0', Nat.digitChar (n / 16), Nat.digitChar (n % 16)]
      ∧ numbered? '0' '0' (Nat.digitChar (n / 16)) (Nat.digitChar (n % 16))
        = some (Char.ofNat n) := by
    decide
  exact fun n hn => ⟨_, _, _, _, hdigits n hn⟩

/-- **A written character is read back.** -/
theorem string?_jsonEscape (c : Char) (rest : Text) :
    string? (Text.jsonEscape c ++ rest) = (string? rest).map fun (t, rest) => (c :: t, rest) := by
  unfold Text.jsonEscape
  split
  case h_8 h₁ h₂ _ _ _ _ _ =>
    dsimp only
    split
    next hcontrol =>
      obtain ⟨a, b, c', d, hdigits, hnumber⟩ := exists_digits_of_lt c.toNat hcontrol
      rw [List.append_assoc _ _ (Text.hexOfNat c.toNat), hdigits]
      show (numbered? a b c' d).bind _ = _
      rw [hnumber, Option.bind_some, Char.ofNat_toNat]
      rfl
    next hcontrol =>
      rw [List.singleton_append, string?, if_neg (not_or.2 ⟨h₂, hcontrol⟩)]
      · exact h₁
      · exact fun _ _ _ _ _ h _ => h₂ h
      · exact fun _ _ h _ => h₂ h
  all_goals rfl

/-- A written text is read back, up to the quote behind it. -/
theorem string?_append (t rest : Text) :
    string? (t.flatMap Text.jsonEscape ++ '"' :: rest) = some (t, rest) := by
  induction t with
  | nil => rfl
  | cons c t ih =>
    rw [List.flatMap_cons, List.append_assoc, string?_jsonEscape, ih]
    rfl

/-! ## Tokens -/

theorem tokens?_space {space : Text} (h : ∀ c ∈ space, isSpace c) (t : Text) :
    tokens? (space ++ t) = tokens? t := by
  rw [tokens?, tokens?, List.dropWhile_append_of_pos h]

theorem token?_of_isSpace {c : Char} (h : isSpace c) (t : Text) : token? (c :: t) = none := by
  simp only [isSpace, Bool.or_eq_true, beq_iff_eq] at h
  rcases h with ((rfl | rfl) | rfl) | rfl <;> rfl

theorem tokens?_token {t rest : Text} {token : Token} (h : token? t = some (token, rest))
    (hlength : rest.length < t.length) : tokens? t = (tokens? rest).map (token :: ·) := by
  have hspace : t.dropWhile isSpace = t := by
    cases t with
    | nil => rfl
    | cons c t =>
      refine List.dropWhile_cons_of_neg fun hc => ?_
      rw [token?_of_isSpace hc] at h
      exact absurd h nofun
  have hne : ¬ t.isEmpty := by
    rintro hempty
    rw [List.isEmpty_iff.1 hempty] at hlength
    exact absurd hlength (Nat.not_lt_zero _)
  rw [tokens?, hspace, if_neg hne, h]
  exact if_pos hlength

theorem tokens?_jsonString (t rest : Text) :
    tokens? (Text.jsonString t ++ rest) = (tokens? rest).map (.scalar (.string t) :: ·) := by
  have htext : Text.jsonString t ++ rest = '"' :: (t.flatMap Text.jsonEscape ++ '"' :: rest) := by
    simp [Text.jsonString]
  rw [htext]
  refine tokens?_token ?_ ?_
  · show (string? (t.flatMap Text.jsonEscape ++ '"' :: rest)).map _ = _
    rw [string?_append]
    rfl
  · simp
    omega

/-! ## Values -/

/-- A text **reads as** a value: where a value has to come, the reader takes it from the text and
goes on behind it. -/
def ReadsAs (t : Text) (j : Json) : Prop :=
  ∀ opened rest, readFrom none opened (t ++ rest) = readFrom (some j) opened rest

variable {t space : Text} {j : Json}

theorem readFrom_space (h : ∀ c ∈ space, isSpace c) (done : Option Json) (opened : List Opened)
    (t : Text) : readFrom done opened (space ++ t) = readFrom done opened t := by
  rw [readFrom, tokens?_space h, readFrom]

theorem readFrom_token {rest : Text} {token : Token} (h : token? t = some (token, rest))
    (hlength : rest.length < t.length) (done : Option Json) (opened : List Opened) :
    readFrom done opened t = (tokens? rest).bind fun ts => nest done opened (token :: ts) := by
  rw [readFrom, tokens?_token h hlength, Option.bind_map]
  rfl

/-- A text that reads as a value is read as this value, with white space behind it. -/
theorem ReadsAs.ofText?_append (h : ReadsAs t j) (hspace : ∀ c ∈ space, isSpace c) :
    ofText? (t ++ space) = some j := by
  have hnone : tokens? [] = some [] := by
    rw [tokens?]
    rfl
  rw [ofText?, h, ← List.append_nil space, readFrom_space hspace, readFrom, hnone]
  rfl

theorem ReadsAs.behindSpace (h : ReadsAs t j) (hspace : ∀ c ∈ space, isSpace c) :
    ReadsAs (space ++ t) j := by
  intro opened rest
  rw [List.append_assoc, readFrom_space hspace, h]

theorem readsAs_jsonString (t : Text) : ReadsAs (Text.jsonString t) (.string t) := by
  intro opened rest
  rw [readFrom, tokens?_jsonString, Option.bind_map]
  rfl

/-- A word that is a token is the value that it stands for. -/
theorem readsAs_of_token? {word : Text} (hne : word ≠ [])
    (h : ∀ rest, token? (word ++ rest) = some (.scalar j, rest)) : ReadsAs word j := by
  intro opened rest
  have hlength : rest.length < (word ++ rest).length := by
    rw [List.length_append]
    exact Nat.lt_add_of_pos_left (List.length_pos_iff.2 hne)
  exact readFrom_token (h rest) hlength none opened

theorem readsAs_null : ReadsAs "null".toList .null :=
  readsAs_of_token? (by decide) fun _ => rfl

/-! ### Arrays -/

theorem readsAs_nil : ReadsAs ['[', ']'] (.array []) := by
  intro opened rest
  show readFrom none opened ('[' :: ']' :: rest) = _
  rw [readFrom_token rfl (Nat.lt_succ_self _), tokens?_token rfl (Nat.lt_succ_self _),
    Option.bind_map]
  rfl

/-- Behind an item of an array, each comma is followed by another one, up to the bracket. -/
theorem readFrom_items {texts : List Text} {items : List Json}
    (h : List.Forall₂ ReadsAs texts items) (hspace : ∀ c ∈ space, isSpace c)
    (before : List Json) (j : Json) (opened : List Opened) (rest : Text) :
    readFrom (some j) (.array before :: opened)
        (texts.flatMap (',' :: ·) ++ (space ++ ']' :: rest))
      = readFrom (some (.array (before ++ j :: items))) opened rest := by
  induction h generalizing before j with
  | nil =>
    rw [List.flatMap_nil, List.nil_append, readFrom_space hspace,
      readFrom_token rfl (Nat.lt_succ_self _)]
    rfl
  | @cons text item texts items hitem _ ih =>
    rw [List.flatMap_cons, List.cons_append, List.cons_append,
      readFrom_token rfl (Nat.lt_succ_self _)]
    show readFrom none (.array (before ++ [j]) :: opened) _ = _
    rw [List.append_assoc, hitem, ih, List.append_assoc]
    rfl

/-- **An array is read back** with its items. -/
theorem readsAs_array {texts : List Text} {items : List Json} (ht : ReadsAs t j)
    (h : List.Forall₂ ReadsAs texts items) (hspace : ∀ c ∈ space, isSpace c) :
    ReadsAs ('[' :: (t ++ (texts.flatMap (',' :: ·) ++ (space ++ [']']))))
      (.array (j :: items)) := by
  intro opened rest
  have hitems := readFrom_items h hspace [] j opened rest
  rw [List.cons_append, readFrom_token rfl (Nat.lt_succ_self _)]
  show readFrom none (.array [] :: opened) _ = _
  rw [List.append_assoc, ht, List.append_assoc, List.append_assoc]
  exact hitems

/-! ### Objects -/

/-- A text reads as a **field**: its name, a colon and its value. -/
inductive ReadsAsField : Text → Text × Json → Prop
  | mk {space name value : Text} {j : Json} (hspace : ∀ c ∈ space, isSpace c)
    (hvalue : ReadsAs value j) :
    ReadsAsField (space ++ (Text.jsonString name ++ ':' :: value)) (name, j)

theorem tokens?_name (hspace : ∀ c ∈ space, isSpace c) (name value : Text) :
    tokens? (space ++ (Text.jsonString name ++ ':' :: value))
      = (tokens? value).map fun ts => .scalar (.string name) :: .colon :: ts := by
  rw [tokens?_space hspace, tokens?_jsonString, tokens?_token rfl (Nat.lt_succ_self _),
    Option.map_map]
  rfl

variable {field : Text × Json}

/-- The first field of an object. -/
theorem ReadsAsField.readFrom_first (h : ReadsAsField t field) (opened : List Opened)
    (rest : Text) : readFrom none opened ('\x7b' :: (t ++ rest))
      = readFrom (some field.2) (.object [] field.1 :: opened) rest := by
  obtain ⟨hspace, hvalue⟩ := h
  rw [← hvalue, readFrom_token rfl (Nat.lt_succ_self _), List.append_assoc, List.append_assoc,
    List.cons_append, tokens?_name hspace, Option.bind_map]
  rfl

/-- The next field of an object, behind a comma. -/
theorem ReadsAsField.readFrom_next (h : ReadsAsField t field) (before : List (Text × Json))
    (name : Text) (j : Json) (opened : List Opened) (rest : Text) :
    readFrom (some j) (.object before name :: opened) (',' :: (t ++ rest))
      = readFrom (some field.2) (.object (before ++ [(name, j)]) field.1 :: opened) rest := by
  obtain ⟨hspace, hvalue⟩ := h
  rw [← hvalue, readFrom_token rfl (Nat.lt_succ_self _), List.append_assoc, List.append_assoc,
    List.cons_append, tokens?_name hspace, Option.bind_map]
  rfl

theorem readFrom_fields {texts : List Text} {fields : List (Text × Json)}
    (h : List.Forall₂ ReadsAsField texts fields) (hspace : ∀ c ∈ space, isSpace c)
    (before : List (Text × Json)) (field : Text × Json) (opened : List Opened) (rest : Text) :
    readFrom (some field.2) (.object before field.1 :: opened)
        (texts.flatMap (',' :: ·) ++ (space ++ '\x7d' :: rest))
      = readFrom (some (.object (before ++ field :: fields))) opened rest := by
  induction h generalizing before field with
  | nil =>
    rw [List.flatMap_nil, List.nil_append, readFrom_space hspace,
      readFrom_token rfl (Nat.lt_succ_self _)]
    rfl
  | @cons text next texts fields hnext _ ih =>
    rw [List.flatMap_cons, List.cons_append, List.cons_append, List.append_assoc,
      hnext.readFrom_next, ih, List.append_assoc]
    rfl

/-- **An object is read back** with its fields. -/
theorem readsAs_object {texts : List Text} {fields : List (Text × Json)}
    (ht : ReadsAsField t field) (h : List.Forall₂ ReadsAsField texts fields)
    (hspace : ∀ c ∈ space, isSpace c) :
    ReadsAs ('\x7b' :: (t ++ (texts.flatMap (',' :: ·) ++ (space ++ ['\x7d']))))
      (.object (field :: fields)) := by
  intro opened rest
  have hfields := readFrom_fields h hspace [] field opened rest
  rw [List.cons_append, List.append_assoc, ht.readFrom_first, List.append_assoc, List.append_assoc]
  exact hfields

end InstallerRegistry.Json
