import InstallerRegistry.Text

/-!
# Quoted strings of an export

A quoted string stands between double quotes, and a backslash in it keeps the character behind it
from ending the string. A backslash before a backslash or a quote is dropped; before any other
character it belongs to the string.

Reading gives back the string and what follows its closing quote. It undoes writing
(`Quoted.decode?_encode`), which puts a backslash before every backslash and every quote.
-/

namespace InstallerRegistry.Export.Quoted

/-- How a character is written inside a quoted string. -/
def escape (c : Char) : Text :=
  if c = '\\' ∨ c = '"' then ['\\', c] else [c]

/-- A string between quotes. -/
def encode (t : Text) : Text :=
  '"' :: t.flatMap escape ++ ['"']

/-- The string from behind its opening quote on, and what follows its closing quote. -/
def decodeBody? : Text → Option (Text × Text)
  | [] => none
  | '"' :: rest => some ([], rest)
  | '\\' :: [] => none
  | '\\' :: c :: rest =>
    (decodeBody? rest).map fun (t, behind) =>
      (if c = '\\' ∨ c = '"' then c :: t else '\\' :: c :: t, behind)
  | c :: rest => (decodeBody? rest).map fun (t, behind) => (c :: t, behind)

/-- The quoted string at the front of a text, and what follows it. -/
def decode? : Text → Option (Text × Text)
  | '"' :: rest => decodeBody? rest
  | _ => none

theorem decodeBody?_flatMap_escape (t rest : Text) :
    decodeBody? (t.flatMap escape ++ '"' :: rest) = some (t, rest) := by
  induction t with
  | nil => rfl
  | cons c t ih =>
    by_cases h : c = '\\' ∨ c = '"'
    · simp only [List.flatMap_cons, escape, h, if_true, List.cons_append, List.nil_append]
      simp [decodeBody?, ih, h]
    · obtain ⟨h₁, h₂⟩ := not_or.1 h
      simp only [List.flatMap_cons, escape, h, if_false, List.cons_append, List.nil_append]
      rw [decodeBody?.eq_5 c _ h₂ (fun e => absurd e h₁) (fun _ _ e => absurd e h₁), ih]
      rfl

/-- **Reading undoes writing**, and leaves what follows alone. -/
theorem decode?_encode (t rest : Text) : decode? (encode t ++ rest) = some (t, rest) := by
  simpa [decode?, encode] using decodeBody?_flatMap_escape t rest

end InstallerRegistry.Export.Quoted
