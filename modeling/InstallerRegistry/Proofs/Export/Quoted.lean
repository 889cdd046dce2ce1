import InstallerRegistry.Export.Quoted
import Mathlib.Logic.Function.Defs

/-!
# The items of a quoted string

Whether a quote ends a quoted string depends on all that stands before it, since a backslash in
front of it counts only if it is not itself kept by a backslash. It is simpler to say what stands
between the quotes: a list of **items**, each of which is a character other than a quote and a
backslash, or a backslash with any character behind it (`Quoted.Item`).

A text starts with at most one such list between quotes (`Quoted.quote_inj`), because the first
character of an item says how long the item is. If it starts with one, reading gives what the items
mean and what stands behind the closing quote, and otherwise nothing
(`Quoted.decode?_eq_some_iff_quote`).
-/

namespace InstallerRegistry.Export.Quoted

/-- **An item of a quoted string.** -/
inductive Item where
  /-- A character that neither ends the string nor keeps another one from ending it. -/
  | plain (c : Char) (notQuote : c ≠ '"') (notBackslash : c ≠ '\\')
  /-- A backslash and the character behind it, whatever that is. -/
  | escaped (c : Char)
deriving DecidableEq

namespace Item

/-- The item as it stands between the quotes. -/
def text : Item → Text
  | plain c _ _ => [c]
  | escaped c => ['\\', c]

/-- What the item stands for: a backslash goes away before a backslash or a quote. -/
def meaning : Item → Text
  | plain c _ _ => [c]
  | escaped c => if c = '\\' ∨ c = '"' then [c] else ['\\', c]

end Item

/-- Items between quotes, with a text behind them. -/
def quote (items : List Item) (rest : Text) : Text :=
  '"' :: (items.flatMap Item.text ++ '"' :: rest)

/-- What items stand for. -/
def meaning (items : List Item) : Text :=
  items.flatMap Item.meaning

/-! ## One list of items -/

/-- The first character of an item says what it is and how long it is. -/
theorem Item.text_append_inj {item item' : Item} {t t' : Text}
    (h : item.text ++ t = item'.text ++ t') : item = item' ∧ t = t' := by
  cases item with
  | plain c hquote hbackslash =>
    cases item' with
    | plain c' _ _ =>
      obtain ⟨rfl, rfl⟩ := List.cons.inj h
      exact ⟨rfl, rfl⟩
    | escaped c' => exact absurd (List.cons.inj h).1 hbackslash
  | escaped c =>
    cases item' with
    | plain c' _ hbackslash => exact absurd (List.cons.inj h).1.symm hbackslash
    | escaped c' =>
      obtain ⟨rfl, rfl⟩ := List.cons.inj (List.cons.inj h).2
      exact ⟨rfl, rfl⟩

/-- No item starts with the closing quote. -/
theorem Item.text_append_ne (item : Item) (t rest : Text) : item.text ++ t ≠ '"' :: rest := by
  cases item with
  | plain c hquote _ => exact fun h => hquote (List.cons.inj h).1
  | escaped c => exact fun h => absurd (List.cons.inj h).1 (by decide)

/-- **A text has one list of items** between its first quotes, and one rest behind them. -/
theorem quote_inj {items items' : List Item} {rest rest' : Text}
    (h : quote items rest = quote items' rest') : items = items' ∧ rest = rest' := by
  replace h := (List.cons.inj h).2
  induction items generalizing items' with
  | nil =>
    cases items' with
    | nil => exact ⟨rfl, (List.cons.inj h).2⟩
    | cons item' items' =>
      rw [List.flatMap_cons, List.append_assoc] at h
      exact absurd h.symm (item'.text_append_ne _ _)
  | cons item items ih =>
    rw [List.flatMap_cons, List.append_assoc] at h
    cases items' with
    | nil => exact absurd h (item.text_append_ne _ _)
    | cons item' items' =>
      rw [List.flatMap_cons, List.append_assoc] at h
      obtain ⟨rfl, hrest⟩ := Item.text_append_inj h
      obtain ⟨rfl, rfl⟩ := ih hrest
      exact ⟨rfl, rfl⟩

/-! ## Reading items -/

/-- Behind an opening quote, the first item is taken off. -/
theorem decodeBody?_item (item : Item) (t : Text) :
    decodeBody? (item.text ++ t)
      = (decodeBody? t).map fun (out, rest) => (item.meaning ++ out, rest) := by
  cases item with
  | plain c hquote hbackslash =>
    exact decodeBody?.eq_5 c t hquote (fun h => absurd h hbackslash)
      (fun _ _ h => absurd h hbackslash)
  | escaped c =>
    show (decodeBody? t).map _ = (decodeBody? t).map _
    by_cases h : c = '\\' ∨ c = '"' <;> simp [Item.meaning, h]

/-- **Items are read** as what they stand for. -/
theorem decode?_quote (items : List Item) (rest : Text) :
    decode? (quote items rest) = some (meaning items, rest) := by
  show decodeBody? (items.flatMap Item.text ++ '"' :: rest) = some (meaning items, rest)
  induction items with
  | nil => rfl
  | cons item items ih =>
    rw [List.flatMap_cons, List.append_assoc, decodeBody?_item, ih]
    rfl

/-- What is read behind an opening quote is made of items. -/
theorem exists_items_of_decodeBody? {t out rest : Text} (h : decodeBody? t = some (out, rest)) :
    ∃ items : List Item, t = items.flatMap Item.text ++ '"' :: rest := by
  fun_induction decodeBody? t generalizing out with
  | case1 => exact absurd h nofun
  | case2 rest' =>
    obtain ⟨_, rfl⟩ := Prod.mk.inj (Option.some.inj h)
    exact ⟨[], rfl⟩
  | case3 => exact absurd h nofun
  | case4 c t ih =>
    obtain ⟨⟨out', _⟩, ht, ⟨⟩⟩ := Option.map_eq_some_iff.1 h
    obtain ⟨items, rfl⟩ := ih ht
    exact ⟨.escaped c :: items, rfl⟩
  | case5 c t hquote hlast hescape ih =>
    have hbackslash : c ≠ '\\' := by
      cases t with
      | nil => exact fun hc => hlast hc rfl
      | cons d t => exact fun hc => hescape d t hc rfl
    obtain ⟨⟨out', _⟩, ht, ⟨⟩⟩ := Option.map_eq_some_iff.1 h
    obtain ⟨items, rfl⟩ := ih ht
    exact ⟨.plain c hquote hbackslash :: items, rfl⟩

/-- **What is read is a quoted string.** -/
theorem exists_eq_quote_of_decode? {t out rest : Text} (h : decode? t = some (out, rest)) :
    ∃ items, t = quote items rest := by
  unfold decode? at h
  split at h
  next t' =>
    obtain ⟨items, rfl⟩ := exists_items_of_decodeBody? h
    exact ⟨items, rfl⟩
  next => exact absurd h nofun

/-- **Exactly the quoted strings are read**: a text is read if it starts with items between quotes,
and then as what the items mean and what stands behind them. No text starts with two different lists
of items between quotes, and a string that has been written is read back. -/
theorem decode?_eq_some_iff_quote :
    (∀ t out rest, decode? t = some (out, rest)
        ↔ ∃ items, t = quote items rest ∧ out = meaning items)
      ∧ (Function.Injective fun d : List Item × Text => quote d.1 d.2)
      ∧ ∀ s rest, decode? (encode s ++ rest) = some (s, rest) := by
  refine ⟨fun t out rest => ⟨fun h => ?_, ?_⟩, fun d d' h => ?_, fun s rest => ?_⟩
  · obtain ⟨items, rfl⟩ := exists_eq_quote_of_decode? h
    rw [decode?_quote] at h
    exact ⟨items, rfl, (Prod.mk.inj (Option.some.inj h)).1.symm⟩
  · rintro ⟨items, rfl, rfl⟩
    exact decode?_quote items rest
  · obtain ⟨hitems, hrest⟩ := quote_inj h
    exact Prod.ext hitems hrest
  · exact decode?_encode s rest

end InstallerRegistry.Export.Quoted
