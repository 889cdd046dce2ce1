import InstallerRegistry.Listing
import InstallerRegistry.Proofs.Component
import InstallerRegistry.Proofs.Json.Reading
import InstallerRegistry.Proofs.RegistryValue.Written
import InstallerRegistry.Proofs.Text.Cutting

/-!
# What a listing says

Each entry has its row (`Entry.HasRow`). A listing for reading has a line for each row
(`Listing.Row.IsLine`). A line feed in a value is shown like a backslash and an `n`, so some of what
it lists looks the same. A listing in JSON does not: a reader finds in it an object for each row
(`Listing.ofText?_json`), and an object is that of one row alone (`Listing.Row.object_injective`).
-/

namespace InstallerRegistry

open Json (ReadsAs ReadsAsField)

/-! ## Rows -/

/-- **An entry has a row**, which says where its value goes and what is written of it, and repeats
its feature and its view of the registry. -/
structure Entry.HasRow (e : Entry) (r : Listing.Row) : Prop where
  hive : r.hive = e.hive
  key : r.key = e.key
  name : r.name = e.name
  value : ∃ v, e.value = some v ∧ v.IsWrittenAs r.type.name r.payload
  feature : r.feature = e.feature
  win64 : r.win64 = e.win64

theorem Entry.hasRow_of_ofEntry {e : Entry} {r : Listing.Row} (h : Listing.Row.ofEntry e = .ok r) :
    e.HasRow r := by
  obtain ⟨v, hv, h⟩ := bind_eq_ok_iff.1 h
  cases h
  exact ⟨rfl, rfl, rfl, ⟨v, setValue_eq_ok_iff.1 hv, v.isWrittenAs_name_payload⟩, rfl, rfl⟩

namespace Listing

/-- The rows of entries are theirs, one by one. -/
theorem forall₂_hasRow {entries : List Entry} {rows : List Row}
    (h : Listing.rows entries = .ok rows) : List.Forall₂ Entry.HasRow entries rows :=
  (mapM_eq_ok_iff.1 h).imp fun _ _ => Entry.hasRow_of_ofEntry

/-! ## For reading -/

/-- Is the second text what the first one looks like **on one line**? A line feed is shown as a
backslash and an `n`, any other character as itself. -/
inductive OnOneLine : Text → Text → Prop
  | nil : OnOneLine [] []
  | lineFeed {t shown : Text} (rest : OnOneLine t shown) :
    OnOneLine ('\n' :: t) ('\\' :: 'n' :: shown)
  | char {c : Char} {t shown : Text} (hc : c ≠ '\n') (rest : OnOneLine t shown) :
    OnOneLine (c :: t) (c :: shown)

/-- **The line of a row**: the path of its key, its name or an at sign for a default value, its type
and its text, with two blanks between them. -/
def Row.IsLine (r : Row) (line : Text) : Prop :=
  ∃ shown, OnOneLine r.payload shown
    ∧ line = r.hive.shortName ++ '\\' :: r.key ++ "  ".toList
      ++ (if r.name = [] then ['@'] else r.name) ++ "  ".toList
      ++ r.type.name ++ "  ".toList ++ shown ++ ['\n']

theorem onOneLine_onOneLine (t : Text) : OnOneLine t (onOneLine t) := by
  induction t with
  | nil => exact .nil
  | cons c t ih =>
    rw [onOneLine, List.flatMap_cons, ← onOneLine]
    by_cases hc : c = '\n'
    · rw [if_pos hc, hc]
      exact .lineFeed ih
    · rw [if_neg hc]
      exact .char hc ih

theorem Row.isLine_line (r : Row) : r.IsLine r.line := by
  refine ⟨onOneLine r.payload, onOneLine_onOneLine r.payload, ?_⟩
  rw [line]
  simp [Text.join]

/-- **A listing for reading** has the lines of its rows, one after another. -/
theorem exists_lines_text (rows : List Row) :
    ∃ lines, List.Forall₂ Row.IsLine rows lines ∧ text rows = lines.flatten :=
  ⟨rows.map Row.line, List.forall₂_map_right_iff.2 (List.forall₂_same.2 fun r _ => r.isLine_line),
    List.flatMap_def⟩

/-! ## As JSON -/

/-- **The object of a row**, which has a field for everything in the row. -/
def Row.object (r : Row) : Json :=
  .object
    [("hive".toList, .string r.hive.shortName), ("key".toList, .string r.key),
      ("name".toList, .string r.name), ("type".toList, .string r.type.name),
      ("value".toList, .string r.payload),
      ("feature".toList, match r.feature with
        | some t => .string t
        | none => .null),
      ("win64".toList, .boolean r.win64)]

/-- An object is that of one row. -/
theorem Row.object_injective : Function.Injective Row.object := by
  intro r r' h
  simp only [object, Json.object.injEq, List.cons.injEq, Prod.mk.injEq, true_and, and_true,
    Json.string.injEq, Json.boolean.injEq] at h
  obtain ⟨hhive, hkey, hname, htype, hpayload, hfeature, hwin64⟩ := h
  obtain ⟨hive, key, name, type, payload, feature, win64⟩ := r
  obtain ⟨hive', key', name', type', payload', feature', win64'⟩ := r'
  obtain rfl : hive = hive' := Hive.eq_of_shortName_eq hhive
  obtain rfl : type = type' := ValueType.name_injective htype
  obtain rfl : feature = feature' := by
    cases feature <;> cases feature' <;> simp_all
  simp_all

/-! ### Items on lines of their own -/

theorem bracketed_cons (opening closing : Char) (margin item : Text) (items : List Text) :
    bracketed opening closing margin (item :: items)
      = opening :: (('\n' :: item)
        ++ ((items.map ('\n' :: ·)).flatMap (',' :: ·) ++ ('\n' :: margin ++ [closing]))) := by
  rw [bracketed, Text.join_cons, List.flatMap_map]
  simp

theorem isSpace_lineFeed_cons {margin : Text} (h : ∀ c ∈ margin, Xml.isSpace c) :
    ∀ c ∈ '\n' :: margin, Xml.isSpace c :=
  List.forall_mem_cons.2 ⟨rfl, h⟩

/-- Items on lines of their own read as an array. -/
theorem readsAs_bracketed_array {texts : List Text} {items : List Json} (hne : texts ≠ [])
    (h : List.Forall₂ ReadsAs texts items) {margin : Text} (hmargin : ∀ c ∈ margin, Xml.isSpace c) :
    ReadsAs (bracketed '[' ']' margin texts) (.array items) := by
  have hfeed : ∀ c ∈ ['\n'], Xml.isSpace c := isSpace_lineFeed_cons nofun
  have hline : ∀ {t : Text} {j : Json}, ReadsAs t j → ReadsAs ('\n' :: t) j :=
    fun h => h.behindSpace hfeed
  cases h with
  | nil => exact absurd rfl hne
  | cons ht hrest =>
    rw [bracketed_cons]
    exact Json.readsAs_array (hline ht) (List.forall₂_map_left_iff.2 (hrest.imp fun _ _ => hline))
      (isSpace_lineFeed_cons hmargin)

/-- A field as it is written. -/
def fieldText (field : String × Text) : Text :=
  "    ".toList ++ Text.jsonString field.1.toList ++ ": ".toList ++ field.2

theorem readsAsField_fieldText {field : String × Text} {j : Json} (h : ReadsAs field.2 j) :
    ReadsAsField ('\n' :: fieldText field) (field.1.toList, j) := by
  have htext : '\n' :: fieldText field
      = "\n    ".toList ++ (Text.jsonString field.1.toList ++ ':' :: ([' '] ++ field.2)) := by
    simp [fieldText]
  rw [htext]
  exact .mk (List.all_eq_true.1 rfl) (h.behindSpace (List.all_eq_true.1 rfl))

/-- Fields on lines of their own read as an object. -/
theorem readsAs_bracketed_object {texts : List (String × Text)} {fields : List (Text × Json)}
    (hne : texts ≠ [])
    (h : List.Forall₂ (fun t field => field.1 = t.1.toList ∧ ReadsAs t.2 field.2) texts fields)
    {margin : Text} (hmargin : ∀ c ∈ margin, Xml.isSpace c) :
    ReadsAs (bracketed '\x7b' '\x7d' margin (texts.map fieldText)) (.object fields) := by
  have hfield : ∀ (t : String × Text) (field : Text × Json),
      field.1 = t.1.toList ∧ ReadsAs t.2 field.2 → ReadsAsField ('\n' :: fieldText t) field := by
    rintro t ⟨_, j⟩ ⟨rfl, hvalue⟩
    exact readsAsField_fieldText hvalue
  cases h with
  | nil => exact absurd rfl hne
  | cons ht hrest =>
    rw [List.map_cons, bracketed_cons, List.map_map]
    exact Json.readsAs_object (hfield _ _ ht) (List.forall₂_map_left_iff.2 (hrest.imp hfield))
      (isSpace_lineFeed_cons hmargin)

/-! ### Rows -/

theorem readsAs_textOfBool (b : Bool) : ReadsAs (Yaml.textOfBool b) (.boolean b) := by
  cases b <;> exact Json.readsAs_of_token? (by decide) fun _ => rfl

/-- **A row is read back** as its object. -/
theorem Row.readsAs_json (r : Row) : ReadsAs r.json r.object := by
  have hfeature : ReadsAs
      (match r.feature with | some t => Text.jsonString t | none => "null".toList)
      (match r.feature with | some t => .string t | none => .null) := by
    cases r.feature with
    | none => exact Json.readsAs_null
    | some t => exact Json.readsAs_jsonString t
  have hfields : List.Forall₂ (fun t field => field.1 = t.1.toList ∧ ReadsAs t.2 field.2) r.fields
      [("hive".toList, .string r.hive.shortName), ("key".toList, .string r.key),
        ("name".toList, .string r.name), ("type".toList, .string r.type.name),
        ("value".toList, .string r.payload),
        ("feature".toList, match r.feature with | some t => .string t | none => .null),
        ("win64".toList, .boolean r.win64)] :=
    .cons ⟨rfl, Json.readsAs_jsonString _⟩ <| .cons ⟨rfl, Json.readsAs_jsonString _⟩ <|
    .cons ⟨rfl, Json.readsAs_jsonString _⟩ <| .cons ⟨rfl, Json.readsAs_jsonString _⟩ <|
    .cons ⟨rfl, Json.readsAs_jsonString _⟩ <| .cons ⟨rfl, hfeature⟩ <|
    .cons ⟨rfl, readsAs_textOfBool _⟩ .nil
  have hblanks : ∀ c ∈ [' ', ' '], Xml.isSpace c := List.all_eq_true.1 rfl
  exact (readsAs_bracketed_object (List.cons_ne_nil _ _) hfields hblanks).behindSpace hblanks

/-- **A listing in JSON is read back**: it is an array, and its items are the objects of the
rows. -/
theorem ofText?_json (rows : List Row) :
    Json.ofText? (json rows) = some (.array (rows.map Row.object)) := by
  have hrows : List.Forall₂ ReadsAs (rows.map Row.json) (rows.map Row.object) :=
    List.forall₂_map_left_iff.2
      (List.forall₂_map_right_iff.2 (List.forall₂_same.2 fun r _ => r.readsAs_json))
  have hfeed : ∀ c ∈ ['\n'], Xml.isSpace c := isSpace_lineFeed_cons nofun
  rw [json]
  refine Json.ReadsAs.ofText?_append ?_ hfeed
  split
  next hempty =>
    rw [List.isEmpty_iff.1 hempty]
    exact Json.readsAs_nil
  next hempty =>
    refine readsAs_bracketed_array (fun h => hempty ?_) hrows nofun
    rw [List.map_eq_nil_iff.1 h]
    rfl

end Listing

end InstallerRegistry
