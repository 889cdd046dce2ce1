import InstallerRegistry.Proofs.Command.Validation
import InstallerRegistry.Proofs.Fragment.Identifiers
import InstallerRegistry.Proofs.Listing

/-!
# What the commands say about one manifest

Generating a fragment, validating a manifest and listing its values are three walks over the same
entries. A fragment asks more of them than the other two, so a manifest with a fragment is valid and
can be listed; and what is listed, row by row, is what the entries hold and what the values of the
fragment say (`Command.agree_of_exitCode_generate`).

The comparison is made on what the commands print, and each output is taken by itself: in the
fragment a reader of XML finds elements, in a listing there is a line for each row, or a reader of
JSON finds an object for each (`ListingFormat.Lists`). The rows are what the two have in common.
-/

namespace InstallerRegistry

open Xml (Element)

/-! ## Rows and values -/

/-- Is the element of a value what a row of a listing says? A row says everything of it but its
identifier. -/
def Listing.Row.Matches (r : Listing.Row) (y : Element) : Prop :=
  ∃ id, y = .value id r.hive.shortName r.key r.name r.type.name r.payload

/-- **Does a text list the rows?** For reading it has a line for each of them, and in JSON it is an
array of their objects. -/
def ListingFormat.Lists (rows : List Listing.Row) (t : Text) : ListingFormat → Prop
  | .text => ∃ lines, List.Forall₂ Listing.Row.IsLine rows lines ∧ t = lines.flatten
  | .json => Json.ofText? t = some (.array (rows.map Listing.Row.object))

/-- A text lists no two lists of rows in JSON. -/
theorem ListingFormat.Lists.unique {rows rows' : List Listing.Row} {t : Text}
    (h : json.Lists rows t) (h' : json.Lists rows' t) : rows' = rows := by
  have hobjects := Json.array.inj (Option.some.inj (h'.symm.trans h))
  exact List.map_injective_iff.2 Listing.Row.object_injective hobjects

/-- The element that shows the value of an entry is what a listing says about the entry. -/
theorem Entry.ShowsValue.exists_row {e : Entry} {id : Text} {y : Element} (h : e.ShowsValue id y) :
    ∃ r, Listing.Row.ofEntry e = .ok r ∧ r.Matches y := by
  obtain ⟨v, hvalue, _, rfl⟩ := showsValue_iff.1 h
  exact ⟨_, bind_eq_ok_iff.2 ⟨v, setValue_eq_ok_iff.2 hvalue, rfl⟩, id, rfl⟩

/-- **A listing of entries shows the values of their fragment**, in the same order. -/
theorem Manifest.exists_rows_of_fragmentOf {m : Manifest} {entries : List Entry} {doc : Text}
    (h : m.fragmentOf entries = .ok doc) :
    ∃ rows x, Listing.rows entries = .ok rows ∧ Element.ofText? doc = some x
      ∧ List.Forall₂ Listing.Row.Matches rows (x.named "RegistryValue") := by
  obtain ⟨x, hread, hvalues⟩ := forall₂_showsValue h
  obtain ⟨rows, hrows, hmatch⟩ :=
    exists_between_of_forall₂ hvalues fun _ _ ⟨_, hy⟩ => hy.exists_row
  exact ⟨rows, x, mapM_eq_ok_iff.2 hrows, hread, hmatch⟩

namespace Command

open FileTree (parentPath)

/-! ## The commands -/

/-- What is printed for rows lists them, in either format. -/
theorem exists_runList_eq_ok {root : FileTree} {path : Text} {m : Manifest} {c : Export.Contents}
    {rows : List Listing.Row} (hm : Manifest.ofFile root path = .ok m)
    (hc : m.contents root (parentPath path) = .ok c) (hrows : Listing.rows c.entries = .ok rows)
    (format : ListingFormat) :
    ∃ t, runList root path format = .ok (t, root) ∧ format.Lists rows t := by
  have hrun : runList root path format = .ok (match format with
      | .text => Listing.text rows
      | .json => Listing.json rows, root) := by
    refine bind_eq_ok_iff.2 ⟨m, load_eq_ok_iff.2 hm, bind_eq_ok_iff.2 ⟨c, mapError_eq_ok_iff.2 hc,
      bind_eq_ok_iff.2 ⟨rows, mapError_eq_ok_iff.2 hrows, ?_⟩⟩⟩
    cases format <;> rfl
  refine ⟨_, hrun, ?_⟩
  cases format with
  | text => exact Listing.exists_lines_text rows
  | json => exact Listing.ofText?_json rows

/-- **The commands agree** on a manifest that a fragment can be generated of: it is valid, and the
rows of its entries are one by one the values of the fragment, and are listed in either format.
There is no doubt about the rows, since no others are listed in JSON as these are. -/
theorem agree_of_exitCode_generate {root : FileTree} {path : Text}
    (h : (outcome root (.generate path none)).exitCode = 0) :
    (∀ verbose, (outcome root (.validate path verbose)).exitCode = 0)
      ∧ ∃ m c rows x, Manifest.ofFile root path = .ok m ∧ m.contents root (parentPath path) = .ok c
        ∧ List.Forall₂ Entry.HasRow c.entries rows
        ∧ Element.ofText? (outcome root (.generate path none)).output = some x
        ∧ List.Forall₂ Listing.Row.Matches rows (x.named "RegistryValue")
        ∧ (∀ format, (outcome root (.list path format)).exitCode = 0
          ∧ format.Lists rows (outcome root (.list path format)).output)
        ∧ ∀ rows', ListingFormat.json.Lists rows' (outcome root (.list path .json)).output →
          rows' = rows := by
  obtain ⟨r, hr⟩ := Outcome.exitCode_ofResult_eq_zero_iff.1 h
  obtain ⟨m, doc, hm, hgenerate, rfl⟩ := runGenerate_eq_ok_iff.1 hr
  obtain ⟨c, hc, hdoc⟩ := bind_eq_ok_iff.1 hgenerate
  have hwritable := (Manifest.exists_fragmentOf_iff.1 ⟨doc, hdoc⟩).2.1
  obtain ⟨rows, x, hrows, hread, hmatch⟩ := Manifest.exists_rows_of_fragmentOf hdoc
  have hlist : ∀ format : ListingFormat, (outcome root (.list path format)).exitCode = 0
      ∧ format.Lists rows (outcome root (.list path format)).output := by
    intro format
    obtain ⟨t, hrun, hlists⟩ := exists_runList_eq_ok hm hc hrows format
    have houtcome : outcome root (.list path format) = { output := t, files := root } :=
      congrArg (Outcome.ofResult root) hrun
    rw [houtcome]
    exact ⟨rfl, hlists⟩
  refine ⟨fun verbose => ?_, m, c, rows, x, hm, hc, Listing.forall₂_hasRow hrows, ?_, hmatch,
    hlist, fun rows' h' => ?_⟩
  · exact exitCode_validate_eq_zero_iff.2 ⟨m, c.entries,
      validated_eq_ok_iff.2 ⟨hm, ⟨c, hc, rfl⟩, hwritable⟩⟩
  · show Element.ofText? (Outcome.ofResult root (runGenerate root path none)).output = some x
    rwa [hr]
  · exact (hlist .json).2.unique h'

/-- A manifest with a list of strings, a default value and an export file. -/
def listedFiles : FileTree :=
  .directory [("m".toList, .file (Utf8.encode ("registry:\n- key: HKLM/a\n  win64: true\n"
      ++ "  values:\n    \"@\": \"%x%\"\n    L: \"a\\nb\\n\"\nreg_files:\n- path: x\n").toList)),
    ("x".toList, .file (Utf8.encode "REGEDIT4\n[HKCU\\k]\n\"B\"=hex:00,ff\n".toList))]

/-- The commands agree on it. -/
theorem agree_of_exitCode_generate_listedFiles :
    (outcome listedFiles (.generate ['m'] none)).exitCode = 0
      ∧ (∀ verbose, (outcome listedFiles (.validate ['m'] verbose)).exitCode = 0)
      ∧ ∃ m c rows x, Manifest.ofFile listedFiles ['m'] = .ok m
        ∧ m.contents listedFiles (parentPath ['m']) = .ok c
        ∧ List.Forall₂ Entry.HasRow c.entries rows
        ∧ Element.ofText? (outcome listedFiles (.generate ['m'] none)).output = some x
        ∧ List.Forall₂ Listing.Row.Matches rows (x.named "RegistryValue")
        ∧ (∀ format, (outcome listedFiles (.list ['m'] format)).exitCode = 0
          ∧ format.Lists rows (outcome listedFiles (.list ['m'] format)).output)
        ∧ ∀ rows', ListingFormat.json.Lists rows' (outcome listedFiles (.list ['m'] .json)).output →
          rows' = rows := by
  have h : (outcome listedFiles (.generate ['m'] none)).exitCode = 0 := by
    -- with its literals spelled out, the text is not decoded again at each character
    rw [listedFiles, String.toList_append, String.toList_ofList, String.toList_ofList,
      String.toList_ofList, String.toList_ofList, String.toList_ofList]
    decide +kernel
  exact ⟨h, agree_of_exitCode_generate h⟩

end Command

end InstallerRegistry
