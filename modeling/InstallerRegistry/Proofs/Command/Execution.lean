import InstallerRegistry.Command.Run
import InstallerRegistry.Proofs.Command.Options
import InstallerRegistry.Proofs.Files.Writing

/-!
# Running a command step by step

A command is described by what it leaves behind when it succeeds, and that a failure leaves the
files alone is part of this description. Here the same commands are processes: they read and write
one step after another, and a failure takes back nothing that has been written by then
(`Command.execute`). Both are the same (`Command.outcome_eq_execute`), because every process writes
last: whatever can still fail comes before the only write (`Command.writesLast_perform`).

What a whole command line does to the files follows: the one file that may be written is the one
that its arguments name for output (`Command.output?_eq_some_iff`).
-/

namespace InstallerRegistry.Command

variable {α β : Type}

/-- **A process** works on the files and can fail. What it has done to the files when it fails, it
has done. -/
abbrev Process := ExceptT Failure (StateM FileTree)

namespace Process

/-- A step that looks at the files. -/
def reading (f : FileTree → Except Failure α) : Process α :=
  fun root => (f root, root)

/-- A step that writes a text to a file. -/
def writing (path t : Text) : Process Unit :=
  fun root =>
    match save root path t with
    | .ok files => (.ok (), files)
    | .error f => (.error f, root)

/-- Writes a text to a file and answers with `notice`, or with the text if there is no file. -/
def delivering (output : Option Text) (t : Text) (notice : Text → Text) : Process Text :=
  match output with
  | some path => do
    writing path t
    return lines [notice path]
  | none => return t

/-- What a process that does not fail answers, and the files afterwards. -/
def result (p : Process α) (root : FileTree) : Except Failure (α × FileTree) :=
  match p root with
  | (.ok a, files) => .ok (a, files)
  | (.error f, _) => .error f

theorem result_pure (a : α) (root : FileTree) : result (pure a) root = .ok (a, root) := rfl

/-- A process goes on with the files that its first part leaves. -/
theorem bind_apply (p : Process α) (g : α → Process β) (root : FileTree) :
    (p >>= g) root
      = match p root with
        | (.ok a, files) => g a files
        | (.error f, files) => (.error f, files) := by
  have hbind : (p >>= g) root
      = match p root with
        | (r, files) => (ExceptT.bindCont g r : StateM FileTree (Except Failure β)) files := rfl
  rw [hbind]
  obtain ⟨r, files⟩ := p root
  cases r with
  | error f => rfl
  | ok a => rfl

theorem reading_bind_apply (f : FileTree → Except Failure α) (g : α → Process β) (root : FileTree) :
    (reading f >>= g) root
      = match f root with
        | .ok a => g a root
        | .error e => (.error e, root) := by
  rw [bind_apply, reading]
  cases f root with
  | error e => rfl
  | ok a => rfl

theorem writing_bind_apply (path t : Text) (a : α) (root : FileTree) :
    (do writing path t; return a : Process α) root
      = match save root path t with
        | .ok files => (.ok a, files)
        | .error f => (.error f, root) := by
  rw [bind_apply, writing]
  cases save root path t with
  | error f => rfl
  | ok files => rfl

theorem result_reading_bind (f : FileTree → Except Failure α) (g : α → Process β) (root : FileTree) :
    result (reading f >>= g) root = f root >>= fun a => result (g a) root := by
  rw [result, reading_bind_apply]
  cases f root with
  | error e => rfl
  | ok a => rfl

theorem result_writing_bind (path t : Text) (a : α) (root : FileTree) :
    result (do writing path t; return a) root
      = save root path t >>= fun files => .ok (a, files) := by
  rw [result, writing_bind_apply]
  cases save root path t with
  | error f => rfl
  | ok files => rfl

theorem result_delivering (output : Option Text) (t : Text) (notice : Text → Text)
    (root : FileTree) : result (delivering output t notice) root = deliver root output t notice := by
  cases output with
  | none => rfl
  | some path => exact result_writing_bind path t _ root

/-! ## Processes that write last -/

/-- **The process writes last**, and to the file `output` if at all: either it leaves the files as
they were, or it writes the file and succeeds. -/
def WritesLast (output : Option Text) (p : Process α) : Prop :=
  ∀ root, (p root).2 = root
    ∨ ∃ path t a, output = some path ∧ (p root).1 = .ok a
      ∧ root.write path (Utf8.encode t) = .ok (p root).2

namespace WritesLast

variable {output : Option Text}

theorem pure (a : α) : WritesLast output (pure a : Process α) := fun _ => .inl rfl

theorem throw (f : Failure) : WritesLast output (throw f : Process α) := fun _ => .inl rfl

/-- What is read before does not matter. -/
theorem reading_bind {f : FileTree → Except Failure α} {g : α → Process β}
    (h : ∀ a, WritesLast output (g a)) : WritesLast output (reading f >>= g) := by
  intro root
  rw [reading_bind_apply]
  cases f root with
  | error e => exact .inl rfl
  | ok a => exact h a root

theorem writing_bind (path t : Text) (a : α) :
    WritesLast (some path) (do writing path t; return a) := by
  intro root
  rw [writing_bind_apply]
  cases hsave : save root path t with
  | error f => exact .inl rfl
  | ok files => exact .inr ⟨path, t, a, rfl, rfl, mapError_eq_ok_iff.1 hsave⟩

theorem delivering (t : Text) (notice : Text → Text) :
    WritesLast output (Process.delivering output t notice) := by
  cases output with
  | none => exact pure t
  | some path => exact writing_bind path t _

end WritesLast

end Process

/-! ## Commands -/

open Process

/-- **A command, step by step.** -/
def perform : Command → Process Text
  | .init output force => do
    let found ← reading fun root => .ok (root.pathExists output)
    if found && !force then
      throw ⟨output ++ " already exists (use --force to overwrite)".toList, []⟩
    else do
      writing output template
      return lines [
        "Created ".toList ++ output,
        [],
        "Next steps:".toList,
        "  1. Edit ".toList ++ output ++ " with your registry values".toList,
        "  2. Run: wix-reg generate ".toList ++ output ++ " -o registry.wxs".toList,
        "  3. Add registry.wxs to your WiX build".toList]
  | .generate manifest output => do
    let m ← reading (load · manifest)
    let fragment ← reading fun root =>
      orFailWith "Failed to generate WiX fragment" (m.generate root (FileTree.parentPath manifest))
    delivering output fragment fun path => "Generated: ".toList ++ path
  | .validate manifest verbose => do
    let m ← reading (load · manifest)
    let contents ← reading fun root => orFail (m.contents root (FileTree.parentPath manifest))
    let _ ← reading fun _ => orFail (contents.entries.forM checkEntry)
    return lines ["Manifest is valid".toList] ++ if verbose then details m contents.entries else []
  | .list manifest format => do
    let m ← reading (load · manifest)
    let contents ← reading fun root => orFail (m.contents root (FileTree.parentPath manifest))
    let rows ← reading fun _ => orFail (Listing.rows contents.entries)
    match format with
    | .text => return Listing.text rows
    | .json => return Listing.json rows
  | .convert exportFile output feature => do
    let contents ← reading fun root =>
      (Export.Contents.ofFile root exportFile).mapError fun e =>
        (Failure.ofError e).under ("Failed to import ".toList ++ exportFile)
    let t ← reading fun _ => orFail (Manifest.ofEntries feature contents.entries).toText
    delivering output t fun path =>
      "Imported ".toList ++ Text.ofNat contents.entries.length ++ " values into ".toList ++ path

/-- How a command reports a failure. -/
def reportOf : Command → Failure → Text
  | .validate _ _, f => lines ["Validation failed: ".toList ++ f.line]
  | _, f => f.report

/-- **The outcome of a command that is run step by step.** -/
def execute (root : FileTree) (command : Command) : Outcome :=
  match perform command root with
  | (.ok output, files) => { output, files }
  | (.error f, files) => { exitCode := 1, errors := reportOf command f, files }

/-- **Every command writes last.** -/
theorem writesLast_perform (command : Command) : WritesLast command.output? (perform command) := by
  cases command with
  | init output force =>
    refine .reading_bind fun found => ?_
    split
    next => exact .throw _
    next => exact .writing_bind output template _
  | generate manifest output =>
    exact .reading_bind fun _ => .reading_bind fun _ => .delivering _ _
  | validate manifest verbose =>
    exact .reading_bind fun _ => .reading_bind fun _ => .reading_bind fun _ => .pure _
  | list manifest format =>
    refine .reading_bind fun _ => .reading_bind fun _ => .reading_bind fun _ => ?_
    cases format with
    | text => exact .pure _
    | json => exact .pure _
  | convert exportFile output feature =>
    exact .reading_bind fun _ => .reading_bind fun _ => .delivering _ _

/-- The outcome of a command that, if it fails, has left the files as they were. -/
def outcomeOf (command : Command) (root : FileTree) : Result → Outcome
  | .ok (output, files) => { output, files }
  | .error f => { exitCode := 1, errors := reportOf command f, files := root }

theorem execute_eq_outcomeOf (root : FileTree) (command : Command) :
    execute root command = outcomeOf command root (result (perform command) root) := by
  have hlast := writesLast_perform command root
  unfold execute result
  generalize perform command root = answered at hlast
  obtain ⟨answer, files⟩ := answered
  cases answer with
  | ok output => rfl
  | error f =>
    obtain hfiles | ⟨_, _, _, _, hok, _⟩ := hlast
    · obtain rfl : files = root := hfiles
      rfl
    · exact absurd hok nofun

theorem result_perform_init (root : FileTree) (output : Text) (force : Bool) :
    result (perform (.init output force)) root = runInit root output force := by
  rw [perform, result_reading_bind]
  show result (if root.pathExists output && !force then _ else _) root = _
  unfold runInit
  split
  next => rfl
  next => exact result_writing_bind output template _ root

theorem result_perform_generate (root : FileTree) (path : Text) (output : Option Text) :
    result (perform (.generate path output)) root = runGenerate root path output := by
  simp only [perform, runGenerate, result_reading_bind, result_delivering]

theorem result_perform_list (root : FileTree) (path : Text) (format : ListingFormat) :
    result (perform (.list path format)) root = runList root path format := by
  simp only [perform, runList, result_reading_bind]
  cases format <;> rfl

theorem result_perform_convert (root : FileTree) (path : Text) (output feature : Option Text) :
    result (perform (.convert path output feature)) root = runConvert root path output feature := by
  simp only [perform, runConvert, result_reading_bind, result_delivering]

theorem result_perform_validate (root : FileTree) (path : Text) (verbose : Bool) :
    result (perform (.validate path verbose)) root
      = validated root path >>= fun (m, entries) =>
          .ok (lines ["Manifest is valid".toList] ++ if verbose then details m entries else [], root) := by
  simp only [perform, validated, result_reading_bind, result_pure, bind_assoc, pure_bind]

/-- **Running a command step by step** comes to the same. -/
theorem outcome_eq_execute (root : FileTree) (command : Command) :
    outcome root command = execute root command := by
  rw [execute_eq_outcomeOf]
  cases command with
  | init output force =>
    rw [result_perform_init, outcome]
    cases runInit root output force <;> rfl
  | generate path output =>
    rw [result_perform_generate, outcome]
    cases runGenerate root path output <;> rfl
  | validate path verbose =>
    rw [result_perform_validate, outcome, runValidate]
    cases validated root path <;> rfl
  | list path format =>
    rw [result_perform_list, outcome]
    cases runList root path format <;> rfl
  | convert path output feature =>
    rw [result_perform_convert, outcome]
    cases runConvert root path output feature <;> rfl

/-! ## What happens to the files -/

/-- **What a command does to the files**: nothing, or it writes the one file that it is told to and
succeeds. -/
theorem files_execute (root : FileTree) (command : Command) :
    (execute root command).files = root
      ∨ (execute root command).exitCode = 0
        ∧ ∃ path t, command.output? = some path
          ∧ root.write path (Utf8.encode t) = .ok (execute root command).files := by
  have hlast := writesLast_perform command root
  unfold execute
  generalize perform command root = answered at hlast
  obtain ⟨answer, files⟩ := answered
  obtain hfiles | ⟨path, t, output, hpath, hok, hwrite⟩ := hlast
  · obtain rfl : files = root := hfiles
    refine .inl ?_
    cases answer <;> rfl
  · obtain rfl : answer = .ok output := hok
    exact .inr ⟨rfl, path, t, hpath, hwrite⟩

/-- Writing a sample manifest where something is already takes force. -/
theorem pathExists_eq_false_of_files_init {root : FileTree} {path : Text}
    (h : (execute root (.init path false)).files ≠ root) : root.pathExists path = false := by
  refine Bool.eq_false_iff.2 fun hexists => h ?_
  rw [execute_eq_outcomeOf, result_perform_init, runInit, hexists]
  rfl

theorem run_eq_execute {root : FileTree} {arguments : List Text} {command : Command}
    (h : ofArguments arguments = .ok command) : run root arguments = execute root command := by
  rw [run, h]
  exact outcome_eq_execute root command

theorem files_run_of_error (root : FileTree) {arguments : List Text} {stop : Stop}
    (h : ofArguments arguments = .error stop) : (run root arguments).files = root := by
  rw [run, h]
  cases stop <;> rfl

/-- **What a command line does to the files.** A run is the run of its command step by step. If it
fails, the files are what they were. If it succeeds, so are they, or one file has been written: the
one that the path leads to that the arguments name for output. And unless the arguments ask for it,
a sample manifest does not take the place of anything. -/
theorem files_run (root : FileTree) (arguments : List Text) :
    (∀ command, ofArguments arguments = .ok command → run root arguments = execute root command)
      ∧ ((run root arguments).exitCode ≠ 0 → (run root arguments).files = root)
      ∧ ((run root arguments).files = root
        ∨ ∃ command path names bytes, ofArguments arguments = .ok command
          ∧ OutputIs arguments.tail command path
          ∧ (run root arguments).files.follow path = .ok (.inside names (.file bytes))
          ∧ FileTree.IsWritten root (run root arguments).files names bytes)
      ∧ ∀ path force names item, ofArguments arguments = .ok (.init path force) →
          (∀ value, ¬ Gives (init path force).usage forceSwitch value arguments.tail) →
          root.item? names = some item → (run root arguments).files.item? names = some item := by
  refine ⟨fun command h => run_eq_execute h, ?_⟩
  cases hcommand : ofArguments arguments with
  | error stop =>
    have hfiles := files_run_of_error root hcommand
    exact ⟨fun _ => hfiles, .inl hfiles, fun _ _ _ _ h => absurd h nofun⟩
  | ok command =>
    rw [run_eq_execute hcommand]
    obtain hfiles | ⟨hzero, path, t, hpath, hwrite⟩ := files_execute root command
    · refine ⟨fun _ => hfiles, .inl hfiles, fun _ _ _ _ _ _ hitem => ?_⟩
      rwa [hfiles]
    · refine ⟨fun hfailed => absurd hzero hfailed, ?_, ?_⟩
      · obtain hfiles | ⟨names, hwritten, hfollow, _⟩ := FileTree.write_eq_ok hwrite
        · exact .inl hfiles
        · have houtput := (output?_eq_some_iff hcommand).1 hpath
          exact .inr ⟨command, path, names, _, rfl, houtput, hfollow, hwritten⟩
      · intro output force names item hinit hasked hitem
        obtain rfl : command = .init output force := Except.ok.inj hinit
        obtain rfl : output = path := Option.some.inj hpath
        have hforce : force = false := by
          refine Bool.eq_false_iff.2 fun hforce => ?_
          obtain ⟨value, hgives⟩ := (force_iff hcommand).1 hforce
          exact hasked value hgives
        subst hforce
        by_cases hfiles : (execute root (.init output false)).files = root
        · rwa [hfiles]
        · have hnew := pathExists_eq_false_of_files_init hfiles
          obtain hsame | ⟨written, hwritten, _, hnone | hexists⟩ := FileTree.write_eq_ok hwrite
          · exact absurd hsame hfiles
          · have hne : names ≠ written := by
              rintro rfl
              exact absurd (hitem.symm.trans hnone) nofun
            rw [hwritten.others names hne, hitem]
          · exact absurd (hexists.symm.trans hnew) (by decide)

end InstallerRegistry.Command
