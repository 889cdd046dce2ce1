import InstallerRegistry.Text

/-!
# Command lines

A command line is the name of a command followed by its arguments: at most one operand, and
options in any order. An option has a long name and maybe a letter. Its value stands behind an
equals sign, directly behind the letter, or in the next argument; letters without values can be
run together. Behind `--` everything is an operand.

Arguments are taken one after another (`Arguments.read`), and the first thing wrong, or the first
request for help, ends the reading.
-/

namespace InstallerRegistry

/-- How a listing is printed. -/
inductive ListingFormat where
  | text
  | json
deriving DecidableEq, Repr

/-- **A command.** -/
inductive Command where
  /-- Write a sample manifest. -/
  | init (output : Text) (force : Bool)
  /-- Generate the fragment of a manifest. -/
  | generate (manifest : Text) (output : Option Text)
  /-- Check a manifest and every value in it. -/
  | validate (manifest : Text) (verbose : Bool)
  /-- List the values of a manifest. -/
  | list (manifest : Text) (format : ListingFormat)
  /-- Make a manifest of an export. -/
  | convert (exportFile : Text) (output feature : Option Text)
deriving DecidableEq, Repr

namespace Command

/-- Why there is no command to run. -/
inductive Stop where
  | usage
  | help
  | version
deriving DecidableEq, Repr

/-! ## Options -/

/-- What an option takes. -/
inductive Takes where
  | nothing
  | text
  /-- A text that is not empty. -/
  | path
  /-- One of some words. -/
  | word (words : List Text)

/-- May the text be the value of an option? -/
def Takes.allows : Takes → Text → Bool
  | nothing, _ => false
  | text, _ => true
  | path, t => !t.isEmpty
  | word words, t => words.contains t

/-- An option. -/
structure Switch where
  name : Text
  letter : Option Char := none
  takes : Takes := .nothing

/-- The arguments of a command that have been taken. -/
structure Arguments where
  operands : List Text := []
  /-- The options by their names, with their values. -/
  options : List (Text × Text) := []

/-- What a command takes. -/
structure Usage where
  /-- The number of operands, all of which have to be given. -/
  operands : Nat
  switches : List Switch

namespace Arguments

/-- Has the option been given? -/
def has (args : Arguments) (name : Text) : Bool :=
  (args.options.lookup name).isSome

/-- One more operand, which is a path. -/
def addOperand (u : Usage) (args : Arguments) (t : Text) : Except Stop Arguments :=
  if args.operands.length < u.operands && !t.isEmpty then
    .ok { args with operands := args.operands ++ [t] }
  else .error .usage

/-- One more option; none may be given twice. -/
def addOption (args : Arguments) (s : Switch) (value : Text) : Except Stop Arguments :=
  if args.has s.name then .error .usage
  else .ok { args with options := args.options ++ [(s.name, value)] }

/-- One more option that takes a value. -/
def addValue (args : Arguments) (s : Switch) (value : Text) : Except Stop Arguments :=
  if s.takes.allows value then args.addOption s value else .error .usage

/-! ## Taking arguments -/

/-- The name of the option that asks for help. -/
def helpName : Text := "help".toList

/-- The letter of the option that asks for help. -/
def helpLetter : Char := 'h'

/-- Takes a long option, given its name and what stands behind an equals sign. The option is left
over if its value is still to come. -/
def takeLong (u : Usage) (args : Arguments) (name : Text) (value : Option Text) :
    Except Stop (Arguments × Option Switch) :=
  match u.switches.find? (·.name == name), value with
  | some s, some value => do return (← args.addValue s value, none)
  | some s, none =>
    match s.takes with
    | .nothing => do return (← args.addOption s [], none)
    | _ => .ok (args, some s)
  | none, none => .error (if name == helpName then .help else .usage)
  | none, some _ => .error .usage

/-- The value that stands directly behind a letter, with or without an equals sign. -/
def attached? : Text → Option Text
  | [] => none
  | '=' :: t => some t
  | t => some t

/-- Takes the letters of one argument. An option is left over if its value is still to come. -/
def takeLetters (u : Usage) (args : Arguments) : Text → Except Stop (Arguments × Option Switch)
  | [] => .ok (args, none)
  | c :: rest =>
    match u.switches.find? (·.letter == some c) with
    | none => .error (if c == helpLetter then .help else .usage)
    | some s =>
      match s.takes with
      | .nothing => do takeLetters u (← args.addOption s []) rest
      | _ =>
        match attached? rest with
        | some value => do return (← args.addValue s value, none)
        | none => .ok (args, some s)

/-- The name of a long option, and what stands behind an equals sign. -/
def longOption (t : Text) : Text × Option Text :=
  match Text.cut? '=' t with
  | some (name, value) => (name, some value)
  | none => (t, none)

/-- Takes an argument that is not behind `--`. -/
def take (u : Usage) (args : Arguments) (t : Text) : Except Stop (Arguments × Option Switch) :=
  match t with
  | '-' :: '-' :: t =>
    let (name, value) := longOption t
    takeLong u args name value
  | '-' :: c :: t => takeLetters u args (c :: t)
  | t => do return (← args.addOperand u t, none)

/-- Is the argument an operand or a value, not an option? -/
def isOperand : Text → Bool
  | '-' :: _ :: _ => false
  | _ => true

/-- Takes arguments, `pending` being an option whose value has to come next. -/
def readFrom (u : Usage) (args : Arguments) (pending : Option Switch) :
    List Text → Except Stop Arguments
  | [] => if pending.isSome then .error .usage else .ok args
  | t :: rest =>
    match pending with
    | some s =>
      if isOperand t then do readFrom u (← args.addValue s t) none rest else .error .usage
    | none =>
      if t == ['-', '-'] then rest.foldlM (addOperand u) args
      else do
        let (args, pending) ← take u args t
        readFrom u args pending rest

/-- **The arguments of a command.** -/
def read (u : Usage) (ts : List Text) : Except Stop Arguments := do
  let args ← readFrom u {} none ts
  if args.operands.length = u.operands then return args else .error .usage

/-- The operand of a command that takes one. -/
def operand (args : Arguments) : Text :=
  args.operands.headD []

end Arguments

/-! ## The commands -/

/-- The option for the file to write. -/
def outputSwitch : Switch := ⟨"output".toList, some 'o', .path⟩

/-- The option to overwrite a file. -/
def forceSwitch : Switch := ⟨"force".toList, some 'f', .nothing⟩

/-- The option to say more. -/
def verboseSwitch : Switch := ⟨"verbose".toList, some 'v', .nothing⟩

/-- The word for a listing for reading. -/
def textWord : Text := "text".toList

/-- The word for a listing as JSON. -/
def jsonWord : Text := "json".toList

/-- The option for the format of a listing. -/
def formatSwitch : Switch := ⟨"format".toList, some 'f', .word [textWord, jsonWord]⟩

/-- The option for the feature of a new manifest. -/
def featureSwitch : Switch := ⟨"feature".toList, none, .text⟩

/-- The file that a sample manifest is written to. -/
def defaultOutput : Text := "wix-reg.yaml".toList

/-- The names of the commands. -/
def names : List Text :=
  ["init", "generate", "validate", "show", "import", "help"].map String.toList

/-- The command of a name, with its arguments. -/
def ofName (name : Text) (ts : List Text) : Except Stop Command :=
  let option := fun (args : Arguments) (s : Switch) => args.options.lookup s.name
  if name = "init".toList then do
    let args ← Arguments.read ⟨0, [outputSwitch, forceSwitch]⟩ ts
    return init ((option args outputSwitch).getD defaultOutput) (args.has forceSwitch.name)
  else if name = "generate".toList then do
    let args ← Arguments.read ⟨1, [outputSwitch]⟩ ts
    return generate args.operand (option args outputSwitch)
  else if name = "validate".toList then do
    let args ← Arguments.read ⟨1, [verboseSwitch]⟩ ts
    return validate args.operand (args.has verboseSwitch.name)
  else if name = "show".toList then do
    let args ← Arguments.read ⟨1, [formatSwitch]⟩ ts
    return list args.operand (if option args formatSwitch = some jsonWord then .json else .text)
  else if name = "import".toList then do
    let args ← Arguments.read ⟨1, [outputSwitch, featureSwitch]⟩ ts
    return convert args.operand (option args outputSwitch) (option args featureSwitch)
  else .error .usage

/-- What is asked for before the name of a command. -/
def stopOf (t : Text) : Stop :=
  match t with
  | ['-', '-', 'h', 'e', 'l', 'p'] => .help
  | ['-', '-', 'v', 'e', 'r', 's', 'i', 'o', 'n'] => .version
  | '-' :: 'h' :: _ => .help
  | '-' :: 'V' :: _ => .version
  | _ => .usage

/-- **The command of a command line.** -/
def ofArguments : List Text → Except Stop Command
  | [] => .error .usage
  | t :: rest =>
    if !Arguments.isOperand t then .error (stopOf t)
    else if t = "help".toList then
      let isKnown := rest.length ≤ 1 && rest.all names.contains
      .error (if isKnown then .help else .usage)
    else ofName t rest

end Command

end InstallerRegistry
