import InstallerRegistry.Files
import InstallerRegistry.Pattern

/-!
# The files that a pattern matches

A pattern is followed name by name from the working directory. A name without wildcards is looked
up; one with wildcards is matched against everything in the directory, and one behind `**` against
everything at any depth below it. Every way to match counts: a file that a pattern reaches twice is
listed twice.

The result is in ascending order of the paths, compared name by name.
-/

namespace InstallerRegistry

namespace FileTree

mutual

/-- The paths of everything below a directory, each as the names on the way. -/
def descendants : FileTree → List (List Text)
  | file _ => []
  | directory entries => descendantsOf entries

/-- The paths of everything that directory entries are or have below them. -/
def descendantsOf : List (Text × FileTree) → List (List Text)
  | [] => []
  | (name, t) :: rest => [name] :: (descendants t).map (name :: ·) ++ descendantsOf rest

end

/-- The names in a directory. -/
def childNames : FileTree → List Text
  | file _ => []
  | directory entries => entries.map Prod.fst

/-- What is inside the directory that a path leads to; nothing is known of one outside. -/
def contents (root : FileTree) (path : Text) : FileTree :=
  match root.follow path with
  | .ok (.inside _ t) => t
  | _ => empty

end FileTree

namespace Pattern

/-! ## Paths -/

/-- A path one name longer. -/
def extend (path name : Text) : Text :=
  if path.isEmpty || path.getLast? == some '/' then path ++ name else path ++ '/' :: name

/-- A path that is taken from a directory, unless it is absolute. -/
def joinPath (base path : Text) : Text :=
  if FileTree.isAbsolute path then path else extend base path

/-- The order of the parts of a path: the root, the directory itself, the one around it, names. -/
def rank (first : Bool) (name : Text) : Option (Nat × Text) :=
  if name.isEmpty then (if first then some (0, []) else none)
  else if name == ['.'] then (if first then some (1, []) else none)
  else if name == ['.', '.'] then some (2, [])
  else some (3, name)

/-- What paths are compared by: their names without empty ones and single dots, except at the
start. -/
def orderKey (path : Text) : List (Nat × Text) :=
  match FileTree.namesOf path with
  | [] => []
  | name :: names => (rank true name).toList ++ names.filterMap (rank false)

/-- Is a text before another, or the same, by the numbers of its characters? -/
def textLe : Text → Text → Bool
  | [], _ => true
  | _ :: _, [] => false
  | a :: s, b :: t => a < b || (a == b && textLe s t)

/-- Is a list of ranked names before another, or the same? -/
def keyLe : List (Nat × Text) → List (Nat × Text) → Bool
  | [], _ => true
  | _ :: _, [] => false
  | (i, a) :: s, (j, b) :: t =>
    if i < j then true
    else if j < i then false
    else if a == b then keyLe s t
    else textLe a b

/-- Is a path before another, or the same? -/
def pathLe (a b : Text) : Bool :=
  keyLe (orderKey a) (orderKey b)

/-! ## Following a pattern -/

/-- One step of a pattern. -/
inductive Step where
  /-- A name without wildcards. -/
  | literal (name : Text)
  /-- A name in the directory. -/
  | name (parts : List Part)
  /-- A name at any depth below the directory. -/
  | deepName (parts : List Part)
  /-- A directory at any depth below the directory. -/
  | deep
deriving Repr

/-- The steps of a pattern, given the parts of each name; `deep` says that `**` has gone before. Of
several in a row, one is enough. -/
def stepsOf (deep : Bool) : List (List Part) → List Step
  | [] => if deep then [.deep] else []
  | parts :: rest =>
    if parts == [.anyNames] then stepsOf true rest
    else
      let step :=
        if deep then Step.deepName parts
        else
          match literal? parts with
          | some given => .literal given
          | none => .name parts
      step :: stepsOf false rest

/-- The working directory, where patterns start. -/
def startPath : Text := ['.']

/-- The path of a name in a directory. -/
def child (path name : Text) : Text :=
  if orderKey path == orderKey startPath then name else extend path name

/-- The paths that one step leads to from a directory. A pattern of a name that starts with a dot
can also match the directory itself and the one around it. -/
def Step.from (root : FileTree) (path : Text) (step : Step) : List Text :=
  let inside := root.contents path
  let descend := fun (names : List Text) => names.foldl child path
  match step with
  | .literal given =>
    let next := child path given
    let there :=
      if given == ['.'] || given == ['.', '.'] then root.isDirectory path else root.pathExists next
    if there then [next] else []
  | .name parts =>
    let specials :=
      if parts.head? == some (.char '.') && root.isDirectory path then
        [['.'], ['.', '.']].filter (isMatch parts)
      else []
    (inside.childNames.filter (isMatch parts)).map (child path) ++ specials.map (extend path)
  | .deepName parts =>
    (inside.descendants.filter fun names => isMatch parts (names.getLast?.getD [])).map descend
  | .deep => (inside.descendants.map descend).filter root.isDirectory

/-- The names of a pattern. A slash at its end does not start another name. -/
def namesOf (t : Text) : List Text :=
  let names := FileTree.namesOf t
  if names.getLast? == some [] then names.dropLast else names

/-- **The paths that a pattern matches**, in ascending order. A pattern that ends with a slash
matches directories only. -/
def expand (root : FileTree) (t : Text) : Except PatternError (List Text) := do
  let _ ← ofText? t
  let absolute := FileTree.isAbsolute t
  let names := namesOf (if absolute then t.drop 1 else t)
  let names := if absolute && names.isEmpty then [[]] else names
  let parts ← names.mapM ofText?
  let start := if absolute then ['/'] else startPath
  let advance := fun (paths : List Text) (step : Step) => paths.flatMap (step.from root)
  let found := (stepsOf false parts).foldl advance [start]
  let found := if parts.isEmpty then [] else found
  let found := if t.getLast? == some '/' then found.filter root.isDirectory else found
  return found.mergeSort pathLe

end Pattern

end InstallerRegistry
