import InstallerRegistry.Text.Blank
import InstallerRegistry.Text.Utf8

/-!
# Files

A command works on the files of one directory. They are held as a tree of directories, so that what
a command reads, and which file it leaves changed, are functions of a value.

A path is a text of names between slashes. Following it (`FileTree.follow`) starts at the working
directory, where every name but the last has to be a directory, a single dot is the directory
itself and two dots are the one around it. Above the working directory nothing is known: it is a
directory, but nothing is found in it.
-/

namespace InstallerRegistry

/-- A file or a directory. -/
inductive FileTree where
  | file (bytes : List UInt8)
  | directory (entries : List (Text × FileTree))
deriving Inhabited, Repr

/-- Why a file cannot be read or written. -/
inductive FileFailure where
  | notFound
  | notDirectory
  | isDirectory
  | nameTooLong
  /-- The path has a NUL in it. -/
  | nulInPath
  /-- The file is not UTF-8 text. -/
  | notUtf8
deriving DecidableEq, Repr

/-- The wording of a failure. -/
def FileFailure.message : FileFailure → Text
  | notFound => "No such file or directory (os error 2)".toList
  | notDirectory => "Not a directory (os error 20)".toList
  | isDirectory => "Is a directory (os error 21)".toList
  | nameTooLong => "File name too long (os error 36)".toList
  | nulInPath => "file name contained an unexpected NUL byte".toList
  | notUtf8 => "stream did not contain valid UTF-8".toList

/-- Where a path leads: to a file or a directory inside the working directory, by the names on the
way to it, or to a directory outside. -/
inductive Spot where
  | inside (names : List Text) (tree : FileTree)
  | outside
deriving Inhabited

namespace Spot

/-- Is the spot a directory? -/
def isDirectory : Spot → Bool
  | inside _ (.directory _) => true
  | inside _ (.file _) => false
  | outside => true

end Spot

namespace FileTree

/-- An empty directory. -/
def empty : FileTree := .directory []

/-- The file or directory of a name. -/
def entry? (name : Text) : FileTree → Option FileTree
  | file _ => none
  | directory entries => entries.lookup name

/-- The file or directory behind some names. -/
def find? (t : FileTree) : List Text → Option FileTree
  | [] => some t
  | name :: names => (t.entry? name).bind fun u => u.find? names

/-- A directory whose entry `name` has been replaced or added. -/
def setEntry (name : Text) (new : FileTree) : List (Text × FileTree) → List (Text × FileTree)
  | [] => [(name, new)]
  | (n, t) :: rest => if n = name then (n, new) :: rest else (n, t) :: setEntry name new rest

/-- The tree with `new` behind some names. Directories on the way are made where they are
missing. -/
def put (t : FileTree) (names : List Text) (new : FileTree) : FileTree :=
  match names with
  | [] => new
  | name :: names =>
    let entries :=
      match t with
      | file _ => []
      | directory entries => entries
    directory (setEntry name (((t.entry? name).getD empty).put names new) entries)

/-- The names between the slashes of a path. -/
def namesOf (path : Text) : List Text :=
  Text.splitOn '/' path

/-- The path of the directory that the file of a path is in. It is empty for a file of the working
directory that is given by its name alone. -/
def parentPath (path : Text) : Text :=
  match (namesOf path).dropLast with
  | [] => []
  | first :: names =>
    let idle := fun (name : Text) => name.isEmpty || name == ['.']
    match first :: (names.reverse.dropWhile idle).reverse with
    | [[]] => ['/']
    | names => Text.join ['/'] names

/-! ## Following a path -/

/-- The longest name that a file may have, in bytes. -/
def nameLimit : Nat := 255

/-- The spot one name on from another. -/
def step (root : FileTree) (spot : Spot) (name : Text) : Except FileFailure Spot :=
  match spot with
  | .inside _ (.file _) => .error .notDirectory
  | .outside =>
    if name.isEmpty || name == ['.'] || name == ['.', '.'] then .ok .outside else .error .notFound
  | .inside names (.directory entries) =>
    if name.isEmpty || name == ['.'] then .ok spot
    else if name == ['.', '.'] then
      match names.dropLast, names with
      | _, [] => .ok .outside
      | parents, _ => .ok (.inside parents ((root.find? parents).getD empty))
    else if nameLimit < Utf8.size name then .error .nameTooLong
    else
      match entries.lookup name with
      | none => .error .notFound
      | some t => .ok (.inside (names ++ [name]) t)

/-- The spot that some names lead to from the working directory. -/
def followNames (root : FileTree) (names : List Text) : Except FileFailure Spot :=
  names.foldlM root.step (.inside [] root)

/-- Does the path start outside the working directory? -/
def isAbsolute (path : Text) : Bool :=
  path.head? == some '/'

/-- **Where a path leads.** -/
def follow (root : FileTree) (path : Text) : Except FileFailure Spot :=
  if '\x00' ∈ path then .error .nulInPath
  else if path.isEmpty then .error .notFound
  else if isAbsolute path then (namesOf path).foldlM root.step .outside
  else root.followNames (namesOf path)

/-- Does the path lead anywhere? -/
def pathExists (root : FileTree) (path : Text) : Bool :=
  (root.follow path).isOk

/-- Does the path lead to a directory? -/
def isDirectory (root : FileTree) (path : Text) : Bool :=
  match root.follow path with
  | .ok spot => spot.isDirectory
  | .error _ => false

/-! ## Reading and writing -/

/-- The bytes of the file that a path leads to. -/
def read (root : FileTree) (path : Text) : Except FileFailure (List UInt8) := do
  match ← root.follow path with
  | .inside _ (.file bytes) => return bytes
  | .inside _ (.directory _) => .error .isDirectory
  | .outside => .error .isDirectory

/-- The text of the file that a path leads to. -/
def readText (root : FileTree) (path : Text) : Except FileFailure Text := do
  match Utf8.decode? (← root.read path) with
  | some t => return t
  | none => .error .notUtf8

/-- The tree with a file written at a path. The file may be new, but the directory it is in has to
be there. Outside the working directory, writing shows nowhere in the tree. -/
def write (root : FileTree) (path : Text) (bytes : List UInt8) : Except FileFailure FileTree := do
  if '\x00' ∈ path then .error .nulInPath
  else if path.isEmpty then .error .notFound
  else
    let names := namesOf path
    let last := names.getLast?.getD []
    let start := if isAbsolute path then Spot.outside else .inside [] root
    match ← names.dropLast.foldlM root.step start with
    | .inside _ (.file _) => .error .notDirectory
    | .outside =>
      if last.isEmpty || last == ['.'] || last == ['.', '.'] then .error .isDirectory
      else return root
    | .inside parents (.directory entries) =>
      if last.isEmpty || last == ['.'] || last == ['.', '.'] then .error .isDirectory
      else if nameLimit < Utf8.size last then .error .nameTooLong
      else
        match entries.lookup last with
        | some (.directory _) => .error .isDirectory
        | _ => return root.put (parents ++ [last]) (.file bytes)

/-! ## All files -/

mutual

/-- Every file of a tree, by its path. -/
def files : FileTree → List (List Text × List UInt8)
  | file bytes => [([], bytes)]
  | directory entries => filesOf entries

/-- Every file of some directory entries, by its path. -/
def filesOf : List (Text × FileTree) → List (List Text × List UInt8)
  | [] => []
  | (name, t) :: rest => (files t).map (fun (path, bytes) => (name :: path, bytes)) ++ filesOf rest

end

/-- The files of a tree that another tree does not have, or has with other bytes. -/
def changedSince (before after : FileTree) : List (List Text × List UInt8) :=
  after.files.filter fun (path, bytes) =>
    match before.find? path with
    | some (.file old) => old != bytes
    | _ => true

/-- The tree of files given by their paths; a path that ends with a slash is an empty directory. -/
def ofFiles (files : List (Text × List UInt8)) : FileTree :=
  files.foldl
    (fun t (path, bytes) =>
      let names := namesOf path
      if names.getLast? == some [] then t.put names.dropLast empty
      else t.put names (.file bytes))
    empty

end FileTree

end InstallerRegistry
