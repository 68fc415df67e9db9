/-!
# Files

The two things a run does with files, for whatever holds them: the files of
the system, those of a system that is described by its states, or those of a
directory in memory.
-/

namespace ProcessCompiler

namespace Command

/-- Why a file cannot be read or written. -/
inductive FileFault where
  | notFound
  | notDirectory
  | isDirectory
  /-- What the file holds is no text. -/
  | notText
  | other (message : String)
deriving DecidableEq, Repr

/-- The wording of a fault. -/
def FileFault.message : FileFault → String
  | notFound => "No such file or directory (os error 2)"
  | notDirectory => "Not a directory (os error 20)"
  | isDirectory => "Is a directory (os error 21)"
  | notText => "stream did not contain valid UTF-8"
  | other message => message

/-- A way to read and write files. -/
structure FileAccess (m : Type → Type) where
  read : String → m (Except FileFault String)
  write : String → String → m (Except FileFault Unit)

/-- A system of files, by its states. Reading changes nothing; a write that
fails may still leave another state behind. -/
structure FileSystem (σ : Type) where
  read : σ → String → Except FileFault String
  write : σ → String → String → Except FileFault Unit × σ

/-- The files of a system, as steps from state to state. -/
def FileSystem.access {σ : Type} (sys : FileSystem σ) : FileAccess (StateM σ) where
  read path := do return sys.read (← get) path
  write path content := modifyGet (sys.write · path content)

/-- The files of a directory without directories in it, all of them texts. -/
structure Directory where
  files : List (String × String)
deriving DecidableEq, Repr

namespace Directory

/-- A path in a directory. -/
inductive Path where
  /-- The directory itself. -/
  | here
  /-- A file of it. With `asDirectory` the path ends as one of a directory
  does. -/
  | file (name : String) (asDirectory : Bool)
  /-- Something below an entry of it. -/
  | below (name : String)
  /-- Something elsewhere. -/
  | elsewhere
deriving DecidableEq, Repr

/-- The path that a text names. -/
def Path.ofText (path : String) : Path :=
  let parts := path.splitOn "/"
  let names := parts.filter fun part => part != "" && part != "."
  if path.startsWith "/" || names.contains ".." then .elsewhere
  else
    match names with
    | [] => .here
    | [name] => .file name (parts.getLast? != some name)
    | name :: _ => .below name

/-- The content of a file. -/
def get? (d : Directory) (name : String) : Option String := d.files.lookup name

/-- The directory with the content of a file changed or a file added. -/
def withFile (d : Directory) (name content : String) : Directory :=
  ⟨(name, content) :: d.files.filter (·.1 != name)⟩

/-- Read a file. -/
def read (d : Directory) (path : String) : Except FileFault String :=
  match Path.ofText path with
  | .here => .error .isDirectory
  | .elsewhere => .error .notFound
  | .below name => .error (if (d.get? name).isSome then .notDirectory else .notFound)
  | .file name asDirectory =>
    match d.get? name with
    | none => .error .notFound
    | some content => if asDirectory then .error .notDirectory else .ok content

/-- Write a file. -/
def write (d : Directory) (path content : String) : Except FileFault Directory :=
  match Path.ofText path with
  | .here => .error .isDirectory
  | .elsewhere => .error .notFound
  | .below name => .error (if (d.get? name).isSome then .notDirectory else .notFound)
  | .file name asDirectory =>
    if asDirectory then .error (if (d.get? name).isSome then .notDirectory else .isDirectory)
    else .ok (d.withFile name content)

/-- A directory as a system of files. A write that fails changes nothing. -/
def system : FileSystem Directory where
  read := read
  write d path content :=
    match d.write path content with
    | .ok d' => (.ok (), d')
    | .error f => (.error f, d)

/-- The files of a directory, as steps. -/
def access : FileAccess (StateM Directory) := system.access

end Directory

end Command

end ProcessCompiler
