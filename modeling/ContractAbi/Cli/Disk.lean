/-!
# Files the command line reads and writes

The program reads an ABI document and perhaps a config file, and writes a bindings module. It
reaches files through the `Disk` interface only, so that its runs can be computed without a real
file system: `MemoryDisk` holds a working directory's files in memory, with the failures of a
POSIX file system (a missing file, a directory read as a file, a file where a directory should
be, a directory that already exists as a file).

Paths are joined as the usual path type joins them: an absolute part replaces the base, and a
separator is put between the two unless the base is empty or already ends with one.
-/

namespace ContractAbi.Cli

/-- Why a file operation failed, with the text an operating system gives it. -/
inductive IoError where
  | notFound
  | isDirectory
  | notDirectory
  | alreadyExists
  | other (text : String)
  deriving DecidableEq, Inhabited

def IoError.message : IoError → String
  | .notFound => "No such file or directory (os error 2)"
  | .isDirectory => "Is a directory (os error 21)"
  | .notDirectory => "Not a directory (os error 20)"
  | .alreadyExists => "File exists (os error 17)"
  | .other t => t

/-- The file operations the command line needs. -/
class Disk (m : Type → Type) where
  /-- The whole text of a file. -/
  readText : String → m (Except IoError String)
  /-- Whether a path names a regular file. -/
  isFile : String → m Bool
  /-- Creates a directory and its missing parents. -/
  createDirAll : String → m (Except IoError Unit)
  /-- Replaces a file's contents, or creates it, in an existing directory. -/
  writeText : String → String → m (Except IoError Unit)

def joinPath (base part : String) : String :=
  if part.startsWith "/" then part
  else if base.isEmpty || base.endsWith "/" then base ++ part
  else base ++ "/" ++ part

/-- A working directory's files, in memory. -/
structure MemoryDisk where
  /-- The working directory as paths name it. -/
  cwd : String
  /-- Files by their path below the working directory, components joined by `/`. -/
  files : List (String × String) := []
  /-- Directories created explicitly, by the same kind of path. -/
  dirs : List String := []
  deriving Inhabited

inductive Entry where
  | file
  | dir
  | missing
  deriving DecidableEq

namespace MemoryDisk

/-- The components of a path below the working directory: empty and `.` components dropped,
`..` going up. `none` for a path outside the working directory. -/
def components (d : MemoryDisk) (path : String) : Option (List String) :=
  let below : Option String :=
    if path == d.cwd then some ""
    else if path.startsWith (d.cwd ++ "/") then some (String.ofList (path.toList.drop (d.cwd.length + 1)))
    else if path.startsWith "/" then none
    else some path
  below.map fun rel =>
    (rel.splitOn "/").foldl (fun acc c =>
      if c.isEmpty || c == "." then acc
      else if c == ".." then acc.dropLast
      else acc ++ [c]) []

def key (cs : List String) : String := "/".intercalate cs

def entry (d : MemoryDisk) (cs : List String) : Entry :=
  let k := key cs
  if cs.isEmpty then .dir
  else if d.files.any (·.1 == k) then .file
  else if d.dirs.contains k || d.files.any (fun f => f.1.startsWith (k ++ "/")) ||
      d.dirs.any (fun x => x.startsWith (k ++ "/")) then .dir
  else .missing

/-- The failure of walking to the components' parent: a file or nothing on the way. -/
def walk (d : MemoryDisk) (cs : List String) : Option IoError :=
  let parents := (List.range (cs.length - 1)).map fun i => cs.take (i + 1)
  parents.foldl (fun acc p =>
    match acc with
    | some e => some e
    | none =>
      match d.entry p with
      | .file => some .notDirectory
      | .missing => some .notFound
      | .dir => none) none

def read (d : MemoryDisk) (path : String) : Except IoError String :=
  match d.components path with
  | none => .error .notFound
  | some cs =>
    match d.walk cs with
    | some e => .error e
    | none =>
      match d.entry cs with
      | .file => .ok ((d.files.lookup (key cs)).getD "")
      | .dir => .error .isDirectory
      | .missing => .error .notFound

def isFileAt (d : MemoryDisk) (path : String) : Bool :=
  match d.components path with
  | none => false
  | some cs => d.entry cs == .file

def mkdir (d : MemoryDisk) (cs : List String) : Except IoError MemoryDisk :=
  match d.walk cs with
  | some e => .error e
  | none =>
    if d.entry cs != .missing then .error .alreadyExists
    else .ok { d with dirs := d.dirs ++ [key cs] }

/-- Creates a directory and its missing parents, parent first: a directory that exists is
fine, anything else in the way fails. -/
def mkdirAll (d : MemoryDisk) : List String → Except IoError MemoryDisk
  | [] => .ok d
  | x :: xs =>
    let cs := x :: xs
    match d.mkdir cs with
    | .ok d' => .ok d'
    | .error .notFound =>
      have : (x :: xs).dropLast.length < xs.length + 1 := by
        simp only [List.length_dropLast, List.length_cons]
        omega
      match mkdirAll d (x :: xs).dropLast with
      | .error e => .error e
      | .ok d' =>
        match d'.mkdir cs with
        | .ok d'' => .ok d''
        | .error e => if d'.entry cs == .dir then .ok d' else .error e
    | .error e => if d.entry cs == .dir then .ok d else .error e
termination_by cs => cs.length

/-- Creates a directory and its missing parents; outside the working directory nothing is
kept. -/
def createDirs (d : MemoryDisk) (path : String) : Except IoError MemoryDisk :=
  match d.components path with
  | none => .ok d
  | some cs => d.mkdirAll cs

/-- Writes a file into an existing directory, replacing what it held. -/
def write (d : MemoryDisk) (path contents : String) : Except IoError MemoryDisk :=
  match d.components path with
  | none => .ok d
  | some cs =>
    match d.walk cs with
    | some e => .error e
    | none =>
      match d.entry cs with
      | .dir => .error .isDirectory
      | _ =>
        let k := key cs
        if d.files.any (·.1 == k) then
          .ok { d with files := d.files.map fun f => if f.1 == k then (k, contents) else f }
        else .ok { d with files := d.files ++ [(k, contents)] }

/-- Runs an update of the disk, keeping it unchanged on failure. -/
def update (f : MemoryDisk → Except IoError MemoryDisk) : StateM MemoryDisk (Except IoError Unit) := do
  match f (← get) with
  | .ok d =>
    set d
    return .ok ()
  | .error e => return .error e

end MemoryDisk

instance : Disk (StateM MemoryDisk) where
  readText path := do return (← get).read path
  isFile path := do return (← get).isFileAt path
  createDirAll path := MemoryDisk.update (·.createDirs path)
  writeText path contents := MemoryDisk.update (·.write path contents)

end ContractAbi.Cli
