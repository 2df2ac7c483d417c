import EndpointBindings.Failure
import EndpointBindings.Ordered
import EndpointBindings.Text.Split

/-!
# Files and directories

A disk is a table of what lies at each location, a location being the names on the way down from the
root.  Paths are followed name by name from the root or from the working directory.  Every name is
looked for in a directory that is there, `.` stays and `..` goes up.

The operations are those that loading and generating need, each with the faults it can have: reading
a text, making a directory, and writing a file, which changes the item at one location and no other.
-/

namespace EndpointBindings.Path

/-! ## Paths

A path is text.  Its parts are what stands between slashes, without empty parts and without `.`,
except for a `.` in front of a relative path.  Two dots are a part like any other here; what they
mean is decided where a path is followed.
-/

/-- Whether a path starts at the root. -/
def isAbsolute (path : String) : Bool := Text.startsWith "/" path

/-- What stands between slashes, without empty parts. -/
def names (path : String) : List String := (Text.split '/' path).filter (· ≠ "")

/-- The parts of a path. -/
def parts (path : String) : List String :=
  match names path with
  | [] => []
  | n :: ns =>
    if n = "." ∧ isAbsolute path then ns.filter (· ≠ ".") else n :: ns.filter (· ≠ ".")

/-- The path of given parts. -/
def ofParts (absolute : Bool) (parts : List String) : String :=
  (if absolute then "/" else "") ++ Text.join "/" parts

/-- The name of the file that a path ends in, unless it ends in dots. -/
def fileName? (path : String) : Option String :=
  (parts path).getLast?.filter fun n => n ≠ "." ∧ n ≠ ".."

/-- What follows the last dot of a file's name, unless the name starts with its only dot. -/
def extension? (path : String) : Option String := do
  let name ← fileName? path
  match (Text.pieces '.' name.toList).reverse with
  | last :: before :: more =>
    if before.isEmpty && more.isEmpty then none else some (String.ofList last)
  | _ => none

end EndpointBindings.Path

namespace EndpointBindings

/-! ## Disks -/

/-- What lies at a location. -/
inductive FileItem where
  | directory
  | text (contents : String)
  /-- A file that holds no text. -/
  | binary (bytes : List UInt8)
deriving DecidableEq

/-- The names from the root down. -/
abbrev Location := List String

/-- A table of items, and where relative paths start. -/
structure Disk where
  items : List (Location × FileItem) := []
  /-- The working directory, from which relative paths start. -/
  workingDir : Location := []

namespace Disk

/-- What lies at a location; the root is a directory. -/
def item? (d : Disk) : Location → Option FileItem
  | [] => some .directory
  | location => Ordered.get? d.items location

/-- Put an item at a location. -/
def put (d : Disk) (location : Location) (item : FileItem) : Disk :=
  { d with items := Ordered.put d.items location item }

/-- The longest name, in bytes. -/
def maxName : Nat := 255

/-- One byte more than the longest path. -/
def maxPath : Nat := 4096

/-- Follow one name from a location, which must be a directory. -/
def step (d : Disk) (location : Location) (name : String) : Except FileFault Location :=
  match d.item? location with
  | none => .error .noSuchEntry
  | some .directory =>
    if name = "." then .ok location
    else if name = ".." then .ok location.dropLast
    else if maxName < name.utf8ByteSize then .error .nameTooLong
    else .ok (location ++ [name])
  | some _ => .error .notADirectory

/-- The location that a path leads to, where something may lie or not. -/
def locate (d : Disk) (path : String) : Except FileFault Location :=
  if path.toList.contains '\x00' then .error .nulInName
  else if path = "" then .error .noSuchEntry
  else if maxPath ≤ path.utf8ByteSize then .error .nameTooLong
  else (Path.names path).foldlM d.step (if Path.isAbsolute path then [] else d.workingDir)

/-- Whether a path ends in a slash, so that it can lead to a directory only. -/
def endsInSlash (path : String) : Bool := path.toList.getLast? = some '/'

/-- Whether a path leads to a directory. -/
def isDirectory (d : Disk) (path : String) : Bool :=
  match d.locate path with
  | .ok location => d.item? location = some .directory
  | .error _ => false

/-- The text of a file. -/
def readText (d : Disk) (path : String) : Except FileFault String := do
  let location ← d.locate path
  match d.item? location with
  | none => .error .noSuchEntry
  | some .directory => .error .isADirectory
  | some (.text contents) => if endsInSlash path then .error .notADirectory else .ok contents
  | some (.binary _) => .error (if endsInSlash path then .notADirectory else .notText)

/-- Write a file, over one that is there. -/
def writeText (d : Disk) (path contents : String) : Except FileFault Disk := do
  let location ← d.locate path
  match d.item? location with
  | some .directory => .error .isADirectory
  | some _ => if endsInSlash path then .error .notADirectory else .ok (d.put location (.text contents))
  | none => if endsInSlash path then .error .isADirectory else .ok (d.put location (.text contents))

/-- Make one directory. -/
def makeDir (d : Disk) (path : String) : Except FileFault Disk := do
  let location ← d.locate path
  match d.item? location with
  | some _ => .error .alreadyExists
  | none => .ok (d.put location .directory)

/-- What is left of a failure to make a directory: nothing where a directory is. -/
def unlessDirectory (d : Disk) (path : String) (fault : FileFault) : Option FileFault :=
  if d.isDirectory path then none else some fault

/-- Make a directory below one that may have to be made first. -/
def makeDirBelow (d : Disk) (path : String) (makeAbove : Disk → Disk × Option FileFault) :
    Disk × Option FileFault :=
  match d.makeDir path with
  | .ok d => (d, none)
  | .error .noSuchEntry =>
    match makeAbove d with
    | (d, some fault) => (d, some fault)
    | (d, none) =>
      match d.makeDir path with
      | .ok d => (d, none)
      | .error fault => (d, d.unlessDirectory path fault)
  | .error fault => (d, d.unlessDirectory path fault)

/-- Make a directory and those above it; `parts` are the parts of the path, the last first.  There
is nothing above the root, and nothing to make above the first part of a relative path. -/
def makeDirs (absolute : Bool) (path : String) (d : Disk) : List String → Disk × Option FileFault
  | [] => if absolute then d.makeDirBelow path (·, some .noParent) else (d, none)
  | _ :: above =>
    d.makeDirBelow path fun d => makeDirs absolute (Path.ofParts absolute above.reverse) d above

/-- Make a directory and those above it, where they are missing. -/
def makeDirAll (d : Disk) (path : String) : Disk × Option FileFault :=
  makeDirs (Path.isAbsolute path) path d (Path.parts path).reverse

end Disk

end EndpointBindings
