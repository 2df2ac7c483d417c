import EndpointBindings.CommandLine.Arguments
import EndpointBindings.CommandLine.Report
import EndpointBindings.Disk.Basic
import EndpointBindings.Document.Format
import EndpointBindings.Output.Writer
import EndpointBindings.Route.Extract

/-!
# Running an invocation

A run needs two things of the place it runs in: reading the API that a file describes, and writing
the source of an API.  `Invocation.run` is defined over any `Host` that has both, so that what runs
on a real file system is the same function as what runs on a `Disk`.
-/

namespace EndpointBindings

/-! ## Documents and generated source on a disk

Loading reads a document from a file, in the format that the file's name tells.  Generating writes
the files of an API to a disk.
-/

/-- The format of a file: YAML when its name ends in `.yaml` or `.yml` in any letter case. -/
def Format.ofPath (path : String) : Format :=
  match (Path.extension? path).map Text.lowerAscii with
  | some "yaml" | some "yml" => .yaml
  | _ => .json

namespace Disk

/-- The document in a file. -/
def load (d : Disk) (path : String) : Except Failure Json :=
  match d.readText path with
  | .error fault => .error (.unreadable path fault)
  | .ok text => readDocument (.ofPath path) text

/-- The API that the document in a file describes. -/
def loadApi (d : Disk) (path : String) : Except Failure Api := d.load path >>= Api.ofJson

/-- The writer to a disk. -/
def writer : Writer Disk where
  createDir d dir :=
    let (d, fault) := d.makeDirAll dir
    (d, fault.map (.directoryNotCreated dir))
  writeFile d path contents :=
    match d.writeText path contents with
    | .ok d => (d, none)
    | .error fault => (d, some (.fileNotWritten path fault))

/-- Write the source of an API; the paths written, or the first failure. -/
def generate (d : Disk) (api : Api) (options : Options) : Disk × Except Failure (List String) :=
  writer.writeApi d api options

end Disk

end EndpointBindings

namespace EndpointBindings.CommandLine

/-! ## Invocations -/

/-- A place to run in. -/
structure Host (m : Type → Type) where
  loadApi : (file : String) → m (Except Failure Api)
  generate : Api → Options → m (Except Failure (List String))

/-- What the program calls itself. -/
def versionLine : String := "apity 0.3.0"

section

variable {m : Type → Type} [Monad m]

/-- Import a document. -/
def runImport (host : Host m) (file : String) (options : Options) (verbose : Bool) : m Report := do
  let opening := importOpening file options verbose
  match ← host.loadApi file with
  | .error _ => return .failure (unlines opening) ("Failed to load " ++ file)
  | .ok api =>
    let parsed := opening ++ importParsed api
    match ← host.generate api options with
    | .error _ => return .failure (unlines parsed) "Failed to generate API routes"
    | .ok written => return .success (unlines (parsed ++ importDone written verbose))

/-- Show the API that a document describes. -/
def runInspect (host : Host m) (file : String) (asJson verbose : Bool) : m Report := do
  match ← host.loadApi file with
  | .error _ => return .failure "" ("Failed to load " ++ file)
  | .ok api =>
    return .success (unlines (if asJson then [(apiSummary api).pretty 0] else apiLines verbose api))

/-- Run an invocation. -/
def Invocation.run (host : Host m) : Invocation → m Report
  | .importDocument file options verbose => runImport host file options verbose
  | .inspect file asJson verbose => runInspect host file asJson verbose
  | .version => return .success (unlines [versionLine])
  | .help => return .success ""
  | .misuse => return .misuse

end

/-- A disk as the place to run in. -/
def diskHost : Host (StateM Disk) where
  loadApi file disk := (disk.loadApi file, disk)
  generate api options disk :=
    let (disk, result) := disk.generate api options
    (result, disk)

/-- Run the program with arguments on a disk. -/
def runOnDisk (environment : Option String) (args : List String) (disk : Disk) : Report × Disk :=
  (read environment args).run diskHost disk

end EndpointBindings.CommandLine
