import EndpointBindings.CommandLine.Run

/-!
# The program

The program on the real file system: the same runs as on a `Disk`, with the system's calls in the
place of its operations.
-/

namespace EndpointBindings

/-- The fault that a failed call of the system stands for. -/
def FileFault.ofError : IO.Error → FileFault
  | .noFileOrDirectory .. => .noSuchEntry
  | .alreadyExists .. => .alreadyExists
  | .inappropriateType .. => .isADirectory
  | .invalidArgument .. => .nulInName
  | _ => .notADirectory

/-- Do something with the file system, or say how it failed. -/
def attempt {α : Type} (failed : FileFault → Failure) (act : IO α) : IO (Except Failure α) :=
  try
    return .ok (← act)
  catch e =>
    return .error (failed (.ofError e))

/-- The API that the document in a file describes. -/
def loadApiFile (path : String) : IO (Except Failure Api) := do
  match ← attempt (.unreadable path) (IO.FS.readBinFile path) with
  | .error failure => return .error failure
  | .ok bytes =>
    match String.fromUTF8? bytes with
    | none => return .error (.unreadable path .notText)
    | some text => return readDocument (.ofPath path) text >>= Api.ofJson

/-- Write files below a directory; the paths written, or the first failure. -/
def writeSourceFiles (dir : String) : List SourceFile → IO (Except Failure (List String))
  | [] => return .ok []
  | f :: fs => do
    let path := joinPath dir f.path
    match ← attempt (.fileNotWritten path) (IO.FS.writeFile path f.contents) with
    | .error failure => return .error failure
    | .ok () => return (← writeSourceFiles dir fs).map (path :: ·)

/-- Write the source of an API. -/
def generateFiles (api : Api) (options : Options) : IO (Except Failure (List String)) := do
  let dir := options.outDir
  match ← attempt (.directoryNotCreated dir) (IO.FS.createDirAll dir) with
  | .error failure => return .error failure
  | .ok () => writeSourceFiles dir (render api options)

end EndpointBindings

open EndpointBindings CommandLine in
def main (args : List String) : IO UInt32 := do
  let environment ← IO.getEnv "APITY_OUT_DIR"
  let report ← (read environment args).run { loadApi := loadApiFile, generate := generateFiles }
  IO.print report.output
  report.error.forM IO.eprintln
  return report.exitCode
