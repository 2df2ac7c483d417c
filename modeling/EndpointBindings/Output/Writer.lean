import EndpointBindings.Failure
import EndpointBindings.Output.Render

/-!
# Writing generated files

Files are written through a writer, which makes directories and writes files in a state of its own
and may refuse any call.  All files are rendered before the first call.  The output directory is made
first, then the files are written in order; the first refusal ends the writing and is its result.

The text of a file comes from an engine that fills in its template, and an engine may fail.  The one
that `writeApi` uses gives each template as it is written and never does (`renderWith_exact`).
-/

namespace EndpointBindings

/-- Where files are written to.  A call gives the state after it and why it was refused, if it was. -/
structure Writer (σ : Type) where
  createDir : σ → (dir : String) → σ × Option Failure
  writeFile : σ → (path contents : String) → σ × Option Failure

/-- A path below a directory.  An absolute path stays what it is. -/
def joinPath (dir path : String) : String :=
  if Text.startsWith "/" path || dir = "" then path
  else if dir.toList.getLast? = some '/' then dir ++ path
  else dir ++ "/" ++ path

/-! ## Rendering -/

/-- What fills in the template of a file: its text, or why there is none. -/
abbrev Engine := SourceFile → Except Failure String

/-- The engine that gives every text as the template says it. -/
def Engine.exact : Engine := fun file => .ok file.contents

/-- The files of an API with the texts of an engine, or the engine's first failure. -/
def renderWith (engine : Engine) (api : Api) (options : Options) :
    Except Failure (List SourceFile) :=
  (render api options).mapM fun file => (engine file).map ({ file with contents := · })

theorem renderWith_exact (api : Api) (options : Options) :
    renderWith .exact api options = .ok (render api options) := by
  rw [renderWith]
  induction render api options with
  | nil => rfl
  | cons file files ih =>
      rw [List.mapM_cons, ih]
      rfl

/-! ## Writing -/

namespace Writer

variable {σ : Type}

/-- Write files in order; the paths written, or the first refusal. -/
def writeFiles (w : Writer σ) (dir : String) :
    σ → List SourceFile → σ × Except Failure (List String)
  | s, [] => (s, .ok [])
  | s, f :: fs =>
    let path := joinPath dir f.path
    match w.writeFile s path f.contents with
    | (s, some failure) => (s, .error failure)
    | (s, none) =>
      let (s, result) := writeFiles w dir s fs
      (s, result.map (path :: ·))

/-- Make the output directory and write the files to it. -/
def writeAll (w : Writer σ) (s : σ) (dir : String) (files : List SourceFile) :
    σ × Except Failure (List String) :=
  match w.createDir s dir with
  | (s, some failure) => (s, .error failure)
  | (s, none) => w.writeFiles dir s files

/-- Render an API with an engine and write its files; nothing is called when a file is missing. -/
def writeWith (w : Writer σ) (engine : Engine) (s : σ) (api : Api) (options : Options) :
    σ × Except Failure (List String) :=
  match renderWith engine api options with
  | .error failure => (s, .error failure)
  | .ok files => w.writeAll s options.outDir files

/-- Render an API and write its files. -/
def writeApi (w : Writer σ) (s : σ) (api : Api) (options : Options) :
    σ × Except Failure (List String) :=
  w.writeWith .exact s api options

theorem writeApi_eq (w : Writer σ) (s : σ) (api : Api) (options : Options) :
    w.writeApi s api options = w.writeAll s options.outDir (render api options) := by
  rw [writeApi, writeWith, renderWith_exact]

end Writer

/-! ## Recording -/

/-- A call of a writer. -/
inductive WriterCall where
  | createDir (dir : String)
  | writeFile (path contents : String)
deriving DecidableEq, Repr

/-- A writer that records its calls, the latest last, and refuses those that a rule refuses.  The
rule sees the calls before and the call itself. -/
def recorder (rule : List WriterCall → WriterCall → Option Failure) : Writer (List WriterCall) :=
  let act (calls : List WriterCall) (call : WriterCall) : List WriterCall × Option Failure :=
    (calls ++ [call], rule calls call)
  { createDir := fun calls dir => act calls (.createDir dir)
    writeFile := fun calls path contents => act calls (.writeFile path contents) }

/-- The rule that refuses one call, counted from zero, and says which. -/
def refuseAt (n : Nat) (calls : List WriterCall) (_ : WriterCall) : Option Failure :=
  if calls.length = n then some (.refused ("call " ++ intText n ++ " refused")) else none

end EndpointBindings
