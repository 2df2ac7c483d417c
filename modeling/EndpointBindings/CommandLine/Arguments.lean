import EndpointBindings.Ordered
import EndpointBindings.Output.Render
import EndpointBindings.Text.Split

/-!
# Arguments of the command line

An invocation names a command and gives it operands and options.  A command's arguments are first
cut into items, each by itself; only an option that takes a value may use the argument after it.
Then the items are gathered from the left, and the first that asks for help or that cannot stand
there decides: `read` answers one `Invocation` for every list of arguments.

An option is written `--name` or with one letter, its value in the next argument, after an equals
sign, or directly after the letter.  Letters of options without values may stand together.  After
`--` everything is an operand.  No option may be given twice to one command.
-/

namespace EndpointBindings.CommandLine

/-- What an invocation asks for. -/
inductive Invocation where
  | importDocument (file : String) (options : Options) (verbose : Bool)
  | inspect (file : String) (asJson verbose : Bool)
  | version
  | help
  /-- The arguments are not understood. -/
  | misuse
deriving Repr

/-! ## Options -/

/-- Options without values. -/
inductive Flag where
  | verbose | json | help | version
deriving DecidableEq, Repr

/-- Options with values. -/
inductive Setting where
  | outDir | output | clientModule
deriving DecidableEq, Repr

/-- The options that a command has, by name and by letter. -/
structure OptionTable where
  names : List (String × (Flag ⊕ Setting))
  letters : List (Char × (Flag ⊕ Setting))

/-- The options before the command. -/
def generalOptions : OptionTable where
  names := [("verbose", .inl .verbose), ("help", .inl .help), ("version", .inl .version)]
  letters := [('v', .inl .verbose), ('h', .inl .help), ('V', .inl .version)]

/-- The options of an import. -/
def importOptions : OptionTable where
  names := [("outDir", .inr .outDir), ("output", .inr .output),
    ("client-module", .inr .clientModule), ("verbose", .inl .verbose), ("help", .inl .help)]
  letters := [('d', .inr .outDir), ('o', .inr .output), ('v', .inl .verbose), ('h', .inl .help)]

/-- The options of an inspection. -/
def inspectOptions : OptionTable where
  names := [("json", .inl .json), ("verbose", .inl .verbose), ("help", .inl .help)]
  letters := [('v', .inl .verbose), ('h', .inl .help)]

/-! ## Items -/

/-- What an argument, or a part of one, is. -/
inductive Item where
  | flag (flag : Flag)
  | setting (setting : Setting) (value : String)
  | operand (text : String)
  /-- What is no option here, or an option with a value too many or too few. -/
  | stray
deriving DecidableEq, Repr

/-- The items of an argument, and the setting that takes the next argument as its value. -/
structure Reading where
  items : List Item
  awaiting : Option Setting := none

/-- The option that an argument gives by name, with the value after an equals sign. -/
def readName (table : OptionTable) (cs : List Char) : Reading :=
  let name := String.ofList (cs.takeWhile (· ≠ '='))
  match Ordered.get? table.names name, cs.dropWhile (· ≠ '=') with
  | some (.inl f), [] => { items := [.flag f] }
  | some (.inr s), [] => { items := [], awaiting := some s }
  | some (.inr s), _ :: value => { items := [.setting s (String.ofList value)] }
  | _, _ => { items := [.stray] }

/-- The options that an argument gives by letters.  The letter of a setting is the last: what
follows it is its value. -/
def readLetters (table : OptionTable) : List Char → Reading
  | [] => { items := [] }
  | c :: cs =>
    match Ordered.get? table.letters c with
    | some (.inl f) =>
      let rest := readLetters table cs
      { rest with items := .flag f :: rest.items }
    | some (.inr s) =>
      match cs with
      | [] => { items := [], awaiting := some s }
      | '=' :: value => { items := [.setting s (String.ofList value)] }
      | value => { items := [.setting s (String.ofList value)] }
    | none => { items := [.stray] }

/-- Read one argument.  A lone dash is an operand. -/
def readArgument (table : OptionTable) (arg : String) : Reading :=
  match arg.toList with
  | '-' :: '-' :: cs => readName table cs
  | '-' :: c :: cs => readLetters table (c :: cs)
  | _ => { items := [.operand arg] }

/-- Whether an argument can be the value of the option before it. -/
def isValue (arg : String) : Bool := arg = "-" || !Text.startsWith "-" arg

/-- The items of a command's arguments. -/
def itemsOf (table : OptionTable) : List String → List Item
  | [] => []
  | arg :: rest =>
    if arg = "--" then rest.map .operand
    else
      let reading := readArgument table arg
      match reading.awaiting, rest with
      | none, rest => reading.items ++ itemsOf table rest
      | some s, value :: rest =>
        if isValue value then reading.items ++ .setting s value :: itemsOf table rest
        else reading.items ++ [.stray]
      | some _, [] => reading.items ++ [.stray]

/-! ## Gathering -/

/-- What a command has been given. -/
structure Given where
  file : Option String := none
  outDir : Option String := none
  mode : Option OutputMode := none
  clientModule : Option String := none
  json : Bool := false
  verbose : Bool := false

/-- The outcome of gathering an item: what is given so far, or the end of reading. -/
abbrev Gathered := Except Invocation Given

/-- Give a value that was not given before. -/
def once {α : Type} (slot : Option α) (value : Option α) (next : Option α → Given) : Gathered :=
  match slot, value with
  | none, some a => .ok (next (some a))
  | _, _ => .error .misuse

/-- The path that a text is; an empty text is none. -/
def pathOf? (text : String) : Option String := if text = "" then none else some text

/-- Gather one item. -/
def gather (g : Given) : Item → Gathered
  | .flag .help => .error .help
  | .flag .version => .error .version
  | .flag .verbose => if g.verbose then .error .misuse else .ok { g with verbose := true }
  | .flag .json => if g.json then .error .misuse else .ok { g with json := true }
  | .setting .outDir value => once g.outDir (pathOf? value) ({ g with outDir := · })
  | .setting .output value => once g.mode (OutputMode.ofText? value) ({ g with mode := · })
  | .setting .clientModule value => once g.clientModule (some value) ({ g with clientModule := · })
  | .operand text => once g.file (pathOf? text) ({ g with file := · })
  | .stray => .error .misuse

/-- Gather the items of a command and make an invocation of what is given. -/
def gatherAll (items : List Item) (finish : Given → Option Invocation) : Invocation :=
  match items.foldlM gather ({} : Given) with
  | .error invocation => invocation
  | .ok given => (finish given).getD .misuse

/-! ## Commands -/

/-- The output directory of an import: the one given, or else the one that the environment names. -/
def outDirOf? (environment given : Option String) : Option (Option String) :=
  match given, environment with
  | some dir, _ => some (some dir)
  | none, none => some none
  | none, some dir => (pathOf? dir).map some

/-- The import that the arguments of its command ask for. -/
def readImport (environment : Option String) (verbose : Bool) (args : List String) : Invocation :=
  gatherAll (itemsOf importOptions args) fun given => do
    let file ← given.file
    let outDir ← outDirOf? environment given.outDir
    return .importDocument file
      { outDir? := outDir
        mode := given.mode.getD ({} : Options).mode
        clientModule := given.clientModule.getD ({} : Options).clientModule }
      (verbose || given.verbose)

/-- The inspection that the arguments of its command ask for. -/
def readInspect (verbose : Bool) (args : List String) : Invocation :=
  gatherAll (itemsOf inspectOptions args) fun given => do
    let file ← given.file
    return .inspect file given.json (verbose || given.verbose)

/-- Help is for the whole or for one command. -/
def readHelp : List String → Invocation
  | [] => .help
  | [topic] => if ["import-openapi", "inspect", "help"].contains topic then .help else .misuse
  | _ => .misuse

/-- The invocation of a named command. -/
def readCommand (environment : Option String) (verbose : Bool) (name : String)
    (args : List String) : Invocation :=
  match name with
  | "import-openapi" => readImport environment verbose args
  | "inspect" => readInspect verbose args
  | "help" => readHelp args
  | _ => .misuse

/-- Read the arguments up to the command.  What `g` has been given stands before them. -/
def readFrom (environment : Option String) (g : Given) : List String → Invocation
  | [] => .misuse
  | arg :: rest =>
    match (readArgument generalOptions arg).items with
    | [.operand name] => readCommand environment g.verbose name rest
    | items =>
      match items.foldlM gather g with
      | .error invocation => invocation
      | .ok g => readFrom environment g rest

/-- The invocation that a list of arguments is; `environment` is the output directory that the
environment names. -/
def read (environment : Option String) (args : List String) : Invocation :=
  readFrom environment {} args

end EndpointBindings.CommandLine
