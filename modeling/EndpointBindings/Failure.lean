import EndpointBindings.Json.Printer

/-!
# What can go wrong

Every way in which loading a document or writing generated sources can fail, as its cause.  The
wording is `Failure.message`; a text that is no document at all has none, since what a reader says
about malformed text is not part of this library's contract.
-/

namespace EndpointBindings

/-- Why a file could not be used. -/
inductive FileFault where
  | noSuchEntry
  | alreadyExists
  | notADirectory
  | isADirectory
  | nameTooLong
  | nulInName
  | notText
  | noParent
deriving DecidableEq, Repr

/-- The wording of the system for a fault. -/
def FileFault.message : FileFault → String
  | .noSuchEntry => "No such file or directory (os error 2)"
  | .alreadyExists => "File exists (os error 17)"
  | .notADirectory => "Not a directory (os error 20)"
  | .isADirectory => "Is a directory (os error 21)"
  | .nameTooLong => "File name too long (os error 36)"
  | .nulInName => "file name contained an unexpected NUL byte"
  | .notText => "stream did not contain valid UTF-8"
  | .noParent => "failed to create whole tree"

/-- Where a failure belongs. -/
inductive Stage where
  | jsonText
  | yamlText
  | parse
  | generation
deriving DecidableEq, Repr

/-- A cause of failure. -/
inductive Failure where
  /-- The text is no JSON document. -/
  | malformedJson
  /-- The text is no YAML document. -/
  | malformedYaml
  /-- A mapping key that has no text, as messages show it. -/
  | unsupportedKey (shown : String)
  /-- The document's `openapi` version is not 3. -/
  | unsupportedOpenApi (version : String)
  /-- The document's `swagger` version is not 2. -/
  | unsupportedSwagger (version : Json)
  /-- The document names no version. -/
  | noVersion
  /-- The document is no object that could be read. -/
  | invalidDocument (reason : String)
  /-- The document's file could not be read. -/
  | unreadable (path : String) (fault : FileFault)
  /-- The output directory could not be created. -/
  | directoryNotCreated (path : String) (fault : FileFault)
  /-- A generated file could not be written. -/
  | fileNotWritten (path : String) (fault : FileFault)
  /-- A writer refused a call in its own words. -/
  | refused (reason : String)

namespace Failure

/-- Where a failure belongs, told from its cause. -/
def stage : Failure → Stage
  | .malformedJson => .jsonText
  | .malformedYaml => .yamlText
  | .unsupportedKey _ | .unsupportedOpenApi _ | .unsupportedSwagger _ | .noVersion
  | .invalidDocument _ | .unreadable .. => .parse
  | .directoryNotCreated .. | .fileNotWritten .. | .refused _ => .generation

/-- The cause in words. -/
def reason : Failure → String
  | .malformedJson | .malformedYaml => ""
  | .unsupportedKey shown => "Unsupported YAML mapping key: " ++ shown
  | .unsupportedOpenApi version => "Unsupported OpenAPI version: " ++ version
  | .unsupportedSwagger version => "Unsupported Swagger version: " ++ version.compact
  | .noVersion => "Document declares neither \u0060openapi\u0060 nor \u0060swagger\u0060 version"
  | .invalidDocument reason => "Invalid OpenAPI document: " ++ reason
  | .unreadable path fault => "Failed to read OpenAPI file " ++ path ++ ": " ++ fault.message
  | .directoryNotCreated path fault =>
    "Failed to create output directory " ++ path ++ ": " ++ fault.message
  | .fileNotWritten path fault => "Failed to write " ++ path ++ ": " ++ fault.message
  | .refused reason => reason

/-- The message of a failure; none for text that is no document. -/
def message (f : Failure) : Option String :=
  match f.stage with
  | .jsonText | .yamlText => none
  | .parse => some ("Parse error: " ++ f.reason)
  | .generation => some ("Generation error: " ++ f.reason)

end Failure

end EndpointBindings
