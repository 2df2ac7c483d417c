import EndpointBindings.Json.Basic

/-!
# Parameters and responses of Swagger 2

Swagger 2 writes a request body as a parameter, the type of any other parameter in the parameter
itself, and the schema of a response in the response.  Here each gets the shape of OpenAPI 3: a
`requestBody`, a `schema` of the parameter, and `content` for the JSON content type.

References are left alone.  So is whatever is no object, and a parameter that has a `schema`.
-/

namespace EndpointBindings.Swagger

/-- The fields of a parameter that belong into its schema. -/
def schemaFields : List String :=
  ["type", "format", "items", "enum", "default", "minimum", "maximum", "minLength", "maxLength",
    "pattern", "x-nullable"]

/-- The fields of a parameter that OpenAPI 3 does not know. -/
def droppedFields : List String := ["collectionFormat", "allowEmptyValue"]

/-- The content of a body or response: one schema for JSON. -/
def jsonContent (schema : Json) : Json :=
  .object [("application/json", .object [("schema", schema)])]

/-- A parameter with the fields of its schema gathered in one, which comes last. -/
def convertParameter (parameter : Json) : Json :=
  match parameter with
  | .object ms =>
    if parameter.isReference || Ordered.has ms "schema" then parameter
    else
      let schema := ms.filter (schemaFields.contains ·.1)
      let others := ms.filter fun (key, _) =>
        !schemaFields.contains key && !droppedFields.contains key
      .object (if schema.isEmpty then others else others ++ [("schema", .object schema)])
  | other => other

/-- The request body that a body parameter describes. -/
def requestBodyOf (parameter : Json) : Json :=
  let description := match parameter.get? "description" with
    | some text => [("description", text)]
    | none => []
  .object (description ++ [
    ("content", jsonContent ((parameter.get? "schema").getD (.object []))),
    ("required", (parameter.get? "required").getD (.bool false))])

/-- Where a parameter stands. -/
def location? (parameter : Json) : Option String := (parameter.get? "in").bind Json.string?

/-- The parameters that stay parameters, and the request body that the last body parameter
describes.  Form fields become neither. -/
def splitItems : List Json → List Json × Option Json
  | [] => ([], none)
  | p :: ps =>
    let (parameters, body) := splitItems ps
    match location? p with
    | some "body" => (parameters, body <|> some (requestBodyOf p))
    | some "formData" => (parameters, body)
    | _ => (convertParameter p :: parameters, body)

/-- The same for whatever stands where a list of parameters should. -/
def splitParameters (parameters : Json) : List Json × Option Json :=
  splitItems (parameters.list?.getD [])

/-- A response with its schema under `content`, and without examples.  Taking a key out moves the
last one into its place. -/
def convertResponse (response : Json) : Json :=
  match response with
  | .object ms =>
    if response.isReference then response
    else
      let ms := match Ordered.get? ms "schema" with
        | some schema => Ordered.put (Ordered.swapErase ms "schema") "content" (jsonContent schema)
        | none => ms
      .object (Ordered.swapErase ms "examples")
  | other => other

end EndpointBindings.Swagger
