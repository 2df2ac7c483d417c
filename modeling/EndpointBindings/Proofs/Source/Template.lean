import EndpointBindings.Output.Render
import EndpointBindings.Proofs.Source.Lexer
import EndpointBindings.Proofs.Validator.Meaning

/-!
# Templates of files

A file is a sequence of pieces: tokens that stand in it whatever the texts of the document are, and
places for these texts (`Piece`).  A text has its place in a literal, as the key of an object, in
the name of a declaration, or in the line that names a route.

The pieces are those of a plan (`Plan`): the expressions of the validators with the names, verbs and
paths that they are declared for.  What is left of a plan without its texts is its shape
(`Plan.blank`), and a shape has the pieces of its plan, without the texts
(`Plan.templates_blank`).  So the tokens between the texts depend on the shape alone.
-/

namespace EndpointBindings.Source

open Validator (Expr Start Call keyToken textTokens fieldTokens)

/-! ## Pieces -/

/-- A token that the texts of a document do not touch, or a place for one of them. -/
inductive Piece where
  | fixed (t : Token)
  | literal (text : String)
  | key (property : String)
  | name (ident : String)
  | route (path : String)
deriving DecidableEq, Repr

namespace Piece

/-- The one token of a piece. -/
def token : Piece → Token
  | fixed t => t
  | literal text => .code (.text text)
  | key property => .code (keyToken property)
  | name ident => .code (.name ident)
  | route path => .comment (" Route: " ++ path)

/-- The piece without its text. -/
def blank : Piece → Piece
  | fixed t => fixed t
  | literal _ => literal ""
  | key _ => key ""
  | name _ => name ""
  | route _ => route ""

@[simp] theorem blank_literal (text : String) : (literal text).blank = literal "" := rfl

@[simp] theorem blank_key (property : String) : (key property).blank = key "" := rfl

@[simp] theorem blank_name (ident : String) : (name ident).blank = name "" := rfl

@[simp] theorem blank_route (path : String) : (route path).blank = route "" := rfl

end Piece

/-- Tokens of code, whatever the texts are. -/
def code (ts : List Validator.Token) : List Piece := ts.map fun t => .fixed (.code t)

@[simp] theorem map_token_code (ts : List Validator.Token) :
    (code ts).map Piece.token = ts.map .code := by
  rw [code, List.map_map]
  rfl

@[simp] theorem map_blank_code (ts : List Validator.Token) :
    (code ts).map Piece.blank = code ts := by
  rw [code, List.map_map]
  rfl

theorem map_intersperse {α β : Type} (f : α → β) (a : α) :
    ∀ xs : List α, (xs.intersperse a).map f = (xs.map f).intersperse (f a)
  | [] => rfl
  | [_] => rfl
  | x :: y :: xs => congrArg (f x :: f a :: ·) (map_intersperse f a (y :: xs))

/-- Pieces with commas between them. -/
def separated (ps : List Piece) : List Piece := ps.intersperse (.fixed (.code .comma))

@[simp] theorem map_blank_separated (ps : List Piece) :
    (separated ps).map Piece.blank = separated (ps.map Piece.blank) := map_intersperse _ _ ps

theorem map_token_separated (ps : List Piece) :
    (separated ps).map Piece.token = (ps.map Piece.token).intersperse (.code .comma) :=
  map_intersperse _ _ ps

theorem textTokens_eq : ∀ texts : List String,
    textTokens texts = (texts.map .text).intersperse .comma
  | [] => rfl
  | [_] => rfl
  | v :: w :: vs => by
      rw [textTokens]
      exact congrArg (.text v :: .comma :: ·) (textTokens_eq (w :: vs))

theorem map_token_literals (texts : List String) :
    (separated (texts.map .literal)).map Piece.token = (textTokens texts).map .code := by
  rw [map_token_separated, textTokens_eq, map_intersperse, List.map_map, List.map_map]
  rfl

/-! ## Validators -/

mutual

/-- The pieces of an expression. -/
def exprPieces : Expr → List Piece
  | .plain p => code (Start.tokens (.plain p)) ++ code [.closing .round]
  | .enum values =>
      code (Start.enum.tokens ++ [.opening .square]) ++ separated (values.map .literal) ++
        code [.closing .square, .closing .round]
  | .array items => code Start.array.tokens ++ exprPieces items ++ code [.closing .round]
  | .object fields =>
      code (Start.object.tokens ++ [.opening .curly]) ++ fieldPieces fields ++
        code [.closing .curly, .closing .round]
  | .intersection left right =>
      code Start.intersection.tokens ++ exprPieces left ++ code [.comma] ++ exprPieces right ++
        code [.closing .round]
  | .lazy ident =>
      code (Start.lazy.tokens ++ [.opening .round, .closing .round, .arrow]) ++ [.name ident] ++
        code [.closing .round]
  | .mark e m => exprPieces e ++ code (Call.tokens (.mark m)) ++ code [.closing .round]
  | .bound e b limit =>
      exprPieces e ++ code (Call.tokens (.bound b)) ++ code [.numeral limit, .closing .round]
  | .describe e text =>
      exprPieces e ++ code Call.describe.tokens ++ [.literal text] ++ code [.closing .round]
  | .or left right =>
      exprPieces left ++ code Call.or.tokens ++ exprPieces right ++ code [.closing .round]

def fieldPieces : List (String × Expr) → List Piece
  | [] => []
  | (key, e) :: fields =>
      .key key :: code [.colon] ++ exprPieces e ++ code [.comma] ++ fieldPieces fields

end

mutual

/-- The expression without its texts. -/
def blankExpr : Expr → Expr
  | .plain p => .plain p
  | .enum values => .enum (values.map fun _ => "")
  | .array items => .array (blankExpr items)
  | .object fields => .object (blankFields fields)
  | .intersection left right => .intersection (blankExpr left) (blankExpr right)
  | .lazy _ => .lazy ""
  | .mark e m => .mark (blankExpr e) m
  | .bound e b limit => .bound (blankExpr e) b limit
  | .describe e _ => .describe (blankExpr e) ""
  | .or left right => .or (blankExpr left) (blankExpr right)

def blankFields : List (String × Expr) → List (String × Expr)
  | [] => []
  | (_, e) :: fields => ("", blankExpr e) :: blankFields fields

end

mutual

/-- The pieces of an expression have its tokens. -/
theorem map_token_exprPieces : ∀ e : Expr, (exprPieces e).map Piece.token = e.tokens.map .code
  | .plain p => by simp [exprPieces, Expr.tokens]
  | .enum values => by simp [exprPieces, Expr.tokens, map_token_literals]
  | .array items => by simp [exprPieces, Expr.tokens, map_token_exprPieces items]
  | .object fields => by simp [exprPieces, Expr.tokens, map_token_fieldPieces fields]
  | .intersection left right => by
      simp [exprPieces, Expr.tokens, map_token_exprPieces left, map_token_exprPieces right]
  | .lazy ident => by simp [exprPieces, Expr.tokens, Piece.token]
  | .mark e m => by simp [exprPieces, Expr.tokens, map_token_exprPieces e]
  | .bound e b limit => by simp [exprPieces, Expr.tokens, map_token_exprPieces e]
  | .describe e text => by simp [exprPieces, Expr.tokens, map_token_exprPieces e, Piece.token]
  | .or left right => by
      simp [exprPieces, Expr.tokens, map_token_exprPieces left, map_token_exprPieces right]

theorem map_token_fieldPieces : ∀ fields : List (String × Expr),
    (fieldPieces fields).map Piece.token = (fieldTokens fields).map .code
  | [] => by simp [fieldPieces, fieldTokens]
  | (key, e) :: fields => by
      simp [fieldPieces, fieldTokens, map_token_exprPieces e, map_token_fieldPieces fields,
        Piece.token]

end

mutual

/-- The pieces of an expression without texts are its pieces without them. -/
theorem exprPieces_blank : ∀ e : Expr, exprPieces (blankExpr e) = (exprPieces e).map Piece.blank
  | .plain p => by simp [exprPieces, blankExpr]
  | .enum values => by simp [exprPieces, blankExpr, Function.comp_def]
  | .array items => by simp [exprPieces, blankExpr, exprPieces_blank items]
  | .object fields => by simp [exprPieces, blankExpr, fieldPieces_blank fields]
  | .intersection left right => by
      simp [exprPieces, blankExpr, exprPieces_blank left, exprPieces_blank right]
  | .lazy ident => by simp [exprPieces, blankExpr]
  | .mark e m => by simp [exprPieces, blankExpr, exprPieces_blank e]
  | .bound e b limit => by simp [exprPieces, blankExpr, exprPieces_blank e]
  | .describe e text => by simp [exprPieces, blankExpr, exprPieces_blank e]
  | .or left right => by
      simp [exprPieces, blankExpr, exprPieces_blank left, exprPieces_blank right]

theorem fieldPieces_blank : ∀ fields : List (String × Expr),
    fieldPieces (blankFields fields) = (fieldPieces fields).map Piece.blank
  | [] => by simp [fieldPieces, blankFields]
  | (key, e) :: fields => by
      simp [fieldPieces, blankFields, exprPieces_blank e, fieldPieces_blank fields]

end

/-! ## Plans -/

/-- What of an endpoint is written: its verb, its name, and the expressions of its validators. -/
structure EndpointPlan where
  verb : Verb
  name : String
  response : Option Expr
  body : Option Expr
  query : Option Expr

/-- What of a route is written. -/
structure RoutePlan where
  path : String
  endpoints : List EndpointPlan
  imports : List String

/-- What of an API is written. -/
structure Plan where
  baseUrl : String
  schemas : List (String × Expr)
  routes : List RoutePlan

/-- The expression of a node where nothing is around it. -/
def validatorOf (known : List String) (n : Node) : Expr := n.exprAt known 0 true

def EndpointPlan.of (known : List String) (path : String) (entry : Verb × Endpoint) :
    EndpointPlan where
  verb := entry.2.verb
  name := entry.2.name path
  response := entry.2.response.map (validatorOf known)
  body := entry.2.body.map (validatorOf known)
  query := entry.2.queryNode.map (validatorOf known)

def RoutePlan.of (known : List String) (route : String × Endpoints) : RoutePlan where
  path := route.1
  endpoints := route.2.map (EndpointPlan.of known route.1)
  imports := importsOf known route.2

/-- The plan of an API. -/
def Plan.of (api : Api) : Plan where
  baseUrl := api.baseUrl
  schemas := api.schemas.map fun (name, n) => (schemaIdent name, validatorOf api.known n)
  routes := api.routes.map (RoutePlan.of api.known)

def EndpointPlan.blank (e : EndpointPlan) : EndpointPlan :=
  { e with
    name := ""
    response := e.response.map blankExpr
    body := e.body.map blankExpr
    query := e.query.map blankExpr }

def RoutePlan.blank (r : RoutePlan) : RoutePlan where
  path := ""
  endpoints := r.endpoints.map EndpointPlan.blank
  imports := r.imports.map fun _ => ""

/-- The shape of a plan: what is left of it without its texts. -/
def Plan.blank (p : Plan) : Plan where
  baseUrl := ""
  schemas := p.schemas.map fun (_, e) => ("", blankExpr e)
  routes := p.routes.map RoutePlan.blank

/-! ## Declarations -/

def assign : Piece := .fixed .assign

def semicolon : Piece := .fixed .semicolon

def banner : Piece := .fixed (.comment " Generated by apity. Do not edit by hand.")

/-- Names that are taken from a module. -/
def importPieces (names : List Piece) (module : String) : List Piece :=
  code [.name "import", .opening .curly] ++ separated names ++
    code [.closing .curly, .name "from", .text module] ++ [semicolon]

/-- The declaration of a component's validator. -/
def schemaPieces (schema : String × Expr) : List Piece :=
  code [.name "export", .name "const"] ++ [.name schema.1, assign] ++ exprPieces schema.2 ++
    [semicolon]

/-- A member of an endpoint's declaration. -/
def memberPieces (key : String) (pieces : List Piece) : List Piece :=
  code [keyToken key, .colon] ++ pieces ++ code [.comma]

/-- What stands for a response that there is none of. -/
def voidPieces : List Piece :=
  code [.name "z", .dot, .name "void", .opening .round, .closing .round]

/-- The members of an endpoint's declaration. -/
def EndpointPlan.members (e : EndpointPlan) : List Piece :=
  memberPieces "method" (code [.text e.verb.text]) ++
    memberPieces "response" ((e.response.map exprPieces).getD voidPieces) ++
    ((e.body.map exprPieces).map (memberPieces "body")).getD [] ++
    ((e.query.map exprPieces).map (memberPieces "query")).getD []

def EndpointPlan.pieces (binding : List Piece) (e : EndpointPlan) : List Piece :=
  binding ++ [assign] ++ code [.name "createApiEndpoint", .opening .round, .opening .curly] ++
    e.members ++ code [.closing .curly, .closing .round] ++ [semicolon]

/-- An endpoint in a file of all endpoints, under its name. -/
def EndpointPlan.named (e : EndpointPlan) : List Piece :=
  e.pieces (code [.name "const"] ++ [.name e.name])

/-- An endpoint in the file of its route, under its verb. -/
def EndpointPlan.exported (e : EndpointPlan) : List Piece :=
  e.pieces (code [.name "export", .name "const", .name e.verb.text])

/-! ## Files -/

/-- The endpoints of a route that fetch, or those that do not. -/
def RoutePlan.ofKind (fetches : Bool) (r : RoutePlan) : List EndpointPlan :=
  r.endpoints.filter (·.verb.isFetch = fetches)

/-- The entry of a route in a table of endpoints. -/
def groupPieces (fetches : Bool) (r : RoutePlan) : List Piece :=
  match r.ofKind fetches with
  | [] => []
  | group =>
    [.literal r.path] ++ code [.colon, .opening .square] ++
      separated (group.map fun e => .name e.name) ++ code [.closing .square, .comma]

/-- A table of one kind of endpoints by path. -/
def Plan.tablePieces (p : Plan) (binding : String) (fetches : Bool) : List Piece :=
  code [.name "export", .name "const", .name binding] ++ [assign] ++ code [.opening .curly] ++
    p.routes.flatMap (groupPieces fetches) ++
    code [.closing .curly, .name "as", .name "const"] ++ [semicolon]

/-- The client. -/
def Plan.clientPieces (p : Plan) : List Piece :=
  code [.name "export", .name "const", .name "api"] ++ [assign] ++
    code [.name "createApi", .opening .round, .opening .curly, .name "baseUrl", .colon] ++
    [.literal p.baseUrl] ++
    code [.comma, .name "fetchEndpoints", .comma, .name "mutateEndpoints", .comma,
      .closing .curly, .closing .round] ++ [semicolon]

/-- Names that every file of a kind takes from a module. -/
def fixedNames (names : List String) : List Piece := code (names.map .name)

def Plan.singleFile (p : Plan) (clientModule : String) : List Piece :=
  [banner] ++ importPieces (fixedNames ["createApi", "createApiEndpoint"]) clientModule ++
    importPieces (fixedNames ["z"]) "zod" ++ p.schemas.flatMap schemaPieces ++
    p.routes.flatMap (fun r => (r.ofKind true).flatMap EndpointPlan.named) ++
    p.routes.flatMap (fun r => (r.ofKind false).flatMap EndpointPlan.named) ++
    p.tablePieces "fetchEndpoints" true ++ p.tablePieces "mutateEndpoints" false ++ p.clientPieces

def Plan.schemasFile (p : Plan) : List Piece :=
  [banner] ++ importPieces (fixedNames ["z"]) "zod" ++ p.schemas.flatMap schemaPieces

def RoutePlan.file (clientModule : String) (r : RoutePlan) : List Piece :=
  [banner, .route r.path] ++ importPieces (fixedNames ["createApiEndpoint"]) clientModule ++
    importPieces (fixedNames ["z"]) "zod" ++
    (if r.imports.isEmpty then [] else importPieces (r.imports.map .name) "./schemas") ++
    r.endpoints.flatMap EndpointPlan.exported

/-- The pieces of each file. -/
def Plan.templates (p : Plan) (options : Options) : List (List Piece) :=
  match options.mode with
  | .singleFile => [p.singleFile options.clientModule]
  | .fileBased => p.schemasFile :: p.routes.map (RoutePlan.file options.clientModule)

/-! ## Shapes -/

@[simp] theorem blank_assign : assign.blank = assign := rfl

@[simp] theorem blank_semicolon : semicolon.blank = semicolon := rfl

@[simp] theorem blank_banner : banner.blank = banner := rfl

@[simp] theorem map_blank_fixedNames (names : List String) :
    (fixedNames names).map Piece.blank = fixedNames names := map_blank_code _

@[simp] theorem map_blank_importPieces (names : List Piece) (module : String) :
    (importPieces names module).map Piece.blank = importPieces (names.map Piece.blank) module := by
  simp [importPieces]

@[simp] theorem map_blank_memberPieces (key : String) (pieces : List Piece) :
    (memberPieces key pieces).map Piece.blank = memberPieces key (pieces.map Piece.blank) := by
  simp [memberPieces]

theorem schemaPieces_blank (schema : String × Expr) :
    schemaPieces ("", blankExpr schema.2) = (schemaPieces schema).map Piece.blank := by
  simp [schemaPieces, exprPieces_blank]

theorem EndpointPlan.members_blank (e : EndpointPlan) :
    e.blank.members = e.members.map Piece.blank := by
  obtain ⟨verb, name, response, body, query⟩ := e
  cases response <;> cases body <;> cases query <;>
    simp [EndpointPlan.members, EndpointPlan.blank, exprPieces_blank, voidPieces]

theorem EndpointPlan.pieces_blank (e : EndpointPlan) (binding : List Piece) :
    e.blank.pieces (binding.map Piece.blank) = (e.pieces binding).map Piece.blank := by
  simp [EndpointPlan.pieces, EndpointPlan.members_blank]

theorem RoutePlan.ofKind_blank (fetches : Bool) (r : RoutePlan) :
    r.blank.ofKind fetches = (r.ofKind fetches).map EndpointPlan.blank := by
  show (r.endpoints.map EndpointPlan.blank).filter _ = _
  rw [List.filter_map]
  rfl

theorem groupPieces_blank (fetches : Bool) (r : RoutePlan) :
    groupPieces fetches r.blank = (groupPieces fetches r).map Piece.blank := by
  rw [groupPieces, groupPieces, RoutePlan.ofKind_blank]
  cases r.ofKind fetches with
  | nil => rfl
  | cons e es => simp [RoutePlan.blank, EndpointPlan.blank, Function.comp_def]

/-- Pieces that are gathered from parts without texts. -/
theorem flatMap_blank {α : Type} {f : α → List Piece} (without : α → α)
    (h : ∀ a, f (without a) = (f a).map Piece.blank) (as : List α) :
    (as.map without).flatMap f = (as.flatMap f).map Piece.blank := by
  rw [List.flatMap_map, List.map_flatMap]
  exact congrArg (List.flatMap · as) (funext h)

theorem EndpointPlan.named_blank (e : EndpointPlan) :
    e.blank.named = e.named.map Piece.blank := by
  rw [named, named, ← pieces_blank]
  simp [EndpointPlan.blank]

theorem EndpointPlan.exported_blank (e : EndpointPlan) :
    e.blank.exported = e.exported.map Piece.blank := by
  rw [exported, exported, ← pieces_blank, map_blank_code]
  rfl

theorem RoutePlan.file_blank (clientModule : String) (r : RoutePlan) :
    r.blank.file clientModule = (r.file clientModule).map Piece.blank := by
  obtain ⟨path, endpoints, imports⟩ := r
  have hendpoints := flatMap_blank EndpointPlan.blank EndpointPlan.exported_blank endpoints
  rw [RoutePlan.file, RoutePlan.file, RoutePlan.blank]
  dsimp only
  rw [hendpoints]
  cases imports <;> simp [Function.comp_def]

theorem Plan.tablePieces_blank (p : Plan) (binding : String) (fetches : Bool) :
    p.blank.tablePieces binding fetches = (p.tablePieces binding fetches).map Piece.blank := by
  have hgroups := flatMap_blank RoutePlan.blank (groupPieces_blank fetches) p.routes
  rw [tablePieces, tablePieces, Plan.blank]
  dsimp only
  rw [hgroups]
  simp

theorem Plan.clientPieces_blank (p : Plan) :
    p.blank.clientPieces = p.clientPieces.map Piece.blank := by
  simp [clientPieces, Plan.blank]

theorem Plan.schemas_blank (p : Plan) :
    p.blank.schemas.flatMap schemaPieces = (p.schemas.flatMap schemaPieces).map Piece.blank :=
  flatMap_blank (fun schema => ("", blankExpr schema.2)) schemaPieces_blank p.schemas

theorem Plan.declarations_blank (p : Plan) (fetches : Bool) :
    p.blank.routes.flatMap (fun r => (r.ofKind fetches).flatMap EndpointPlan.named) =
      (p.routes.flatMap fun r => (r.ofKind fetches).flatMap EndpointPlan.named).map
        Piece.blank := by
  refine flatMap_blank RoutePlan.blank (fun r => ?_) p.routes
  rw [RoutePlan.ofKind_blank]
  exact flatMap_blank EndpointPlan.blank EndpointPlan.named_blank _

/-- **A shape has the pieces of its plan**, without the texts. -/
theorem Plan.templates_blank (p : Plan) (options : Options) :
    p.blank.templates options = (p.templates options).map (List.map Piece.blank) := by
  rw [templates, templates]
  cases options.mode with
  | singleFile =>
      simp [Plan.singleFile, Plan.schemas_blank, Plan.declarations_blank, Plan.tablePieces_blank,
        Plan.clientPieces_blank]
  | fileBased =>
      have hroutes : p.blank.routes.map (RoutePlan.file options.clientModule) =
          (p.routes.map (RoutePlan.file options.clientModule)).map (List.map Piece.blank) := by
        rw [Plan.blank, List.map_map, List.map_map]
        exact List.map_congr_left fun r _ => r.file_blank options.clientModule
      simp [Plan.schemasFile, Plan.schemas_blank, hroutes]

end EndpointBindings.Source
