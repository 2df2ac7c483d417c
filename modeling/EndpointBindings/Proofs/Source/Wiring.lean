import EndpointBindings.Proofs.Routes.Extraction
import EndpointBindings.Proofs.Source.Containment
import EndpointBindings.Proofs.Source.Statements

/-!
# Endpoints are declared once and listed where they are declared

The one file of an API is made of endpoints in four ways: those that fetch and those that do not are
declared apart, and each kind has a table of its own, by path.  Still the file declares every
endpoint once, and lists the name that it binds once, in the table of its kind and under its path
(`WholeWired`).  In many files each route has one, which declares each of its endpoints once, with
the same text behind the name (`RouteWired`).

What a file says is read off its text (`statements?`).  The line that names the route of a route
file is a comment as long as the path holds no end of a line; what stands below is read alike
whatever the path is.
-/

namespace EndpointBindings.Source

open TypeScript
open Validator (Expr)

/-! ## Endpoints and their values -/

/-- The endpoints of an API with their paths, in the order of its routes. -/
def entries (api : Api) : List (String × Endpoint) :=
  api.routes.flatMap fun route => route.2.map fun entry => (route.1, entry.2)

/-- The endpoints that fetch, or those that do not. -/
def entriesOfKind (api : Api) (fetches : Bool) : List (String × Endpoint) :=
  (entries api).filter (·.2.verb.isFetch = fetches)

/-- Some endpoint of a route fetches, or some does not. -/
def hasKind (fetches : Bool) (route : String × Endpoints) : Bool :=
  route.2.any (·.2.verb.isFetch = fetches)

/-- The names of a route's endpoints of a kind. -/
def namesOfKind (fetches : Bool) (route : String × Endpoints) : List String :=
  (route.2.filter (·.2.verb.isFetch = fetches)).map (·.2.name route.1)

/-- The paths with endpoints of a kind, each with the names of these endpoints. -/
def groups (api : Api) (fetches : Bool) : List (String × List String) :=
  (api.routes.filter (hasKind fetches)).map fun route => (route.1, namesOfKind fetches route)

/-- The members of an endpoint behind its response. -/
def membersOf (known : List String) (e : Endpoint) : List (String × Expr) :=
  (e.body.toList.map fun n => ("body", validatorOf known n)) ++
    e.queryNode.toList.map fun n => ("query", validatorOf known n)

/-- What the name of an endpoint is given to. -/
def valueOf (known : List String) (e : Endpoint) : Value :=
  .endpoint e.verb.text (e.response.map (validatorOf known)) (membersOf known e)

/-- The text behind the name of an endpoint, wherever it is declared. -/
def assignedText (known : List String) (e : Endpoint) : String := endpointDeclaration known "" e

/-! ## What files say -/

/-- The validators of the components. -/
def schemaStatements (api : Api) : List Statement :=
  api.schemas.map fun schema =>
    .declared true (schemaIdent schema.1) (.validator (validatorOf api.known schema.2))

/-- An endpoint under its name. -/
def namedStatement (known : List String) (e : String × Endpoint) : Statement :=
  .declared false (e.2.name e.1) (valueOf known e.2)

/-- An endpoint under its verb. -/
def exportedStatement (known : List String) (entry : Verb × Endpoint) : Statement :=
  .declared true entry.2.verb.text (valueOf known entry.2)

def wholeStatements (api : Api) (clientModule : String) : List Statement :=
  [.taken ["createApi", "createApiEndpoint"] clientModule, .taken ["z"] "zod"] ++
    schemaStatements api ++
    (entriesOfKind api true).map (namedStatement api.known) ++
    (entriesOfKind api false).map (namedStatement api.known) ++
    [.declared true "fetchEndpoints" (.table (groups api true)),
      .declared true "mutateEndpoints" (.table (groups api false)),
      .declared true "api" (.client api.baseUrl "fetchEndpoints" "mutateEndpoints")]

def schemasStatements (api : Api) : List Statement := .taken ["z"] "zod" :: schemaStatements api

def routeStatements (api : Api) (clientModule : String) (es : Endpoints) : List Statement :=
  [.taken ["createApiEndpoint"] clientModule, .taken ["z"] "zod"] ++
    (if (importsOf api.known es).isEmpty then [] else
      [.taken (importsOf api.known es) "./schemas"]) ++
    es.map (exportedStatement api.known)

/-! ### Read off the plan -/

theorem value_of (known : List String) (path : String) (entry : Verb × Endpoint) :
    (EndpointPlan.of known path entry).value = valueOf known entry.2 := by
  simp [EndpointPlan.value, EndpointPlan.of, valueOf, membersOf, Option.toList_map,
    Function.comp_def]

theorem says_schemas (api : Api) :
    Says ((Plan.of api).schemas.flatMap schemaPieces) (schemaStatements api) := by
  have hschema : ∀ schema : String × Node,
      Says (schemaPieces (schemaIdent schema.1, validatorOf api.known schema.2))
        [.declared true (schemaIdent schema.1) (.validator (validatorOf api.known schema.2))] :=
    fun _ => says_schema _
  rw [Plan.of, List.flatMap_map]
  exact Says.flatMap hschema api.schemas

theorem entriesOfKind_eq (api : Api) (fetches : Bool) :
    entriesOfKind api fetches = api.routes.flatMap fun route =>
      (route.2.filter (·.2.verb.isFetch = fetches)).map fun entry => (route.1, entry.2) := by
  rw [entriesOfKind, entries, List.filter_flatMap]
  simp only [List.filter_map, Function.comp_def]

theorem says_declarations (api : Api) (fetches : Bool) :
    Says ((Plan.of api).routes.flatMap fun r => (r.ofKind fetches).flatMap EndpointPlan.named)
      ((entriesOfKind api fetches).map (namedStatement api.known)) := by
  have hroute : ∀ route : String × Endpoints,
      Says (((RoutePlan.of api.known route).ofKind fetches).flatMap EndpointPlan.named)
        ((route.2.filter (·.2.verb.isFetch = fetches)).map fun entry =>
          namedStatement api.known (route.1, entry.2)) := by
    intro route
    rw [ofKind_of, List.flatMap_map]
    refine Says.flatMap (fun entry => ?_) _
    rw [namedStatement, ← value_of api.known route.1 entry]
    exact says_named _
  rw [Plan.of, List.flatMap_map, entriesOfKind_eq, List.map_flatMap]
  induction api.routes with
  | nil => exact says_nil
  | cons route routes ih =>
      rw [List.flatMap_cons, List.flatMap_cons, List.map_map]
      exact (hroute route).append ih

theorem group?_of (known : List String) (fetches : Bool) (route : String × Endpoints) :
    (RoutePlan.of known route).group? fetches =
      if hasKind fetches route then some (route.1, namesOfKind fetches route) else none := by
  rw [RoutePlan.group?, ofKind_of, namesOfKind]
  cases hkind : route.2.filter (·.2.verb.isFetch = fetches) with
  | nil =>
      rw [List.filter_eq_nil_iff] at hkind
      rw [if_neg (by simpa [hasKind] using hkind)]
      rfl
  | cons entry entries =>
      have hmem : entry ∈ route.2.filter (·.2.verb.isFetch = fetches) :=
        hkind ▸ List.mem_cons_self
      have hsome : hasKind fetches route = true :=
        List.any_eq_true.2 ⟨entry, List.mem_filter.1 hmem⟩
      rw [if_pos hsome]
      simp [RoutePlan.of, EndpointPlan.of]

theorem groups_of (api : Api) (fetches : Bool) :
    (Plan.of api).routes.filterMap (RoutePlan.group? fetches) = groups api fetches := by
  rw [Plan.of, List.filterMap_map, groups]
  induction api.routes with
  | nil => rfl
  | cons route routes ih =>
      rw [List.filterMap_cons, Function.comp_apply, group?_of]
      by_cases h : hasKind fetches route
      · rw [if_pos h, List.filter_cons_of_pos h, List.map_cons, ← ih]
      · rw [if_neg h, List.filter_cons_of_neg h, ← ih]

theorem says_whole (api : Api) (clientModule : String) :
    Says ((Plan.of api).singleFile clientModule) (wholeStatements api clientModule) := by
  have himports := ((says_comment (rfl : banner.token = .comment _)).append
    (says_fixedImport ["createApi", "createApiEndpoint"] clientModule)).append
    (says_fixedImport ["z"] "zod")
  have hdeclared := ((himports.append (says_schemas api)).append
    (says_declarations api true)).append (says_declarations api false)
  have hfetch := says_table (Plan.of api) "fetchEndpoints" true
  have hmutate := says_table (Plan.of api) "mutateEndpoints" false
  rw [groups_of] at hfetch hmutate
  have hclient : Says (Plan.of api).clientPieces
      [.declared true "api" (.client api.baseUrl "fetchEndpoints" "mutateEndpoints")] :=
    says_client (Plan.of api)
  have h := ((hdeclared.append hfetch).append hmutate).append hclient
  simpa [Plan.singleFile, wholeStatements] using h

theorem says_schemasFile (api : Api) :
    Says (Plan.of api).schemasFile (schemasStatements api) :=
  ((says_comment (rfl : banner.token = .comment _)).append (says_fixedImport ["z"] "zod")).append
    (says_schemas api)

/-- The file of a route, and what stands in it below its comments. -/
theorem says_below (api : Api) (clientModule : String) (route : String × Endpoints)
    {front : List Piece} (hfront : Says front []) :
    Says (front ++ importPieces (fixedNames ["createApiEndpoint"]) clientModule ++
        importPieces (fixedNames ["z"]) "zod" ++
        (if (importsOf api.known route.2).isEmpty then [] else
          importPieces ((importsOf api.known route.2).map .name) "./schemas") ++
        (RoutePlan.of api.known route).endpoints.flatMap EndpointPlan.exported)
      (routeStatements api clientModule route.2) := by
  have himports : Says
      (if (importsOf api.known route.2).isEmpty then [] else
        importPieces ((importsOf api.known route.2).map .name) "./schemas")
      (if (importsOf api.known route.2).isEmpty then [] else
        [.taken (importsOf api.known route.2) "./schemas"]) := by
    split
    · exact says_nil
    · exact says_import _ "./schemas"
  have hexported : ∀ entry : Verb × Endpoint,
      Says (EndpointPlan.of api.known route.1 entry).exported
        [exportedStatement api.known entry] := by
    intro entry
    rw [exportedStatement, ← value_of api.known route.1 entry]
    exact says_exported _
  have hendpoints :
      Says ((RoutePlan.of api.known route).endpoints.flatMap EndpointPlan.exported)
        (route.2.map (exportedStatement api.known)) := by
    rw [RoutePlan.of, List.flatMap_map]
    exact Says.flatMap hexported route.2
  exact (((hfront.append (says_fixedImport ["createApiEndpoint"] clientModule)).append
    (says_fixedImport ["z"] "zod")).append himports).append hendpoints

theorem statements?_routeBody (api : Api) (clientModule : String) (route : String × Endpoints) :
    statements? (routeBody api clientModule route.2) =
      some (routeStatements api clientModule route.2) :=
  (says_below api clientModule route says_nil).statements? (shows_routeBody api clientModule route)

theorem statements?_renderRoute (api : Api) (clientModule : String) {route : String × Endpoints}
    (h : OneLine route.1) :
    statements? (renderRoute api clientModule route.1 route.2).contents =
      some (routeStatements api clientModule route.2) := by
  have hfront : Says [banner, .route route.1] [] :=
    (says_comment (rfl : banner.token = .comment _)).append
      (says_comment (rfl : (Piece.route route.1).token = .comment _))
  exact (says_below api clientModule route hfront).statements?
    (shows_routeFile api clientModule h)

/-! ## Texts -/

theorem endpointDeclaration_append (known : List String) (e : Endpoint) {binding : String}
    (hline : '\n' ∉ binding.toList) :
    endpointDeclaration known binding e = binding ++ assignedText known e := by
  rw [assignedText, endpointDeclaration_eq known e hline, endpointDeclaration_eq known e (by simp),
    String.empty_append]

/-- The declarations of one kind are the bindings of its endpoints with what they bind. -/
theorem declarations_eq (api : Api) (fetches : Bool) :
    api.declarations fetches = (entriesOfKind api fetches).map fun e =>
      "const " ++ e.2.name e.1 ++ assignedText api.known e.2 := by
  rw [Api.declarations, entriesOfKind_eq, List.map_flatMap]
  refine congrArg (List.flatMap · api.routes) (funext fun route => ?_)
  obtain ⟨path, es⟩ := route
  dsimp only
  rw [ofKind_eq, List.map_map, List.map_map]
  refine List.map_congr_left fun entry _ => ?_
  exact endpointDeclaration_append api.known entry.2 (lineEnd_not_mem_named path entry.2)

theorem routeBody_eq (api : Api) (clientModule : String) (es : Endpoints) :
    ∃ front, routeBody api clientModule es = front ++ spaced (es.map fun entry =>
      "export const " ++ entry.2.verb.text ++ assignedText api.known entry.2) := by
  refine ⟨_, congrArg (_ ++ spaced ·) (List.map_congr_left fun entry _ => ?_)⟩
  exact endpointDeclaration_append api.known entry.2 (lineEnd_not_mem_exported entry.2.verb)

/-! ## Counts -/

theorem flatMap_groups (api : Api) (fetches : Bool) :
    (groups api fetches).flatMap (·.2) = (entriesOfKind api fetches).map fun e => e.2.name e.1 := by
  rw [groups, entriesOfKind_eq, List.flatMap_map, List.map_flatMap]
  induction api.routes with
  | nil => rfl
  | cons route routes ih =>
      have hnames : ((route.2.filter (·.2.verb.isFetch = fetches)).map fun entry =>
          (route.1, entry.2)).map (fun e => e.2.name e.1) = namesOfKind fetches route := by
        rw [namesOfKind, List.map_map]
        rfl
      rw [List.flatMap_cons, hnames, ← ih]
      by_cases h : hasKind fetches route
      · rw [List.filter_cons_of_pos h, List.flatMap_cons]
      · have hnone : namesOfKind fetches route = [] := by
          rw [namesOfKind, List.map_eq_nil_iff, List.filter_eq_nil_iff]
          simpa [hasKind] using h
        rw [List.filter_cons_of_neg h, hnone, List.nil_append]

/-- Every endpoint is of one kind. -/
theorem length_entriesOfKind (api : Api) :
    (entriesOfKind api true).length + (entriesOfKind api false).length = api.endpointCount := by
  have hentries : (entries api).length = api.endpointCount := by
    rw [entries, List.length_flatMap, Api.endpointCount_eq]
    simp only [List.length_map]
  have hother : entriesOfKind api false =
      (entries api).filter fun e => !decide (e.2.verb.isFetch = true) := by
    refine List.filter_congr fun e _ => ?_
    cases e.2.verb.isFetch <;> rfl
  rw [hother, ← hentries]
  exact (List.length_eq_length_filter_add _).symm

/-- A table has a path when some endpoint of its kind is under it. -/
theorem mem_groups_iff {api : Api} {fetches : Bool} {path : String} :
    path ∈ (groups api fetches).map (·.1) ↔ ∃ e ∈ entriesOfKind api fetches, e.1 = path := by
  have hroute : ∀ route : String × Endpoints, hasKind fetches route = true ↔
      ∃ entry ∈ route.2, entry.2.verb.isFetch = fetches := by
    intro route
    simp [hasKind]
  rw [groups, entriesOfKind_eq]
  simp only [List.map_map, List.mem_map, List.mem_filter, hroute, List.mem_flatMap,
    decide_eq_true_eq, Function.comp_apply]
  constructor
  · rintro ⟨route, ⟨hmem, entry, hentry, hkind⟩, rfl⟩
    exact ⟨(route.1, entry.2), ⟨route, hmem, entry, ⟨hentry, hkind⟩, rfl⟩, rfl⟩
  · rintro ⟨_, ⟨route, hmem, entry, ⟨hentry, hkind⟩, rfl⟩, rfl⟩
    exact ⟨route, ⟨hmem, entry, hentry, hkind⟩, rfl⟩

theorem groups_sublist (api : Api) (fetches : Bool) :
    ((groups api fetches).map (·.1)).Sublist (api.routes.map (·.1)) := by
  rw [groups, List.map_map]
  exact (List.filter_sublist (p := hasKind fetches)).map (·.1)

/-- The names that the one file gives to endpoints. -/
theorem bound_wholeStatements (api : Api) (clientModule : String) :
    (wholeStatements api clientModule).filterMap Statement.bound? =
      (entriesOfKind api true).map (fun e => e.2.name e.1) ++
        (entriesOfKind api false).map (fun e => e.2.name e.1) := by
  have hschemas : (schemaStatements api).filterMap Statement.bound? = [] := by
    rw [schemaStatements, List.filterMap_map, List.filterMap_eq_nil_iff]
    exact fun _ _ => rfl
  have hnamed : ∀ es : List (String × Endpoint),
      (es.map (namedStatement api.known)).filterMap Statement.bound? =
        es.map fun e => e.2.name e.1 := by
    intro es
    rw [List.filterMap_map, ← List.filterMap_eq_map]
    rfl
  simp [wholeStatements, List.filterMap_cons, List.filterMap_append, hschemas, hnamed,
    Statement.bound?]

theorem listed_wholeStatements (api : Api) (clientModule : String) :
    (wholeStatements api clientModule).flatMap Statement.listed =
      (groups api true).flatMap (·.2) ++ (groups api false).flatMap (·.2) := by
  have hschemas : (schemaStatements api).flatMap Statement.listed = [] := by
    rw [schemaStatements, List.flatMap_map, List.flatMap_eq_nil_iff]
    exact fun _ _ => rfl
  have hnamed : ∀ es : List (String × Endpoint),
      (es.map (namedStatement api.known)).flatMap Statement.listed = [] := by
    intro es
    rw [List.flatMap_map, List.flatMap_eq_nil_iff]
    exact fun _ _ => rfl
  simp [wholeStatements, hschemas, hnamed, Statement.listed]

theorem exported_routeStatements (api : Api) (clientModule : String) (es : Endpoints) :
    (routeStatements api clientModule es).filterMap Statement.exported? =
      es.map (·.2.verb.text) := by
  have hexported : (es.map (exportedStatement api.known)).filterMap Statement.exported? =
      es.map (·.2.verb.text) := by
    rw [List.filterMap_map, ← List.filterMap_eq_map]
    rfl
  rw [routeStatements, List.filterMap_append, hexported]
  split <;> rfl

theorem verbText_injective : Function.Injective Verb.text := by
  intro verb other h
  have hkey : ∀ verb : Verb, Verb.ofKey? verb.text = some verb := by
    intro verb
    cases verb <;> decide
  exact Option.some.inj ((hkey verb).symm.trans ((congrArg Verb.ofKey? h).trans (hkey other)))

/-! ## The theorem -/

/-- The one file of an API: what it says, that its tables list the names that it gives to endpoints,
each once and under its path, and the texts of its declarations. -/
structure WholeWired (api : Api) (clientModule : String) (file : SourceFile) : Prop where
  path : file.path = "endpoints.ts"
  read : statements? file.contents = some (wholeStatements api clientModule)
  bound : ((wholeStatements api clientModule).filterMap Statement.bound?).length =
    api.endpointCount
  listed : (wholeStatements api clientModule).flatMap Statement.listed =
    (wholeStatements api clientModule).filterMap Statement.bound?
  names : ∀ fetches, (groups api fetches).flatMap (·.2) =
    (entriesOfKind api fetches).map fun e => e.2.name e.1
  keys : ∀ fetches, ((groups api fetches).map (·.1)).Sublist (api.routes.map (·.1)) ∧
    ∀ path, path ∈ (groups api fetches).map (·.1) ↔ ∃ e ∈ entriesOfKind api fetches, e.1 = path
  texts : ∃ front back, file.contents = front ++
    spaced ((entriesOfKind api true ++ entriesOfKind api false).map fun e =>
      "const " ++ e.2.name e.1 ++ assignedText api.known e.2) ++ back

/-- The file of a route: what it says when its path can stand in a comment, what stands below the
comments whatever the path is, and the texts of its declarations. -/
structure RouteWired (api : Api) (clientModule : String) (route : String × Endpoints)
    (file : SourceFile) : Prop where
  path : file.path = routeFileStem route.1 ++ ".ts"
  read : OneLine route.1 →
    statements? file.contents = some (routeStatements api clientModule route.2)
  below : ∃ body, file.contents =
      EndpointBindings.banner ++ ("// Route: " ++ route.1 ++ "\n") ++ body ∧
    statements? body = some (routeStatements api clientModule route.2) ∧
    ∃ front, body = front ++ spaced (route.2.map fun entry =>
      "export const " ++ entry.2.verb.text ++ assignedText api.known entry.2)
  exported : (routeStatements api clientModule route.2).filterMap Statement.exported? =
    route.2.map (·.2.verb.text)
  once : (route.2.map (·.2.verb)).Nodup →
    ((routeStatements api clientModule route.2).filterMap Statement.exported?).Nodup

theorem wholeWired (api : Api) (clientModule : String) :
    WholeWired api clientModule (renderSingleFile api clientModule) where
  path := rfl
  read := (says_whole api clientModule).statements? (shows_singleFile api clientModule)
  bound := by
    rw [bound_wholeStatements, List.length_append, List.length_map, List.length_map,
      length_entriesOfKind]
  listed := by
    rw [listed_wholeStatements, bound_wholeStatements, flatMap_groups, flatMap_groups]
  names := flatMap_groups api
  keys fetches := ⟨groups_sublist api fetches, fun _ => mem_groups_iff⟩
  texts := by
    refine ⟨EndpointBindings.banner ++ importLine ["createApi", "createApiEndpoint"] clientModule ++
      importLine ["z"] "zod" ++ spaced api.schemaDeclarations,
      api.endpointMap "fetchEndpoints" true ++ api.endpointMap "mutateEndpoints" false ++
        api.client, ?_⟩
    rw [List.map_append, ← declarations_eq, ← declarations_eq, spaced_append, renderSingleFile]
    simp only [String.append_assoc]

theorem routeWired (api : Api) (clientModule : String) (route : String × Endpoints) :
    RouteWired api clientModule route (renderRoute api clientModule route.1 route.2) where
  path := rfl
  read := statements?_renderRoute api clientModule
  below := ⟨routeBody api clientModule route.2,
    renderRoute_contents api clientModule route.1 route.2,
    statements?_routeBody api clientModule route, routeBody_eq api clientModule route.2⟩
  exported := exported_routeStatements api clientModule route.2
  once h := by
    have htexts := h.map verbText_injective
    rw [List.map_map] at htexts
    rw [exported_routeStatements]
    exact htexts

/-- **Every endpoint is declared once and listed where it is declared.**  The one file of an API
declares the validators of its components, its endpoints that fetch, those that do not, their tables
and the client.  In many files each route has one, in the order of the routes, which exports its
endpoints under their verbs, with the text that the one file has behind their names. -/
theorem endpoints_wired (api : Api) (clientModule : String) :
    ∃ whole schemas files,
      render api { mode := .singleFile, clientModule } = [whole] ∧
      WholeWired api clientModule whole ∧
      render api { mode := .fileBased, clientModule } = schemas :: files ∧
      schemas.path = "schemas.ts" ∧
      statements? schemas.contents = some (schemasStatements api) ∧
      List.Forall₂ (RouteWired api clientModule) api.routes files := by
  refine ⟨_, _, _, rfl, wholeWired api clientModule, rfl, rfl,
    (says_schemasFile api).statements? (shows_schemasFile api), ?_⟩
  rw [List.forall₂_map_right_iff, List.forall₂_same]
  rintro ⟨path, es⟩ -
  exact routeWired api clientModule (path, es)

/-! ### Notes -/

def noteRef : Node := .ref "#/components/schemas/Note"

/-- Notes that can be listed, added and removed, and a path without endpoints. -/
def noteBook : Api where
  baseUrl := "/v1"
  schemas := [("Note", .ofKind (.string {}))]
  routes := [
    ("/notes", [
      (.get, { verb := .get, response := some (.ofKind (.array (some noteRef))) }),
      (.post, { verb := .post, body := some noteRef })]),
    ("/archive", []),
    ("/notes/[id]", [(.delete, { verb := .delete })])]

theorem noteBook_wired :
    OneLine "/notes" ∧
    ∃ whole schemas notes archive note,
      render noteBook { mode := .singleFile } = [whole] ∧
      statements? whole.contents = some [
        .taken ["createApi", "createApiEndpoint"] "./createApi",
        .taken ["z"] "zod",
        .declared true "NoteSchema" (.validator (.plain .string)),
        .declared false "GET_notes" (.endpoint "GET" (some (.array (.lazy "NoteSchema"))) []),
        .declared false "POST_notes" (.endpoint "POST" none [("body", .lazy "NoteSchema")]),
        .declared false "DELETE_notes_id" (.endpoint "DELETE" none []),
        .declared true "fetchEndpoints" (.table [("/notes", ["GET_notes"])]),
        .declared true "mutateEndpoints"
          (.table [("/notes", ["POST_notes"]), ("/notes/[id]", ["DELETE_notes_id"])]),
        .declared true "api" (.client "/v1" "fetchEndpoints" "mutateEndpoints")] ∧
      render noteBook { mode := .fileBased } = [schemas, notes, archive, note] ∧
      notes.path = "notes.ts" ∧
      statements? notes.contents = some [
        .taken ["createApiEndpoint"] "./createApi",
        .taken ["z"] "zod",
        .taken ["NoteSchema"] "./schemas",
        .declared true "GET" (.endpoint "GET" (some (.array (.lazy "NoteSchema"))) []),
        .declared true "POST" (.endpoint "POST" none [("body", .lazy "NoteSchema")])] := by
  have hline : OneLine "/notes" := by decide
  obtain ⟨whole, schemas, _, hsingle, hwhole, hmany, -, -, hfiles⟩ :=
    endpoints_wired noteBook "./createApi"
  obtain ⟨notes, _, hnotes, hrest, rfl⟩ := List.forall₂_cons_left_iff.1 hfiles
  obtain ⟨archive, _, -, hrest', rfl⟩ := List.forall₂_cons_left_iff.1 hrest
  obtain ⟨note, _, -, hnil, rfl⟩ := List.forall₂_cons_left_iff.1 hrest'
  cases hnil
  exact ⟨hline, whole, schemas, notes, archive, note, hsingle, hwhole.read, hmany, hnotes.path,
    hnotes.read hline⟩

/-! ### A path that goes on with a declaration -/

/-- A route whose path ends its comment and gives a name on the next line. -/
def overridingRoute : String × Endpoints :=
  ("/a\nexport const GET = z.null();", [(.get, { verb := .get })])

def overridden : Api := { routes := [overridingRoute] }

/-- What the second line of the path is read as. -/
def overridingPieces : List Piece :=
  code [.name "export", .name "const", .name "GET"] ++ [assign] ++ exprPieces (.plain .null) ++
    [semicolon]

/-- The one verb of the route is exported twice. -/
theorem verb_exported_twice :
    overridden.endpointCount = 1 ∧
    ∃ schemas file, render overridden { mode := .fileBased } = [schemas, file] ∧
      ∃ ss, statements? file.contents = some ss ∧
        ss.filterMap Statement.exported? = ["GET", "GET"] := by
  have hcut : OneLine "/a" := by decide
  have hline : Shows "export const GET = z.null();\n" overridingPieces := rfl
  have hcontents : (renderRoute overridden "./createApi" overridingRoute.1
      overridingRoute.2).contents =
      EndpointBindings.banner ++ ("// Route: " ++ "/a" ++ "\n") ++
        "export const GET = z.null();\n" ++
        routeBody overridden "./createApi" overridingRoute.2 := by
    rw [renderRoute_contents]
    rfl
  have hshows := ((shows_banner.append (shows_route hcut)).append hline).append
    (shows_routeBody overridden "./createApi" overridingRoute)
  rw [← hcontents] at hshows
  have hcomments : Says ([banner] ++ [.route "/a"]) [] :=
    (says_comment (rfl : banner.token = .comment _)).append
      (says_comment (rfl : (Piece.route "/a").token = .comment _))
  have hdeclared : Says overridingPieces [.declared true "GET" (.validator (.plain .null))] :=
    says_statement rfl
  have hsays := (hcomments.append hdeclared).append
    (says_below overridden "./createApi" overridingRoute says_nil)
  refine ⟨rfl, _, _, rfl, _, hsays.statements? hshows, ?_⟩
  rw [List.filterMap_append, exported_routeStatements]
  rfl

end EndpointBindings.Source
