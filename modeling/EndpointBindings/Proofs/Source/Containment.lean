import EndpointBindings.Proofs.Source.Declarations
import EndpointBindings.Proofs.Source.Names

/-!
# Texts stay in their places

Every file of an API is lexed into the tokens of its template (`texts_contained`): a text of the
document is decoded from one literal, or is one key or one name, and none of it gets outside.  There
is one exception.  The line that names the route of a route file is a comment in which the path is
written as it is, and a path that holds the end of a line ends the comment.  So this holds of a file
for each route exactly when no path holds one.
-/

namespace EndpointBindings.Source

open TypeScript Validator

/-! ## Parts of files -/

/-- A line of its own that is a comment. -/
theorem shows_comment {text : String} (h : OneLine text) :
    Shows ("//" ++ text ++ "\n") [.fixed (.comment text)] := by
  have hreads := reads_comment h (rfl : isLineEnd '\n' = true)
  simpa [Shows, Piece.token] using hreads

theorem shows_banner : Shows EndpointBindings.banner [banner] := by
  have htext : OneLine " Generated by apity. Do not edit by hand." := by decide
  have hline : EndpointBindings.banner =
      "//" ++ " Generated by apity. Do not edit by hand." ++ "\n" := by decide
  rw [hline]
  exact shows_comment htext

/-- A text that a comment can hold makes a comment that names it as a route. -/
theorem oneLine_route {path : String} (h : OneLine path) : OneLine (" Route: " ++ path) :=
  oneLine_append.2 ⟨by decide, h⟩

/-- The line that names a route, when the path can stand in it. -/
theorem shows_route {path : String} (h : OneLine path) :
    Shows ("// Route: " ++ path ++ "\n") [.route path] := by
  have htext : "// Route: " ++ path ++ "\n" = "//" ++ (" Route: " ++ path) ++ "\n" := by
    rw [← String.append_assoc]
    rfl
  rw [htext]
  exact (shows_comment (oneLine_route h)).congr rfl

theorem shows_zod : Shows (importLine ["z"] "zod") (importPieces (fixedNames ["z"]) "zod") :=
  shows_fixedImport (by simp) (by decide) "zod"

theorem shows_schemas (api : Api) :
    Shows (spaced api.schemaDeclarations) ((Plan.of api).schemas.flatMap schemaPieces) := by
  have h := shows_spaced fun schema (_ : schema ∈ api.schemas) => shows_schema api.known schema
  rw [Plan.of, List.flatMap_map]
  exact h

/-- The endpoints of one kind, under their names. -/
theorem shows_declarations (api : Api) (fetches : Bool) :
    Shows (spaced (api.declarations fetches))
      ((Plan.of api).routes.flatMap fun r => (r.ofKind fetches).flatMap EndpointPlan.named) := by
  have hroute : ∀ route : String × Endpoints, Shows
      (spaced ((ofKind fetches route.2).map fun e =>
        endpointDeclaration api.known ("const " ++ e.name route.1) e))
      (((RoutePlan.of api.known route).ofKind fetches).flatMap EndpointPlan.named) := by
    intro route
    rw [ofKind_eq, ofKind_of, List.map_map, List.flatMap_map]
    exact shows_spaced fun entry _ => shows_named api.known route.1 entry
  rw [Plan.of, List.flatMap_map, Api.declarations]
  generalize api.routes = routes
  induction routes with
  | nil => exact shows_nil
  | cons route routes ih =>
      rw [List.flatMap_cons, List.flatMap_cons, spaced_append]
      exact (hroute route).append ih

/-- A table of one kind of endpoints. -/
theorem shows_table (api : Api) {binding : String} (hbinding : isIdentifier binding = true)
    (fetches : Bool) :
    Shows (api.endpointMap binding fetches) ((Plan.of api).tablePieces binding fetches) := by
  have hgroups : Shows
      (String.join (api.routes.map fun route => groupLine fetches route.1 route.2))
      ((Plan.of api).routes.flatMap (groupPieces fetches)) := by
    rw [Plan.of, List.flatMap_map]
    generalize api.routes = routes
    induction routes with
    | nil => exact shows_nil
    | cons route routes ih =>
        rw [List.map_cons, String.join_cons, List.flatMap_cons]
        exact (shows_group api.known fetches route).append ih
  have hexport : Shows "\nexport const " (code [.name "export", .name "const"]) := rfl
  have hassign : Shows "= \x7b" ([assign] ++ code [.opening .curly]) := rfl
  have hclosing : Shows "\n\x7d as const;\n"
      (code [.closing .curly, .name "as", .name "const"] ++ [semicolon]) := rfl
  have htext : api.endpointMap binding fetches =
      "\nexport const " ++ (binding ++ " ") ++ "= \x7b" ++
        String.join (api.routes.map fun route => groupLine fetches route.1 route.2) ++
        "\n\x7d as const;\n" := by
    unfold Api.endpointMap
    simp only [String.append_assoc]
    rfl
  rw [htext]
  refine ((((hexport.append (shows_name_blank hbinding)).append hassign).append hgroups).append
    hclosing).congr ?_
  simp [Plan.tablePieces, Piece.token]

theorem shows_client (api : Api) : Shows api.client (Plan.of api).clientPieces := by
  have hexport : Shows "\nexport const api = "
      (code [.name "export", .name "const", .name "api"] ++ [assign]) := rfl
  have hcall : Shows "createApi(\x7b\n"
      (code [.name "createApi", .opening .round, .opening .curly]) := rfl
  have hbaseUrl : Shows "  baseUrl: " (code [.name "baseUrl", .colon]) := rfl
  have hcomma : Shows ",\n" (code [.comma]) := rfl
  have hfetch : Shows "  fetchEndpoints,\n" (code [.name "fetchEndpoints", .comma]) := rfl
  have hmutate : Shows "  mutateEndpoints,\n" (code [.name "mutateEndpoints", .comma]) := rfl
  have hclosing : Shows "\x7d);\n" (code [.closing .curly, .closing .round] ++ [semicolon]) := rfl
  have htext : api.client = "\nexport const api = " ++ "createApi(\x7b\n" ++ "  baseUrl: " ++
      literal api.baseUrl ++ ",\n" ++ "  fetchEndpoints,\n" ++ "  mutateEndpoints,\n" ++
      "\x7d);\n" := by
    unfold Api.client
    simp only [String.append_assoc]
    rfl
  rw [htext]
  exact ((((((hexport.append hcall).append hbaseUrl).append (shows_literal api.baseUrl)).append
    hcomma).append hfetch).append hmutate).append hclosing

/-! ## Files -/

theorem shows_singleFile (api : Api) (clientModule : String) :
    Shows (renderSingleFile api clientModule).contents ((Plan.of api).singleFile clientModule) := by
  have hcreate : Shows (importLine ["createApi", "createApiEndpoint"] clientModule)
      (importPieces (fixedNames ["createApi", "createApiEndpoint"]) clientModule) :=
    shows_fixedImport (by simp) (by decide) clientModule
  have hfetch := shows_table api (by decide : isIdentifier "fetchEndpoints" = true) true
  have hmutate := shows_table api (by decide : isIdentifier "mutateEndpoints" = true) false
  exact (((((((shows_banner.append hcreate).append shows_zod).append (shows_schemas api)).append
    (shows_declarations api true)).append (shows_declarations api false)).append hfetch).append
    hmutate).append (shows_client api)

theorem shows_schemasFile (api : Api) :
    Shows (renderSchemas api).contents (Plan.of api).schemasFile :=
  (shows_banner.append shows_zod).append (shows_schemas api)

/-- What stands in the file of a route below the line that names it. -/
def routeBody (api : Api) (clientModule : String) (es : Endpoints) : String :=
  importLine ["createApiEndpoint"] clientModule ++ importLine ["z"] "zod" ++
    (if (importsOf api.known es).isEmpty then "" else
      importLine (importsOf api.known es) "./schemas") ++
    spaced (es.map fun (_, e) => endpointDeclaration api.known ("export const " ++ e.verb.text) e)

theorem renderRoute_contents (api : Api) (clientModule path : String) (es : Endpoints) :
    (renderRoute api clientModule path es).contents =
      EndpointBindings.banner ++ ("// Route: " ++ path ++ "\n") ++
        routeBody api clientModule es := by
  unfold renderRoute routeBody
  simp only [String.append_assoc]

theorem shows_routeBody (api : Api) (clientModule : String) (route : String × Endpoints) :
    Shows (routeBody api clientModule route.2)
      (importPieces (fixedNames ["createApiEndpoint"]) clientModule ++
        importPieces (fixedNames ["z"]) "zod" ++
        (if (importsOf api.known route.2).isEmpty then [] else
          importPieces ((importsOf api.known route.2).map .name) "./schemas") ++
        (RoutePlan.of api.known route).endpoints.flatMap EndpointPlan.exported) := by
  have hcreate : Shows (importLine ["createApiEndpoint"] clientModule)
      (importPieces (fixedNames ["createApiEndpoint"]) clientModule) :=
    shows_fixedImport (by simp) (by decide) clientModule
  have himports : Shows
      (if (importsOf api.known route.2).isEmpty then "" else
        importLine (importsOf api.known route.2) "./schemas")
      (if (importsOf api.known route.2).isEmpty then [] else
        importPieces ((importsOf api.known route.2).map .name) "./schemas") := by
    split
    · exact shows_nil
    · next hne =>
        refine shows_importLine (fun h => hne (by rw [h]; rfl)) ?_ "./schemas"
        intro ident hident
        obtain ⟨component, rfl⟩ := exists_schemaIdent_of_mem_importsOf hident
        exact isIdentifier_schemaIdent component
  have hendpoints : Shows
      (spaced (route.2.map fun (_, e) =>
        endpointDeclaration api.known ("export const " ++ e.verb.text) e))
      ((RoutePlan.of api.known route).endpoints.flatMap EndpointPlan.exported) := by
    rw [RoutePlan.of, List.flatMap_map]
    exact shows_spaced fun entry _ => shows_exported api.known route.1 entry
  exact ((hcreate.append shows_zod).append himports).append hendpoints

/-- A path that a comment can hold stays in the line that names the route. -/
theorem shows_routeFile (api : Api) (clientModule : String) {route : String × Endpoints}
    (h : OneLine route.1) :
    Shows (renderRoute api clientModule route.1 route.2).contents
      ((RoutePlan.of api.known route).file clientModule) := by
  rw [renderRoute_contents]
  refine ((shows_banner.append (shows_route h)).append
    (shows_routeBody api clientModule route)).congr ?_
  simp only [RoutePlan.file, RoutePlan.of, List.append_assoc]
  rfl

/-! ## The line that names a route -/

/-- A text that ends a comment, up to the character that does. -/
theorem exists_lineEnd {text : String} (h : ¬ OneLine text) :
    ∃ front c back, text.toList = front ++ c :: back ∧ isLineEnd c = true ∧
      ∀ d ∈ front, isLineEnd d = false := by
  unfold OneLine at h
  generalize text.toList = cs at h
  induction cs with
  | nil => exact absurd (by simp) h
  | cons c cs ih =>
      by_cases hc : isLineEnd c = true
      · exact ⟨[], c, cs, rfl, hc, by simp⟩
      · have hcs : ¬ ∀ d ∈ cs, isLineEnd d = false := fun hcs =>
          h (List.forall_mem_cons.2 ⟨Bool.eq_false_iff.2 hc, hcs⟩)
        obtain ⟨front, d, back, he, hd, hfront⟩ := ih hcs
        exact ⟨c :: front, d, back, by rw [he]; rfl, hd,
          List.forall_mem_cons.2 ⟨Bool.eq_false_iff.2 hc, hfront⟩⟩

/-- A path that ends the comment is not in it as a whole. -/
theorem oneLine_of_lex (api : Api) (clientModule : String) {route : String × Endpoints}
    (h : lex (renderRoute api clientModule route.1 route.2).contents =
      some (((RoutePlan.of api.known route).file clientModule).map Piece.token)) :
    OneLine route.1 := by
  by_contra hpath
  obtain ⟨front, c, back, hsplit, hc, hfront⟩ := exists_lineEnd hpath
  have hcut : OneLine (String.ofList front) := by
    rw [OneLine, String.toList_ofList]
    exact hfront
  have hbanner : Reads EndpointBindings.banner.toList [banner.token] := shows_banner
  have hread := hbanner.append (reads_comment (oneLine_route hcut) hc)
  -- The comment ends inside of the path, and what is left of the path follows as code.
  have hcontents : (renderRoute api clientModule route.1 route.2).contents = String.ofList
      (EndpointBindings.banner.toList ++
        '/' :: '/' :: ((" Route: " ++ String.ofList front).toList ++ [c]) ++
        (back ++ '\n' :: (routeBody api clientModule route.2).toList)) := by
    rw [renderRoute_contents, ← String.toList_inj]
    simp [hsplit]
  rw [hcontents] at h
  obtain ⟨rest, hrest⟩ := hread.lex_append h
  have hcomments : Token.comment (" Route: " ++ route.1) =
      .comment (" Route: " ++ String.ofList front) := by
    have hsecond := congrArg (fun ts : List Token => ts[1]?) hrest
    exact Option.some.inj hsecond
  have htexts := congrArg (String.toList ·) (Token.comment.inj hcomments)
  simp [hsplit] at htexts

/-! ## The theorem -/

theorem lex_routeFile (api : Api) (clientModule : String) (route : String × Endpoints) :
    lex (renderRoute api clientModule route.1 route.2).contents =
        some (((RoutePlan.of api.known route).file clientModule).map Piece.token) ↔
      OneLine route.1 :=
  ⟨oneLine_of_lex api clientModule, fun h => (shows_routeFile api clientModule h).lex⟩

/-- **Every file is lexed into the tokens of its template**, except for a route whose path holds the
end of a line; names in templates are made from texts, and what a template has beside the texts is
the template of the shape alone. -/
theorem texts_contained (api : Api) (options : Options) :
    ((render api options).map (fun file => lex file.contents) =
        ((Plan.of api).templates options).map (fun ps => some (ps.map Piece.token)) ↔
      (options.mode = .fileBased → ∀ route ∈ api.routes, OneLine route.1)) ∧
    (∀ ps ∈ (Plan.of api).templates options, Built ps) ∧
    ((Plan.of api).templates options).map (List.map Piece.blank) =
      (Plan.of api).blank.templates options := by
  refine ⟨?_, built_templates api options, ((Plan.of api).templates_blank options).symm⟩
  rw [render, Plan.templates]
  cases options.mode with
  | singleFile =>
      have hfile := (shows_singleFile api options.clientModule).lex
      simp [hfile]
  | fileBased =>
      have hschemas := (shows_schemasFile api).lex
      have hroutes : (Plan.of api).routes = api.routes.map (RoutePlan.of api.known) := rfl
      simp only [List.map_cons, List.map_map, hschemas, hroutes, List.cons.injEq, true_and,
        List.map_inj_left, forall_const, Function.comp_apply]
      refine forall₂_congr ?_
      rintro ⟨path, es⟩ -
      exact lex_routeFile api options.clientModule (path, es)

/-- An API whose one path ends the comment that names it. -/
def forged : Api := { routes := [("/a\nalert(1)", [])] }

/-- The second line of the path is read as code. -/
theorem path_read_as_code :
    (render forged { mode := .fileBased }).map (fun file => lex file.contents) =
      [some ((Plan.of forged).schemasFile.map Piece.token),
        some ([.comment " Generated by apity. Do not edit by hand.", .comment " Route: /a",
            .code (.name "alert"), .code (.opening .round), .code (.numeral 1),
            .code (.closing .round)] ++
          (((RoutePlan.of [] ("/a\nalert(1)", [])).file "./createApi").drop 2).map
            Piece.token)] := by
  have hcut : OneLine "/a" := by decide
  have hcode : Shows "alert(1)\n"
      (code [.name "alert", .opening .round, .numeral 1, .closing .round]) := rfl
  have hbody := shows_routeBody forged "./createApi" ("/a\nalert(1)", [])
  have hcontents : (renderRoute forged "./createApi" "/a\nalert(1)" []).contents =
      EndpointBindings.banner ++ ("// Route: " ++ "/a" ++ "\n") ++ "alert(1)\n" ++
        routeBody forged "./createApi" [] := by
    rw [renderRoute_contents]
    rfl
  have hfile := (((shows_banner.append (shows_route hcut)).append hcode).append hbody).lex
  rw [← hcontents] at hfile
  show [lex (renderSchemas forged).contents,
    lex (renderRoute forged "./createApi" "/a\nalert(1)" []).contents] = _
  rw [(shows_schemasFile forged).lex, hfile]
  rfl

end EndpointBindings.Source
