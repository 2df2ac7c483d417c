import EndpointBindings.Proofs.Document.Sources
import EndpointBindings.Proofs.Source.Wiring
import Mathlib.Data.List.Nodup

/-!
# Names are valid and told apart by their roles

Everything that the one file names is named in one of three ways (`names_wholeStatements`):

| what is named | its name |
| :-- | :-- |
| what every file has: imports, tables, the client | one of `fixedBindings` |
| the validator of a component | a name made from the component's, and `Schema` behind it |
| an endpoint | its verb in capitals, `_`, and what is made from the path and its parameters |

All are names, whatever the document says, and none is a word that the language keeps to itself.  A
fixed name holds no `_` and does not end with `Schema`, so that no component and no endpoint takes
it.  Up to its first `_` the name of an endpoint is its verb (`takeWhile_name`): the verb is a name
already, and making a text into a name leaves alone what is one (`sanitizeList_append`).
-/

namespace EndpointBindings

/-! ## Texts made into names -/

namespace TypeScript

theorem isNameChar_of_isNameStart {c : Char} (h : isNameStart c = true) : isNameChar c = true := by
  simp only [isNameStart, Bool.or_eq_true] at h
  simp only [isNameChar, Char.isAlphanum, Bool.or_eq_true]
  rcases h with (h | h) | h
  · exact .inl (.inl (.inl h))
  · exact .inl (.inr h)
  · exact .inr h

/-- A name stays as it is in front of what is made into a part of it. -/
theorem sanitizeList_append {cs : List Char} (h : isNameList cs = true) (ds : List Char) :
    sanitizeList (cs ++ ds) = cs ++ ds.map fun c => if isNameChar c then c else '_' := by
  cases cs with
  | nil => cases h
  | cons c cs =>
      rw [isNameList, Bool.and_eq_true, List.all_eq_true] at h
      obtain ⟨hc, hcs⟩ := h
      have hdigit : c.isDigit ≠ true := by
        intro hdigit
        rw [Validator.isNameStart_of_isDigit hdigit] at hc
        cases hc
      have hkept : cs.map (fun c => if isNameChar c then c else '_') = cs :=
        (List.map_congr_left fun d hd => if_pos (hcs d hd)).trans (List.map_id' cs)
      rw [sanitizeList, List.cons_append, List.map_cons, List.map_append, hkept,
        if_pos (isNameChar_of_isNameStart hc)]
      dsimp only
      rw [if_neg hdigit, List.cons_append]

theorem sanitize_of_isIdentifier {name : String} (h : isIdentifier name = true) :
    sanitize name = name := by
  have hlist := sanitizeList_append h []
  rw [List.append_nil, List.map_nil, List.append_nil] at hlist
  rw [sanitize, hlist, String.ofList_toList]

/-- **A text is left alone exactly when it is a name.** -/
theorem sanitize_eq_self_iff {name : String} : sanitize name = name ↔ isIdentifier name = true := by
  constructor
  · intro h
    rw [← h]
    exact Source.isIdentifier_sanitize name
  · exact sanitize_of_isIdentifier

theorem sanitize_sanitize (name : String) : sanitize (sanitize name) = sanitize name :=
  sanitize_of_isIdentifier (Source.isIdentifier_sanitize name)

end TypeScript

/-! ## Names that are taken -/

/-- What the one file takes from its modules, and what it always declares. -/
def fixedBindings : List String :=
  ["createApi", "createApiEndpoint", "z", "fetchEndpoints", "mutateEndpoints", "api"]

/-- The words that nothing in a module can be named by. -/
def reservedWords : List String :=
  ["arguments", "await", "break", "case", "catch", "class", "const", "continue", "debugger",
    "default", "delete", "do", "else", "enum", "eval", "export", "extends", "false", "finally",
    "for", "function", "if", "implements", "import", "in", "instanceof", "interface", "let", "new",
    "null", "package", "private", "protected", "public", "return", "static", "super", "switch",
    "this", "throw", "true", "try", "typeof", "var", "void", "while", "with", "yield"]

/-- A component's name is not taken: taken names do not end as it does. -/
theorem schemaIdent_not_taken (name : String) :
    schemaIdent name ∉ fixedBindings ++ reservedWords := by
  have htaken : ∀ word ∈ fixedBindings ++ reservedWords, ¬ "Schema".toList <:+ word.toList := by
    decide
  intro h
  refine htaken _ h ?_
  rw [schemaIdent, String.toList_append]
  exact List.suffix_append _ _

/-! ## Names of endpoints -/

section

open TypeScript

/-- The name of an endpoint starts with its verb. -/
theorem exists_toList_name (path : String) (e : Endpoint) :
    ∃ rest, (e.name path).toList = e.verb.text.toList ++ '_' :: rest := by
  have hfront : ∀ verb : Verb, isNameList (verb.text.toList ++ ['_']) = true := by
    intro verb
    cases verb <;> decide
  have hmade : ∀ more : String, ∃ rest,
      (sanitize (e.verb.text ++ "_" ++ more)).toList = e.verb.text.toList ++ '_' :: rest := by
    intro more
    have hchars : (e.verb.text ++ "_" ++ more).toList =
        (e.verb.text.toList ++ ['_']) ++ more.toList := by
      rw [String.toList_append, String.toList_append]
      rfl
    refine ⟨more.toList.map fun c => if isNameChar c then c else '_', ?_⟩
    rw [sanitize, String.toList_ofList, hchars, sanitizeList_append (hfront e.verb),
      List.append_assoc]
    rfl
  rw [Endpoint.name, nameOf, String.append_assoc]
  exact hmade _

/-- The verb is what stands before the first `_`. -/
theorem takeWhile_name (path : String) (e : Endpoint) :
    (e.name path).toList.takeWhile (· ≠ '_') = e.verb.text.toList := by
  have hverb : ∀ verb : Verb, verb.text.toList.all (· ≠ '_') = true := by
    intro verb
    cases verb <;> rfl
  obtain ⟨rest, hname⟩ := exists_toList_name path e
  rw [hname, List.takeWhile_append_of_pos (List.all_eq_true.1 (hverb e.verb)),
    List.takeWhile_cons_of_neg (by decide), List.append_nil]

/-- **The name of an endpoint tells its verb.** -/
theorem verb_eq_of_name_eq {path path' : String} {e e' : Endpoint}
    (h : e.name path = e'.name path') : e.verb = e'.verb := by
  refine Source.verbText_injective (String.toList_injective ?_)
  rw [← takeWhile_name path e, h, takeWhile_name]

/-- An endpoint's name is not taken: taken names hold no `_`. -/
theorem name_not_taken (path : String) (e : Endpoint) :
    e.name path ∉ fixedBindings ++ reservedWords := by
  have htaken : ∀ word ∈ fixedBindings ++ reservedWords, '_' ∉ word.toList := by decide
  intro h
  refine htaken _ h ?_
  obtain ⟨rest, hname⟩ := exists_toList_name path e
  rw [hname]
  exact List.mem_append_right _ List.mem_cons_self

end

/-- The endpoints of a path that is read have a verb each, and so a name each. -/
theorem nodup_names_of_mem_routes {v : Json} {api : Api} (h : Api.ofJson v = .ok api)
    {route : String × Endpoints} (hroute : route ∈ api.routes) :
    (route.2.map (·.2.name route.1)).Nodup := by
  obtain ⟨doc, rfl⟩ := Api.exists_document h
  obtain ⟨path, item, -, rfl⟩ := exists_of_mem_routes hroute
  have hverb : ∀ e ∈ endpointsOf doc item, e.2.verb = e.1 := by
    rintro ⟨verb, e⟩ he
    obtain ⟨key, v, op, -, -, -, rfl⟩ := exists_of_mem_endpointsOf he
    rfl
  have hkeys : (Ordered.keys (endpointsOf doc item)).Nodup := Ordered.nodup_keys_ofWrites _
  refine List.Nodup.map_on (fun e he e' he' hname => ?_) (List.Nodup.of_map _ hkeys)
  have hsame : e.1 = e'.1 := by
    rw [← hverb e he, ← hverb e' he', verb_eq_of_name_eq hname]
  exact List.inj_on_of_nodup_map hkeys he he' hsame

/-! ## Names of the one file -/

namespace Source

open TypeScript

/-- The names that a statement takes or gives. -/
def Statement.names : Statement → List String
  | taken names _ => names
  | declared _ ident _ => [ident]

/-- The names of the endpoints of a kind. -/
def endpointNames (api : Api) (fetches : Bool) : List String :=
  (entriesOfKind api fetches).map fun e => e.2.name e.1

/-- The one file names what every file has, its components and its endpoints, and nothing else. -/
theorem names_wholeStatements (api : Api) (clientModule : String) :
    ((wholeStatements api clientModule).flatMap Statement.names).Perm
      (fixedBindings ++ (api.known.map schemaIdent ++ endpointNames api true ++
        endpointNames api false)) := by
  have hschemas : (schemaStatements api).flatMap Statement.names = api.known.map schemaIdent := by
    rw [schemaStatements, List.flatMap_map, Api.known, List.map_map]
    exact List.map_eq_flatMap.symm
  have hnamed : ∀ fetches,
      ((entriesOfKind api fetches).map (namedStatement api.known)).flatMap Statement.names =
        endpointNames api fetches := by
    intro fetches
    rw [List.flatMap_map]
    exact List.map_eq_flatMap.symm
  have hnames : (wholeStatements api clientModule).flatMap Statement.names =
      ["createApi", "createApiEndpoint", "z"] ++ (api.known.map schemaIdent ++
        endpointNames api true ++ endpointNames api false ++
          ["fetchEndpoints", "mutateEndpoints", "api"]) := by
    simp only [wholeStatements, List.flatMap_append, hschemas, hnamed, List.append_assoc]
    rfl
  rw [hnames]
  exact List.perm_append_comm.append_left _

/-- No endpoint that fetches shares its name with one that does not. -/
theorem disjoint_endpointNames (api : Api) :
    List.Disjoint (endpointNames api true) (endpointNames api false) := by
  intro name hfetch hmutate
  obtain ⟨e, he, rfl⟩ := List.mem_map.1 hfetch
  obtain ⟨e', he', hname⟩ := List.mem_map.1 hmutate
  have hkind : e.2.verb.isFetch = true := of_decide_eq_true (List.mem_filter.1 he).2
  have hkind' : e'.2.verb.isFetch = false := of_decide_eq_true (List.mem_filter.1 he').2
  rw [← verb_eq_of_name_eq hname, hkind'] at hkind
  cases hkind

/-! ## The theorem -/

/-- **Names are valid and told apart by their roles.**  A text is made into a name, once and for
all, and is left alone when it is one.  Components and endpoints have names that are not taken.
Endpoints of different verbs have different names, whatever their paths: so have the endpoints of a
path that is read, and those that fetch and those that do not.  And the one file names nothing
else. -/
theorem names_apart :
    (∀ name, isIdentifier (sanitize name) = true ∧ sanitize (sanitize name) = sanitize name ∧
      (sanitize name = name ↔ isIdentifier name = true)) ∧
    (∀ name, isIdentifier (schemaIdent name) = true ∧
      schemaIdent name ∉ fixedBindings ++ reservedWords) ∧
    (∀ path (e : Endpoint), isIdentifier (e.name path) = true ∧
      e.name path ∉ fixedBindings ++ reservedWords) ∧
    (∀ path path' (e e' : Endpoint), e.verb ≠ e'.verb → e.name path ≠ e'.name path') ∧
    (∀ v api, Api.ofJson v = .ok api →
      ∀ route ∈ api.routes, (route.2.map (·.2.name route.1)).Nodup) ∧
    ∀ api clientModule, List.Disjoint (endpointNames api true) (endpointNames api false) ∧
      ∃ statements,
        statements? (renderSingleFile api clientModule).contents = some statements ∧
        (statements.flatMap Statement.names).Perm
          (fixedBindings ++ (api.known.map schemaIdent ++ endpointNames api true ++
            endpointNames api false)) := by
  refine ⟨fun name => ⟨isIdentifier_sanitize name, sanitize_sanitize name, sanitize_eq_self_iff⟩,
    fun name => ⟨Validator.isIdentifier_schemaIdent name, schemaIdent_not_taken name⟩,
    fun path e => ⟨isIdentifier_name path e, name_not_taken path e⟩,
    fun path path' e e' hverb hname => hverb (verb_eq_of_name_eq hname),
    fun v api h route hroute => nodup_names_of_mem_routes h hroute,
    fun api clientModule => ⟨disjoint_endpointNames api, _, (wholeWired api clientModule).read,
      names_wholeStatements api clientModule⟩⟩

/-- Nothing keeps a component and an endpoint apart, nor two endpoints of one verb. -/
example :
    schemaIdent "GET_note" = { verb := .get : Endpoint }.name "/noteSchema" ∧
      { verb := .get : Endpoint }.name "/a/b" = { verb := .get : Endpoint }.name "/ab" := by
  decide

/-! ### Two verbs of a path -/

/-- A path that is fetched and posted to. -/
def draftsTree : Json :=
  .object [
    ("openapi", .string "3.0.0"),
    ("info", .object [("title", .string "Drafts"), ("version", .string "1")]),
    ("paths", .object [("/drafts/{id}", .object [
      ("get", .object [("responses", .object [])]),
      ("post", .object [("responses", .object [])])])])]

theorem drafts_names_apart :
    { verb := .get : Endpoint }.name "/drafts/[id]" ≠
      { verb := .post : Endpoint }.name "/drafts/[id]" ∧
    ∃ api, Api.ofJson draftsTree = .ok api ∧
      api.routes.map (fun route => route.2.map (·.2.name route.1)) =
        [["GET_drafts_id", "POST_drafts_id"]] ∧
      ∀ route ∈ api.routes, (route.2.map (·.2.name route.1)).Nodup := by
  obtain ⟨-, -, -, hverbs, hread, -⟩ := names_apart
  obtain ⟨api, hapi⟩ : ∃ api, Api.ofJson draftsTree = .ok api := ⟨_, rfl⟩
  refine ⟨hverbs _ _ _ _ (by decide), api, hapi, ?_, hread draftsTree api hapi⟩
  cases hapi
  decide

end Source

end EndpointBindings
